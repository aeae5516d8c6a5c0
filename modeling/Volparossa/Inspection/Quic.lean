import Volparossa.Inspection.Tls

/-!
# Inspection of QUIC Initial packets

A client Initial packet carries the low bytes of its packet number, and its CRYPTO frames carry
pieces of a ClientHello in any order. `reconstruct_in_window` is about the first: within half the
range of the encoding the number comes back, and no step of the computation leaves `u64`.
`insertion_order` is about the second: what is assembled, or that nothing can be, does not depend on
the order of the pieces.
-/

namespace Volparossa.Inspection

/-! ## Packet numbers -/

def maxPacketNumber : ℕ := 2 ^ 62 - 1

/-- The packet number bytes of a header, as one number on `u64`. -/
def truncatedNumber (encoded : Bytes) : ℕ :=
  encoded.foldl (fun truncated byte => (truncated <<< 8) % 2 ^ 64 ||| byte.toNat) 0

/-- The packet number after the largest one seen. -/
def expectedNumber (largest : Option ℕ) : ℕ :=
  largest.elim 0 fun value => min (value + 1) (2 ^ 64 - 1)

/-- An unchecked sum on `u64`, which is none where it overflows. -/
def plus (a b : ℕ) : Option ℕ := if a + b < 2 ^ 64 then some (a + b) else none

/-- An unchecked difference on `u64`. -/
def minus (a b : ℕ) : Option ℕ := if b ≤ a then some (a - b) else none

/-- The candidate next to the expected number, moved by a window where that is closer. -/
def closestNumber (expected window truncated : ℕ) : Option ℕ := do
  let halfWindow := window / 2
  let mask ← minus window 1
  let candidate := expected &&& (2 ^ 64 - 1 - mask) ||| truncated
  if (plus candidate halfWindow).any (· ≤ expected) ∧ candidate ≤ maxPacketNumber - window then
    plus candidate window
  else if min (expected + halfWindow) (2 ^ 64 - 1) < candidate ∧ window ≤ candidate then
    minus candidate window
  else some candidate

/-- The full packet number; nothing where the arithmetic overflows. -/
def reconstructPacketNumber (truncated encodedLen : ℕ) (largest : Option ℕ) :
    Option (Except InspectionError ℕ) :=
  let bits := encodedLen * 8
  -- The multiplication, the conversion to `u32` and the shift are checked, for one and the same
  -- error.
  if 64 ≤ bits then some (.error (.invalidQuicInitial "packet-number width"))
  else
    (closestNumber (expectedNumber largest) (2 ^ bits) truncated).map fun candidate =>
      if candidate > maxPacketNumber then
        .error (.invalidQuicInitial "packet number exceeds QUIC limit")
      else .ok candidate

/-- The low bytes of a packet number, in the order of the header. -/
def lowBytes (number : ℕ) : ℕ → Bytes
  | 0 => []
  | encodedLen + 1 => lowBytes (number / 256) encodedLen ++ [UInt8.ofNat number]

theorem truncatedNumber_lowBytes (number : ℕ) {encodedLen : ℕ} (h : encodedLen ≤ 8) :
    truncatedNumber (lowBytes number encodedLen) = number % 2 ^ (encodedLen * 8) := by
  induction encodedLen generalizing number with
  | zero => simp [truncatedNumber, lowBytes, Nat.mod_one]
  | succ encodedLen ih =>
    have hlow : (UInt8.ofNat number).toNat < 2 ^ 8 := UInt8.toNat_lt _
    have hpow : 2 ^ ((encodedLen + 1) * 8) = 2 ^ (encodedLen * 8) * 256 := by
      rw [Nat.add_mul, Nat.pow_add]
    have hhigh : number / 256 % 2 ^ (encodedLen * 8) * 256 < 2 ^ 64 := by
      have hlt := Nat.mod_lt (number / 256) (Nat.two_pow_pos (encodedLen * 8))
      have hle : 2 ^ (encodedLen * 8) ≤ 2 ^ 56 := Nat.pow_le_pow_right (by omega) (by omega)
      omega
    have hfold : truncatedNumber (lowBytes number (encodedLen + 1)) =
        (truncatedNumber (lowBytes (number / 256) encodedLen) <<< 8) % 2 ^ 64 |||
          (UInt8.ofNat number).toNat := by
      rw [lowBytes, truncatedNumber, List.foldl_append]
      rfl
    rw [hfold, ih _ (by omega), Nat.shiftLeft_eq, Nat.mod_eq_of_lt hhigh, Nat.mul_comm,
      ← Nat.two_pow_add_eq_or_of_lt hlow, hpow, UInt8.toNat_ofNat']
    rw [Nat.mul_comm _ 256, Nat.mod_mul]
    omega

/-- Clearing the bits of a window and adding others to them. -/
theorem and_mask_or {expected bits truncated : ℕ} (hexpected : expected < 2 ^ 64)
    (hbits : bits ≤ 64) (htruncated : truncated < 2 ^ bits) :
    expected &&& (2 ^ 64 - 1 - (2 ^ bits - 1)) ||| truncated =
      2 ^ bits * (expected / 2 ^ bits) + truncated := by
  have hclear : expected &&& (2 ^ 64 - 1 - (2 ^ bits - 1)) = 2 ^ bits * (expected / 2 ^ bits) := by
    have hle : 2 ^ bits ≤ 2 ^ 64 := Nat.pow_le_pow_right (by omega) hbits
    have hpos := Nat.two_pow_pos bits
    have hmask : 2 ^ 64 - 1 - (2 ^ bits - 1) = 2 ^ 64 - ((2 ^ bits - 1) + 1) := by omega
    refine Nat.eq_of_testBit_eq fun i => ?_
    rw [hmask, Nat.testBit_and, Nat.testBit_two_pow_sub_succ (by omega),
      Nat.testBit_two_pow_sub_one, Nat.testBit_two_pow_mul, Nat.testBit_div_two_pow]
    by_cases hi : i < bits
    · simp [hi, Nat.not_le.mpr hi]
    · rcases Nat.lt_or_ge i 64 with h | h
      · simp [hi, h, Nat.le_of_not_lt hi, Nat.sub_add_cancel (Nat.le_of_not_lt hi)]
      · have hbit : expected.testBit i = false :=
          Nat.testBit_lt_two_pow (hexpected.trans_le (Nat.pow_le_pow_right (by omega) h))
        simp [hbit, Nat.sub_add_cancel (Nat.le_of_not_lt hi)]
  rw [hclear, Nat.two_pow_add_eq_or_of_lt htruncated]

theorem expectedNumber_lt {largest : Option ℕ} : expectedNumber largest < 2 ^ 64 := by
  cases largest <;> simp only [expectedNumber, Option.elim] <;> omega

/-- The sums and the difference stay on `u64`, whatever the header holds. -/
theorem closestNumber_eq {expected bits truncated : ℕ} (hexpected : expected < 2 ^ 64)
    (hbits : bits < 64) (htruncated : truncated < 2 ^ 64) :
    closestNumber expected (2 ^ bits) truncated =
      some (let candidate := expected &&& (2 ^ 64 - 1 - (2 ^ bits - 1)) ||| truncated
        if candidate + 2 ^ bits / 2 ≤ expected ∧ candidate ≤ maxPacketNumber - 2 ^ bits then
          candidate + 2 ^ bits
        else if expected + 2 ^ bits / 2 < candidate ∧ 2 ^ bits ≤ candidate then candidate - 2 ^ bits
        else candidate) := by
  have hpos : 1 ≤ 2 ^ bits := Nat.one_le_two_pow
  have hle : 2 ^ bits ≤ 2 ^ 63 := Nat.pow_le_pow_right (by omega) (by omega)
  have hcandidate : expected &&& (2 ^ 64 - 1 - (2 ^ bits - 1)) ||| truncated < 2 ^ 64 :=
    Nat.or_lt_two_pow (Nat.and_lt_two_pow _ (by omega)) htruncated
  have hmax : maxPacketNumber = 2 ^ 62 - 1 := rfl
  rw [closestNumber, show minus (2 ^ bits) 1 = some (2 ^ bits - 1) from if_pos hpos,
    Option.bind_eq_bind, Option.bind_some]
  generalize expected &&& (2 ^ 64 - 1 - (2 ^ bits - 1)) ||| truncated = candidate at *
  have hany : (plus candidate (2 ^ bits / 2)).any (· ≤ expected) ↔
      candidate + 2 ^ bits / 2 ≤ expected := by
    rw [plus]
    split
    · simp
    · simp only [Option.any_none, Bool.false_eq_true, false_iff]
      omega
  have hmin : min (expected + 2 ^ bits / 2) (2 ^ 64 - 1) < candidate ↔
      expected + 2 ^ bits / 2 < candidate := by
    omega
  simp only [hany, hmin]
  split_ifs
  · exact if_pos (by omega)
  · exact if_pos (by omega)
  · rfl

/-- **Packet numbers are reconstructed.** A packet number within half the range of its encoding
around the expected one comes back from its low bytes, whatever the largest one is; and on no input
does the arithmetic overflow. -/
theorem reconstruct_in_window :
    (∀ (largest : Option ℕ) (encodedLen number : ℕ), 1 ≤ encodedLen → encodedLen ≤ 4 →
      number ≤ maxPacketNumber →
      expectedNumber largest < number + 2 ^ (encodedLen * 8) / 2 →
      number ≤ expectedNumber largest + 2 ^ (encodedLen * 8) / 2 →
      reconstructPacketNumber (truncatedNumber (lowBytes number encodedLen)) encodedLen largest =
        some (.ok number)) ∧
    (∀ (truncated encodedLen : ℕ) (largest : Option ℕ), truncated < 2 ^ 64 →
      reconstructPacketNumber truncated encodedLen largest ≠ none) := by
  refine ⟨fun largest encodedLen number hpos hle hnumber hlow hhigh => ?_,
    fun truncated encodedLen largest htruncated => ?_⟩
  · have hexpected : expectedNumber largest < 2 ^ 64 := expectedNumber_lt
    have htruncated := Nat.mod_lt number (Nat.two_pow_pos (encodedLen * 8))
    have hwindow : 2 ^ (encodedLen * 8) ≤ 2 ^ 32 := Nat.pow_le_pow_right (by omega) (by omega)
    have hclosest : closestNumber (expectedNumber largest) (2 ^ (encodedLen * 8))
        (number % 2 ^ (encodedLen * 8)) = some number := by
      rw [closestNumber_eq hexpected (by omega) (by omega),
        and_mask_or hexpected (by omega) htruncated, Option.some_inj]
      rw [maxPacketNumber] at *
      obtain rfl | rfl | rfl | rfl : encodedLen = 1 ∨ encodedLen = 2 ∨ encodedLen = 3 ∨
        encodedLen = 4 := by omega
      all_goals
        dsimp only
        split_ifs <;> omega
    rw [truncatedNumber_lowBytes number (by omega), reconstructPacketNumber, if_neg (by omega),
      hclosest, Option.map_some, if_neg (by omega)]
  · simp only [reconstructPacketNumber]
    split
    · exact Option.some_ne_none _
    · rw [closestNumber_eq expectedNumber_lt (by omega) htruncated]
      exact Option.some_ne_none _

theorem reconstruct_in_window_first :
    reconstructPacketNumber (truncatedNumber (lowBytes 300 1)) 1 (some 250) = some (.ok 300) :=
  reconstruct_in_window.1 (some 250) 1 300 (by decide) (by decide) (by decide) (by decide)
    (by decide)

/-! ## CRYPTO fragments -/

def maxCryptoFragments : ℕ := 128

/-- The data of a CRYPTO frame. -/
structure CryptoFragment where
  offset : ℕ
  data : Bytes
  deriving DecidableEq

/-- The byte that a fragment has at a position of the stream. -/
def CryptoFragment.at (fragment : CryptoFragment) (position : ℕ) : Option UInt8 :=
  if position < fragment.offset then none else fragment.data[position - fragment.offset]?

/-- The bytes that have arrived, and at which positions. -/
structure CryptoReassembler where
  bytes : Bytes
  present : List Bool
  contiguous : ℕ
  fragments : ℕ
  deriving DecidableEq

namespace CryptoReassembler

def default : CryptoReassembler := ⟨[], [], 0, 0⟩

/-- Place a byte, unless another one has arrived at its position. -/
def placeByte (self : CryptoReassembler) (position : ℕ) (byte : UInt8) : Option CryptoReassembler :=
  if self.present.getD position false then
    if self.bytes.getD position 0 ≠ byte then none else some self
  else
    some { self with
      bytes := self.bytes.set position byte
      present := self.present.set position true }

/-- Place the bytes of a fragment, up to the first that differs from what has arrived. -/
def place (self : CryptoReassembler) : ℕ → Bytes → Except InspectionError Unit × CryptoReassembler
  | _, [] => (.ok (), self)
  | position, byte :: data =>
    match self.placeByte position byte with
    | none => (.error .conflictingCryptoData, self)
    | some self => self.place (position + 1) data

/-- The end of what has arrived without a gap. -/
def advance (present : List Bool) (contiguous : ℕ) : ℕ :=
  if h : present[contiguous]? = some true then advance present (contiguous + 1) else contiguous
termination_by present.length - contiguous
decreasing_by
  obtain ⟨hlt, -⟩ := List.getElem?_eq_some_iff.mp h
  omega

/-- `Vec::resize`. -/
def resize {α : Type} (vector : List α) (length : ℕ) (fill : α) : List α :=
  vector.take length ++ List.replicate (length - vector.length) fill

/-- Make room up to a length. -/
def grow (self : CryptoReassembler) (length : ℕ) : CryptoReassembler :=
  if self.bytes.length < length then
    { self with bytes := resize self.bytes length 0, present := resize self.present length false }
  else self

/-- Add the data of one CRYPTO frame. -/
def insert (self : CryptoReassembler) (fragment : CryptoFragment) :
    Except InspectionError Unit × CryptoReassembler :=
  let self := { self with fragments := self.fragments + 1 }
  let last := fragment.offset + fragment.data.length
  if self.fragments > maxCryptoFragments then
    (.error (.resourceLimit "QUIC CRYPTO fragment count"), self)
  else if last > maxClientHelloBytes then (.error (.resourceLimit "QUIC CRYPTO bytes"), self)
  else
    match (self.grow last).place fragment.offset fragment.data with
    | (.error e, self) => (.error e, self)
    | (.ok (), self) => (.ok (), { self with contiguous := advance self.present self.contiguous })

/-- Add the data of frames, up to the first that is refused. -/
def insertAll (self : CryptoReassembler) :
    List CryptoFragment → Except InspectionError Unit × CryptoReassembler
  | [] => (.ok (), self)
  | fragment :: fragments =>
    match self.insert fragment with
    | (.error e, self) => (.error e, self)
    | (.ok (), self) => self.insertAll fragments

/-- What has arrived without a gap. -/
def assembled (self : CryptoReassembler) : Bytes := self.bytes.take self.contiguous

/-- The byte that has arrived at a position. -/
def arrived (self : CryptoReassembler) (position : ℕ) : Option UInt8 :=
  if self.present[position]? = some true then self.bytes[position]? else none

/-- What is known after fragments, in whatever order they came. -/
structure Holds (state : CryptoReassembler) (fragments : List CryptoFragment) : Prop where
  length_eq : state.bytes.length = state.present.length
  count : state.fragments = fragments.length
  arrived_iff (p : ℕ) (b : UInt8) : state.arrived p = some b ↔ ∃ f ∈ fragments, f.at p = some b
  before (p : ℕ) (h : p < state.contiguous) : state.arrived p ≠ none
  gap : state.arrived state.contiguous = none

end CryptoReassembler

/-- No two fragments have different bytes at one position. -/
def Agree (fragments : List CryptoFragment) : Prop :=
  ∀ f ∈ fragments, ∀ g ∈ fragments, ∀ p a b, f.at p = some a → g.at p = some b → a = b

/-- The longest run from the start that fragments cover, each byte as every fragment has it that
covers it. -/
def Assembles (fragments : List CryptoFragment) (bytes : Bytes) : Prop :=
  (∀ p < bytes.length, (∃ f ∈ fragments, f.at p ≠ none) ∧
    ∀ f ∈ fragments, ∀ b, f.at p = some b → bytes[p]? = some b) ∧
  ∀ f ∈ fragments, f.at bytes.length = none

namespace CryptoReassembler

theorem at_cons (position : ℕ) (byte : UInt8) (data : Bytes) (p : ℕ) :
    (CryptoFragment.mk position (byte :: data)).at p =
      if p = position then some byte else (CryptoFragment.mk (position + 1) data).at p := by
  simp only [CryptoFragment.at]
  rcases lt_trichotomy p position with h | rfl | h
  · rw [if_pos h, if_neg (by omega), if_pos (by omega)]
  · simp
  · obtain ⟨k, rfl⟩ : ∃ k, p = position + 1 + k := ⟨p - (position + 1), by omega⟩
    rw [if_neg (by omega), if_neg (by omega), if_neg (by omega), Nat.add_sub_cancel_left,
      Nat.add_assoc, Nat.add_sub_cancel_left, Nat.add_comm 1, List.getElem?_cons_succ]

variable {self : CryptoReassembler} {position : ℕ} {data : Bytes}

section

variable (hlength : self.bytes.length = self.present.length)

include hlength

/-- A byte is refused where another one has arrived, and is there afterwards otherwise. -/
theorem placeByte_spec (hposition : position < self.bytes.length) (byte : UInt8) :
    (self.placeByte position byte = none ∧ ∃ c, self.arrived position = some c ∧ byte ≠ c) ∨
    (∃ bytes present, self.placeByte position byte = some { self with bytes, present } ∧
      bytes.length = self.bytes.length ∧ present.length = self.present.length ∧
      (∀ c, self.arrived position = some c → c = byte) ∧
      ∀ p, arrived { self with bytes, present } p =
        if p = position then some byte else self.arrived p) := by
  have hpresent := List.getElem?_eq_getElem (hlength ▸ hposition)
  have hbytes := List.getElem?_eq_getElem hposition
  simp only [placeByte, List.getD_eq_getElem?_getD, hpresent, hbytes, Option.getD_some]
  by_cases hthere : self.present[position]
  · have harrived : self.arrived position = some self.bytes[position] := by
      rw [arrived, hpresent, hthere, if_pos rfl, hbytes]
    rw [if_pos hthere]
    by_cases hbyte : self.bytes[position] = byte
    · rw [hbyte] at harrived
      refine .inr ⟨_, _, if_neg (not_not.mpr hbyte), rfl, rfl, fun c hc => ?_, fun p => ?_⟩
      · exact (Option.some_inj.mp (harrived.symm.trans hc)).symm
      · split_ifs with hp
        · rw [hp, harrived]
        · rfl
    · exact .inl ⟨if_pos hbyte, _, harrived, Ne.symm hbyte⟩
  · have harrived : self.arrived position = none := if_neg fun h => by simp_all
    rw [if_neg hthere]
    refine .inr ⟨_, _, rfl, List.length_set, List.length_set, fun c hc => by simp_all, fun p => ?_⟩
    simp only [arrived]
    split_ifs with hp <;> grind

/-- The loop over the bytes of a fragment either adds them all, or stops at one that differs from
what has arrived. -/
theorem place_spec (hfit : position + data.length ≤ self.bytes.length) :
    (∃ bytes present, self.place position data = (.ok (), { self with bytes, present }) ∧
      bytes.length = present.length ∧
      ∀ p b, arrived { self with bytes, present } p = some b ↔
        self.arrived p = some b ∨ (CryptoFragment.mk position data).at p = some b) ∨
    (∃ next, self.place position data = (.error .conflictingCryptoData, next) ∧
      ∃ p b c, (CryptoFragment.mk position data).at p = some b ∧ self.arrived p = some c ∧
        b ≠ c) := by
  induction data generalizing self position with
  | nil => exact .inl ⟨_, _, rfl, hlength, fun p b => by simp [CryptoFragment.at]⟩
  | cons byte data ih =>
    rw [List.length_cons] at hfit
    have hnone : (CryptoFragment.mk (position + 1) data).at position = none :=
      if_pos (Nat.lt_succ_self position)
    simp only [place, at_cons]
    obtain ⟨hplaced, c, hc, hne⟩ | ⟨bytes, present, hplaced, hbytes, hpresent, hsame, harrived⟩ :=
      placeByte_spec hlength (show position < _ by omega) byte
    · rw [hplaced]
      exact .inr ⟨self, rfl, position, byte, c, if_pos rfl, hc, hne⟩
    · rw [hplaced]
      refine (@ih { self with bytes, present } (position + 1) (hbytes.trans (hlength.trans
        hpresent.symm)) (by dsimp only; omega)).imp ?_ ?_
      · rintro ⟨bytes', present', hplace, hlength', hiff⟩
        refine ⟨bytes', present', hplace, hlength', fun p b => (hiff p b).trans ?_⟩
        rw [harrived]
        split_ifs with hp
        · subst hp
          rw [hnone]
          exact ⟨fun h => .inr (h.resolve_right nofun), fun h => .inl (h.elim (fun h =>
            congrArg some (hsame b h).symm) id)⟩
        · rfl
      · rintro ⟨next, herror, p, b, c, hb, hc, hne⟩
        have hp : p ≠ position := fun hp => by simp [hp, hnone] at hb
        rw [harrived, if_neg hp] at hc
        exact ⟨next, herror, p, b, c, by rwa [if_neg hp], hc, hne⟩

/-- Room is empty. -/
theorem grow_spec (length : ℕ) : ∃ bytes present, self.grow length = { self with bytes, present } ∧
      bytes.length = present.length ∧ length ≤ bytes.length ∧
      ∀ p, arrived { self with bytes, present } p = self.arrived p := by
  rw [grow]
  split_ifs with h
  · refine ⟨_, _, rfl, ?_, ?_, fun p => ?_⟩
    · simp only [resize, List.length_append, List.length_take, List.length_replicate]
      omega
    · simp only [resize, List.length_append, List.length_take, List.length_replicate]
      omega
    · simp only [arrived, resize, List.take_of_length_le h.le,
        List.take_of_length_le (hlength ▸ h.le), List.getElem?_append, List.getElem?_replicate]
      grind
  · exact ⟨_, _, rfl, hlength, by omega, fun _ => rfl⟩

end

theorem advance_spec (present : List Bool) (contiguous : ℕ) :
    (∀ p, contiguous ≤ p → p < advance present contiguous → present[p]? = some true) ∧
      present[advance present contiguous]? ≠ some true := by
  fun_induction advance present contiguous with
  | case1 contiguous h ih =>
    refine ⟨fun p hle hlt => ?_, ih.2⟩
    rcases hle.eq_or_lt with rfl | hlt'
    · exact h
    · exact ih.1 p hlt' hlt
  | case2 contiguous h => exact ⟨fun p hle hlt => by omega, h⟩

theorem arrived_ne_none (hlength : self.bytes.length = self.present.length)
    (h : self.present[position]? = some true) : self.arrived position ≠ none := by
  obtain ⟨hposition, -⟩ := List.getElem?_eq_some_iff.mp h
  rw [arrived, if_pos h, List.getElem?_eq_getElem (hlength ▸ hposition)]
  exact Option.some_ne_none _

variable {fragments : List CryptoFragment} {fragment : CryptoFragment}

section

variable (h : self.Holds fragments)

include h

theorem Holds.agree : Agree fragments := by
  intro f hf g hg p a b ha hb
  have hfirst := (h.arrived_iff p a).mpr ⟨f, hf, ha⟩
  have hsecond := (h.arrived_iff p b).mpr ⟨g, hg, hb⟩
  exact Option.some_inj.mp (hfirst.symm.trans hsecond)

/-- One fragment is added, unless it differs from one that was added before. -/
theorem insert_spec (hcount : fragments.length < maxCryptoFragments)
    (hend : fragment.offset + fragment.data.length ≤ maxClientHelloBytes) :
    (∃ next, self.insert fragment = (.ok (), next) ∧ next.Holds (fragments ++ [fragment])) ∨
    (∃ next, self.insert fragment = (.error .conflictingCryptoData, next) ∧
      ¬Agree (fragments ++ [fragment])) := by
  obtain ⟨bytes, present, hroom, hlength, hfit, hgrow⟩ :=
    @grow_spec { self with fragments := self.fragments + 1 } h.length_eq
      (fragment.offset + fragment.data.length)
  simp only [insert, if_neg (show ¬self.fragments + 1 > maxCryptoFragments by rw [h.count]; omega),
    if_neg (Nat.not_lt.mpr hend), hroom]
  obtain ⟨bytes', present', hplace, hlength', hiff⟩ | ⟨next, hplace, p, b, c, hb, hc, hne⟩ :=
    @place_spec ⟨bytes, present, self.contiguous, self.fragments + 1⟩ _ _ hlength hfit
  · have harrived (p : ℕ) (b : UInt8) :
        arrived { self with bytes := bytes', present := present' } p =
        some b ↔ self.arrived p = some b ∨ fragment.at p = some b :=
      (hiff p b).trans (by rw [hgrow]; rfl)
    obtain ⟨hthrough, hstop⟩ := advance_spec present' self.contiguous
    rw [hplace]
    refine .inl ⟨_, rfl, hlength', ?_, fun p b => ?_, fun p hp => ?_, if_neg hstop⟩
    · rw [List.length_append, List.length_singleton, ← h.count]
    · simp only [List.mem_append, List.mem_singleton, or_and_right, exists_or, exists_eq_left,
        ← h.arrived_iff]
      exact harrived p b
    · rcases Nat.lt_or_ge p self.contiguous with hlt | hge
      · obtain ⟨b, hb⟩ := Option.ne_none_iff_exists'.mp (h.before p hlt)
        exact Option.ne_none_iff_exists'.mpr ⟨b, (harrived p b).mpr (.inl hb)⟩
      · exact arrived_ne_none hlength' (hthrough p hge hp)
  · obtain ⟨g, hg, hgc⟩ := (h.arrived_iff p c).mp ((hgrow p).symm.trans hc)
    rw [hplace]
    exact .inr ⟨next, rfl, fun hagree =>
      hne (hagree fragment (by simp) g (by simp [hg]) p b c hb hgc)⟩

/-- Fragments are added one after the other, unless two of them disagree. -/
theorem insertAll_spec {rest : List CryptoFragment}
    (hcount : (fragments ++ rest).length ≤ maxCryptoFragments)
    (hend : ∀ f ∈ rest, f.offset + f.data.length ≤ maxClientHelloBytes) :
    (∃ next, self.insertAll rest = (.ok (), next) ∧ next.Holds (fragments ++ rest)) ∨
    ((self.insertAll rest).1 = .error .conflictingCryptoData ∧ ¬Agree (fragments ++ rest)) := by
  induction rest generalizing self fragments with
  | nil => exact .inl ⟨self, rfl, by rwa [List.append_nil]⟩
  | cons fragment rest ih =>
    rw [List.forall_mem_cons] at hend
    rw [List.append_cons] at hcount ⊢
    rw [insertAll]
    obtain ⟨next, hinsert, hnext⟩ | ⟨next, hinsert, hagree⟩ := insert_spec h
      (by simp only [List.length_append, List.length_singleton] at hcount; omega) hend.1
    · rw [hinsert]
      exact ih hnext hcount hend.2
    · rw [hinsert]
      exact .inr ⟨rfl, fun h => hagree fun f hf g hg =>
        h f (List.mem_append_left _ hf) g (List.mem_append_left _ hg)⟩

theorem Holds.assembles : Assembles fragments self.assembled := by
  have hle : self.contiguous ≤ self.bytes.length := by
    by_contra hlt
    refine h.before _ (Nat.lt_of_not_le hlt) ?_
    rw [arrived, List.getElem?_eq_none le_rfl, ite_self]
  have hlength : self.assembled.length = self.contiguous := by
    rw [assembled, List.length_take, Nat.min_eq_left hle]
  refine ⟨fun p hp => ⟨?_, fun f hf b hb => ?_⟩, fun f hf => ?_⟩
  · obtain ⟨b, hb⟩ := Option.ne_none_iff_exists'.mp (h.before p (hlength ▸ hp))
    obtain ⟨f, hf, hfb⟩ := (h.arrived_iff p b).mp hb
    exact ⟨f, hf, by simp [hfb]⟩
  · have harrived := (h.arrived_iff p b).mpr ⟨f, hf, hb⟩
    rw [arrived] at harrived
    split_ifs at harrived
    rwa [assembled, List.getElem?_take_of_lt (hlength ▸ hp)]
  · rw [hlength]
    by_contra hne
    obtain ⟨b, hb⟩ := Option.ne_none_iff_exists'.mp hne
    exact absurd ((h.arrived_iff _ b).mpr ⟨f, hf, hb⟩) (by simp [h.gap])

end

theorem holds_default : default.Holds [] :=
  ⟨rfl, rfl, fun p b => by simp [arrived, default], fun p hp => absurd hp (Nat.not_lt_zero p), rfl⟩

end CryptoReassembler

section

variable {fragments : List CryptoFragment} {x y : Bytes} (hx : Assembles fragments x)
  (hy : Assembles fragments y)

include hx hy

/-- Bytes that fragments assemble are as long as any others are. -/
theorem Assembles.length_le : x.length ≤ y.length := by
  by_contra hlt
  obtain ⟨f, hf, hne⟩ := (hx.1 y.length (Nat.lt_of_not_le hlt)).1
  exact hne (hy.2 f hf)

theorem Assembles.unique : x = y := by
  have hlength : x.length = y.length := (hx.length_le hy).antisymm (hy.length_le hx)
  refine List.ext_getElem? fun p => ?_
  rcases Nat.lt_or_ge p x.length with hp | hp
  · obtain ⟨f, hf, hne⟩ := (hx.1 p hp).1
    obtain ⟨b, hb⟩ := Option.ne_none_iff_exists'.mp hne
    rw [(hx.1 p hp).2 f hf b hb, (hy.1 p (hlength ▸ hp)).2 f hf b hb]
  · rw [List.getElem?_eq_none hp, List.getElem?_eq_none (hlength ▸ hp)]

end

open CryptoReassembler in
/-- **The order of CRYPTO fragments does not matter.** Either two of them disagree, and every order
is refused; or every order is accepted, and assembles the same bytes: the longest run from the start
that the fragments cover, each byte as every fragment has it that covers it. -/
theorem insertion_order (fragments : List CryptoFragment)
    (hcount : fragments.length ≤ maxCryptoFragments)
    (hend : ∀ f ∈ fragments, f.offset + f.data.length ≤ maxClientHelloBytes) :
    (¬Agree fragments ∧ ∀ order, order.Perm fragments →
      (default.insertAll order).1 = .error .conflictingCryptoData) ∨
    (Agree fragments ∧ ∃ covered, Assembles fragments covered ∧ ∀ order, order.Perm fragments →
      ∃ state, default.insertAll order = (.ok (), state) ∧ state.assembled = covered) := by
  have hrun (order : List CryptoFragment) (horder : order.Perm fragments) :=
    @insertAll_spec _ _ holds_default order (horder.length_eq ▸ hcount)
      fun f hf => hend f (horder.mem_iff.mp hf)
  have hagree {order : List CryptoFragment} (horder : order.Perm fragments) :
      Agree order ↔ Agree fragments := by
    simp only [Agree, horder.mem_iff]
  by_cases h : Agree fragments
  · have hstate (order : List CryptoFragment) (horder : order.Perm fragments) :
        ∃ state, default.insertAll order = (.ok (), state) ∧
          Assembles fragments state.assembled := by
      obtain ⟨state, hinsert, hholds⟩ | ⟨-, hnot⟩ := hrun order horder
      · have hassembles := hholds.assembles
        simp only [Assembles, List.nil_append, horder.mem_iff] at hassembles
        exact ⟨state, hinsert, hassembles⟩
      · exact absurd ((hagree horder).mpr h) hnot
    obtain ⟨first, -, hfirst⟩ := hstate fragments (.refl _)
    refine .inr ⟨h, first.assembled, hfirst, fun order horder => ?_⟩
    obtain ⟨state, hinsert, hassembles⟩ := hstate order horder
    exact ⟨state, hinsert, hassembles.unique hfirst⟩
  · refine .inl ⟨h, fun order horder => ?_⟩
    obtain ⟨state, -, hholds⟩ | ⟨herror, -⟩ := hrun order horder
    · exact absurd ((hagree horder).mp hholds.agree) h
    · exact herror

/-- Two fragments that overlap, the later one first, and one behind a gap. -/
def overlapping : List CryptoFragment := [⟨2, [3, 4]⟩, ⟨0, [1, 2, 3]⟩, ⟨5, [6]⟩]

open CryptoReassembler in
/-- Every order of the three assembles what is before the gap. -/
theorem insertion_order_overlapping :
    Assembles overlapping [1, 2, 3, 4] ∧ ∀ order, order.Perm overlapping →
      ∃ state, default.insertAll order = (.ok (), state) ∧ state.assembled = [1, 2, 3, 4] := by
  have hinsert : (default.insertAll overlapping).1 = .ok () ∧
      (default.insertAll overlapping).2.assembled = [1, 2, 3, 4] := by decide +kernel
  obtain ⟨-, herror⟩ | ⟨-, covered, hcovered, horder⟩ :=
    insertion_order overlapping (by decide) (by decide)
  · rw [herror overlapping (.refl _)] at hinsert
    cases hinsert.1
  · obtain ⟨state, heq, hstate⟩ := horder overlapping (.refl _)
    rw [heq, hstate] at hinsert
    obtain rfl := hinsert.2
    exact ⟨hcovered, horder⟩

end Volparossa.Inspection
