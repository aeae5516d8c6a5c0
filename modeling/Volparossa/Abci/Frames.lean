import Volparossa.Abci.Application
import Volparossa.Foundations.Procedure

/-!
# Frames

Requests and responses are carried on a socket in frames: the length of the payload as a varint of
at most three bytes, and then the payload. The loops of `read_frame` and `write_frame` are modelled
with their shifts and masks; a reader also records the size of every buffer it allocates.

`Spells n p` says which bytes spell a length. What `write_frame` pushes spells the length
(`pushLength_spells`), and `read_frame` reads every spelling of at most three bytes
(`readFrame_of_spells`), also one that is padded with zero digits. Every other stream is empty, or
its prefix does not end within three bytes, or the stream ends within the prefix
(`exists_spells_or`). `frame_codec` puts these together.
-/

namespace Volparossa.Abci

/-! ## Reading -/

/-- The stream that is still to be read, and the sizes of the buffers allocated so far. -/
structure Reader where
  stream : Bytes
  allocated : List ℕ
  deriving DecidableEq

/-- `read_u8`: the end of the stream is an error. -/
def readU8 : Procedure Reader Error UInt8 := fun r =>
  match r.stream with
  | [] => (.error .io, r)
  | b :: rest => (.ok b, { r with stream := rest })

/-- The check of a length, a buffer of this size, and `read_exact` into it. A stream that is too
short is read to its end. -/
def readPayload (length : ℕ) : Procedure Reader Error Bytes := fun r =>
  if length = 0 ∨ length > maxFrameBytes then (.error .protocol, r)
  else if r.stream.length < length then (.error .io, ⟨[], r.allocated ++ [length]⟩)
  else (.ok (r.stream.take length), ⟨r.stream.drop length, r.allocated ++ [length]⟩)

/-- The rounds of the loop over the prefix from `index` on, at the byte `byte`. -/
def readPrefix (byte : UInt8) (length index : ℕ) : ℕ → Procedure Reader Error Bytes
  | 0 => .fail .protocol
  | rounds + 1 => do
    let length := length ||| (byte.toNat &&& 0x7f) <<< (index * 7)
    if byte.toNat &&& 0x80 = 0 then readPayload length
    else if index < 2 then do
      let byte ← readU8
      readPrefix byte length (index + 1) rounds
    else readPrefix byte length (index + 1) rounds

/-- **Read one frame**; none at the end of the stream. -/
def readFrame : Procedure Reader Error (Option Bytes) := fun r =>
  match r.stream with
  | [] => (.ok none, r)
  | b :: rest =>
    (do let payload ← readPrefix b 0 0 3; pure (some payload)) { r with stream := rest }

/-! ## Writing -/

/-- The loop that pushes a length, and the last push. -/
def pushLength (length : ℕ) (frame : Bytes) : Bytes :=
  if 128 ≤ length then
    pushLength (length >>> 7) (frame ++ [((length &&& 0x7f) ||| 0x80).toUInt8])
  else frame ++ [length.toUInt8]
termination_by length
decreasing_by
  rw [Nat.shiftRight_eq_div_pow]
  omega

/-- **Write one frame** after the bytes written so far. -/
def writeFrame (payload : Bytes) : Procedure Bytes Error Unit := do
  .refuse (payload = [] ∨ payload.length > maxFrameBytes) .protocol
  .update (· ++ (pushLength payload.length [] ++ payload))

/-! ## Lengths and their spellings -/

/-- The bytes that spell a length: seven bits each, the lowest first, with the high bit set in every
byte but the last. -/
inductive Spells : ℕ → Bytes → Prop
  | last {b : UInt8} (h : b.toNat < 128) : Spells b.toNat [b]
  | more {b : UInt8} {n : ℕ} {p : Bytes} (h : 128 ≤ b.toNat) (hp : Spells n p) :
      Spells (b.toNat - 128 + 128 * n) (b :: p)

/-- The digit of a byte. -/
theorem and_mask (n : ℕ) : n &&& 0x7f = n % 128 := Nat.and_two_pow_sub_one_eq_mod n 7

/-- The high bit of a byte. -/
theorem and_high {b : UInt8} : b.toNat &&& 0x80 = 0 ↔ b.toNat < 128 := by
  have hlt := b.toNat_lt
  rw [show 0x80 = 2 ^ 7 from rfl, Nat.and_two_pow, Nat.testBit_eq_decide_div_mod_eq]
  by_cases h : b.toNat < 128
  · simp [h, Nat.div_eq_of_lt h]
  · simp [h]
    omega

theorem not_and_high {b : UInt8} (h : 128 ≤ b.toNat) : ¬b.toNat &&& 0x80 = 0 :=
  fun h0 => absurd (and_high.mp h0) (by omega)

/-- A digit above the digits before it. -/
theorem or_shift {length digit index : ℕ} (h : length < 128 ^ index) :
    length ||| digit <<< (index * 7) = length + 128 ^ index * digit := by
  have hpow : (128 : ℕ) ^ index = 2 ^ (index * 7) := by
    rw [Nat.mul_comm, Nat.pow_mul]
  rw [Nat.shiftLeft_eq, Nat.or_comm, Nat.mul_comm digit,
    ← Nat.two_pow_add_eq_or_of_lt (hpow ▸ h), hpow, Nat.add_comm]

/-- A digit with the high bit. -/
theorem toNat_or_high {n : ℕ} (h : n < 128) : (n ||| 0x80).toUInt8.toNat = n + 128 := by
  have hor := Nat.two_pow_add_eq_or_of_lt (i := 7) h 1
  rw [Nat.or_comm, ← hor]
  simp
  omega

theorem spells_ne_nil {n : ℕ} {p : Bytes} (h : Spells n p) : p ≠ [] := by
  cases h <;> simp

theorem Spells.of_lt {n : ℕ} (h : n < 128) : Spells n [n.toUInt8] := by
  have hlast := Spells.last (b := n.toUInt8) (by simpa using by omega)
  rwa [Protobuf.toNat_toUInt8 (by omega)] at hlast

/-- **What is pushed spells the length**, in as many bytes as it has digits. -/
theorem pushLength_spells (n : ℕ) (frame : Bytes) (k : ℕ) (h : n < 128 ^ (k + 1)) :
    ∃ p, pushLength n frame = frame ++ p ∧ Spells n p ∧ p.length ≤ k + 1 := by
  fun_induction pushLength n frame generalizing k with
  | case1 n frame hn ih =>
    cases k with
    | zero => omega
    | succ k =>
      have hdiv : n >>> 7 < 128 ^ (k + 1) := by
        rw [Nat.shiftRight_eq_div_pow, Nat.div_lt_iff_lt_mul (by decide)]
        calc n < 128 ^ (k + 1 + 1) := h
          _ = 128 ^ (k + 1) * 2 ^ 7 := by ring
      obtain ⟨p, hp, hspells, hlen⟩ := ih k hdiv
      have hbyte : ((n &&& 0x7f) ||| 0x80).toUInt8.toNat = n % 128 + 128 := by
        rw [and_mask, toNat_or_high (Nat.mod_lt _ (by decide))]
      have hmore := hspells.more (b := ((n &&& 0x7f) ||| 0x80).toUInt8) (by omega)
      rw [hbyte, Nat.add_sub_cancel, Nat.shiftRight_eq_div_pow, Nat.mod_add_div] at hmore
      exact ⟨_ :: p, by rw [hp, List.append_assoc]; rfl, hmore, by simpa using hlen⟩
  | case2 n frame hn => exact ⟨_, rfl, .of_lt (by omega), by simp⟩

/-! ## What is read -/

/-- The rest of a prefix is read digit by digit; `length` is what the digits before it spell. -/
theorem readPrefix_of_spells {n : ℕ} {p : Bytes} (h : Spells n p) {byte : UInt8} {rest tail : Bytes}
    (hp : p ++ rest = byte :: tail) {length index rounds : ℕ} (hlength : length < 128 ^ index)
    (hrounds : index + rounds = 3) (hle : p.length ≤ rounds) (allocated : List ℕ) :
    readPrefix byte length index rounds ⟨tail, allocated⟩ =
      readPayload (length + 128 ^ index * n) ⟨rest, allocated⟩ := by
  induction h generalizing byte tail length index rounds with
  | last hb =>
    obtain ⟨rfl, rfl⟩ := List.cons.inj hp
    cases rounds with
    | zero => simp at hle
    | succ rounds =>
      rw [readPrefix, if_pos (and_high.mpr hb), and_mask, Nat.mod_eq_of_lt hb, or_shift hlength]
      rfl
  | @more b n p hb hspells ih =>
    obtain ⟨rfl, rfl⟩ := List.cons.inj hp
    cases rounds with
    | zero => simp at hle
    | succ rounds =>
      have hlt := b.toNat_lt
      have hdigit : b.toNat % 128 = b.toNat - 128 := by omega
      rw [List.length_cons] at hle
      obtain ⟨c, q, rfl⟩ := List.exists_cons_of_ne_nil (spells_ne_nil hspells)
      rw [List.length_cons] at hle
      rw [readPrefix, if_neg (not_and_high hb), if_pos (by omega), and_mask, or_shift hlength,
        hdigit]
      have hnext : length + 128 ^ index * (b.toNat - 128) < 128 ^ (index + 1) := by
        have hmul := Nat.mul_le_mul_left (128 ^ index) (show b.toNat - 128 ≤ 127 by omega)
        rw [Nat.pow_succ]
        omega
      have hrest := ih (rfl : c :: q ++ rest = c :: (q ++ rest)) hnext
        (show index + 1 + rounds = 3 by omega) (by rw [List.length_cons]; omega)
      have hsum : length + 128 ^ index * (b.toNat - 128) + 128 ^ (index + 1) * n =
          length + 128 ^ index * (b.toNat - 128 + 128 * n) := by
        ring
      rw [hsum] at hrest
      exact hrest

/-- **A spelling of at most three bytes is read as the length it spells.** -/
theorem readFrame_of_spells {n : ℕ} {p : Bytes} (h : Spells n p) (hle : p.length ≤ 3)
    (rest : Bytes) (allocated : List ℕ) : readFrame ⟨p ++ rest, allocated⟩ =
    (if n = 0 ∨ n > maxFrameBytes then (.error .protocol, ⟨rest, allocated⟩)
    else if rest.length < n then (.error .io, ⟨[], allocated ++ [n]⟩)
    else (.ok (some (rest.take n)), ⟨rest.drop n, allocated ++ [n]⟩)) := by
  obtain ⟨b, q, rfl⟩ := List.exists_cons_of_ne_nil (spells_ne_nil h)
  have hcons : b :: q ++ rest = b :: (q ++ rest) := rfl
  have hread := readPrefix_of_spells h hcons (show 0 < 128 ^ 0 by decide) rfl hle allocated
  rw [Nat.zero_add, Nat.pow_zero, Nat.one_mul] at hread
  simp only [List.cons_append, readFrame, bind, hread, readPayload]
  split_ifs <;> rfl

/-- A prefix that has not ended after three bytes. -/
theorem readFrame_of_high {p rest : Bytes} (hlen : p.length = 3) (h : ∀ b ∈ p, 128 ≤ b.toNat)
    (allocated : List ℕ) :
    readFrame ⟨p ++ rest, allocated⟩ = (.error .protocol, ⟨rest, allocated⟩) := by
  obtain ⟨a, b, c, rfl⟩ := List.length_eq_three.mp hlen
  simp only [List.mem_cons, List.not_mem_nil, or_false, forall_eq_or_imp, forall_eq] at h
  simp [readFrame, readPrefix, not_and_high h.1, not_and_high h.2.1, not_and_high h.2.2, bind,
    readU8, Procedure.fail]

/-- A stream that ends within a prefix. -/
theorem readFrame_of_short {p : Bytes} (hne : p ≠ []) (hlen : p.length < 3)
    (h : ∀ b ∈ p, 128 ≤ b.toNat) (allocated : List ℕ) :
    readFrame ⟨p, allocated⟩ = (.error .io, ⟨[], allocated⟩) := by
  match p, hne, hlen with
  | [a], _, _ => simp [readFrame, readPrefix, not_and_high (h a (by simp)), bind, readU8]
  | [a, b], _, _ =>
    simp [readFrame, readPrefix, not_and_high (h a (by simp)), not_and_high (h b (by simp)), bind,
      readU8]

/-- **How a stream begins**: with a spelling of at most `k` bytes, with `k` bytes that do not end
one, or it ends before. -/
theorem exists_spells_or (k : ℕ) (stream : Bytes) :
    (∃ n p rest, Spells n p ∧ p.length ≤ k ∧ stream = p ++ rest) ∨
    (∃ p rest, p.length = k ∧ (∀ b ∈ p, 128 ≤ b.toNat) ∧ stream = p ++ rest) ∨
    (stream.length < k ∧ ∀ b ∈ stream, 128 ≤ b.toNat) := by
  induction k generalizing stream with
  | zero => exact .inr (.inl ⟨[], stream, rfl, by simp, rfl⟩)
  | succ k ih =>
    cases stream with
    | nil => exact .inr (.inr ⟨Nat.succ_pos k, by simp⟩)
    | cons b stream =>
      by_cases hb : b.toNat < 128
      · exact .inl ⟨_, [b], stream, .last hb, by simp, rfl⟩
      have hb : 128 ≤ b.toNat := by omega
      obtain ⟨n, p, rest, hp, hle, rfl⟩ | ⟨p, rest, hlen, hp, rfl⟩ | ⟨hlen, hp⟩ := ih stream
      · exact .inl ⟨_, b :: p, rest, hp.more hb, Nat.succ_le_succ hle, rfl⟩
      · exact .inr (.inl ⟨b :: p, rest, congrArg Nat.succ hlen,
          List.forall_mem_cons.mpr ⟨hb, hp⟩, rfl⟩)
      · exact .inr (.inr ⟨Nat.succ_lt_succ hlen, List.forall_mem_cons.mpr ⟨hb, hp⟩⟩)

/-- **What a reader can do**: report the end of an empty stream, fail, or return a frame of the
stream. A buffer is within the limit. -/
theorem readFrame_cases (r : Reader) :
    (r.stream = [] ∧ readFrame r = (.ok none, r)) ∨
    (r.stream ≠ [] ∧ ∃ e stream buffers,
      readFrame r = (.error e, ⟨stream, r.allocated ++ buffers⟩) ∧
      ∀ n ∈ buffers, n ≤ maxFrameBytes) ∨
    ∃ p payload rest, Spells payload.length p ∧ p.length ≤ 3 ∧ 1 ≤ payload.length ∧
      payload.length ≤ maxFrameBytes ∧ r.stream = p ++ payload ++ rest ∧
      readFrame r = (.ok (some payload), ⟨rest, r.allocated ++ [payload.length]⟩) := by
  obtain ⟨stream, allocated⟩ := r
  by_cases hne : stream = []
  · subst hne
    exact .inl ⟨rfl, rfl⟩
  obtain ⟨n, p, rest, hspells, hlen, rfl⟩ | ⟨p, rest, hlen, hp, rfl⟩ | ⟨hlen, hp⟩ :=
    exists_spells_or 3 stream
  · have hread := readFrame_of_spells hspells hlen rest allocated
    split_ifs at hread with hn hshort
    · exact .inr (.inl ⟨hne, _, rest, [], by rw [hread, List.append_nil], by simp⟩)
    · exact .inr (.inl ⟨hne, _, [], [n], hread, by simp; omega⟩)
    · have htake : (rest.take n).length = n := List.length_take_of_le (by omega)
      refine .inr (.inr ⟨p, rest.take n, rest.drop n, ?_, hlen, by omega, by omega, ?_, ?_⟩)
      · rwa [htake]
      · rw [List.append_assoc, List.take_append_drop]
      · rw [hread, htake]
  · exact .inr (.inl ⟨hne, _, rest, [], by rw [readFrame_of_high hlen hp, List.append_nil],
      by simp⟩)
  · exact .inr (.inl ⟨hne, _, [], [], by rw [readFrame_of_short hne hlen hp, List.append_nil],
      by simp⟩)

/-! ## The codec -/

/-- The reader returns these messages in order, and then the end of the stream. -/
def Delivers : List Bytes → Reader → Prop
  | [], r => readFrame r = (.ok none, r)
  | m :: messages, r => (readFrame r).1 = .ok (some m) ∧ Delivers messages (readFrame r).2

/-- One written frame, followed by anything. -/
theorem readFrame_writeFrame {m : Bytes} (hpos : 1 ≤ m.length) (hle : m.length ≤ maxFrameBytes) :
    ∃ frame, (∀ written, writeFrame m written = (.ok (), written ++ frame)) ∧
      ∀ rest allocated, readFrame ⟨frame ++ rest, allocated⟩ =
        (.ok (some m), ⟨rest, allocated ++ [m.length]⟩) := by
  obtain ⟨p, hp, hspells, hlen⟩ := pushLength_spells m.length [] 2 (by
    unfold maxFrameBytes at hle
    omega)
  have hne : m ≠ [] := List.ne_nil_of_length_pos hpos
  refine ⟨p ++ m, fun written => ?_, fun rest allocated => ?_⟩
  · have hok : ¬(m = [] ∨ m.length > maxFrameBytes) := by
      rintro (h | h)
      · exact hne h
      · omega
    simp only [writeFrame, bind, Procedure.refuse, refuse, if_neg hok, Procedure.update, hp,
      List.nil_append]
  · rw [List.append_assoc, readFrame_of_spells hspells hlen, if_neg (by omega),
      if_neg (by simp)]
    simp

/-- The frames of a sequence of messages deliver them. -/
theorem forEach_writeFrame {messages : List Bytes}
    (h : ∀ m ∈ messages, 1 ≤ m.length ∧ m.length ≤ maxFrameBytes) (written : Bytes) :
    ∃ frames, Procedure.forEach writeFrame messages written = (.ok (), written ++ frames) ∧
      ∀ allocated, Delivers messages ⟨frames, allocated⟩ := by
  induction messages generalizing written with
  | nil => exact ⟨[], by rw [List.append_nil]; rfl, fun _ => rfl⟩
  | cons m messages ih =>
    rw [List.forall_mem_cons] at h
    obtain ⟨frame, hwrite, hread⟩ := readFrame_writeFrame h.1.1 h.1.2
    obtain ⟨frames, hrest, hdelivers⟩ := ih h.2 (written ++ frame)
    refine ⟨frame ++ frames, ?_, fun allocated => ?_⟩
    · simp only [Procedure.forEach, bind, hwrite, hrest, List.append_assoc]
    · rw [Delivers, hread]
      exact ⟨rfl, hdelivers _⟩

/-- **The frame codec.** The written frames of any messages of 1 to 131072 bytes are read back as
these messages, in order, and then as the end of the stream. From any stream, a returned frame is
one prefix of at most three bytes, which spells the length of the payload, and the payload; what
follows stays. The end of the stream is reported only of an empty stream. A prefix that goes on
after three bytes is rejected, as is one that spells zero or more than the limit, a stream that ends
within its prefix and one that ends within its payload. No buffer is larger than the limit. -/
theorem frame_codec {messages : List Bytes}
    (h : ∀ m ∈ messages, 1 ≤ m.length ∧ m.length ≤ 131072) (r : Reader) :
    (∃ stream, Procedure.forEach writeFrame messages [] = (.ok (), stream) ∧
      Delivers messages ⟨stream, []⟩) ∧
    (∀ payload r', readFrame r = (.ok (some payload), r') → ∃ p, Spells payload.length p ∧
      p.length ≤ 3 ∧ 1 ≤ payload.length ∧ payload.length ≤ 131072 ∧
      r.stream = p ++ payload ++ r'.stream) ∧
    ((readFrame r).1 = .ok none ↔ r.stream = []) ∧
    (∀ p rest, r.stream = p ++ rest → p.length = 3 → (∀ b ∈ p, 128 ≤ b.toNat) →
      (readFrame r).1 = .error .protocol) ∧
    (r.stream ≠ [] → r.stream.length < 3 → (∀ b ∈ r.stream, 128 ≤ b.toNat) →
      (readFrame r).1 = .error .io) ∧
    (∀ n p rest, Spells n p → p.length ≤ 3 → r.stream = p ++ rest →
      ((n = 0 ∨ 131072 < n) → (readFrame r).1 = .error .protocol) ∧
      (1 ≤ n → n ≤ 131072 → rest.length < n → (readFrame r).1 = .error .io)) ∧
    ∀ n ∈ (readFrame r).2.allocated, n ∈ r.allocated ∨ n ≤ 131072 := by
  obtain ⟨frames, hwrite, hdelivers⟩ := forEach_writeFrame h []
  refine ⟨⟨frames, hwrite, hdelivers []⟩, ?_, ?_, ?_, ?_, ?_, ?_⟩
  · intro payload r' hread
    obtain ⟨-, h⟩ | ⟨-, e, _, _, h, -⟩ | ⟨p, payload', rest, hspells, hlen, hpos, hle, hstream,
      h⟩ :=
      readFrame_cases r
    · cases hread.symm.trans h
    · cases hread.symm.trans h
    · cases hread.symm.trans h
      exact ⟨p, hspells, hlen, hpos, hle, hstream⟩
  · obtain ⟨hnil, h⟩ | ⟨hne, e, _, _, h, -⟩ | ⟨p, payload, rest, hspells, -, -, -, hstream, h⟩ :=
      readFrame_cases r
    · simp [h, hnil]
    · simp [h, hne]
    · simp [h, hstream, spells_ne_nil hspells]
  · obtain ⟨stream, allocated⟩ := r
    rintro p rest rfl hlen hp
    rw [readFrame_of_high hlen hp]
  · intro hne hlen hp
    rw [readFrame_of_short hne hlen hp]
  · obtain ⟨stream, allocated⟩ := r
    rintro n p rest hspells hlen rfl
    rw [readFrame_of_spells hspells hlen]
    unfold maxFrameBytes
    constructor
    · intro hn
      rw [if_pos hn]
    · intro hpos hle hshort
      rw [if_neg (by omega), if_pos hshort]
  · intro n hn
    obtain ⟨-, h⟩ | ⟨-, e, _, buffers, h, hbuffers⟩ | ⟨p, payload, rest, -, -, -, hle, -, h⟩ :=
      readFrame_cases r
    · rw [h] at hn
      exact .inl hn
    · rw [h, List.mem_append] at hn
      exact hn.imp_right (hbuffers n)
    · rw [h, List.mem_append, List.mem_singleton] at hn
      exact hn.imp_right (·.trans_le hle)

theorem frame_codec_two :
    (∃ stream, Procedure.forEach writeFrame [[7], [1, 2]] [] = (.ok (), stream) ∧
      Delivers [[7], [1, 2]] ⟨stream, []⟩) ∧
    (readFrame ⟨[0x80, 0x80, 0x80, 0], []⟩).1 = .error .protocol ∧
    (readFrame ⟨[3, 1], []⟩).1 = .error .io := by
  have hmessages : ∀ m ∈ [[7], [1, (2 : UInt8)]], 1 ≤ m.length ∧ m.length ≤ 131072 := by
    simp
  have hspells : Spells 3 [3] := .last (b := 3) (by decide)
  obtain ⟨hwritten, -, -, hhigh, -⟩ := frame_codec hmessages ⟨[0x80, 0x80, 0x80, 0], []⟩
  obtain ⟨-, -, -, -, -, hspelled, -⟩ := frame_codec hmessages ⟨[3, 1], []⟩
  exact ⟨hwritten, hhigh [0x80, 0x80, 0x80] [0] rfl rfl (by simp),
    (hspelled 3 [3] [1] hspells (by decide) rfl).2 (by decide) (by decide) (by decide)⟩

end Volparossa.Abci
