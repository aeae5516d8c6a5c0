import Volparossa.Foundations.Protobuf.RoundTrip

/-!
# What a message that was read is like

Whatever the bytes are, the integers that are read from them fit in 64 bits, and a field changes the
message only as its entry in the list of fields says. What the default message satisfies and every
field that may be read keeps is therefore a fact about every message that was decoded
(**`decode_invariant`**).
-/

namespace Volparossa.Protobuf

variable {M : Type}

theorem decodeVarintAux_lt {k : ℕ} {b rest : Bytes} {n : ℕ}
    (h : decodeVarintAux (k + 1) b = some (n, rest)) : n < 2 * 128 ^ k := by
  induction k generalizing b n rest with
  | zero =>
    cases b with
    | nil => cases h
    | cons x b =>
      simp only [decodeVarintAux, true_and, Option.map_none] at h
      split at h
      · split at h
        · cases h
        · cases h
          omega
      · cases h
  | succ k ih =>
    cases b with
    | nil => cases h
    | cons x b =>
      rw [decodeVarintAux] at h
      have hpos : 0 < 128 ^ k := Nat.pow_pos (by omega)
      split at h
      · simp only [Nat.succ_ne_zero, false_and, reduceIte, Option.some.injEq, Prod.mk.injEq] at h
        rw [pow_succ]
        omega
      · obtain ⟨⟨v, rest'⟩, hv, heq⟩ := Option.map_eq_some_iff.mp h
        simp only [Prod.mk.injEq] at heq
        have hlt := ih hv
        have hx := x.toNat_lt
        rw [pow_succ]
        omega

theorem decodeVarint_lt {b rest : Bytes} {n : ℕ} (h : decodeVarint b = some (n, rest)) :
    n < 2 ^ 64 := by
  calc n < 2 * 128 ^ 9 := decodeVarintAux_lt h
    _ = 2 ^ 64 := by decide

/-- A value that fits: an integer of 64 bits, or bytes. -/
def Value.Small : Value → Prop
  | .varint n => n < 2 ^ 64
  | .len _ => True

theorem small_of_decodeField {b rest : Bytes} {f : Field} (h : decodeField b = some (f, rest)) :
    f.value.Small := by
  simp only [decodeField, Option.bind_eq_bind, Option.bind_eq_some_iff] at h
  obtain ⟨⟨key, rest'⟩, -, h⟩ := h
  dsimp only at h
  split at h
  · cases h
  · split at h
    · obtain ⟨⟨n, rest''⟩, hn, heq⟩ := Option.bind_eq_some_iff.mp h
      cases heq
      exact decodeVarint_lt hn
    · split at h
      · obtain ⟨⟨bytes, rest''⟩, -, heq⟩ := Option.bind_eq_some_iff.mp h
        cases heq
        trivial
      · cases h

theorem small_of_decodeFields {b : Bytes} {fs : List Field} (h : decodeFields b = some fs) :
    ∀ f ∈ fs, f.value.Small := by
  have key : ∀ (fuel : ℕ) (b : Bytes) (fs : List Field), decodeFieldsAux fuel b = some fs →
      ∀ f ∈ fs, f.value.Small := by
    intro fuel
    induction fuel with
    | zero =>
      intro b fs h
      cases b with
      | nil => cases h; simp
      | cons x b => cases h
    | succ fuel ih =>
      intro b fs h
      cases b with
      | nil => cases h; simp
      | cons x b =>
        simp only [decodeFieldsAux, Option.bind_eq_bind, Option.bind_eq_some_iff,
          Option.map_eq_some_iff] at h
        obtain ⟨⟨f, rest⟩, hf, fs', hfs', rfl⟩ := h
        exact List.forall_mem_cons.mpr ⟨small_of_decodeField hf, ih rest fs' hfs'⟩
  exact key _ b fs h

/-- **An invariant of what is read**: what the default message satisfies and every entry of the list
of fields keeps holds of every message that was decoded. -/
theorem decode_invariant {d m : M} {specs : List (FieldSpec M)} {P : M → Prop} {b : Bytes}
    (h : @decode M (schema d specs) b = some m) (hd : P d)
    (hread : ∀ s ∈ specs, ∀ acc v acc', P acc → v.Small → s.read acc v = some acc' → P acc') :
    P m := by
  unfold decode merge at h
  simp only [Option.bind_eq_bind, Option.bind_eq_some_iff] at h
  obtain ⟨fs, hfs, hfold⟩ := h
  have hsmall := small_of_decodeFields hfs
  clear hfs
  replace hd : P (@Message.default M (schema d specs)) := hd
  generalize @Message.default M (schema d specs) = acc at hd hfold
  induction fs generalizing acc with
  | nil => cases hfold; exact hd
  | cons f fs ih =>
    simp only [List.foldlM_cons, Option.bind_eq_bind, Option.bind_eq_some_iff] at hfold
    obtain ⟨acc', hacc', hfold⟩ := hfold
    obtain ⟨hf, hfs⟩ := List.forall_mem_cons.mp hsmall
    refine ih hfs acc' ?_ hfold
    rw [mergeField_schema] at hacc'
    cases hfind : specs.find? fun s => s.tag = f.tag with
    | none =>
      rw [hfind, Option.elim_none, Option.some.injEq] at hacc'
      exact hacc' ▸ hd
    | some s =>
      rw [hfind, Option.elim_some] at hacc'
      exact hread s (List.mem_of_find?_eq_some hfind) acc f.value acc' hd hf hacc'

namespace FieldSpec

variable {tag : ℕ} {acc acc' : M} {v : Value}

theorem read_uint64 {get : M → ℕ} {set : M → ℕ → M} (hv : v.Small)
    (h : (uint64 tag get set).read acc v = some acc') : ∃ n < 2 ^ 64, acc' = set acc n := by
  cases v with
  | varint n => exact ⟨n, hv, (Option.some.inj h).symm⟩
  | len b => cases h

theorem read_bytes {get : M → Bytes} {set : M → Bytes → M}
    (h : (bytes tag get set).read acc v = some acc') : ∃ b, acc' = set acc b := by
  cases v with
  | varint n => cases h
  | len b => exact ⟨b, (Option.some.inj h).symm⟩

theorem read_text {get : M → Bytes} {set : M → Bytes → M}
    (h : (text tag get set).read acc v = some acc') :
    ∃ b, isUtf8 b = true ∧ acc' = set acc b := by
  cases v with
  | varint n => cases h
  | len b =>
    simp only [text, readLen, Option.ite_none_right_eq_some, Option.some.injEq] at h
    exact ⟨b, h.1, h.2.symm⟩

theorem read_repeatedMessage {N : Type} [Message N] {get : M → List N} {set : M → List N → M}
    (h : (repeatedMessage tag get set).read acc v = some acc') : ∃ l, acc' = set acc l := by
  cases v with
  | varint n => cases h
  | len b =>
    simp only [repeatedMessage, readLen, Option.map_eq_some_iff] at h
    obtain ⟨x, -, rfl⟩ := h
    exact ⟨_, rfl⟩

namespace Takes

variable {m : M}

theorem text {get : M → Bytes} {set : M → Bytes → M} {n : ℕ} (h : (get m).length ≤ n) (k : ℕ := 0)
    (hn : n < 128 ^ (k + 1) := by decide) (htag : tag < 16 := by decide) :
    (FieldSpec.text tag get set).Takes m (k + 2 + n) :=
  (length_bytes_le _ k (lt_of_le_of_lt h hn) htag).trans (by omega)

theorem bool {get : M → Bool} {set : M → Bool → M} (htag : tag < 16 := by decide) :
    (FieldSpec.bool tag get set).Takes m 2 :=
  length_uint_le _ 0 (lt_of_le_of_lt (Bool.toNat_le _) (by omega)) htag

end Takes

end FieldSpec

end Volparossa.Protobuf
