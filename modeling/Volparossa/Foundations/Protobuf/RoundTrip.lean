import Volparossa.Foundations.Protobuf.Schema

/-!
# Round trips of message types from lists of fields

A message type that is given by a list of fields is lawful when its fields have different numbers
and each of them is read back as it was written (**`lawful`**). What this means for one field is
`FieldSpec.Carries`, with one lemma for each kind of field; `Carries` is the same for a list of
fields, one after the other.
-/

namespace Volparossa.Protobuf

open FieldSpec

variable {M N : Type}

/-- The field `s` of the message `m` is written under its number, and reading it takes the message
`acc` to `acc'`. -/
structure FieldSpec.Carries (s : FieldSpec M) (m acc acc' : M) : Prop where
  bounded : Bounded (s.write m)
  tags : ∀ f ∈ s.write m, f.tag = s.tag
  reads : (encodeFields (s.write m)).length < 2 ^ 64 →
    (s.write m).foldlM (fun acc f => s.read acc f.value) acc = some acc'

/-- Reading the fields of the message `m` one after the other takes `acc` to `acc'`. -/
inductive Carries (m : M) : List (FieldSpec M) → M → M → Prop
  | nil {acc : M} : Carries m [] acc acc
  | cons {s : FieldSpec M} {specs : List (FieldSpec M)} {acc acc' acc'' : M}
      (h : s.Carries m acc acc') (hrest : Carries m specs acc' acc'') :
      Carries m (s :: specs) acc acc''

namespace Carries

variable {m acc acc' d : M} {specs part : List (FieldSpec M)}

theorem bounded (h : Carries m part acc acc') : Bounded (part.flatMap fun s => s.write m) := by
  induction h with
  | nil => simp [Bounded]
  | cons h hrest ih => exact h.bounded.append ih

/-- A field with the number of an entry is read by that entry. -/
theorem mergeField_eq (hnodup : (specs.map tag).Nodup) {s : FieldSpec M} (hs : s ∈ specs)
    {f : Field} (hf : f.tag = s.tag) (acc : M) :
    (schema d specs).mergeField acc f = s.read acc f.value := by
  have hfind : (specs.find? fun s => s.tag = f.tag) = some s := by
    obtain ⟨s', hs'⟩ : ∃ s', (specs.find? fun s => s.tag = f.tag) = some s' := by
      rw [← Option.isSome_iff_exists, List.find?_isSome]
      exact ⟨s, hs, decide_eq_true hf.symm⟩
    have htag : s'.tag = f.tag := by simpa using List.find?_some hs'
    rw [hs', List.inj_on_of_nodup_map hnodup (List.mem_of_find?_eq_some hs') hs (htag.trans hf)]
  rw [mergeField_schema, hfind, Option.elim_some]

/-- Fields with the number of an entry are read by that entry. -/
theorem foldlM_mergeField (hnodup : (specs.map tag).Nodup) {s : FieldSpec M}
    (hs : s ∈ specs) {fs : List Field} (hfs : ∀ f ∈ fs, f.tag = s.tag) (acc : M) :
    fs.foldlM (schema d specs).mergeField acc =
      fs.foldlM (fun acc f => s.read acc f.value) acc := by
  induction fs generalizing acc with
  | nil => rfl
  | cons f fs ih =>
    rw [List.foldlM_cons, List.foldlM_cons, mergeField_eq hnodup hs (hfs f List.mem_cons_self)]
    exact congrArg _ (funext fun acc => ih (fun f hf => hfs f (List.mem_cons_of_mem _ hf)) acc)

theorem merges (hnodup : (specs.map tag).Nodup) (hpart : ∀ s ∈ part, s ∈ specs)
    (h : Carries m part acc acc')
    (hlen : (encodeFields (part.flatMap fun s => s.write m)).length < 2 ^ 64) :
    (part.flatMap fun s => s.write m).foldlM (schema d specs).mergeField acc = some acc' := by
  induction h with
  | nil => rfl
  | @cons s part acc acc' acc'' h hrest ih =>
    rw [List.flatMap_cons, encodeFields_append, List.length_append] at hlen
    have hread : (s.write m).foldlM (schema d specs).mergeField acc = some acc' := by
      rw [← h.reads (by omega)]
      exact foldlM_mergeField hnodup (hpart s List.mem_cons_self) h.tags acc
    rw [List.flatMap_cons, List.foldlM_append, hread]
    exact ih (fun s hs => hpart s (List.mem_cons_of_mem _ hs)) (by omega)

end Carries

/-- **A message type is lawful when its fields are read back as they were written.** -/
@[reducible] def lawful {d : M} {specs : List (FieldSpec M)} (Fits : M → Prop)
    (hnodup : (specs.map tag).Nodup) (h : ∀ m, Fits m → Carries m specs d m) :
    @LawfulMessage M (schema d specs) :=
  @LawfulMessage.mk M (schema d specs) Fits (fun {m} hm => (h m hm).bounded)
    fun {m} hm hlen => (h m hm).merges hnodup (fun _ hs => hs) hlen

/-! ## Kinds of fields -/

section Kinds

variable {tag : ℕ} {m acc : M}

/-- A field that is left out, or read at once. -/
theorem carries_of_option {s : FieldSpec M} {v : Option Value} {acc' : M}
    (hwrite : s.write m = (v.map (Field.mk s.tag)).toList) (htag : 0 < s.tag ∧ s.tag < 2 ^ 29)
    (hv : ∀ n, v = some (.varint n) → n < 2 ^ 64)
    (hread : (encodeFields (s.write m)).length < 2 ^ 64 →
      v.elim (some acc) (s.read acc) = some acc') : s.Carries m acc acc' := by
  cases v with
  | none => exact ⟨by simp [hwrite, Bounded], by simp [hwrite], by simpa [hwrite] using hread⟩
  | some v =>
    refine ⟨?_, by simp [hwrite], by simpa [hwrite] using hread⟩
    rw [hwrite]
    exact .single htag fun n hn => hv n (congrArg some hn)

theorem carries_of_uint {s : FieldSpec M} {n : ℕ} {acc' : M} (hwrite : s.write m = uint s.tag n)
    (htag : 0 < s.tag ∧ s.tag < 2 ^ 29) (hn : n < 2 ^ 64) (hzero : n = 0 → acc' = acc)
    (hread : s.read acc (.varint n) = some acc') : s.Carries m acc acc' := by
  by_cases h : n = 0
  · exact carries_of_option (v := none) (by simp [hwrite, uint, h]) htag (by simp)
      fun _ => by simp [hzero h]
  · exact carries_of_option (v := some (.varint n)) (by simp [hwrite, uint, h]) htag
      (by rintro _ ⟨⟩; exact hn) fun _ => hread

theorem carries_of_bytes {s : FieldSpec M} {b : Bytes} {acc' : M}
    (hwrite : s.write m = bytes s.tag b)
    (htag : 0 < s.tag ∧ s.tag < 2 ^ 29) (hempty : b = [] → acc' = acc)
    (hread : s.read acc (.len b) = some acc') : s.Carries m acc acc' := by
  by_cases h : b = []
  · exact carries_of_option (v := none) (by simp [hwrite, bytes, h]) htag (by simp)
      fun _ => by simp [hempty h]
  · exact carries_of_option (v := some (.len b)) (by simp [hwrite, bytes, h]) htag (by simp)
      fun _ => hread

/-- A repeated field is read one element at a time; `set` is the message with the elements read so
far. -/
theorem carries_of_repeated {α : Type} {s : FieldSpec M} {e : α → Bytes} {l : List α}
    (set : List α → M) (hwrite : s.write m = l.map fun a => ⟨s.tag, .len (e a)⟩)
    (htag : 0 < s.tag ∧ s.tag < 2 ^ 29)
    (hread : ∀ l', ∀ a ∈ l, (e a).length < 2 ^ 64 →
      s.read (set l') (.len (e a)) = some (set (l' ++ [a]))) :
    s.Carries m (set []) (set l) := by
  refine ⟨hwrite ▸ Bounded.repeated htag e l, by simp [hwrite], fun hlen => ?_⟩
  have hsmall : ∀ a ∈ l, (e a).length < 2 ^ 64 := by
    intro a ha
    have hmem := List.mem_map_of_mem (f := fun a => Field.mk s.tag (.len (e a))) ha
    exact lt_of_le_of_lt (length_le_of_len_mem (hwrite ▸ hmem)) hlen
  have key : ∀ part l', (∀ a ∈ part, a ∈ l) → (part.map fun a => Field.mk s.tag (.len (e a))).foldlM
      (fun acc f => s.read acc f.value) (set l') = some (set (l' ++ part)) := by
    intro part
    induction part with
    | nil => simp
    | cons a part ih =>
      intro l' hpart
      obtain ⟨ha, hpart⟩ := List.forall_mem_cons.mp hpart
      rw [List.map_cons, List.foldlM_cons, hread l' a ha (hsmall a ha)]
      exact (ih _ hpart).trans (by simp)
  rw [hwrite]
  exact key l [] fun _ ha => ha

namespace FieldSpec.Carries

theorem uint64 {get : M → ℕ} {set : M → ℕ → M} (hm : get m < 2 ^ 64)
    (hacc : set acc 0 = acc := by rfl) (htag : 0 < tag ∧ tag < 2 ^ 29 := by decide) :
    (uint64 tag get set).Carries m acc (set acc (get m)) :=
  carries_of_uint rfl htag hm (fun h => by rw [h, hacc]) rfl

theorem uint32 {get : M → ℕ} {set : M → ℕ → M} (hm : get m < 2 ^ 32)
    (hacc : set acc 0 = acc := by rfl) (htag : 0 < tag ∧ tag < 2 ^ 29 := by decide) :
    (FieldSpec.uint32 tag get set).Carries m acc (set acc (get m)) := by
  refine carries_of_uint rfl htag (by omega) (fun h => by rw [h, hacc]) ?_
  simp only [FieldSpec.uint32, readVarint, Nat.mod_eq_of_lt hm]

theorem bool {get : M → Bool} {set : M → Bool → M} (hacc : set acc false = acc := by rfl)
    (htag : 0 < tag ∧ tag < 2 ^ 29 := by decide) :
    (bool tag get set).Carries m acc (set acc (get m)) := by
  refine carries_of_uint rfl htag ?_ (fun h => ?_) ?_
  · cases get m <;> decide
  · cases hget : get m with
    | false => exact hacc
    | true => rw [hget] at h; cases h
  · cases hget : get m <;> simp [FieldSpec.bool, readVarint]

theorem enumeration {get : M → ℤ} {set : M → ℤ → M} (hpos : 0 ≤ get m) (hm : get m < 2 ^ 31)
    (hacc : set acc 0 = acc := by rfl) (htag : 0 < tag ∧ tag < 2 ^ 29 := by decide) :
    (enumeration tag get set).Carries m acc (set acc (get m)) := by
  have hof : ofInt (get m) = (get m).toNat := by
    rw [ofInt, Int.emod_eq_of_lt hpos (by omega)]
  refine carries_of_uint rfl htag (by omega) (fun h => ?_) ?_
  · rw [hof] at h
    rw [show get m = 0 by omega, hacc]
  · have hint : int32 (ofInt (get m)) = get m := by
      unfold int32
      rw [hof, Nat.mod_eq_of_lt (by omega), if_pos (by omega)]
      omega
    simp only [FieldSpec.enumeration, readVarint, hint]

theorem bytes {get : M → Bytes} {set : M → Bytes → M} (hacc : set acc [] = acc := by rfl)
    (htag : 0 < tag ∧ tag < 2 ^ 29 := by decide) :
    (bytes tag get set).Carries m acc (set acc (get m)) :=
  carries_of_bytes rfl htag (fun h => by rw [h, hacc]) rfl

theorem text {get : M → Bytes} {set : M → Bytes → M} (hm : isUtf8 (get m) = true)
    (hacc : set acc [] = acc := by rfl) (htag : 0 < tag ∧ tag < 2 ^ 29 := by decide) :
    (FieldSpec.text tag get set).Carries m acc (set acc (get m)) := by
  refine carries_of_bytes rfl htag (fun h => by rw [h, hacc]) ?_
  simp only [FieldSpec.text, readLen, hm, if_true]

/-- An embedded message takes the place of none. -/
theorem message [Message N] [LawfulMessage N] {get : M → Option N} {set : M → Option N → M}
    (hm : ∀ x, get m = some x → Fits x) (hget : get acc = none := by rfl)
    (hacc : set acc none = acc := by rfl) (htag : 0 < tag ∧ tag < 2 ^ 29 := by decide) :
    (message tag get set).Carries m acc (set acc (get m)) := by
  cases hx : get m with
  | none =>
    exact carries_of_option (v := none) (by simp [FieldSpec.message, Protobuf.message, hx]) htag
      (by simp) fun _ => by simp [hacc]
  | some x =>
    have hwrite : (FieldSpec.message tag get set).write m = [⟨tag, .len (encode x)⟩] := by
      simp [FieldSpec.message, Protobuf.message, hx]
    refine carries_of_option (v := some (.len (encode x))) hwrite htag (by simp) fun hlen => ?_
    rw [hwrite] at hlen
    have hle := length_le_of_len_mem (List.mem_singleton_self (⟨tag, .len (encode x)⟩ : Field))
    have hdecode : merge (Message.default : N) (encode x) = some x :=
      decode_encode (hm x hx) (lt_of_le_of_lt hle hlen)
    simp [FieldSpec.message, readLen, hget, hdecode]

theorem repeatedBytes {get : M → List Bytes} {set : M → List Bytes → M}
    (hget : ∀ l, get (set acc l) = l := by intro _; rfl)
    (hset : ∀ l l', set (set acc l) l' = set acc l' := by intro _ _; rfl)
    (hacc : set acc [] = acc := by rfl) (htag : 0 < tag ∧ tag < 2 ^ 29 := by decide) :
    (repeatedBytes tag get set).Carries m acc (set acc (get m)) := by
  have h := carries_of_repeated (m := m) (s := FieldSpec.repeatedBytes tag get set)
    (e := fun b => b) (set acc) rfl htag fun l b _ _ => by
      simp [FieldSpec.repeatedBytes, readLen, hget, hset]
  rwa [hacc] at h

theorem repeatedMessage [Message N] [LawfulMessage N] {get : M → List N} {set : M → List N → M}
    (hm : ∀ x ∈ get m, Fits x) (hget : ∀ l, get (set acc l) = l := by intro _; rfl)
    (hset : ∀ l l', set (set acc l) l' = set acc l' := by intro _ _; rfl)
    (hacc : set acc [] = acc := by rfl) (htag : 0 < tag ∧ tag < 2 ^ 29 := by decide) :
    (repeatedMessage tag get set).Carries m acc (set acc (get m)) := by
  have h := carries_of_repeated (m := m) (s := FieldSpec.repeatedMessage tag get set)
    (e := encode) (set acc) rfl htag fun l x hx hlen => by
      simp [FieldSpec.repeatedMessage, readLen, decode_encode (hm x hx) hlen, hget, hset]
  rwa [hacc] at h

theorem alternative {get : M → Option Bytes} {set : M → Bytes → Option M} {acc' : M}
    (h : (get m).elim (some acc) (set acc) = some acc')
    (htag : 0 < tag ∧ tag < 2 ^ 29 := by decide) :
    (alternative tag get set).Carries m acc acc' := by
  refine carries_of_option (v := (get m).map .len) (by simp [FieldSpec.alternative]; rfl) htag
    (by simp) fun _ => ?_
  cases hget : get m with
  | none => rwa [hget] at h
  | some b => rwa [hget] at h

theorem alternativeUint {get : M → Option ℕ} {set : M → ℕ → M}
    (hm : ∀ n, get m = some n → n < 2 ^ 64) (htag : 0 < tag ∧ tag < 2 ^ 29 := by decide) :
    (alternativeUint tag get set).Carries m acc ((get m).elim acc (set acc)) := by
  refine carries_of_option (v := (get m).map .varint) (by simp [FieldSpec.alternativeUint]; rfl)
    htag (by simpa using hm) fun _ => ?_
  cases get m <;> rfl

end FieldSpec.Carries

end Kinds

/-! ## Sizes -/

/-- The field `s` of the message `m` takes at most `n` bytes. -/
def FieldSpec.Takes (s : FieldSpec M) (m : M) (n : ℕ) : Prop :=
  (encodeFields (s.write m)).length ≤ n

/-- The fields of the message `m` take at most `n` bytes. -/
inductive Takes (m : M) : List (FieldSpec M) → ℕ → Prop
  | nil : Takes m [] 0
  | cons {s : FieldSpec M} {specs : List (FieldSpec M)} {n n' : ℕ} (h : s.Takes m n)
      (hrest : Takes m specs n') : Takes m (s :: specs) (n + n')

theorem Takes.length_encode_le {d m : M} {specs : List (FieldSpec M)} {n : ℕ}
    (h : Takes m specs n) : (@encode M (schema d specs) m).length ≤ n := by
  change (encodeFields (specs.flatMap fun s => s.write m)).length ≤ n
  induction h with
  | nil => exact le_rfl
  | cons h hrest ih =>
    rw [List.flatMap_cons, encodeFields_append, List.length_append]
    exact Nat.add_le_add h ih

/-- A message with a field is not empty. -/
theorem encode_ne_nil {d m : M} {specs : List (FieldSpec M)} {s : FieldSpec M} (hs : s ∈ specs)
    (h : s.write m ≠ []) : @encode M (schema d specs) m ≠ [] := by
  obtain ⟨f, hf⟩ := List.exists_mem_of_ne_nil _ h
  have hmem : f ∈ specs.flatMap fun s => s.write m := List.mem_flatMap.mpr ⟨s, hs, hf⟩
  intro hnil
  have hle := length_le_encodeFields hmem
  have hpos := f.length_encode_pos
  have hzero : (encodeFields (specs.flatMap fun s => s.write m)).length = 0 :=
    congrArg List.length hnil
  omega

theorem FieldSpec.write_bytes_ne_nil {tag : ℕ} {m : M} {get : M → Bytes} {set : M → Bytes → M}
    (h : get m ≠ []) : (bytes tag get set).write m ≠ [] := by
  simp [bytes, Protobuf.bytes, h]

namespace FieldSpec.Takes

variable {tag : ℕ} {m : M}

theorem uint64_of_lt (k : ℕ) {get : M → ℕ} {set : M → ℕ → M} (h : get m < 128 ^ (k + 1))
    (htag : tag < 16 := by decide) : (uint64 tag get set).Takes m (k + 2) :=
  length_uint_le _ k h htag

theorem uint64 {get : M → ℕ} {set : M → ℕ → M} (h : get m < 2 ^ 64)
    (htag : tag < 16 := by decide) : (FieldSpec.uint64 tag get set).Takes m 11 :=
  uint64_of_lt 9 (by omega) htag

theorem uint32 (k : ℕ) {get : M → ℕ} {set : M → ℕ → M} (h : get m < 128 ^ (k + 1))
    (htag : tag < 16 := by decide) : (uint32 tag get set).Takes m (k + 2) :=
  length_uint_le _ k h htag

theorem enumeration {get : M → ℤ} {set : M → ℤ → M} (hpos : 0 ≤ get m) (h : get m < 128)
    (htag : tag < 16 := by decide) : (enumeration tag get set).Takes m 2 := by
  refine length_uint_le _ 0 ?_ htag
  rw [ofInt, Int.emod_eq_of_lt hpos (by omega)]
  omega

theorem bytes {get : M → Bytes} {set : M → Bytes → M} {n : ℕ} (h : (get m).length ≤ n) (k : ℕ := 0)
    (hn : n < 128 ^ (k + 1) := by decide) (htag : tag < 16 := by decide) :
    (bytes tag get set).Takes m (k + 2 + n) :=
  (length_bytes_le _ k (lt_of_le_of_lt h hn) htag).trans (by omega)

theorem message [Message N] {get : M → Option N} {set : M → Option N → M} {n : ℕ}
    (h : ∀ x, get m = some x → (encode x).length ≤ n) (k : ℕ := 0)
    (hn : n < 128 ^ (k + 1) := by decide) (htag : tag < 16 := by decide) :
    (message tag get set).Takes m (k + 2 + n) := length_message_le _ k n h hn htag

theorem repeatedBytes (k : ℕ) {get : M → List Bytes} {set : M → List Bytes → M}
    (h : ∀ b ∈ get m, b.length < 128 ^ (k + 1)) (htag : tag < 16 := by decide) :
    (repeatedBytes tag get set).Takes m
      ((k + 2) * (get m).length + ((get m).map fun b => b.length).sum) :=
  length_repeated_le _ (e := fun b => b) k h htag

theorem repeatedMessage [Message N] (k : ℕ) {get : M → List N} {set : M → List N → M}
    (h : ∀ x ∈ get m, (encode x).length < 128 ^ (k + 1)) (htag : tag < 16 := by decide) :
    (repeatedMessage tag get set).Takes m
      ((k + 2) * (get m).length + ((get m).map fun x => (encode x).length).sum) :=
  length_repeated_le _ (e := encode) k h htag

/-- Messages of at most `n` bytes each. -/
theorem repeatedMessage_of_le [Message N] (k : ℕ) {n : ℕ} {get : M → List N} {set : M → List N → M}
    (h : ∀ x ∈ get m, (encode x).length ≤ n) (hn : n < 128 ^ (k + 1) := by decide)
    (htag : tag < 16 := by decide) :
    (FieldSpec.repeatedMessage tag get set).Takes m ((k + 2 + n) * (get m).length) :=
  length_repeatedMessage_le _ k n h hn htag

end FieldSpec.Takes

end Volparossa.Protobuf
