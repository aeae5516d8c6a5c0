import Mathlib

/-!
# The protobuf wire format

A protobuf message is a sequence of fields, each a key (a field number and a wire type, as one
varint) followed by its value: a varint, or a length and that many bytes. This module has the
two levels below messages, with the encoders and decoders of a conforming implementation.

* `encodeVarint` and `decodeVarint`: base-128 integers of at most ten bytes, the tenth of which
  has a single payload bit left. Decoding inverts encoding on 64-bit integers
  (`decodeVarint_encodeVarint`), and `length_encodeVarint_le` bounds the number of bytes.
* `encodeFields` and `decodeFields`: sequences of fields. Decoding inverts encoding
  (`decodeFields_encodeFields`) on fields that fit the format (`Field.Fits`).

Only the two wire types above occur in what follows; the fixed-width and group types are
refused here, where an implementation would read them and skip the field as unknown.
-/

namespace Volparossa

/-- Byte strings. -/
abbrev Bytes := List UInt8

instance lawfulBytes : LawfulBEq Bytes := inferInstance

-- the general instance for a finite type would look for each of the 256 bytes in the string
instance decidableForallMem {p : UInt8 → Prop} [DecidablePred p] (b : Bytes) :
    Decidable (∀ x ∈ b, p x) :=
  List.decidableBAll p b

namespace Protobuf

/-! ## Varints -/

/-- `n` in base 128, lowest digit first, in at most `k` bytes; every byte but the last has its high
bit set. -/
def encodeVarintAux : ℕ → ℕ → Bytes
  | 0, _ => []
  | k + 1, n =>
    if n < 128 then [n.toUInt8] else (n % 128 + 128).toUInt8 :: encodeVarintAux k (n / 128)

/-- The varint of a 64-bit integer: ten bytes are enough. -/
def encodeVarint (n : ℕ) : Bytes := encodeVarintAux 10 n

/-- Read a varint of at most `k` bytes, the last of which may not exceed one. -/
def decodeVarintAux : ℕ → Bytes → Option (ℕ × Bytes)
  | 0, _ => none
  | _ + 1, [] => none
  | k + 1, b :: rest =>
    if b.toNat < 128 then
      -- nine bytes hold 63 bits, so the tenth has one bit to give
      if k = 0 ∧ 2 ≤ b.toNat then none else some (b.toNat, rest)
    else (decodeVarintAux k rest).map fun (v, rest) => (b.toNat - 128 + 128 * v, rest)

/-- Read a varint, and return what follows it. -/
def decodeVarint (b : Bytes) : Option (ℕ × Bytes) := decodeVarintAux 10 b

theorem toNat_toUInt8 {n : ℕ} (h : n < 256) : n.toUInt8.toNat = n := by
  simp [Nat.mod_eq_of_lt h]

theorem decodeVarintAux_encodeVarintAux (k n : ℕ) (rest : Bytes) (h : n < 2 * 128 ^ k) :
    decodeVarintAux (k + 1) (encodeVarintAux (k + 1) n ++ rest) = some (n, rest) := by
  induction k generalizing n with
  | zero =>
    have hn : n < 128 := by omega
    simp only [encodeVarintAux, hn, if_true, List.singleton_append, decodeVarintAux,
      toNat_toUInt8 (show n < 256 by omega), true_and]
    rw [if_neg (by omega)]
  | succ k ih =>
    by_cases hn : n < 128
    · rw [encodeVarintAux, if_pos hn]
      simp only [List.singleton_append, decodeVarintAux, toNat_toUInt8 (show n < 256 by omega),
        hn, if_true, Nat.add_eq_zero_iff, one_ne_zero, and_false, false_and, if_false]
    · have hdiv : n / 128 < 2 * 128 ^ k := by
        rw [Nat.div_lt_iff_lt_mul (by omega)]
        calc n < 2 * 128 ^ (k + 1) := h
          _ = 2 * 128 ^ k * 128 := by ring
      rw [encodeVarintAux, if_neg hn, List.cons_append, decodeVarintAux,
        toNat_toUInt8 (show n % 128 + 128 < 256 by omega), if_neg (by omega), ih _ hdiv]
      simp only [Option.map_some, Option.some.injEq, Prod.mk.injEq, and_true]
      omega

theorem decodeVarint_encodeVarint {n : ℕ} (h : n < 2 ^ 64) (rest : Bytes) :
    decodeVarint (encodeVarint n ++ rest) = some (n, rest) :=
  decodeVarintAux_encodeVarintAux 9 n rest (by omega)

theorem length_encodeVarintAux_le (j k n : ℕ) (h : n < 128 ^ (k + 1)) :
    (encodeVarintAux j n).length ≤ k + 1 := by
  induction k generalizing j n with
  | zero =>
    have hn : n < 128 := by omega
    cases j with
    | zero => simp [encodeVarintAux]
    | succ j => simp [encodeVarintAux, hn]
  | succ k ih =>
    cases j with
    | zero => simp [encodeVarintAux]
    | succ j =>
      rw [encodeVarintAux]
      split
      · simp
      · have hdiv : n / 128 < 128 ^ (k + 1) := by
          rw [Nat.div_lt_iff_lt_mul (by omega)]
          calc n < 128 ^ (k + 1 + 1) := h
            _ = 128 ^ (k + 1) * 128 := by ring
        have := ih j (n / 128) hdiv
        simp only [List.length_cons]
        omega

/-- An integer below `128 ^ k` takes at most `k` bytes. -/
theorem length_encodeVarint_le (k : ℕ) {n : ℕ} (h : n < 128 ^ (k + 1)) :
    (encodeVarint n).length ≤ k + 1 :=
  length_encodeVarintAux_le 10 k n h

theorem length_encodeVarint_le_ten (n : ℕ) : (encodeVarint n).length ≤ 10 := by
  have h : ∀ j n, (encodeVarintAux j n).length ≤ j := by
    intro j
    induction j with
    | zero => simp [encodeVarintAux]
    | succ j ih =>
      intro n
      rw [encodeVarintAux]
      split
      · simp
      · simpa using ih (n / 128)
  exact h 10 n

theorem length_encodeVarint_pos (n : ℕ) : 0 < (encodeVarint n).length := by
  rw [encodeVarint, encodeVarintAux]
  split <;> simp

/-! ## Fields -/

/-- The value of a field. -/
inductive Value
  | varint (n : ℕ)
  | len (b : Bytes)
  deriving DecidableEq

/-- A field: its number and its value. -/
structure Field where
  tag : ℕ
  value : Value
  deriving DecidableEq

namespace Value

def wireType : Value → ℕ
  | varint _ => 0
  | len _ => 2

def encode : Value → Bytes
  | varint n => encodeVarint n
  | len b => encodeVarint b.length ++ b

end Value

/-- A field that the wire format can express. -/
def Field.Fits (f : Field) : Prop :=
  0 < f.tag ∧ f.tag < 2 ^ 29 ∧
    match f.value with
    | .varint n => n < 2 ^ 64
    | .len b => b.length < 2 ^ 64

def Field.encode (f : Field) : Bytes :=
  encodeVarint (8 * f.tag + f.value.wireType) ++ f.value.encode

def encodeFields (fs : List Field) : Bytes := fs.flatMap Field.encode

/-- Read a length and that many bytes. -/
def decodeLen (b : Bytes) : Option (Bytes × Bytes) := do
  let (n, rest) ← decodeVarint b
  if n ≤ rest.length then some (rest.take n, rest.drop n) else none

/-- Read a field, and return what follows it. Keys are 32-bit, and no field has number zero. -/
def decodeField (b : Bytes) : Option (Field × Bytes) := do
  let (key, rest) ← decodeVarint b
  if 2 ^ 32 ≤ key ∨ key / 8 = 0 then none
  else if key % 8 = 0 then do
    let (n, rest) ← decodeVarint rest
    some (⟨key / 8, .varint n⟩, rest)
  else if key % 8 = 2 then do
    let (b, rest) ← decodeLen rest
    some (⟨key / 8, .len b⟩, rest)
  else none

/-- Read fields until the input is used up; `fuel` bounds their number. -/
def decodeFieldsAux : ℕ → Bytes → Option (List Field)
  | _, [] => some []
  | 0, _ :: _ => none
  | fuel + 1, b :: bs => do
    let (f, rest) ← decodeField (b :: bs)
    (decodeFieldsAux fuel rest).map (f :: ·)

/-- Read a sequence of fields. A field has at least one byte, so the length is enough fuel. -/
def decodeFields (b : Bytes) : Option (List Field) := decodeFieldsAux b.length b

@[simp] theorem encodeFields_nil : encodeFields [] = [] := rfl

@[simp] theorem encodeFields_cons (f : Field) (fs : List Field) :
    encodeFields (f :: fs) = f.encode ++ encodeFields fs := rfl

@[simp] theorem encodeFields_append (fs gs : List Field) :
    encodeFields (fs ++ gs) = encodeFields fs ++ encodeFields gs :=
  List.flatMap_append

theorem decodeLen_encode {b : Bytes} (h : b.length < 2 ^ 64) (rest : Bytes) :
    decodeLen (encodeVarint b.length ++ b ++ rest) = some (b, rest) := by
  rw [List.append_assoc, decodeLen, decodeVarint_encodeVarint h]
  simp

theorem decodeField_encode {f : Field} (h : f.Fits) (rest : Bytes) :
    decodeField (f.encode ++ rest) = some (f, rest) := by
  obtain ⟨tag, value⟩ := f
  obtain ⟨hpos, htag, hvalue⟩ := h
  simp only at hpos htag hvalue
  cases value with
  | varint n =>
    have hkey : 8 * tag + 0 < 2 ^ 64 := by omega
    have hdiv : (8 * tag + 0) / 8 = tag := by omega
    rw [Field.encode, Value.wireType, Value.encode, List.append_assoc, decodeField,
      decodeVarint_encodeVarint hkey]
    simp only [Option.bind_eq_bind, Option.bind_some, hdiv]
    rw [if_neg (by omega), if_pos (by omega), decodeVarint_encodeVarint hvalue]
    rfl
  | len b =>
    have hkey : 8 * tag + 2 < 2 ^ 64 := by omega
    have hdiv : (8 * tag + 2) / 8 = tag := by omega
    rw [Field.encode, Value.wireType, Value.encode, List.append_assoc, decodeField,
      decodeVarint_encodeVarint hkey]
    simp only [Option.bind_eq_bind, Option.bind_some, hdiv]
    rw [if_neg (by omega), if_neg (by omega), if_pos (by omega), decodeLen_encode hvalue]
    rfl

theorem Field.length_encode_pos (f : Field) : 0 < f.encode.length := by
  have := length_encodeVarint_pos (8 * f.tag + f.value.wireType)
  rw [Field.encode, List.length_append]
  omega

theorem decodeFieldsAux_encodeFields (fs : List Field) (h : ∀ f ∈ fs, f.Fits) :
    ∀ fuel, (encodeFields fs).length ≤ fuel → decodeFieldsAux fuel (encodeFields fs) = some fs := by
  induction fs with
  | nil =>
    intro fuel _
    cases fuel <;> rfl
  | cons f fs ih =>
    intro fuel hfuel
    have hpos := f.length_encode_pos
    rw [encodeFields_cons, List.length_append] at hfuel
    cases fuel with
    | zero => omega
    | succ fuel =>
      obtain ⟨b, bs, hb⟩ := List.exists_cons_of_length_pos hpos
      have hdec := decodeField_encode (h f (by simp)) (encodeFields fs)
      rw [encodeFields_cons, hb, List.cons_append, decodeFieldsAux]
      rw [hb, List.cons_append] at hdec
      rw [hdec]
      simp only [Option.bind_eq_bind, Option.bind_some]
      rw [ih (fun g hg => h g (by simp [hg])) fuel (by omega)]
      rfl

theorem decodeFields_encodeFields (fs : List Field) (h : ∀ f ∈ fs, f.Fits) :
    decodeFields (encodeFields fs) = some fs :=
  decodeFieldsAux_encodeFields fs h _ le_rfl

/-! ## Sizes -/

/-- A field of number at most fifteen has a key of one byte. -/
theorem Field.length_encode_le {f : Field} (h : f.tag < 16) :
    f.encode.length ≤ 1 + f.value.encode.length := by
  have hwire : f.value.wireType ≤ 2 := by
    cases f.value <;> simp [Value.wireType]
  have := length_encodeVarint_le 0 (show 8 * f.tag + f.value.wireType < 128 ^ (0 + 1) by omega)
  rw [Field.encode, List.length_append]
  omega

theorem length_le_encodeFields {fs : List Field} {f : Field} (h : f ∈ fs) :
    f.encode.length ≤ (encodeFields fs).length := by
  induction fs with
  | nil => simp at h
  | cons g fs ih =>
    rw [encodeFields_cons, List.length_append]
    rcases List.mem_cons.mp h with rfl | h
    · omega
    · have := ih h
      omega

/-- The bytes of a length-delimited field are part of the encoding. -/
theorem length_le_of_len_mem {fs : List Field} {tag : ℕ} {b : Bytes} (h : ⟨tag, .len b⟩ ∈ fs) :
    b.length ≤ (encodeFields fs).length := by
  have := length_le_encodeFields h
  simp only [Field.encode, Value.encode, List.length_append] at this
  omega

end Protobuf

end Volparossa
