import Volparossa.Foundations.Protobuf.Message

/-!
# Message types from lists of fields

A message type is given by its default value and its fields, each with its number, how a value is
written and how it is read back (`FieldSpec`). `schema` makes a `Message` of such a list: the fields
are written in the order of the list, a field with a number that the list has is read by that entry,
and any other field is skipped, as `proto3` has it.
-/

namespace Volparossa.Protobuf

/-- One field of a message type. -/
structure FieldSpec (M : Type) where
  tag : ℕ
  write : M → List Field
  read : M → Value → Option M

variable {M N : Type}

/-- Apply `set` to the integer that was read; bytes are refused. -/
def readVarint (set : ℕ → M) : Value → Option M
  | .varint n => some (set n)
  | .len _ => none

/-- Apply `set` to the bytes that were read; an integer is refused. -/
def readLen (set : Bytes → Option M) : Value → Option M
  | .varint _ => none
  | .len b => set b

namespace FieldSpec

/-- An unsigned 64-bit integer. -/
def uint64 (tag : ℕ) (get : M → ℕ) (set : M → ℕ → M) : FieldSpec M :=
  ⟨tag, fun m => uint tag (get m), fun m => readVarint (set m)⟩

/-- An unsigned 32-bit integer; the higher bits of a longer one are dropped. -/
def uint32 (tag : ℕ) (get : M → ℕ) (set : M → ℕ → M) : FieldSpec M :=
  ⟨tag, fun m => uint tag (get m), fun m => readVarint fun n => set m (n % 2 ^ 32)⟩

/-- A truth value. -/
def bool (tag : ℕ) (get : M → Bool) (set : M → Bool → M) : FieldSpec M :=
  ⟨tag, fun m => boolean tag (get m), fun m => readVarint fun n => set m (n ≠ 0)⟩

/-- The number of an enumeration's value. -/
def enumeration (tag : ℕ) (get : M → ℤ) (set : M → ℤ → M) : FieldSpec M :=
  ⟨tag, fun m => Protobuf.enumeration tag (get m), fun m => readVarint fun n => set m (int32 n)⟩

/-- A byte string. -/
def bytes (tag : ℕ) (get : M → Bytes) (set : M → Bytes → M) : FieldSpec M :=
  ⟨tag, fun m => Protobuf.bytes tag (get m), fun m => readLen fun b => some (set m b)⟩

/-- A text, as its UTF-8 bytes; other bytes are refused. -/
def text (tag : ℕ) (get : M → Bytes) (set : M → Bytes → M) : FieldSpec M :=
  ⟨tag, fun m => Protobuf.bytes tag (get m),
    fun m => readLen fun b => if isUtf8 b then some (set m b) else none⟩

/-- An optional embedded message; what is read is merged into the one that is there. -/
def message [Message N] (tag : ℕ) (get : M → Option N) (set : M → Option N → M) : FieldSpec M :=
  ⟨tag, fun m => Protobuf.message tag (get m),
    fun m => readLen fun b => (merge ((get m).getD Message.default) b).map fun x => set m (some x)⟩

/-- Byte strings, one in each field. -/
def repeatedBytes (tag : ℕ) (get : M → List Bytes) (set : M → List Bytes → M) : FieldSpec M :=
  ⟨tag, fun m => Protobuf.repeatedBytes tag (get m),
    fun m => readLen fun b => some (set m (get m ++ [b]))⟩

/-- Embedded messages, one in each field. -/
def repeatedMessage [Message N] (tag : ℕ) (get : M → List N) (set : M → List N → M) : FieldSpec M :=
  ⟨tag, fun m => Protobuf.repeatedMessage tag (get m),
    fun m => readLen fun b => (decode b).map fun x => set m (get m ++ [x])⟩

/-- Integers, packed in one field; they are also read one by one. -/
def packed (tag : ℕ) (get : M → List ℕ) (set : M → List ℕ → M) : FieldSpec M :=
  ⟨tag, fun m => Protobuf.packed tag (get m), fun m v =>
    match v with
    | .varint n => some (set m (get m ++ [n]))
    | .len b => (unpack b).map fun ns => set m (get m ++ ns)⟩

/-- Unsigned 32-bit integers, packed. -/
def packedUint32 (tag : ℕ) (get : M → List ℕ) (set : M → List ℕ → M) : FieldSpec M :=
  packed tag get fun m ns => set m (ns.map (· % 2 ^ 32))

/-- Numbers of an enumeration's values, packed. -/
def packedEnumeration (tag : ℕ) (get : M → List ℤ) (set : M → List ℤ → M) : FieldSpec M :=
  packed tag (fun m => (get m).map ofInt) fun m ns => set m (ns.map int32)

/-- One alternative of a choice between fields. It is written even when it is empty, and what is
read takes the place of the alternative that is there. -/
def alternative (tag : ℕ) (get : M → Option Bytes) (set : M → Bytes → Option M) : FieldSpec M :=
  ⟨tag, fun m => ((get m).map fun b => ⟨tag, .len b⟩).toList, fun m => readLen (set m)⟩

/-- An alternative that is an unsigned integer. -/
def alternativeUint (tag : ℕ) (get : M → Option ℕ) (set : M → ℕ → M) : FieldSpec M :=
  ⟨tag, fun m => ((get m).map fun n => ⟨tag, .varint n⟩).toList, fun m => readVarint (set m)⟩

end FieldSpec

/-- The message type with the given fields. -/
@[reducible] def schema (default : M) (specs : List (FieldSpec M)) : Message M where
  default := default
  fields m := specs.flatMap fun s => s.write m
  mergeField m f :=
    match specs.find? fun s => s.tag = f.tag with
    | some s => s.read m f.value
    | none => some m

/-- A field is read by the entry with its number, if there is one. -/
theorem mergeField_schema {d acc : M} {specs : List (FieldSpec M)} {f : Field} :
    (schema d specs).mergeField acc f =
      (specs.find? fun s => s.tag = f.tag).elim (some acc) fun s => s.read acc f.value := by
  simp only [Message.mergeField]
  cases specs.find? fun s => s.tag = f.tag <;> rfl

end Volparossa.Protobuf
