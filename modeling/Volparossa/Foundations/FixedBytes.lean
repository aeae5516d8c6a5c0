import Volparossa.Foundations.Protobuf.Wire

/-!
# Byte arrays of a fixed length

`FixedBytes n` is a byte string together with the proof that it has `n` bytes, the type of an
identifier, a key or a digest. A byte string of the right length converts (`FixedBytes.ofBytes`);
one of another length does not.
-/

namespace Volparossa

/-- Byte strings of length `n`. -/
def FixedBytes (n : ℕ) : Type := { b : Bytes // b.length = n }

namespace FixedBytes

variable {n : ℕ}

instance : DecidableEq (FixedBytes n) := inferInstanceAs (DecidableEq { b : Bytes // b.length = n })

instance lawfulBEq32 : LawfulBEq (FixedBytes 32) := inferInstance

/-- The bytes of the array. -/
def toBytes (a : FixedBytes n) : Bytes := a.1

/-- Arrays are ordered as their bytes are, the first byte first. -/
instance : Ord (FixedBytes n) := ⟨fun a b => compare a.toBytes b.toBytes⟩

/-- The array of a byte string that has the right length. -/
def ofBytes (n : ℕ) (b : Bytes) : Option (FixedBytes n) :=
  if h : b.length = n then some ⟨b, h⟩ else none

/-- The array of `n` equal bytes. -/
def replicate (n : ℕ) (b : UInt8) : FixedBytes n := ⟨List.replicate n b, by simp⟩

/-- The array of zeros. -/
def zero (n : ℕ) : FixedBytes n := replicate n 0

/-- The array of a number, the most significant byte first. -/
def ofNat (n value : ℕ) : FixedBytes n :=
  ⟨(List.range n).map fun i => (value / 256 ^ (n - 1 - i)).toUInt8, by simp⟩

@[simp] theorem length_toBytes (a : FixedBytes n) : a.toBytes.length = n := a.2

theorem toBytes_injective : Function.Injective (toBytes : FixedBytes n → Bytes) :=
  Subtype.val_injective

@[simp] theorem toBytes_inj {a b : FixedBytes n} : a.toBytes = b.toBytes ↔ a = b :=
  toBytes_injective.eq_iff

@[simp] theorem ofBytes_toBytes (a : FixedBytes n) : ofBytes n a.toBytes = some a :=
  dif_pos a.2

theorem ofBytes_eq_some {b : Bytes} {a : FixedBytes n} : ofBytes n b = some a ↔ b = a.toBytes := by
  constructor
  · intro h
    unfold ofBytes at h
    split at h
    · cases h
      rfl
    · simp at h
  · rintro rfl
    exact ofBytes_toBytes a

/-- A byte string of the right length is that of an array. -/
theorem exists_toBytes {b : Bytes} (h : b.length = n) : ∃ a : FixedBytes n, b = a.toBytes :=
  ⟨⟨b, h⟩, rfl⟩

instance : Std.TransOrd (FixedBytes n) := inferInstanceAs (Std.TransCmp (compareOn toBytes))

instance : Std.LawfulEqOrd (FixedBytes n) where
  eq_of_compare h := toBytes_injective (Std.LawfulEqOrd.eq_of_compare h)

theorem ne_nil (a : FixedBytes (n + 1)) : a.toBytes ≠ [] := by
  intro h
  have := a.length_toBytes
  rw [h] at this
  simp at this

end FixedBytes

end Volparossa
