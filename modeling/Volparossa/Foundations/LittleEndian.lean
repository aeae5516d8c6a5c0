import Volparossa.Foundations.Protobuf.Wire

/-!
# Little-endian integers

Integers of a fixed width as bytes, the least significant byte first.
-/

namespace Volparossa

/-- The low `n` bytes of a number, the least significant first. -/
def littleEndian : ℕ → ℕ → Bytes
  | 0, _ => []
  | n + 1, value => (value % 256).toUInt8 :: littleEndian n (value / 256)

/-- The number of some bytes, the least significant first. -/
def ofLittleEndian : Bytes → ℕ
  | [] => 0
  | b :: rest => b.toNat + 256 * ofLittleEndian rest

@[simp] theorem length_littleEndian (n value : ℕ) : (littleEndian n value).length = n := by
  induction n generalizing value with
  | zero => rfl
  | succ n ih => simp [littleEndian, ih]

theorem ofLittleEndian_littleEndian {n value : ℕ} (h : value < 256 ^ n) :
    ofLittleEndian (littleEndian n value) = value := by
  induction n generalizing value with
  | zero =>
    have : value = 0 := by simpa using h
    rw [this]
    rfl
  | succ n ih =>
    have hrest : value / 256 < 256 ^ n := by
      rw [Nat.div_lt_iff_lt_mul (by norm_num), ← Nat.pow_succ]
      exact h
    rw [littleEndian, ofLittleEndian, ih hrest,
      Protobuf.toNat_toUInt8 (Nat.mod_lt value (by norm_num))]
    exact Nat.mod_add_div value 256

end Volparossa
