import Volparossa.Foundations.FixedBytes

/-!
# SHA-256

The digest of a byte string, for the evaluation of closed runs. A word is a number below `2 ^ 32`.
The sixteen words of a block, and then of the window that the message schedule moves along, are the
digits of one number, the first word the least significant: taking the next window is then a shift,
and not a copy of a list.

The operations on words are written with the functions on numbers that the kernel evaluates
directly.
-/

namespace Volparossa.Sha256

/-! ## Words -/

def word (n : ℕ) : ℕ := Nat.mod n 4294967296

/-- Rotation to the right. -/
def rotr (k x : ℕ) : ℕ := Nat.lor (Nat.shiftRight x k) (word (Nat.shiftLeft x (Nat.sub 32 k)))

def xor3 (x y z : ℕ) : ℕ := Nat.xor (Nat.xor x y) z

def sigma0 (x : ℕ) : ℕ := xor3 (rotr 7 x) (rotr 18 x) (Nat.shiftRight x 3)

def sigma1 (x : ℕ) : ℕ := xor3 (rotr 17 x) (rotr 19 x) (Nat.shiftRight x 10)

def bigSigma0 (x : ℕ) : ℕ := xor3 (rotr 2 x) (rotr 13 x) (rotr 22 x)

def bigSigma1 (x : ℕ) : ℕ := xor3 (rotr 6 x) (rotr 11 x) (rotr 25 x)

/-- The bits of `y` where `x` has ones, and those of `z` elsewhere. -/
def choose (x y z : ℕ) : ℕ := Nat.xor z (Nat.land x (Nat.xor y z))

def majority (x y z : ℕ) : ℕ := xor3 (Nat.land x y) (Nat.land x z) (Nat.land y z)

/-! ## Blocks -/

/-- The chaining state. -/
structure State where
  a : ℕ
  b : ℕ
  c : ℕ
  d : ℕ
  e : ℕ
  f : ℕ
  g : ℕ
  h : ℕ

def initial : State :=
  ⟨0x6a09e667, 0xbb67ae85, 0x3c6ef372, 0xa54ff53a, 0x510e527f, 0x9b05688c, 0x1f83d9ab, 0x5be0cd19⟩

/-- The constants of the rounds. -/
def constants : List ℕ :=
  [0x428a2f98, 0x71374491, 0xb5c0fbcf, 0xe9b5dba5, 0x3956c25b, 0x59f111f1, 0x923f82a4, 0xab1c5ed5,
    0xd807aa98, 0x12835b01, 0x243185be, 0x550c7dc3, 0x72be5d74, 0x80deb1fe, 0x9bdc06a7, 0xc19bf174,
    0xe49b69c1, 0xefbe4786, 0x0fc19dc6, 0x240ca1cc, 0x2de92c6f, 0x4a7484aa, 0x5cb0a9dc, 0x76f988da,
    0x983e5152, 0xa831c66d, 0xb00327c8, 0xbf597fc7, 0xc6e00bf3, 0xd5a79147, 0x06ca6351, 0x14292967,
    0x27b70a85, 0x2e1b2138, 0x4d2c6dfc, 0x53380d13, 0x650a7354, 0x766a0abb, 0x81c2c92e, 0x92722c85,
    0xa2bfe8a1, 0xa81a664b, 0xc24b8b70, 0xc76c51a3, 0xd192e819, 0xd6990624, 0xf40e3585, 0x106aa070,
    0x19a4c116, 0x1e376c08, 0x2748774c, 0x34b0bcb5, 0x391c0cb3, 0x4ed8aa4a, 0x5b9cca4f, 0x682e6ff3,
    0x748f82ee, 0x78a5636f, 0x84c87814, 0x8cc70208, 0x90befffa, 0xa4506ceb, 0xbef9a3f7, 0xc67178f2]

/-- The word of a window at a place. -/
def wordAt (window i : ℕ) : ℕ := word (Nat.shiftRight window (Nat.mul 32 i))

/-- The next window of the message schedule. -/
def schedule (window : ℕ) : ℕ :=
  window >>> 32 + word (sigma1 (wordAt window 14) + wordAt window 9 + sigma0 (wordAt window 1) +
    wordAt window 0) <<< 480

/-- One round for each constant. -/
def rounds : List ℕ → ℕ → State → State
  | [], _, s => s
  | k :: ks, window, ⟨a, b, c, d, e, f, g, h⟩ =>
    let t := h + bigSigma1 e + choose e f g + k + wordAt window 0
    rounds ks (schedule window)
      ⟨word (t + bigSigma0 a + majority a b c), a, b, c, word (d + t), e, f, g⟩

def State.add (s t : State) : State :=
  ⟨word (s.a + t.a), word (s.b + t.b), word (s.c + t.c), word (s.d + t.d), word (s.e + t.e),
    word (s.f + t.f), word (s.g + t.g), word (s.h + t.h)⟩

def compress (s : State) (block : ℕ) : State := s.add (rounds constants block s)

/-- The words of a message, as the digits of a number. -/
def words : Bytes → ℕ
  | a :: b :: c :: d :: rest =>
    ((a.toNat * 256 + b.toNat) * 256 + c.toNat) * 256 + d.toNat + words rest <<< 32
  | _ => 0

def compressBlocks : ℕ → ℕ → State → State
  | 0, _, s => s
  | n + 1, message, s => compressBlocks n (message >>> 512) (compress s (message % 2 ^ 512))

/-! ## The digest -/

/-- The padded message: a one bit, zeros up to a whole block, and the length in bits. -/
def pad (b : Bytes) : Bytes :=
  b ++ 0x80 :: (List.replicate ((119 - b.length % 64) % 64) 0 ++
    (FixedBytes.ofNat 8 (8 * b.length)).toBytes)

def State.bytes (s : State) : FixedBytes 32 :=
  FixedBytes.ofNat 32
    ([s.a, s.b, s.c, s.d, s.e, s.f, s.g, s.h].foldl (fun n x => n <<< 32 + x) 0)

/-- **The SHA-256 digest.** -/
def digest (b : Bytes) : FixedBytes 32 :=
  (compressBlocks ((b.length + 72) / 64) (words (pad b)) initial).bytes

example : digest [97, 98, 99] =
    .ofNat 32 0xba7816bf8f01cfea414140de5dae2223b00361a396177a9cb410ff61f20015ad := by
  decide +kernel

end Volparossa.Sha256
