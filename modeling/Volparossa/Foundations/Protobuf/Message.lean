import Volparossa.Foundations.Protobuf.Wire

/-!
# Protobuf messages

A message type (`Message`) says which fields a value is written as, in the order of their numbers
and without the fields at their defaults, and how reading one field changes a value. Encoding
writes the fields; decoding starts from the default value and merges the fields it reads, one
after the other, as `proto3` has it: a scalar is replaced, a repeated field grows by one element,
an embedded message is merged into the one that is there.

`uint`, `enumeration`, `boolean`, `bytes`, `message`, `packed`, `repeatedBytes` and
`repeatedMessage` are the kinds of fields, with bounds on their sizes (`length_uint_le`, …).
`LawfulMessage` records the round trip of a message type: decoding inverts encoding on the values
whose integers fit their types (`decode_encode`).
-/

namespace Volparossa.Protobuf

/-- A message type: its default value, the fields a value is written as, and how a value changes
when a field is read. -/
class Message (M : Type) where
  default : M
  fields : M → List Field
  mergeField : M → Field → Option M

variable {M N : Type} [Message M] [Message N]

/-- The encoding of a message. -/
def encode (m : M) : Bytes := encodeFields (Message.fields m)

/-- Read fields into `m`. -/
def merge (m : M) (b : Bytes) : Option M := do
  let fs ← decodeFields b
  fs.foldlM Message.mergeField m

/-- The message that `b` encodes. -/
def decode (b : Bytes) : Option M := merge Message.default b

/-! ## Kinds of fields -/

/-- An unsigned integer; zero is not written. -/
def uint (tag n : ℕ) : List Field := if n = 0 then [] else [⟨tag, .varint n⟩]

/-- The signed 32-bit integer that a varint stands for. -/
def int32 (n : ℕ) : ℤ := if n % 2 ^ 32 < 2 ^ 31 then (n % 2 ^ 32 : ℕ) else (n % 2 ^ 32 : ℕ) - 2 ^ 32

/-- The varint of a signed integer, its two's complement of 64 bits. -/
def ofInt (v : ℤ) : ℕ := (v % 2 ^ 64).toNat

/-- The number of an enumeration's value; zero is not written. -/
def enumeration (tag : ℕ) (v : ℤ) : List Field := uint tag (ofInt v)

/-- A truth value; `false` is not written. -/
def boolean (tag : ℕ) (b : Bool) : List Field := uint tag b.toNat

/-- Integers one after the other in one field; the empty list is not written. -/
def packed (tag : ℕ) (ns : List ℕ) : List Field :=
  if ns = [] then [] else [⟨tag, .len (ns.flatMap encodeVarint)⟩]

/-- Read packed integers until the input is used up; `fuel` bounds their number. -/
def unpackAux : ℕ → Bytes → Option (List ℕ)
  | _, [] => some []
  | 0, _ :: _ => none
  | fuel + 1, b :: bs => do
    let (n, rest) ← decodeVarint (b :: bs)
    (unpackAux fuel rest).map (n :: ·)

/-- The integers of a packed field. An integer has at least one byte. -/
def unpack (b : Bytes) : Option (List ℕ) := unpackAux b.length b

/-- The ranges of the bytes that may follow a byte that starts a character of UTF-8. -/
def utf8Tail (b : UInt8) : Option (List (UInt8 × UInt8)) :=
  if b < 0x80 then some []
  else if b < 0xC2 then none
  else if b < 0xE0 then some [(0x80, 0xBF)]
  else if b = 0xE0 then some [(0xA0, 0xBF), (0x80, 0xBF)]
  else if b = 0xED then some [(0x80, 0x9F), (0x80, 0xBF)]
  else if b < 0xF0 then some [(0x80, 0xBF), (0x80, 0xBF)]
  else if b = 0xF0 then some [(0x90, 0xBF), (0x80, 0xBF), (0x80, 0xBF)]
  else if b < 0xF4 then some [(0x80, 0xBF), (0x80, 0xBF), (0x80, 0xBF)]
  else if b = 0xF4 then some [(0x80, 0x8F), (0x80, 0xBF), (0x80, 0xBF)]
  else none

/-- Read one byte of UTF-8 when bytes in the given ranges are to follow. -/
def utf8Step (expected : List (UInt8 × UInt8)) (b : UInt8) : Option (List (UInt8 × UInt8)) :=
  match expected with
  | [] => utf8Tail b
  | (low, high) :: rest => if low ≤ b ∧ b ≤ high then some rest else none

/-- Whether bytes are the UTF-8 encoding of a text. -/
def isUtf8 (b : Bytes) : Bool := b.foldlM utf8Step [] = some []

/-- A byte string, or a text as its UTF-8 bytes; the empty one is not written. -/
def bytes (tag : ℕ) (b : Bytes) : List Field := if b = [] then [] else [⟨tag, .len b⟩]

/-- An optional embedded message. -/
def message (tag : ℕ) (m : Option N) : List Field :=
  match m with
  | none => []
  | some m => [⟨tag, .len (encode m)⟩]

/-- Byte strings, each written. -/
def repeatedBytes (tag : ℕ) (bs : List Bytes) : List Field := bs.map fun b => ⟨tag, .len b⟩

/-- Embedded messages, each written. -/
def repeatedMessage (tag : ℕ) (ms : List N) : List Field := ms.map fun m => ⟨tag, .len (encode m)⟩

/-! ## Round trip -/

/-- The tags of fields are valid, and their integers have 64 bits. -/
def Bounded (fs : List Field) : Prop :=
  ∀ f ∈ fs, 0 < f.tag ∧ f.tag < 2 ^ 29 ∧ ∀ n, f.value = .varint n → n < 2 ^ 64

namespace Bounded

theorem append {fs gs : List Field} (h : Bounded fs) (h' : Bounded gs) : Bounded (fs ++ gs) :=
  List.forall_mem_append.mpr ⟨h, h'⟩

/-- Bounded fields fit when their encoding does. -/
theorem fits {fs : List Field} (h : Bounded fs) (hlen : (encodeFields fs).length < 2 ^ 64) :
    ∀ f ∈ fs, f.Fits := by
  rintro ⟨tag, value⟩ hf
  obtain ⟨hpos, htag, hvalue⟩ := h _ hf
  refine ⟨hpos, htag, ?_⟩
  cases value with
  | varint n => exact hvalue n rfl
  | len b => exact lt_of_le_of_lt (length_le_of_len_mem hf) hlen

variable {tag : ℕ} (htag : 0 < tag ∧ tag < 2 ^ 29)

include htag

theorem single {v : Value} (hv : ∀ n, v = .varint n → n < 2 ^ 64) : Bounded [⟨tag, v⟩] := by
  intro f hf
  obtain rfl := List.mem_singleton.mp hf
  exact ⟨htag.1, htag.2, hv⟩

theorem repeated {α : Type} (e : α → Bytes) (l : List α) :
    Bounded (l.map fun a => ⟨tag, .len (e a)⟩) := by
  intro f hf
  obtain ⟨a, -, rfl⟩ := List.mem_map.mp hf
  exact ⟨htag.1, htag.2, by rintro n ⟨⟩⟩

end Bounded

/-- A message type whose values decode to themselves when their integers fit their types. -/
class LawfulMessage (M : Type) [Message M] where
  /-- The integers of a message fit their types. -/
  Fits : M → Prop
  bounded : ∀ {m : M}, Fits m → Bounded (Message.fields m)
  merges : ∀ {m : M}, Fits m → (encode m).length < 2 ^ 64 →
    (Message.fields m).foldlM Message.mergeField (Message.default : M) = some m

export LawfulMessage (Fits)

/-- **Decoding inverts encoding.** -/
theorem decode_encode [LawfulMessage M] {m : M} (h : Fits m) (hlen : (encode m).length < 2 ^ 64) :
    decode (encode m) = some m := by
  rw [decode, merge, encode, decodeFields_encodeFields _ ((LawfulMessage.bounded h).fits hlen)]
  exact LawfulMessage.merges h hlen

/-! ## Sizes -/

section Sizes

theorem length_uint_le (tag k : ℕ) {n : ℕ} (h : n < 128 ^ (k + 1)) (htag : tag < 16 := by decide) :
    (encodeFields (uint tag n)).length ≤ k + 2 := by
  unfold uint
  split
  · simp
  · have := Field.length_encode_le (f := ⟨tag, .varint n⟩) htag
    have hv := length_encodeVarint_le k h
    simp only [Value.encode] at this
    simp only [encodeFields_cons, encodeFields_nil, List.append_nil]
    omega

theorem length_len_le {tag : ℕ} (htag : tag < 16) (k : ℕ) {b : Bytes}
    (h : b.length < 128 ^ (k + 1)) :
    (encodeFields [⟨tag, .len b⟩]).length ≤ k + 2 + b.length := by
  have := Field.length_encode_le (f := ⟨tag, .len b⟩) htag
  have hv := length_encodeVarint_le k h
  simp only [Value.encode, List.length_append] at this
  simp only [encodeFields_cons, encodeFields_nil, List.append_nil]
  omega

theorem length_bytes_le (tag k : ℕ) {b : Bytes} (h : b.length < 128 ^ (k + 1))
    (htag : tag < 16 := by decide) :
    (encodeFields (bytes tag b)).length ≤ k + 2 + b.length := by
  unfold bytes
  split
  · simp
  · exact length_len_le htag k h

theorem length_message_le (tag k n : ℕ) {m : Option N}
    (h : ∀ x, m = some x → (encode x).length ≤ n) (hn : n < 128 ^ (k + 1) := by decide)
    (htag : tag < 16 := by decide) : (encodeFields (message tag m)).length ≤ k + 2 + n := by
  cases m with
  | none => simp [message]
  | some x =>
    have hx := h x rfl
    have := length_len_le htag k (lt_of_le_of_lt hx hn)
    simp only [message]
    omega

/-- A repeated field takes the bytes of its elements and a header for each. -/
theorem length_repeated_le {α : Type} (tag : ℕ) {e : α → Bytes} (k : ℕ) {l : List α}
    (h : ∀ a ∈ l, (e a).length < 128 ^ (k + 1)) (htag : tag < 16 := by decide) :
    (encodeFields (l.map fun a => ⟨tag, .len (e a)⟩)).length ≤
      (k + 2) * l.length + (l.map fun a => (e a).length).sum := by
  induction l with
  | nil => simp
  | cons a l ih =>
    have hrest := ih fun b hb => h b (by simp [hb])
    have hhead := length_len_le htag k (h a (by simp))
    simp only [encodeFields_cons, encodeFields_nil, List.append_nil] at hhead
    simp only [List.map_cons, encodeFields_cons, List.length_append, List.length_cons,
      List.sum_cons]
    have : (k + 2) * (l.length + 1) = (k + 2) * l.length + (k + 2) := by ring
    omega

/-- A repeated field of messages of at most `n` bytes each. -/
theorem length_repeatedMessage_le (tag k n : ℕ) {l : List N}
    (h : ∀ m ∈ l, (encode m).length ≤ n) (hn : n < 128 ^ (k + 1) := by decide)
    (htag : tag < 16 := by decide) :
    (encodeFields (repeatedMessage tag l)).length ≤ (k + 2 + n) * l.length := by
  have hrep := length_repeated_le tag (e := encode) k (l := l)
    (fun m hm => lt_of_le_of_lt (h m hm) hn) htag
  have hsum : (l.map fun m => (encode m).length).sum ≤ n * l.length := by
    clear hrep
    induction l with
    | nil => simp
    | cons m l ih =>
      have hrest := ih fun x hx => h x (by simp [hx])
      have hm := h m (by simp)
      simp only [List.map_cons, List.sum_cons, List.length_cons, Nat.mul_add, Nat.mul_one]
      omega
  have : (k + 2 + n) * l.length = (k + 2) * l.length + n * l.length := by ring
  unfold repeatedMessage
  omega

end Sizes

end Volparossa.Protobuf
