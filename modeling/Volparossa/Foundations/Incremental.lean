import Mathlib

/-!
# Readers that are fed in pieces

A reader takes units off the front of a buffer until it decides or has too little to go on. A piece
of input is appended to what is buffered, and the reader goes on from there. `Reader` asks that a
turn which is not starved does not depend on what follows in the buffer, and that a turn which goes
on uses some of the buffer up. Then the outcome depends on the whole input and not on how it was cut
(`Reader.feed_eq`).
-/

namespace Volparossa

variable {σ ο β : Type*}

/-- What one turn of a reader makes of its buffer. -/
inductive Turn (σ ο β : Type*) where
  /-- The buffer is too short. -/
  | starved
  /-- The reader stops, with what it leaves behind. -/
  | decided (outcome : ο) (state : σ) (rest : List β)
  /-- The reader goes on with the rest of the buffer. -/
  | advanced (state : σ) (rest : List β)

/-- The same turn with more in the buffer behind it. -/
def Turn.extend (more : List β) : Turn σ ο β → Turn σ ο β
  | .starved => .starved
  | .decided outcome state rest => .decided outcome state (rest ++ more)
  | .advanced state rest => .advanced state (rest ++ more)

/-- A reader of buffered input, whose turns do not look beyond what they use. -/
structure Reader (σ ο β : Type*) where
  turn : σ → List β → Turn σ ο β
  extend : ∀ s buffer more, turn s buffer ≠ .starved →
    turn s (buffer ++ more) = (turn s buffer).extend more
  shrinks : ∀ s buffer s' rest, turn s buffer = .advanced s' rest → rest.length < buffer.length

namespace Reader

variable (reader : Reader σ ο β) {s s' : σ} {buffer rest more : List β} {outcome : ο}

/-- Take turns, at most `fuel` of them. -/
def drain : ℕ → σ → List β → Option ο × σ × List β
  | 0, s, buffer => (none, s, buffer)
  | fuel + 1, s, buffer =>
    match reader.turn s buffer with
    | .starved => (none, s, buffer)
    | .decided outcome s' rest => (some outcome, s', rest)
    | .advanced s' rest => drain fuel s' rest

/-- Take turns until the reader decides or is starved. -/
def read (s : σ) (buffer : List β) : Option ο × σ × List β :=
  reader.drain (buffer.length + 1) s buffer

/-- More turns than the buffer is long are never taken. -/
theorem drain_congr {k m : ℕ} (hk : buffer.length < k) (hm : buffer.length < m) :
    reader.drain k s buffer = reader.drain m s buffer := by
  induction k generalizing s buffer m with
  | zero => omega
  | succ k ih =>
    obtain ⟨m, rfl⟩ := Nat.exists_eq_succ_of_ne_zero (show m ≠ 0 by omega)
    simp only [drain]
    split
    · rfl
    · rfl
    · rename_i s' rest hturn
      have hshrinks := reader.shrinks _ _ _ _ hturn
      exact ih (by omega) (by omega)

theorem read_of_starved (h : reader.turn s buffer = .starved) :
    reader.read s buffer = (none, s, buffer) := by
  simp only [read, drain, h]

theorem read_of_decided (h : reader.turn s buffer = .decided outcome s' rest) :
    reader.read s buffer = (some outcome, s', rest) := by
  simp only [read, drain, h]

theorem read_of_advanced (h : reader.turn s buffer = .advanced s' rest) :
    reader.read s buffer = reader.read s' rest := by
  have hshrinks := reader.shrinks _ _ _ _ h
  simp only [read, drain, h]
  exact reader.drain_congr hshrinks (Nat.lt_succ_self _)

/-- What every turn that goes on preserves holds where the reader is starved. -/
theorem read_invariant (P : σ → List β → Prop)
    (hturn : ∀ s buffer s' rest, P s buffer → reader.turn s buffer = .advanced s' rest → P s' rest)
    (hs : P s buffer) (h : reader.read s buffer = (none, s', rest)) : P s' rest := by
  induction hlength : buffer.length using Nat.strongRecOn generalizing s buffer with
  | ind n ih =>
    cases ht : reader.turn s buffer with
    | starved =>
      rw [reader.read_of_starved ht] at h
      cases h
      exact hs
    | decided outcome s₁ rest₁ =>
      rw [reader.read_of_decided ht] at h
      cases h
    | advanced s₁ rest₁ =>
      rw [reader.read_of_advanced ht] at h
      exact ih rest₁.length (hlength ▸ reader.shrinks _ _ _ _ ht) (hturn _ _ _ _ hs ht) h rfl

/-- What follows in the buffer has no part in what is read from it: either the reader decides
regardless of it, or it is read from where the reader is left. -/
theorem read_append (s : σ) (buffer more : List β) :
    (∃ outcome s' rest, reader.read s buffer = (some outcome, s', rest) ∧
      reader.read s (buffer ++ more) = (some outcome, s', rest ++ more)) ∨
    ∃ s' rest, reader.read s buffer = (none, s', rest) ∧ reader.turn s' rest = .starved ∧
      reader.read s (buffer ++ more) = reader.read s' (rest ++ more) := by
  induction hlength : buffer.length using Nat.strongRecOn generalizing s buffer with
  | ind n ih =>
    cases hturn : reader.turn s buffer with
    | starved => exact .inr ⟨s, buffer, reader.read_of_starved hturn, hturn, rfl⟩
    | decided outcome s' rest =>
      have hextend := reader.extend s buffer more (by simp [hturn])
      rw [hturn] at hextend
      exact .inl ⟨outcome, s', rest, reader.read_of_decided hturn, reader.read_of_decided hextend⟩
    | advanced s' rest =>
      have hextend := reader.extend s buffer more (by simp [hturn])
      rw [hturn] at hextend
      rw [reader.read_of_advanced hturn, reader.read_of_advanced hextend]
      exact ih rest.length (hlength ▸ reader.shrinks _ _ _ _ hturn) s' rest rfl

/-- Feed a reader piece after piece: the first outcome it decides on. -/
def feed : σ → List β → List (List β) → Option ο
  | _, _, [] => none
  | s, buffer, piece :: pieces =>
    match reader.read s (buffer ++ piece) with
    | (some outcome, _, _) => some outcome
    | (none, s', rest) => feed s' rest pieces

/-- **The outcome depends on the input, not on the pieces it came in.** -/
theorem feed_eq (h : reader.turn s buffer = .starved) (pieces : List (List β)) :
    reader.feed s buffer pieces = (reader.read s (buffer ++ pieces.flatten)).1 := by
  induction pieces generalizing s buffer with
  | nil => rw [List.flatten_nil, List.append_nil, reader.read_of_starved h]; rfl
  | cons piece pieces ih =>
    rw [List.flatten_cons, ← List.append_assoc]
    rcases reader.read_append s (buffer ++ piece) pieces.flatten with
      ⟨outcome, s', rest, hread, happend⟩ | ⟨s', rest, hread, hstarved, happend⟩
    · rw [happend, feed, hread]
    · rw [happend, feed, hread]
      exact ih hstarved

end Reader

end Volparossa
