import Mathlib

/-!
# Lists in pieces of a fixed length

A list is cut into pieces of length `n`, the last of which may be shorter. `Sized` says that some
lists have the lengths of the first pieces of a list, so that they are these pieces as soon as their
concatenation starts the list (`Sized.eq_take_pieces`).
-/

namespace Volparossa

variable {α : Type*} (n : ℕ)

/-- The piece with a number. -/
def piece (w : List α) (i : ℕ) : List α := (w.drop (i * n)).take n

/-- How many pieces a list of some length has. -/
def pieceCount (length : ℕ) : ℕ := (length + n - 1) / n

/-- All pieces. -/
def pieces (w : List α) : List (List α) := (List.range (pieceCount n w.length)).map (piece n w)

variable {n} {w : List α}

theorem lt_pieceCount (hn : 0 < n) {i length : ℕ} : i < pieceCount n length ↔ i * n < length := by
  unfold pieceCount
  rw [Nat.lt_iff_add_one_le, Nat.le_div_iff_mul_le hn, Nat.add_mul]
  omega

@[simp] theorem length_piece (i : ℕ) : (piece n w i).length = min (w.length - i * n) n := by
  simp [piece, Nat.min_comm]

@[simp] theorem length_pieces : (pieces n w).length = pieceCount n w.length := by
  simp [pieces]

theorem piece_drop (i : ℕ) : piece n (w.drop n) i = piece n w (i + 1) := by
  rw [piece, piece, List.drop_drop, Nat.add_mul, Nat.one_mul, Nat.add_comm]

theorem pieceCount_sub (hn : 0 < n) {length : ℕ} (h : 0 < length) :
    pieceCount n length = pieceCount n (length - n) + 1 := by
  unfold pieceCount
  rcases Nat.lt_or_ge length n with hlt | hge
  · rw [Nat.sub_eq_zero_of_le (Nat.le_of_lt hlt), Nat.zero_add,
      Nat.div_eq_of_lt (by omega : n - 1 < n),
      show length + n - 1 = n + (length - 1) by omega, Nat.add_div_left _ hn,
      Nat.div_eq_of_lt (by omega)]
  · rw [show length + n - 1 = (length - n + n - 1) + n by omega, Nat.add_div_right _ hn]

/-- The first piece, and the pieces of the rest. -/
theorem pieces_eq_cons (hn : 0 < n) (hw : w ≠ []) :
    pieces n w = w.take n :: pieces n (w.drop n) := by
  have hlength : 0 < w.length := List.length_pos_of_ne_nil hw
  rw [pieces, pieceCount_sub hn hlength, List.range_succ_eq_map, List.map_cons, List.map_map,
    pieces, List.length_drop]
  congr 1
  · simp [piece]
  · exact List.map_congr_left fun i _ => (piece_drop i).symm

/-- Consecutive pieces make up a part of the list. -/
theorem flatten_pieces (hn : 0 < n) (first count : ℕ) :
    (((pieces n w).drop first).take count).flatten = (w.drop (first * n)).take (count * n) := by
  induction first generalizing w with
  | zero =>
    rw [List.drop_zero, Nat.zero_mul, List.drop_zero]
    induction count generalizing w with
    | zero => simp
    | succ count ih =>
      by_cases hw : w = []
      · subst hw
        simp [pieces, pieceCount, Nat.div_eq_of_lt (Nat.sub_lt hn Nat.one_pos)]
      · rw [pieces_eq_cons hn hw, List.take_succ_cons, List.flatten_cons, ih, Nat.add_mul,
          Nat.one_mul, Nat.add_comm, List.take_add]
  | succ first ih =>
    by_cases hw : w = []
    · subst hw
      simp [pieces, pieceCount, Nat.div_eq_of_lt (Nat.sub_lt hn Nat.one_pos)]
    · rw [pieces_eq_cons hn hw, List.drop_succ_cons, ih, List.drop_drop, Nat.add_mul, Nat.one_mul,
        Nat.add_comm]

theorem take_succ_pieces {i : ℕ} (h : i < pieceCount n w.length) :
    (pieces n w).take (i + 1) = (pieces n w).take i ++ [piece n w i] := by
  have hi : i < (pieces n w).length := by rwa [length_pieces]
  rw [List.take_succ_eq_append_getElem hi]
  simp [pieces]

variable (n) in
/-- Lists with the lengths of the first pieces of a list of some length. -/
def Sized : ℕ → List (List α) → Prop
  | _, [] => True
  | length, l :: ls => l.length = min length n ∧ Sized (length - n) ls

theorem Sized.length_flatten {length : ℕ} {ls : List (List α)} (h : Sized n length ls) :
    ls.flatten.length = min length (ls.length * n) := by
  induction ls generalizing length with
  | nil => simp
  | cons l ls ih =>
    obtain ⟨hl, hls⟩ := h
    rw [List.flatten_cons, List.length_append, ih hls, hl, List.length_cons, Nat.add_mul]
    omega

/-- Lists with the lengths of the first pieces are these pieces, if they start the list. -/
theorem Sized.eq_take_pieces (hn : 0 < n) {ls : List (List α)} (h : Sized n w.length ls)
    (hle : ls.length ≤ pieceCount n w.length) (hw : ls.flatten <+: w) :
    ls = (pieces n w).take ls.length := by
  induction ls generalizing w with
  | nil => rfl
  | cons l ls ih =>
    obtain ⟨hl, hls⟩ := h
    rw [List.flatten_cons] at hw
    rw [List.length_cons] at hle ⊢
    have hne : w ≠ [] := by
      rintro rfl
      have hpos : 0 * n < ([] : List α).length := (lt_pieceCount hn).mp (by omega)
      simp at hpos
    have hfirst : l = w.take n := by
      have hprefix := (List.prefix_append l ls.flatten).trans hw
      rw [List.prefix_iff_eq_take.mp hprefix, hl]
      rcases Nat.le_total w.length n with hle | hle
      · rw [Nat.min_eq_left hle, List.take_length, List.take_of_length_le hle]
      · rw [Nat.min_eq_right hle]
    rw [pieces_eq_cons hn hne, List.take_succ_cons, ← hfirst]
    congr 1
    rw [pieceCount_sub hn (List.length_pos_of_ne_nil hne)] at hle
    refine ih (by rwa [List.length_drop]) (by rw [List.length_drop]; omega) ?_
    obtain ⟨rest, hrest⟩ := hw
    rcases Nat.lt_or_ge w.length n with hlt | hge
    · -- the list has no second piece
      have hempty : ls.flatten.length = 0 := by rw [hls.length_flatten]; omega
      rw [List.eq_nil_of_length_eq_zero hempty]
      exact List.nil_prefix
    · refine ⟨rest, ?_⟩
      have hlen : l.length = n := by omega
      rw [← hrest, List.append_assoc, ← hlen, List.drop_left]

end Volparossa
