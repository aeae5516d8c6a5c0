import Mathlib

/-!
# Strictly increasing lists

A list is increasing when each element comes before the next one (`Increasing`), which is what a
loop over it checks that remembers the previous element (`increasing_concat`). When the order is
transitive, each element then comes before all later ones (`Increasing.pairwise`) and none occurs
twice (`Increasing.nodup`).
-/

namespace Volparossa

variable {α : Type*} [Ord α]

/-- Each element comes before the next one. -/
def Increasing (l : List α) : Prop := l.IsChain fun a b => compare a b = .lt

instance (l : List α) : Decidable (Increasing l) :=
  inferInstanceAs (Decidable (l.IsChain fun a b => compare a b = .lt))

theorem increasing_nil : Increasing ([] : List α) := List.isChain_nil

/-- What a loop checks that remembers the previous element. -/
theorem increasing_concat {l : List α} {a : α} :
    Increasing (l ++ [a]) ↔ Increasing l ∧ ∀ b ∈ l.getLast?, compare b a = .lt := by
  simp [Increasing, List.isChain_append]

namespace Increasing

variable [Std.TransOrd α] {l : List α}

/-- Each element comes before all later ones. -/
theorem pairwise (h : Increasing l) : l.Pairwise fun a b => compare a b = .lt :=
  have : Trans (fun a b : α => compare a b = .lt) (fun a b => compare a b = .lt)
      (fun a b => compare a b = .lt) := ⟨Std.TransCmp.lt_trans⟩
  List.isChain_iff_pairwise.mp h

theorem nodup (h : Increasing l) : l.Nodup := by
  refine h.pairwise.imp fun {a b} hab heq => ?_
  rw [heq, Std.compare_self] at hab
  cases hab

end Increasing

end Volparossa
