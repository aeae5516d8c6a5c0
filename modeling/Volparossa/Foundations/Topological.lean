import Mathlib

/-!
# Ordering a finite dependency graph

The nodes are the numbers below `n`, and `pred i` lists the nodes that node `i` depends on.
`schedule` takes, as long as one is left, the smallest node that is not taken yet and whose
dependencies all are. **Main results**: what it returns takes the smallest ready node at every
position (`greedy_of_schedule`) and lists every node once (`Greedy.perm`); it returns exactly for
the graphs without a cycle (`exists_schedule`, `Greedy.acyclic`). Over such an order one sweep from
the back marks exactly the nodes that a given node needs (`mem_contributors`).
-/

namespace Volparossa.Topological

open Relation

variable (pred : ℕ → List ℕ) (n : ℕ)

/-- Node `i` can be taken after the nodes `taken`: it is not among them, its dependencies are. -/
def Ready (taken : List ℕ) (i : ℕ) : Prop := i ∉ taken ∧ ∀ j ∈ pred i, j ∈ taken

instance (taken : List ℕ) (i : ℕ) : Decidable (Ready pred taken i) :=
  inferInstanceAs (Decidable (_ ∧ _))

/-- Take the smallest ready node, `k` times after the nodes `taken`. -/
def schedule : ℕ → List ℕ → Option (List ℕ)
  | 0, taken => some taken
  | k + 1, taken => do
    let i ← (List.range n).find? fun i => Ready pred taken i
    schedule k (taken ++ [i])

/-- The order takes the smallest ready node at every position. -/
def Greedy (order : List ℕ) : Prop :=
  ∀ before i after, order = before ++ i :: after → IsLeast {j | j < n ∧ Ready pred before j} i

/-- The nodes that `output` needs: the last node of the order first, each marked node marks its
dependencies. -/
def contributors (output : ℕ) (order : List ℕ) : List ℕ :=
  order.foldr (fun i marked => if i ∈ marked then marked ++ pred i else marked) [output]

variable {pred n}

/-! ## The order -/

theorem isLeast_of_find? {taken : List ℕ} {i : ℕ}
    (h : ((List.range n).find? fun i => Ready pred taken i) = some i) :
    IsLeast {j | j < n ∧ Ready pred taken j} i := by
  obtain ⟨hi, hn, hlt⟩ := List.find?_range_eq_some.mp h
  refine ⟨⟨List.mem_range.mp hn, of_decide_eq_true hi⟩, fun j hj => ?_⟩
  by_contra hji
  simpa [hj.2] using hlt j (Nat.lt_of_not_le hji)

/-- **Every position of the schedule holds the smallest ready node.** -/
theorem greedy_of_schedule {k : ℕ} {taken order : List ℕ}
    (h : schedule pred n k taken = some order) :
    ∃ rest, order = taken ++ rest ∧ rest.length = k ∧ ∀ before i after,
      rest = before ++ i :: after → IsLeast {j | j < n ∧ Ready pred (taken ++ before) j} i := by
  induction k generalizing taken with
  | zero =>
    obtain rfl := Option.some.inj h
    exact ⟨[], by simp, rfl, by simp⟩
  | succ k ih =>
    obtain ⟨i, hi, h⟩ := Option.bind_eq_some_iff.mp h
    obtain ⟨rest, rfl, hlen, hrest⟩ := ih h
    refine ⟨i :: rest, by simp, by simp [hlen], fun before j after hsplit => ?_⟩
    cases before with
    | nil =>
      obtain ⟨rfl, -⟩ := List.cons.inj hsplit
      simpa using isLeast_of_find? hi
    | cons b before =>
      obtain ⟨rfl, htail⟩ := List.cons.inj hsplit
      simpa using hrest before j after htail

namespace Greedy

variable {order : List ℕ} (h : Greedy pred n order)

include h

/-- A node comes after its dependencies, and neither equals nor is needed by an earlier node. -/
theorem pairwise : order.Pairwise fun a b => a ≠ b ∧ b ∉ pred a := by
  refine List.pairwise_iff_forall_sublist.mpr fun {a b} hab => ?_
  obtain ⟨before, after, rfl, ha, hb⟩ := List.cons_sublist_iff.mp hab
  obtain ⟨s, t, rfl⟩ := List.append_of_mem ha
  obtain ⟨s', t', rfl⟩ := List.append_of_mem (List.singleton_sublist.mp hb)
  obtain ⟨⟨-, hb, -⟩, -⟩ := h (s ++ a :: t ++ s') b t' (by simp)
  obtain ⟨⟨-, -, ha⟩, -⟩ := h s a (t ++ (s' ++ b :: t')) (by simp)
  exact ⟨by rintro rfl; simp at hb, fun hpred => hb (by simp [ha b hpred])⟩

theorem perm (hlen : order.length = n) : order.Perm (List.range n) := by
  have hnodup : order.Nodup := h.pairwise.imp And.left
  refine (List.subperm_of_subset hnodup fun i hi => ?_).perm_of_length_le (by simp [hlen])
  obtain ⟨s, t, hst⟩ := List.append_of_mem hi
  exact List.mem_range.mpr (h s i t hst).1.1

/-- **A graph with such an order has no cycle**: positions decrease along dependencies. -/
theorem acyclic (hmem : ∀ i, ∀ j ∈ pred i, i ∈ order) (i : ℕ) :
    ¬TransGen (fun i j => j ∈ pred i) i i := by
  intro hcycle
  have hlt : ∀ i j, j ∈ pred i → order.idxOf i > order.idxOf j := by
    intro i j hj
    obtain ⟨s, t, rfl⟩ := List.append_of_mem (hmem i j hj)
    obtain ⟨⟨-, hi, hdeps⟩, -⟩ := h s i t rfl
    rw [List.idxOf_append_of_notMem hi, List.idxOf_append_of_mem (hdeps j hj), List.idxOf_cons_self]
    exact List.idxOf_lt_length_of_mem (hdeps j hj)
  have hpos : TransGen (· > ·) (order.idxOf i) (order.idxOf i) := hcycle.lift order.idxOf hlt
  rw [transGen_eq_self] at hpos
  exact Nat.lt_irrefl _ hpos

end Greedy

section

variable (hacyclic : ∀ i, ¬TransGen (fun i j => j ∈ pred i) i i)

include hacyclic

/-- Among some nodes of a graph without a cycle, one needs none of the others. -/
theorem exists_first {l : List ℕ} (hl : l ≠ []) :
    ∃ i ∈ l, ∀ j ∈ l, ¬TransGen (fun i j => j ∈ pred i) i j := by
  induction l with
  | nil => exact absurd rfl hl
  | cons a l ih =>
    rcases eq_or_ne l [] with rfl | hl
    · exact ⟨a, by simp, by simpa using hacyclic a⟩
    · obtain ⟨i, hi, hfirst⟩ := ih hl
      by_cases ha : TransGen (fun i j => j ∈ pred i) i a
      · exact ⟨a, by simp, List.forall_mem_cons.mpr
          ⟨hacyclic a, fun j hj h => hfirst j hj (ha.trans h)⟩⟩
      · exact ⟨i, by simp [hi], List.forall_mem_cons.mpr ⟨ha, hfirst⟩⟩

/-- **A graph without a cycle has a ready node** as long as a node is left. -/
theorem exists_ready (hpred : ∀ i, ∀ j ∈ pred i, j < n) {taken : List ℕ}
    (htaken : taken.length < n) : ∃ i < n, Ready pred taken i := by
  have hleft : (List.range n).filter (· ∉ taken) ≠ [] := by
    intro hnil
    have hle := (List.subperm_of_subset List.nodup_range fun i hi => by
      simpa using List.filter_eq_nil_iff.mp hnil i hi).length_le
    rw [List.length_range] at hle
    omega
  obtain ⟨i, hi, hfirst⟩ := exists_first hacyclic hleft
  simp only [List.mem_filter, List.mem_range, decide_eq_true_eq] at hi hfirst
  exact ⟨i, hi.1, hi.2,
    fun j hj => by_contra fun hmem => hfirst j ⟨hpred i j hj, hmem⟩ (.single hj)⟩

theorem exists_schedule (hpred : ∀ i, ∀ j ∈ pred i, j < n) {k : ℕ} {taken : List ℕ}
    (hk : taken.length + k = n) :
    ∃ order, schedule pred n k taken = some order := by
  induction k generalizing taken with
  | zero => exact ⟨taken, rfl⟩
  | succ k ih =>
    obtain ⟨i, hi, hready⟩ := exists_ready hacyclic hpred (show taken.length < n by omega)
    cases hfind : (List.range n).find? fun i => Ready pred taken i with
    | none => simpa [hready] using List.find?_eq_none.mp hfind i (List.mem_range.mpr hi)
    | some i =>
      obtain ⟨order, horder⟩ := @ih (taken ++ [i]) (by simp; omega)
      exact ⟨order, by rw [schedule, hfind]; exact horder⟩

end

/-! ## The nodes an output needs -/

section

variable {output : ℕ} {order : List ℕ}

theorem mem_contributors_cons {i j : ℕ} : j ∈ contributors pred output (i :: order) ↔
    j ∈ contributors pred output order ∨ i ∈ contributors pred output order ∧ j ∈ pred i := by
  simp only [contributors, List.foldr_cons]
  split <;> simp [*]

theorem output_mem_contributors : output ∈ contributors pred output order := by
  induction order with
  | nil => exact List.mem_singleton_self _
  | cons i order ih => exact mem_contributors_cons.mpr (.inl ih)

theorem reaches_of_mem_contributors {i : ℕ} (h : i ∈ contributors pred output order) :
    ReflTransGen (fun i j => j ∈ pred i) output i := by
  induction order generalizing i with
  | nil => exact List.mem_singleton.mp h ▸ .refl
  | cons a order ih =>
    rcases mem_contributors_cons.mp h with h | ⟨ha, h⟩
    · exact ih h
    · exact (ih ha).tail h

/-- No node marks one that was swept before it, so the sweep leaves the marked nodes closed. -/
theorem pred_subset_contributors (h : order.Pairwise fun a b => b ∉ pred a) {i : ℕ} (hi : i ∈ order)
    (hmark : i ∈ contributors pred output order) : pred i ⊆ contributors pred output order := by
  induction order with
  | nil => cases hi
  | cons a order ih =>
    obtain ⟨ha, h⟩ := List.pairwise_cons.mp h
    have hmem : i ∈ contributors pred output order := by
      rcases mem_contributors_cons.mp hmark with hmem | ⟨hmarked, hpred⟩
      · exact hmem
      · rcases List.mem_cons.mp hi with rfl | hi
        · exact hmarked
        · exact absurd hpred (ha i hi)
    intro j hj
    rw [mem_contributors_cons]
    rcases List.mem_cons.mp hi with rfl | hi
    · exact .inr ⟨hmem, hj⟩
    · exact .inl (ih h hi hmem hj)

/-- **One sweep from the back marks exactly the nodes that the output needs.** -/
theorem mem_contributors (h : order.Pairwise fun a b => b ∉ pred a)
    (hmem : ∀ i, ∀ j ∈ pred i, i ∈ order) {i : ℕ} :
    i ∈ contributors pred output order ↔ ReflTransGen (fun i j => j ∈ pred i) output i := by
  refine ⟨reaches_of_mem_contributors, fun hreach => ?_⟩
  induction hreach with
  | refl => exact output_mem_contributors
  | tail _ hj ih => exact pred_subset_contributors h (hmem _ _ hj) ih hj

end

end Volparossa.Topological
