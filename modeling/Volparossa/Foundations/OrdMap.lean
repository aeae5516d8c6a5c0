import Volparossa.Foundations.Increasing

/-!
# Ordered maps

A finite map whose rows are listed by increasing keys, as a tree of keys lists them. Two maps with
the same rows are equal, so that a map that is written row by row and read back is the same map.
`lookup` is described by the rows (`lookup_eq_some`), and each operation by its lookups.
-/

namespace Volparossa

/-- Maps from `κ` to `ν`, listed by increasing keys. -/
structure OrdMap (κ : Type*) (ν : Type*) [Ord κ] where
  rows : List (κ × ν)
  increasing : Increasing (rows.map Prod.fst)

namespace OrdMap

variable {κ : Type*} {ν : Type*} [Ord κ]

instance [DecidableEq κ] [DecidableEq ν] : DecidableEq (OrdMap κ ν) := fun m m' =>
  decidable_of_iff (m.rows = m'.rows) ⟨fun h => by cases m; cases m'; simpa using h, congrArg rows⟩

theorem ext_rows {m m' : OrdMap κ ν} (h : m.rows = m'.rows) : m = m' := by
  cases m
  cases m'
  simpa using h

def empty : OrdMap κ ν := ⟨[], increasing_nil⟩

/-- Rows that increase pairwise make a map. -/
theorem increasing_of_pairwise {rows : List (κ × ν)}
    (h : rows.Pairwise fun r r' => compare r.1 r'.1 = .lt) : Increasing (rows.map Prod.fst) :=
  (List.pairwise_map.mpr h).isChain

/-- The value of a key. -/
def lookup [DecidableEq κ] (m : OrdMap κ ν) (k : κ) : Option ν :=
  (m.rows.find? fun r => r.1 = k).map Prod.snd

/-- The rows with one more, or with another value for its key. -/
def insertRow (k : κ) (v : ν) : List (κ × ν) → List (κ × ν)
  | [] => [(k, v)]
  | r :: rest =>
    match compare k r.1 with
    | .lt => (k, v) :: r :: rest
    | .eq => (k, v) :: rest
    | .gt => r :: insertRow k v rest

theorem length_insertRow_le (k : κ) (v : ν) (l : List (κ × ν)) :
    (insertRow k v l).length ≤ l.length + 1 := by
  induction l with
  | nil => simp [insertRow]
  | cons r l ih =>
    simp only [insertRow]
    split
    · simp
    · simp
    · simpa using ih

section Trans

variable [Std.TransOrd κ]

theorem pairwise (m : OrdMap κ ν) : m.rows.Pairwise fun r r' => compare r.1 r'.1 = .lt :=
  List.pairwise_map.mp m.increasing.pairwise

theorem nodup_keys (m : OrdMap κ ν) : (m.rows.map Prod.fst).Nodup := m.increasing.nodup

/-! ## Lookups -/

section Lookup

variable [DecidableEq κ]

theorem lookup_eq_some {m : OrdMap κ ν} {k : κ} {v : ν} :
    m.lookup k = some v ↔ (k, v) ∈ m.rows := by
  constructor
  · intro h
    obtain ⟨⟨k', v'⟩, hfind, rfl⟩ := Option.map_eq_some_iff.mp h
    have hk : k' = k := by simpa using List.find?_some hfind
    exact hk ▸ List.mem_of_find?_eq_some hfind
  · intro h
    cases hfind : m.rows.find? fun r => r.1 = k with
    | none => simpa using List.find?_eq_none.mp hfind _ h
    | some r =>
      have hk : r.1 = k := by simpa using List.find?_some hfind
      have hr : r = (k, v) := List.inj_on_of_nodup_map m.nodup_keys
        (List.mem_of_find?_eq_some hfind) h hk
      simp [lookup, hfind, hr]

/-- A lookup is determined by which rows there are. -/
theorem lookup_eq_of_mem {m : OrdMap κ ν} {k : κ} {x : Option ν}
    (h : ∀ v, (k, v) ∈ m.rows ↔ x = some v) : m.lookup k = x := by
  ext v
  rw [lookup_eq_some, h v]

end Lookup

end Trans

/-! ## Operations -/

variable [Std.TransOrd κ] [Std.LawfulEqOrd κ]

section

variable {k : κ} {v : ν} {l : List (κ × ν)} (h : l.Pairwise fun r r' => compare r.1 r'.1 = .lt)

include h

theorem mem_insertRow {r : κ × ν} : r ∈ insertRow k v l ↔ r = (k, v) ∨ r ∈ l ∧ r.1 ≠ k := by
  induction l with
  | nil => simp [insertRow]
  | cons r' rest ih =>
    obtain ⟨hr', hrest⟩ := List.pairwise_cons.mp h
    have hne : ∀ r ∈ r' :: rest, compare k r'.1 = .lt → r.1 ≠ k := by
      rintro r hr hk rfl
      rcases List.mem_cons.mp hr with rfl | hr
      · rw [Std.compare_self] at hk
        cases hk
      · have := Std.TransCmp.lt_trans hk (hr' r hr)
        rw [Std.compare_self] at this
        cases this
    simp only [insertRow]
    split
    · next hk =>
      simp only [List.mem_cons]
      constructor
      · rintro (rfl | hr)
        · exact .inl rfl
        · exact .inr ⟨hr, hne r (List.mem_cons.mpr hr) hk⟩
      · rintro (rfl | ⟨hr, -⟩)
        · exact .inl rfl
        · exact .inr hr
    · next hk =>
      obtain rfl := Std.LawfulEqOrd.eq_of_compare hk
      simp only [List.mem_cons]
      constructor
      · rintro (rfl | hr)
        · exact .inl rfl
        · refine .inr ⟨.inr hr, fun heq => ?_⟩
          have := hr' r hr
          rw [heq, Std.compare_self] at this
          cases this
      · rintro (rfl | ⟨rfl | hr, hne⟩)
        · exact .inl rfl
        · exact (hne rfl).elim
        · exact .inr hr
    · next hk =>
      rw [List.mem_cons, ih hrest, List.mem_cons]
      constructor
      · rintro (rfl | rfl | ⟨hr, hne⟩)
        · refine .inr ⟨.inl rfl, fun heq => ?_⟩
          rw [heq, Std.compare_self] at hk
          cases hk
        · exact .inl rfl
        · exact .inr ⟨.inr hr, hne⟩
      · rintro (rfl | ⟨rfl | hr, hne⟩)
        · exact .inr (.inl rfl)
        · exact .inl rfl
        · exact .inr (.inr ⟨hr, hne⟩)

theorem pairwise_insertRow : (insertRow k v l).Pairwise fun r r' => compare r.1 r'.1 = .lt := by
  induction l with
  | nil => simp [insertRow]
  | cons r rest ih =>
    obtain ⟨hr, hrest⟩ := List.pairwise_cons.mp h
    simp only [insertRow]
    split
    · next hk =>
      refine List.pairwise_cons.mpr ⟨fun r' hr' => ?_, h⟩
      rcases List.mem_cons.mp hr' with rfl | hr'
      · exact hk
      · exact Std.TransCmp.lt_trans hk (hr r' hr')
    · next hk =>
      obtain rfl := Std.LawfulEqOrd.eq_of_compare hk
      exact List.pairwise_cons.mpr ⟨hr, hrest⟩
    · next hk =>
      refine List.pairwise_cons.mpr ⟨fun r' hr' => ?_, ih hrest⟩
      rcases (mem_insertRow hrest).mp hr' with rfl | ⟨hr', -⟩
      · exact Std.OrientedCmp.gt_iff_lt.mp hk
      · exact hr r' hr'

end

/-- Give a key a value. -/
def insert (m : OrdMap κ ν) (k : κ) (v : ν) : OrdMap κ ν :=
  ⟨insertRow k v m.rows, increasing_of_pairwise (pairwise_insertRow m.pairwise)⟩

theorem mem_insert {m : OrdMap κ ν} {k : κ} {v : ν} {r : κ × ν} :
    r ∈ (m.insert k v).rows ↔ r = (k, v) ∨ r ∈ m.rows ∧ r.1 ≠ k :=
  mem_insertRow m.pairwise

theorem lookup_insert [DecidableEq κ] (m : OrdMap κ ν) (k k' : κ) (v : ν) :
    (m.insert k v).lookup k' = if k' = k then some v else m.lookup k' := by
  refine lookup_eq_of_mem fun w => ?_
  rw [mem_insert]
  split
  · next h =>
    subst h
    simp [eq_comm]
  · next h =>
    rw [lookup_eq_some]
    simp [h]

/-! ## Rows read in order -/

/-- A key behind all others is added at the end. -/
theorem rows_insert_of_last {m : OrdMap κ ν} {k : κ} (v : ν)
    (h : ∀ r ∈ m.rows, compare r.1 k = .lt) : (m.insert k v).rows = m.rows ++ [(k, v)] := by
  have key : ∀ l : List (κ × ν), (∀ r ∈ l, compare r.1 k = .lt) →
      insertRow k v l = l ++ [(k, v)] := by
    intro l
    induction l with
    | nil => intro _; rfl
    | cons r l ih =>
      intro hl
      have hgt : compare k r.1 = .gt := Std.OrientedCmp.gt_iff_lt.mpr (hl r (by simp))
      simp only [insertRow, hgt, List.cons_append, ih fun r' hr' => hl r' (by simp [hr'])]
  exact key m.rows h

/-- A key that is there keeps its place. -/
theorem length_insert_of_mem {m : OrdMap κ ν} {k : κ} {w : ν} (v : ν) (h : (k, w) ∈ m.rows) :
    (m.insert k v).rows.length = m.rows.length := by
  have key : ∀ l : List (κ × ν), (l.Pairwise fun r r' => compare r.1 r'.1 = .lt) → (k, w) ∈ l →
      (insertRow k v l).length = l.length := by
    intro l
    induction l with
    | nil => simp
    | cons r l ih =>
      intro hl hmem
      obtain ⟨hr, hl⟩ := List.pairwise_cons.mp hl
      simp only [insertRow]
      split
      · next hk =>
        rcases List.mem_cons.mp hmem with rfl | hmem
        · rw [Std.compare_self] at hk
          cases hk
        · have := Std.TransCmp.lt_trans hk (hr _ hmem)
          rw [Std.compare_self] at this
          cases this
      · simp
      · next hk =>
        rcases List.mem_cons.mp hmem with rfl | hmem
        · rw [Std.compare_self] at hk
          cases hk
        · rw [List.length_cons, ih hl hmem, List.length_cons]
  exact key m.rows m.pairwise h

end OrdMap

end Volparossa
