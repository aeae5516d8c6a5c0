import Mathlib

/-!
# Keyed tables

A table is a list of rows, in insertion order, no two of which have the same key. It is what a
relational table with a primary key holds, and what a hash map holds (with rows that are pairs of a
key and a value): the key constraint is a field of the structure, so that no operation can build a
table that breaks it.

The operations are the ones a program has: look a row up by its key, insert a row under a fresh
key, put a row in the place of the one with its key, modify or erase the row with a key, add a
quantity up over the rows, count rows, list the rows in the order of their keys. What they do is
stated through `lookup`, membership and the sums: `sum_modify`, `sum_insert` and `sum_erase` say by
how much a single write moves a total, which is all that a conservation argument needs.

Insertion order is not part of the meaning of a table. `Same t t'` says that `t` and `t'` have the
same rows, in whatever order; every operation respects it (`Same.lookup`, `Same.sum`,
`Same.modify`, …), and listing the rows by a column forgets the difference (`Same.orderBy`).
-/

namespace Volparossa

/-- A table with rows `ρ` and primary key `key`: the rows, in insertion order, with distinct
keys. -/
structure Table {ρ κ : Type*} (key : ρ → κ) where
  rows : List ρ
  nodup : (rows.map key).Nodup

namespace Table

variable {ρ κ : Type*} {key : ρ → κ}

/-- The table without rows. -/
def empty : Table key := ⟨[], by simp⟩

@[simp] theorem rows_empty : (empty : Table key).rows = [] := rfl

@[ext] theorem ext {t t' : Table key} (h : t.rows = t'.rows) : t = t' := by
  cases t
  cases t'
  cases h
  rfl

instance [DecidableEq ρ] : DecidableEq (Table key) := fun t t' =>
  decidable_of_iff (t.rows = t'.rows) ⟨ext, fun h => h ▸ rfl⟩

/-- Rows with the same key are the same row. -/
theorem eq_of_key_eq (t : Table key) {r r' : ρ} (hr : r ∈ t.rows) (hr' : r' ∈ t.rows)
    (h : key r = key r') : r = r' :=
  List.inj_on_of_nodup_map t.nodup hr hr' h

/-! ## Looking a row up -/

section Lookup

variable [DecidableEq κ]

/-- The row with key `k`. -/
def lookup (t : Table key) (k : κ) : Option ρ := t.rows.find? fun r => decide (key r = k)

theorem lookup_eq_some (t : Table key) (k : κ) (r : ρ) :
    t.lookup k = some r ↔ r ∈ t.rows ∧ key r = k := by
  constructor
  · intro h
    exact ⟨List.mem_of_find?_eq_some h, by simpa using List.find?_some h⟩
  · rintro ⟨hr, rfl⟩
    cases hl : t.lookup (key r) with
    | none =>
      have := List.find?_eq_none.mp hl r hr
      simp at this
    | some r' =>
      have hk : key r' = key r := by simpa using List.find?_some hl
      rw [t.eq_of_key_eq (List.mem_of_find?_eq_some hl) hr hk]

theorem lookup_eq_none (t : Table key) (k : κ) :
    t.lookup k = none ↔ ∀ r ∈ t.rows, key r ≠ k := by
  simp [lookup, List.find?_eq_none]

theorem lookup_ne_none (t : Table key) (k : κ) : t.lookup k ≠ none ↔ k ∈ t.rows.map key := by
  rw [ne_eq, lookup_eq_none]
  simp

/-- A key of the table has a row. -/
theorem exists_lookup (t : Table key) {k : κ} (h : k ∈ t.rows.map key) :
    ∃ r, t.lookup k = some r :=
  Option.ne_none_iff_exists'.mp ((t.lookup_ne_none k).mpr h)

theorem lookup_key (t : Table key) {r : ρ} (hr : r ∈ t.rows) : t.lookup (key r) = some r :=
  (t.lookup_eq_some _ _).mpr ⟨hr, rfl⟩

theorem lookup_key_ne_none {t : Table key} {r : ρ} (hr : r ∈ t.rows) : t.lookup (key r) ≠ none :=
  (t.lookup_ne_none _).mpr (List.mem_map_of_mem hr)

theorem mem_of_lookup {t : Table key} {k : κ} {r : ρ} (h : t.lookup k = some r) : r ∈ t.rows :=
  ((t.lookup_eq_some _ _).mp h).1

theorem key_of_lookup {t : Table key} {k : κ} {r : ρ} (h : t.lookup k = some r) : key r = k :=
  ((t.lookup_eq_some _ _).mp h).2

end Lookup

/-! ## Writing -/

/-- A row with a new key can be added. -/
theorem nodup_concat (t : Table key) {r : ρ} (h : ∀ r' ∈ t.rows, key r' ≠ key r) :
    ((t.rows ++ [r]).map key).Nodup := by
  rw [List.map_append, List.map_singleton, ← List.concat_eq_append, List.nodup_concat, List.mem_map]
  exact ⟨fun ⟨r', hr', heq⟩ => h r' hr' heq, t.nodup⟩

/-- What a change of rows keeps, a change of some of them does. -/
theorem apply_ite_eq {σ : Type*} {g : ρ → σ} {f : ρ → ρ} (hg : ∀ r, g (f r) = g r) (p : Prop)
    [Decidable p] (r : ρ) : g (if p then f r else r) = g r := by
  split <;> simp [hg]

/-- Insert a row under a fresh key; a key that is taken violates the primary key. -/
def insert [DecidableEq κ] (t : Table key) (r : ρ) : Option (Table key) :=
  if h : t.lookup (key r) = none then
    some ⟨t.rows ++ [r], t.nodup_concat ((lookup_eq_none _ _).mp h)⟩
  else none

/-- Apply `f`, which keeps keys, to the row with key `k`. -/
def modify [DecidableEq κ] (t : Table key) (k : κ) (f : ρ → ρ) (hf : ∀ r, key (f r) = key r) :
    Table key :=
  ⟨t.rows.map fun r => if key r = k then f r else r, by
    rw [List.map_map, show key ∘ _ = key from funext fun r => apply_ite_eq hf (key r = k) r]
    exact t.nodup⟩

/-- Apply `f`, which keeps keys, to every row. -/
def map (t : Table key) (f : ρ → ρ) (hf : ∀ r, key (f r) = key r) : Table key :=
  ⟨t.rows.map f, by
    rw [List.map_map, show key ∘ f = key from funext hf]
    exact t.nodup⟩

/-- Remove the row with key `k`. -/
def erase [DecidableEq κ] (t : Table key) (k : κ) : Table key :=
  ⟨t.rows.filter fun r => decide (key r ≠ k), by
    exact t.nodup.sublist ((List.filter_sublist).map key)⟩

/-- Put a row in the place of the one with its key, if there is one. -/
def put [DecidableEq κ] (t : Table key) (r : ρ) : Table key :=
  ⟨(t.erase (key r)).rows ++ [r],
    nodup_concat _ fun r' hr' => by simpa using List.of_mem_filter hr'⟩

/-- Keep the rows that `p` accepts. -/
def filter (t : Table key) (p : ρ → Bool) : Table key :=
  ⟨t.rows.filter p, t.nodup.sublist ((List.filter_sublist).map key)⟩

theorem mem_filter {t : Table key} {p : ρ → Bool} {r : ρ} :
    r ∈ (t.filter p).rows ↔ r ∈ t.rows ∧ p r = true := List.mem_filter

theorem length_filter_le (t : Table key) (p : ρ → Bool) :
    (t.filter p).rows.length ≤ t.rows.length := List.length_filter_le _ _

section Writing

variable [DecidableEq κ] {t t' : Table key}

variable {r : ρ}

theorem insert_eq_some :
    t.insert r = some t' ↔ t.lookup (key r) = none ∧ t'.rows = t.rows ++ [r] := by
  unfold insert
  split
  · rename_i h
    simp only [Option.some.injEq, h, true_and]
    exact ⟨fun e => by rw [← e], fun e => Table.ext e.symm⟩
  · rename_i h
    simp [h]

/-- A fresh key can be inserted. -/
theorem exists_insert (h : t.lookup (key r) = none) :
    ∃ t', t.insert r = some t' ∧ t'.rows = t.rows ++ [r] :=
  ⟨⟨t.rows ++ [r], _⟩, dif_pos h, rfl⟩

theorem insert_eq_none (h : t.lookup (key r) ≠ none) : t.insert r = none := dif_neg h

theorem rows_insert (h : t.insert r = some t') : t'.rows = t.rows ++ [r] :=
  (insert_eq_some.mp h).2

theorem lookup_insert (h : t.insert r = some t') (k : κ) :
    t'.lookup k = if key r = k then some r else t.lookup k := by
  obtain ⟨hfresh, hrows⟩ := insert_eq_some.mp h
  split
  · rename_i hk
    subst hk
    exact t'.lookup_key (by simp [hrows])
  · rename_i hk
    simp [lookup, hrows, List.find?_append, hk]

theorem lookup_insert_self (h : t.insert r = some t') : t'.lookup (key r) = some r :=
  (lookup_insert h _).trans (if_pos rfl)

section

variable {k : κ} {f : ρ → ρ} {hf : ∀ r, key (f r) = key r}

@[simp] theorem rows_modify :
    (t.modify k f hf).rows = t.rows.map fun r => if key r = k then f r else r := rfl

theorem lookup_modify (k' : κ) :
    (t.modify k f hf).lookup k' = (t.lookup k').map fun r => if key r = k then f r else r := by
  simp only [lookup, rows_modify, List.find?_map, Function.comp_def, apply_ite_eq hf]

theorem lookup_modify_self (h : t.lookup k = some r) :
    (t.modify k f hf).lookup k = some (f r) := by
  simp [lookup_modify, h, key_of_lookup h]

theorem lookup_modify_of_ne {k' : κ} (h : k' ≠ k) :
    (t.modify k f hf).lookup k' = t.lookup k' := by
  rw [lookup_modify]
  cases hl : t.lookup k' with
  | none => rfl
  | some r => simp [key_of_lookup hl, h]

@[simp] theorem map_key_modify : (t.modify k f hf).rows.map key = t.rows.map key := by
  simp only [rows_modify, List.map_map, Function.comp_def, apply_ite_eq hf]

theorem mem_modify :
    r ∈ (t.modify k f hf).rows ↔ ∃ r' ∈ t.rows, (if key r' = k then f r' else r') = r := by
  simp

theorem lookup_map (k : κ) : (t.map f hf).lookup k = (t.lookup k).map f := by
  simp only [lookup, map, List.find?_map, Function.comp_def, hf]

end

theorem mem_erase {k : κ} : r ∈ (t.erase k).rows ↔ r ∈ t.rows ∧ key r ≠ k := by
  simp [erase]

theorem lookup_erase (k k' : κ) :
    (t.erase k).lookup k' = if k' = k then none else t.lookup k' := by
  split
  · rename_i h
    subst h
    exact (lookup_eq_none _ _).mpr fun r hr => (mem_erase.mp hr).2
  · rename_i h
    cases hl : t.lookup k' with
    | none =>
      exact (lookup_eq_none _ _).mpr fun r hr =>
        (t.lookup_eq_none _).mp hl r (mem_erase.mp hr).1
    | some r =>
      obtain ⟨hr, hk⟩ := (t.lookup_eq_some _ _).mp hl
      exact (lookup_eq_some _ _ _).mpr ⟨mem_erase.mpr ⟨hr, hk ▸ h⟩, hk⟩

theorem erase_comm (k k' : κ) : (t.erase k).erase k' = (t.erase k').erase k := by
  apply Table.ext
  simp only [erase, List.filter_filter, Bool.and_comm]

theorem erase_of_lookup_eq_none {k : κ} (h : t.lookup k = none) : t.erase k = t := by
  refine Table.ext (List.filter_eq_self.mpr fun r hr => ?_)
  simpa using (t.lookup_eq_none k).mp h r hr

/-- Under a fresh key, a row is put after the others. -/
theorem rows_put (h : t.lookup (key r) = none) : (t.put r).rows = t.rows ++ [r] := by
  change (t.erase (key r)).rows ++ [r] = _
  rw [erase_of_lookup_eq_none h]

/-- A row that was put under a fresh key can be taken back. -/
theorem erase_put (h : t.lookup (key r) = none) : (t.put r).erase (key r) = t := by
  refine Table.ext ?_
  have hrest : (t.erase (key r)).rows = t.rows := by rw [erase_of_lookup_eq_none h]
  change (t.put r).rows.filter _ = t.rows
  rw [rows_put h, List.filter_append]
  change (t.erase (key r)).rows ++ _ = t.rows
  simp [hrest]

theorem mem_put {r' : ρ} : r' ∈ (t.put r).rows ↔ r' = r ∨ r' ∈ t.rows ∧ key r' ≠ key r := by
  rw [put, List.mem_append, List.mem_singleton, mem_erase, or_comm]

theorem lookup_put (r : ρ) (k : κ) :
    (t.put r).lookup k = if k = key r then some r else t.lookup k := by
  split
  · rename_i h
    exact (lookup_eq_some _ _ _).mpr ⟨mem_put.mpr (Or.inl rfl), h.symm⟩
  · rename_i h
    cases hl : t.lookup k with
    | none =>
      refine (lookup_eq_none _ _).mpr fun r' hr' hk => ?_
      rcases mem_put.mp hr' with rfl | ⟨hr', -⟩
      · exact h hk.symm
      · exact (t.lookup_eq_none k).mp hl r' hr' hk
    | some r' =>
      obtain ⟨hr', rfl⟩ := (t.lookup_eq_some _ _).mp hl
      exact lookup_key _ (mem_put.mpr (Or.inr ⟨hr', h⟩))

theorem length_put_le (r : ρ) : (t.put r).rows.length ≤ t.rows.length + 1 := by
  change ((t.erase (key r)).rows ++ [r]).length ≤ _
  rw [List.length_append]
  exact Nat.succ_le_succ (List.length_filter_le _ _)

/-- A relation between the rows holds after a write, if it holds between the old rows and the new
one. -/
theorem pairwise_put {R : ρ → ρ → Prop} (ht : t.rows.Pairwise R)
    (hr : ∀ r' ∈ t.rows, R r' r) : (t.put r).rows.Pairwise R := by
  change ((t.erase (key r)).rows ++ [r]).Pairwise R
  refine List.pairwise_append.mpr
    ⟨ht.sublist List.filter_sublist, List.pairwise_singleton _ _, fun a ha b hb => ?_⟩
  rw [List.mem_singleton.mp hb]
  exact hr a (mem_erase.mp ha).1

end Writing

section Writes

variable [DecidableEq κ]

theorem length_foldl_put_le (l : List ρ) (t : Table key) :
    (l.foldl (fun t r => t.put r) t).rows.length ≤ t.rows.length + l.length := by
  induction l generalizing t with
  | nil => exact le_rfl
  | cons r l ih =>
    have hput := t.length_put_le r
    have hrest := ih (t.put r)
    rw [List.foldl_cons, List.length_cons]
    omega

theorem pairwise_foldl_put {R : ρ → ρ → Prop} {l : List ρ} {t : Table key}
    (ht : t.rows.Pairwise R) (hl : l.Pairwise R) (hnew : ∀ r ∈ t.rows, ∀ r' ∈ l, R r r') :
    (l.foldl (fun t r => t.put r) t).rows.Pairwise R := by
  induction l generalizing t with
  | nil => exact ht
  | cons r l ih =>
    obtain ⟨hr, hl⟩ := List.pairwise_cons.mp hl
    refine ih (pairwise_put ht fun r' hr' => hnew r' hr' r (by simp)) hl fun r' hr' r'' hr'' => ?_
    rcases mem_put.mp hr' with rfl | ⟨hr', -⟩
    · exact hr r'' hr''
    · exact hnew r' hr' r'' (by simp [hr''])

theorem lookup_foldl_put_of_not_mem {l : List ρ} {t : Table key} {k : κ} (h : k ∉ l.map key) :
    (l.foldl (fun t r => t.put r) t).lookup k = t.lookup k := by
  induction l generalizing t with
  | nil => rfl
  | cons r l ih =>
    rw [List.map_cons, List.mem_cons, not_or] at h
    rw [List.foldl_cons, ih h.2, lookup_put, if_neg h.1]

theorem exists_lookup_foldl_put {l : List ρ} {t : Table key} {k : κ} (h : k ∈ l.map key) :
    ∃ r ∈ l, (l.foldl (fun t r => t.put r) t).lookup k = some r := by
  induction l generalizing t with
  | nil => simp at h
  | cons r l ih =>
    by_cases hl : k ∈ l.map key
    · obtain ⟨r', hr', hlookup⟩ := ih (t := t.put r) hl
      exact ⟨r', by simp [hr'], hlookup⟩
    · rw [List.map_cons, List.mem_cons] at h
      refine ⟨r, by simp, ?_⟩
      rw [List.foldl_cons, lookup_foldl_put_of_not_mem hl, lookup_put, if_pos (h.resolve_right hl)]

end Writes

/-! ## Totals -/

/-- The sum of `g` over the rows. -/
def sum (t : Table key) (g : ρ → ℕ) : ℕ := (t.rows.map g).sum

/-- The sum of `g` over the rows that satisfy `p`. -/
def sumWhere (t : Table key) (p : ρ → Bool) (g : ρ → ℕ) : ℕ := ((t.rows.filter p).map g).sum

/-- The number of rows that satisfy `p`. -/
def count (t : Table key) (p : ρ → Bool) : ℕ := t.rows.countP p

section

variable (t : Table key)

include t

theorem sumWhere_eq_sum (p : ρ → Bool) (g : ρ → ℕ) :
    t.sumWhere p g = t.sum fun r => if p r then g r else 0 := by
  unfold sumWhere sum
  induction t.rows with
  | nil => rfl
  | cons r l ih => cases hp : p r <;> simp [hp, ih]

theorem count_eq_sum (p : ρ → Bool) : t.count p = t.sum fun r => if p r then 1 else 0 := by
  unfold count sum
  induction t.rows with
  | nil => rfl
  | cons r l ih => cases hp : p r <;> simp [hp, ih]; omega

theorem length_eq_sum : t.rows.length = t.sum fun _ => 1 := by
  simp [sum]

theorem sum_add (g g' : ρ → ℕ) : t.sum (fun r => g r + g' r) = t.sum g + t.sum g' := by
  unfold sum
  induction t.rows with
  | nil => rfl
  | cons r l ih =>
    simp only [List.map_cons, List.sum_cons, ih]
    omega

theorem sum_congr {g g' : ρ → ℕ} (h : ∀ r ∈ t.rows, g r = g' r) : t.sum g = t.sum g' := by
  unfold sum
  rw [List.map_congr_left h]

theorem sum_le_sum {g g' : ρ → ℕ} (h : ∀ r ∈ t.rows, g r ≤ g' r) :
    t.sum g ≤ t.sum g' := List.sum_le_sum h

theorem sum_map (f : ρ → ρ) (hf : ∀ r, key (f r) = key r) (g : ρ → ℕ) :
    (t.map f hf).sum g = t.sum fun r => g (f r) := by
  simp only [sum, map, List.map_map, Function.comp_def]

theorem le_sum (g : ρ → ℕ) {r : ρ} (hr : r ∈ t.rows) : g r ≤ t.sum g :=
  List.le_sum_of_mem (List.mem_map_of_mem hr)

end

section Totals

variable [DecidableEq κ] {t t' : Table key}

variable {r : ρ}

theorem sum_insert (h : t.insert r = some t') (g : ρ → ℕ) :
    t'.sum g = t.sum g + g r := by
  simp [sum, rows_insert h]

theorem sum_put (h : t.lookup (key r) = none) (g : ρ → ℕ) :
    (t.put r).sum g = t.sum g + g r := by
  simp [sum, rows_put h]

theorem sum_map_modify {l : List ρ} {k : κ} (hl : (l.map key).Nodup) (hr : r ∈ l)
    (hk : key r = k) (f : ρ → ρ) (g : ρ → ℕ) :
    ((l.map fun r => if key r = k then f r else r).map g).sum + g r = (l.map g).sum + g (f r) := by
  induction l with
  | nil => simp at hr
  | cons a l ih =>
    rw [List.map_cons, List.nodup_cons] at hl
    rcases List.mem_cons.mp hr with rfl | hr
    · -- the rest of the list does not have the key
      have hrest : (l.map fun r => if key r = k then f r else r) = l := by
        refine (List.map_congr_left fun b hb => if_neg fun hb' => ?_).trans (List.map_id' l)
        exact hl.1 (List.mem_map.mpr ⟨b, hb, hb'.trans hk.symm⟩)
      simp only [List.map_cons, List.sum_cons, hk, if_true, hrest]
      omega
    · have hne : key a ≠ k := fun ha =>
        hl.1 (List.mem_map.mpr ⟨r, hr, hk.trans ha.symm⟩)
      have := ih hl.2 hr
      simp only [List.map_cons, List.sum_cons, hne, if_false]
      omega

/-- Modifying a row moves a total by the change at that row. -/
theorem sum_modify {k : κ} (h : t.lookup k = some r) (f : ρ → ρ)
    (hf : ∀ r, key (f r) = key r) (g : ρ → ℕ) :
    (t.modify k f hf).sum g + g r = t.sum g + g (f r) :=
  sum_map_modify t.nodup (mem_of_lookup h) (key_of_lookup h) f g

/-- A total over quantities that the modified row keeps does not move. -/
theorem sum_modify_of_eq (k : κ) (f : ρ → ρ) (hf : ∀ r, key (f r) = key r) (g : ρ → ℕ)
    (hg : ∀ r, g (f r) = g r) : (t.modify k f hf).sum g = t.sum g := by
  simp only [sum, rows_modify, List.map_map, Function.comp_def, apply_ite_eq hg]

section

variable {k : κ} (h : t.lookup k = some r)

include h

/-- A row of the table and the rest of it. -/
theorem perm_erase : t.rows.Perm (r :: (t.erase k).rows) := by
  obtain ⟨hr, hk⟩ := (t.lookup_eq_some _ _).mp h
  refine (List.perm_ext_iff_of_nodup t.nodup.of_map ?_).mpr fun a => ?_
  · exact List.nodup_cons.mpr ⟨fun ha => (mem_erase.mp ha).2 hk, (t.erase k).nodup.of_map⟩
  · rw [List.mem_cons, mem_erase]
    constructor
    · intro ha
      by_cases hak : key a = k
      · exact .inl (t.eq_of_key_eq ha hr (hak.trans hk.symm))
      · exact .inr ⟨ha, hak⟩
    · rintro (rfl | ⟨ha, -⟩)
      · exact hr
      · exact ha

/-- Removing a row takes what it contributed from a total. -/
theorem sum_erase (g : ρ → ℕ) : (t.erase k).sum g + g r = t.sum g := by
  have hsum := ((perm_erase h).map g).sum_nat
  rw [List.map_cons, List.sum_cons] at hsum
  unfold sum
  omega

theorem length_erase : (t.erase k).rows.length + 1 = t.rows.length := by
  rw [length_eq_sum, length_eq_sum]
  exact sum_erase h fun _ => 1

theorem count_erase (p : ρ → Bool) : (t.erase k).count p + (if p r then 1 else 0) = t.count p := by
  rw [count_eq_sum, count_eq_sum]
  exact sum_erase h fun r => if p r then 1 else 0

end

/-- Two different rows contribute to a total side by side. -/
theorem add_le_sum (t : Table key) (g : ρ → ℕ) {r' : ρ} (hr : r ∈ t.rows) (hr' : r' ∈ t.rows)
    (hne : key r ≠ key r') : g r + g r' ≤ t.sum g := by
  have hsum := sum_erase (t.lookup_key hr) g
  have hle := (t.erase (key r)).le_sum g (mem_erase.mpr ⟨hr', hne.symm⟩)
  omega

end Totals

/-! ## Order of insertion -/

/-- The rows in the order of a column, under `le`. -/
def orderBy {α : Type*} (t : Table key) (column : ρ → α) (le : α → α → Prop) [DecidableRel le] :
    List ρ :=
  t.rows.insertionSort fun r r' => le (column r) (column r')

theorem orderBy_perm {α : Type*} (t : Table key) (column : ρ → α) (le : α → α → Prop)
    [DecidableRel le] : (t.orderBy column le).Perm t.rows :=
  List.perm_insertionSort _ _

/-- Two tables with the same rows, inserted in whatever order. -/
def Same (t t' : Table key) : Prop := t.rows.Perm t'.rows

namespace Same

variable {t t' u u' : Table key}

theorem symm (h : Same t t') : Same t' t := List.Perm.symm h

theorem mem (h : Same t t') {r : ρ} : r ∈ t.rows ↔ r ∈ t'.rows := List.Perm.mem_iff h

theorem length (h : Same t t') : t.rows.length = t'.rows.length := List.Perm.length_eq h

theorem sum (h : Same t t') (g : ρ → ℕ) : t.sum g = t'.sum g := (List.Perm.map g h).sum_nat

theorem sumWhere (h : Same t t') (p : ρ → Bool) (g : ρ → ℕ) : t.sumWhere p g = t'.sumWhere p g := by
  rw [sumWhere_eq_sum, sumWhere_eq_sum, h.sum]

theorem count (h : Same t t') (p : ρ → Bool) : t.count p = t'.count p := List.Perm.countP_eq p h

theorem lookup [DecidableEq κ] (h : Same t t') (k : κ) : t.lookup k = t'.lookup k := by
  cases hl : t'.lookup k with
  | none =>
    exact (t.lookup_eq_none k).mpr fun r hr => (t'.lookup_eq_none k).mp hl r (h.mem.mp hr)
  | some r =>
    obtain ⟨hr, hk⟩ := (t'.lookup_eq_some k r).mp hl
    exact (t.lookup_eq_some k r).mpr ⟨h.mem.mpr hr, hk⟩

theorem modify [DecidableEq κ] (h : Same t t') (k : κ) (f : ρ → ρ) (hf : ∀ r, key (f r) = key r) :
    Same (t.modify k f hf) (t'.modify k f hf) :=
  List.Perm.map _ h

/-- An insertion succeeds in both tables or in neither, and keeps them the same. -/
theorem insert [DecidableEq κ] (h : Same t t') (r : ρ) :
    (t.insert r = none ∧ t'.insert r = none) ∨
      ∃ u u', t.insert r = some u ∧ t'.insert r = some u' ∧ Same u u' := by
  by_cases hl : t.lookup (key r) = none
  · obtain ⟨u, hu, hrows⟩ := exists_insert hl
    obtain ⟨u', hu', hrows'⟩ := exists_insert (h.lookup (key r) ▸ hl)
    refine Or.inr ⟨u, u', hu, hu', ?_⟩
    unfold Same
    rw [hrows, hrows']
    exact List.Perm.append_right _ h
  · exact Or.inl ⟨dif_neg hl, dif_neg (h.lookup (key r) ▸ hl)⟩

/-- The listing by a column without duplicates does not depend on the order of insertion. -/
theorem orderBy {α : Type*} (h : Same t t') {column : ρ → α} (le : α → α → Prop) [DecidableRel le]
    [Std.Total le] [IsTrans α le] [Std.Antisymm le]
    (hinj : ∀ r ∈ t.rows, ∀ r' ∈ t.rows, column r = column r' → r = r') :
    t.orderBy column le = t'.orderBy column le := by
  have : Std.Total fun r r' : ρ => le (column r) (column r') := ⟨fun r r' => Std.Total.total _ _⟩
  have : IsTrans ρ fun r r' : ρ => le (column r) (column r') :=
    ⟨fun _ _ _ h h' => trans_of le h h'⟩
  refine List.Perm.eq_of_pairwise ?_ (List.pairwise_insertionSort _ _)
    (List.pairwise_insertionSort _ _)
    ((t.orderBy_perm column le).trans (List.Perm.trans h (t'.orderBy_perm column le).symm))
  intro r r' hr hr' hle hle'
  exact hinj r ((t.orderBy_perm column le).mem_iff.mp hr) r'
    (h.mem.mpr ((t'.orderBy_perm column le).mem_iff.mp hr')) (Std.Antisymm.antisymm _ _ hle hle')

end Same

end Table

end Volparossa
