import Volparossa.Selection.Invariant

/-!
# Inserting a context

An insertion closes or removes the context that it replaces, evicts unpinned contexts for which
there is no room, the least recently used first, and adds the new one. Up to the last step nothing
but removal happens (`replaceContexts_removes`), and the active context of the scope is stale. The
new context then restores the invariant (`insertContext_consistent`), and `insertContext_accounted`
says that no other context is lost.
-/

namespace Volparossa.Selection

open Volparossa.Core Table

namespace RouteContextCache

variable {c c' : RouteContextCache} {id : RouteContextId} {entry : ContextEntry}
  {retired : List RetiredContext} {scope : RouteScope}

/-! ## Inserting a context -/

theorem retireReplaced_removes (c : RouteContextCache) (old : RouteContextId) :
    Removes c (c.retireReplaced old).1.toList (c.retireReplaced old).2 := by
  unfold retireReplaced
  split
  · exact closeContext_removes c old
  · exact removeContext_removes c old

theorem replaceContexts_removes (c : RouteContextCache) (replacement : Option RouteContextId) :
    Removes c (c.replaceContexts replacement).1 (c.replaceContexts replacement).2 :=
  (collect_removes retireReplaced_removes c _).trans (collect_removes removeContext_removes _ _)

/-- A scope without a context that takes new flows may be left out. -/
theorem ActiveExcept.except (h : c.ActiveExcept none) (hscope : ∀ id, ¬c.Accepts scope id) :
    c.ActiveExcept (some scope) where
  active scope' id _ := h.active scope' id (by simp)
  closed scope' id ha hs := by
    rw [Option.some.injEq] at hs
    exact hscope id (hs ▸ ha)

theorem activeContext_eq_some :
    c.activeContext scope = some id ↔ c.activeByScope.lookup scope = some (scope, id) := by
  rw [activeContext, Option.map_eq_some_iff]
  constructor
  · rintro ⟨⟨scope', id'⟩, hlookup, rfl⟩
    obtain rfl : scope' = scope := key_of_lookup hlookup
    exact hlookup
  · exact fun h => ⟨_, h, rfl⟩

/-- Once the replaced context is closed or gone, no context takes new flows for the scope. -/
theorem retireReplaced_invariant (h : c.Consistent) {old : RouteContextId}
    (hold : c.activeByScope.lookup scope = some (scope, old)) :
    (c.retireReplaced old).2.Pinned ∧ (c.retireReplaced old).2.ActiveExcept (some scope) := by
  have haccepts : ∀ id, c.Accepts scope id → id = old := fun id hid => by
    have hmem := (h.active scope id).mpr hid
    exact congrArg Prod.snd (c.activeByScope.eq_of_key_eq hmem (mem_of_lookup hold) rfl)
  obtain ⟨entry, hentry, hid, hscope, -⟩ := (h.active scope old).mp (mem_of_lookup hold)
  have hlookup : c.contexts.lookup old = some entry := hid ▸ c.contexts.lookup_key hentry
  unfold retireReplaced
  rw [hlookup]
  split
  · refine ⟨h.pinned.closeContext old, fun scope' id hstale => ?_, fun scope' id ha hs => ?_⟩
    · -- another scope's contexts stay as they are
      rw [accepts_closeContext, ← h.active scope' id]
      refine ⟨fun hmem => ⟨hmem, ?_⟩, And.left⟩
      rintro rfl
      obtain ⟨e, he, hid', hscope', -⟩ := (h.active scope' id).mp hmem
      rw [c.contexts.eq_of_key_eq he hentry (hid'.trans hid.symm), hscope] at hscope'
      exact hstale (congrArg some hscope')
    · obtain ⟨ha, hne⟩ := (accepts_closeContext id).mp ha
      rw [Option.some.injEq] at hs
      exact hne (haccepts id (hs ▸ ha))
  · rename_i hflows
    have hunpinned : c.Unpinned old := fun e he => by
      obtain rfl := Option.mem_unique hlookup he
      simpa using hflows
    refine ⟨removeContext_pinned h.pinned hunpinned,
      (removeContext_activeExcept h.activeExcept).except fun id ha => ?_⟩
    rw [removeContext_of_lookup hlookup] at ha
    obtain ⟨ha, hne⟩ := (accepts_erase id).mp (by simpa [Accepts] using ha)
    exact hne (haccepts id ha)

/-- Contexts that are there are all retired by a loop that removes them. -/
theorem collect_removeContext_ids {ids : List RouteContextId} (hnodup : ids.Nodup)
    (hids : ∀ id ∈ ids, c.contexts.lookup id ≠ none) :
    (collect removeContext c ids).1.map RetiredContext.routeContextId = ids := by
  induction ids generalizing c with
  | nil => rfl
  | cons id ids ih =>
    rw [List.nodup_cons] at hnodup
    obtain ⟨entry, hentry⟩ := Option.ne_none_iff_exists'.mp (hids id List.mem_cons_self)
    have hrest : ∀ id' ∈ ids, (c.removeContext id).2.contexts.lookup id' ≠ none := by
      intro id' hid'
      rw [removeContext_of_lookup hentry, dropActive_contexts, lookup_erase,
        if_neg fun h : id' = id => hnodup.1 (h ▸ hid')]
      exact hids id' (List.mem_cons_of_mem _ hid')
    rw [collect, List.map_append, ih hnodup.2 hrest, removeContext_of_lookup hentry]
    simp [RouteContext.retired, ← key_of_lookup hentry]

/-- The context that is replaced frees its slot exactly when it carries no flow. -/
theorem length_retireReplaced (c : RouteContextCache) (replacement : Option RouteContextId) :
    (collect retireReplaced c replacement.toList).1.length + c.additionalSlot replacement = 1 := by
  cases replacement with
  | none => rfl
  | some old =>
    have hcollect : (collect retireReplaced c (some old).toList).1 =
        (c.retireReplaced old).1.toList := by
      simp [collect]
    rw [hcollect]
    cases hlookup : c.contexts.lookup old with
    | none => simp [retireReplaced, additionalSlot, removeContext, hlookup]
    | some entry =>
      by_cases hflows : 0 < entry.activeFlowCount
      · simp [retireReplaced, additionalSlot, hlookup, hflows]
      · simp [retireReplaced, additionalSlot, removeContext, hlookup, hflows]

variable {replacement : Option RouteContextId}

/-- An entry other than the replaced one is still there after the replacement. -/
theorem lookup_retireReplaced (hid : replacement.all (· != id) = true)
    (hlookup : c.contexts.lookup id ≠ none) :
    (collect retireReplaced c replacement.toList).2.contexts.lookup id ≠ none := by
  cases replacement with
  | none => exact hlookup
  | some old =>
    have hne : id ≠ old := by
      rintro rfl
      simp at hid
    change (c.retireReplaced old).2.contexts.lookup id ≠ none
    unfold retireReplaced
    split
    · rw [closeContext, lookup_modify]
      simpa using hlookup
    · cases hold : c.contexts.lookup old with
      | none => rwa [removeContext, hold]
      | some entry =>
        rwa [removeContext_of_lookup hold, dropActive_contexts, lookup_erase, if_neg hne]

theorem mem_victims {victim : RouteContextId × ℕ} :
    victim ∈ c.victims replacement ↔ ∃ entry ∈ c.contexts.rows, entry.activeFlowCount = 0 ∧
      replacement.all (· != entry.id) = true ∧ (entry.id, entry.lastUsedAt) = victim := by
  rw [victims, List.mem_insertionSort, List.mem_map]
  simp only [List.mem_filter, Bool.and_eq_true, decide_eq_true_eq, and_assoc]

variable (c replacement) in
theorem nodup_victims :
    ((c.victims replacement).map Prod.fst).Nodup := by
  have hperm : (c.victims replacement).Perm _ := List.perm_insertionSort _ _
  refine ((hperm.map Prod.fst).nodup_iff).mpr ?_
  rw [List.map_map]
  exact c.contexts.nodup.sublist (List.filter_sublist.map ContextEntry.id)

/-- The contexts that an insertion evicts carry no flow and are not the replaced one. -/
theorem lookup_of_mem_evicted (h : id ∈ c.evicted replacement) :
    ∃ entry, c.contexts.lookup id = some entry ∧ entry.activeFlowCount = 0 ∧
      replacement.all (· != id) = true := by
  obtain ⟨victim, hvictim, rfl⟩ := List.mem_map.mp h
  obtain ⟨entry, hentry, hcount, hne, rfl⟩ := mem_victims.mp (List.mem_of_mem_take hvictim)
  exact ⟨entry, c.contexts.lookup_key hentry, hcount, hne⟩

theorem evicted_unpinned (h : id ∈ c.evicted replacement) :
    c.Unpinned id := by
  obtain ⟨entry, hentry, hcount, -⟩ := lookup_of_mem_evicted h
  intro e he
  rw [hentry, Option.some.injEq] at he
  rw [← he, hcount]

variable (c replacement) in
/-- The evicted contexts are retired after the replaced one, in their order. -/
theorem collect_evicted_ids :
    (collect removeContext (collect retireReplaced c replacement.toList).2
      (c.evicted replacement)).1.map RetiredContext.routeContextId = c.evicted replacement := by
  refine collect_removeContext_ids
    ((c.nodup_victims replacement).sublist ((List.take_sublist _ _).map Prod.fst)) fun id hid => ?_
  obtain ⟨entry, hentry, -, hne⟩ := lookup_of_mem_evicted hid
  exact lookup_retireReplaced hne (by rw [hentry]; simp)

/-- **The number of contexts that an insertion retires**: the replaced one, if it carries no flow,
and those in excess of the capacity. -/
theorem length_replaceContexts (hn : c.lruNeeded replacement ≤ (c.victims replacement).length) :
    (c.replaceContexts replacement).1.length + c.additionalSlot replacement =
      c.lruNeeded replacement + 1 := by
  have hreplaced := length_retireReplaced c replacement
  have hlength := congrArg List.length (c.collect_evicted_ids replacement)
  rw [List.length_map, evicted, List.length_map, List.length_take, Nat.min_eq_left hn] at hlength
  simp only [replaceContexts, List.length_append, evicted]
  omega

/-- What the changes before the new context is added establish. -/
theorem replaceContexts_invariant (h : c.Consistent) (scope : RouteScope) :
    (c.replaceContexts (c.activeContext scope)).2.Pinned ∧
      (c.replaceContexts (c.activeContext scope)).2.ActiveExcept (some scope) := by
  have hreplaced := collect_removes retireReplaced_removes c (c.activeContext scope).toList
  have hinv : (collect retireReplaced c (c.activeContext scope).toList).2.Pinned ∧
      (collect retireReplaced c (c.activeContext scope).toList).2.ActiveExcept (some scope) := by
    cases hold : c.activeContext scope with
    | none =>
      refine ⟨h.pinned, h.activeExcept.except fun id ha => ?_⟩
      rw [activeContext, Option.map_eq_none_iff, lookup_eq_none] at hold
      exact hold _ ((h.active scope id).mpr ha) rfl
    | some old => exact retireReplaced_invariant h (activeContext_eq_some.mp hold)
  have hloop := collect_invariant
    (P := fun c' => (c'.Pinned ∧ c'.ActiveExcept (some scope)) ∧
      ∀ id ∈ c.evicted (c.activeContext scope), c'.Unpinned id)
    (f := removeContext) (c.evicted (c.activeContext scope))
    (fun c id hid hc => ⟨⟨removeContext_pinned hc.1.1 (hc.2 id hid),
      removeContext_activeExcept hc.1.2⟩,
      fun id' hid' => (removeContext_removes c id).unpinned id' (hc.2 id' hid')⟩)
    ⟨hinv, fun id hid => hreplaced.unpinned id (evicted_unpinned hid)⟩
  exact hloop.1

variable {context : RouteContext} {now : ℕ}

/-- What an insertion does when it succeeds. -/
theorem insertContext_eq_ok :
    c.insertContext context now = .ok (retired, c') ↔
      c.validateContext context now = .ok () ∧
      c.contexts.lookup context.routeContextId = none ∧
      c.lruNeeded (c.activeContext context.scope) ≤
        (c.victims (c.activeContext context.scope)).length ∧
      (c.replaceContexts (c.activeContext context.scope)).1 = retired ∧
      (c.replaceContexts (c.activeContext context.scope)).2.addContext context now = c' := by
  simp only [insertContext, ok_iff, Prod.mk.injEq, exists_const, not_lt, ne_eq, not_not]
  exact ⟨Exists.choose_spec, fun h => ⟨(), h⟩⟩

/-- The contexts after an insertion, with the new one. -/
theorem addContext_contexts (now : ℕ) (hfresh : c.contexts.lookup context.routeContextId = none) :
    (c.addContext context now).contexts.rows = c.contexts.rows ++ [⟨context, now, 0, true⟩] :=
  rows_put (r := (⟨context, now, 0, true⟩ : ContextEntry)) hfresh

theorem addContext_pinned (h : c.Pinned)
    (hfresh : c.contexts.lookup context.routeContextId = none) :
    (c.addContext context now).Pinned := by
  have hrows := addContext_contexts now hfresh
  constructor
  · intro entry hentry
    rw [hrows, List.mem_append, List.mem_singleton] at hentry
    rcases hentry with hentry | rfl
    · exact h.count_eq entry hentry
    · -- no flow can be bound to an identifier that was not there
      refine (List.countP_eq_zero.mpr fun flow hflow hid => ?_).symm
      obtain ⟨e, he, hbinding⟩ := h.bound flow hflow
      rw [decide_eq_true_eq, hbinding] at hid
      exact (c.contexts.lookup_eq_none _).mp hfresh e he hid
  · intro flow hflow
    obtain ⟨entry, hentry, hbinding⟩ := h.bound flow hflow
    exact ⟨entry, by rw [hrows]; exact List.mem_append_left _ hentry, hbinding⟩

theorem addContext_activeExcept (h : c.ActiveExcept (some context.scope))
    (hfresh : c.contexts.lookup context.routeContextId = none) :
    (c.addContext context now).ActiveExcept none := by
  have hrows := addContext_contexts now hfresh
  have haccepts : ∀ scope id, (c.addContext context now).Accepts scope id ↔
      c.Accepts scope id ∨ scope = context.scope ∧ id = context.routeContextId := by
    intro scope id
    simp only [Accepts, hrows, List.mem_append, List.mem_singleton, or_and_right, exists_or,
      exists_eq_left, ContextEntry.id, and_true]
    exact or_congr_right ⟨fun ha => ⟨ha.2.symm, ha.1.symm⟩, fun ha => ⟨ha.2.symm, ha.1.symm⟩⟩
  refine ⟨fun scope id _ => ?_, fun _ _ _ => by simp⟩
  rw [haccepts]
  change (scope, id) ∈ (c.activeByScope.put (context.scope, context.routeContextId)).rows ↔ _
  rw [mem_put, Prod.mk.injEq, or_comm]
  refine or_congr_left ⟨fun hmem => ?_, fun ha => ?_⟩
  · exact (h.active scope id fun hs => hmem.2 (Option.some.inj hs).symm).mp hmem.1
  · have hstale := h.closed scope id ha
    exact ⟨(h.active scope id hstale).mpr ha, fun hs => hstale (congrArg some hs.symm)⟩

/-- An identifier that is not cached is not cached after contexts are removed. -/
theorem Removes.fresh (h : Removes c retired c')
    (hid : c.contexts.lookup id = none) : c'.contexts.lookup id = none := by
  refine (lookup_eq_none _ _).mpr fun entry hentry hkey => ?_
  have hmem : entry.context.retired ∈ c.generations :=
    (List.Perm.mem_iff h.accounted).mpr (List.mem_append_right _ (List.mem_map_of_mem hentry))
  obtain ⟨e, he, heq⟩ := List.mem_map.mp hmem
  exact (c.contexts.lookup_eq_none id).mp hid e he
    ((congrArg RetiredContext.routeContextId heq).trans hkey)

/-- A successful insertion adds the new context to those that it does not retire. -/
theorem insertContext_accounted (h : c.insertContext context now = .ok (retired, c')) :
    (context.retired :: c.generations).Perm (retired ++ c'.generations) := by
  obtain ⟨-, hfresh, -, rfl, rfl⟩ := insertContext_eq_ok.mp h
  have hremoves := c.replaceContexts_removes (c.activeContext context.scope)
  rw [generations.eq_def (addContext _ _ _), addContext_contexts now (hremoves.fresh hfresh),
    List.map_append, ← List.append_assoc]
  exact (List.Perm.cons _ hremoves.accounted).trans (List.perm_append_singleton _ _).symm

theorem insertContext_consistent (hc : c.Consistent)
    (h : c.insertContext context now = .ok (retired, c')) : c'.Consistent ∧ SameLimits c c' := by
  have haccounted := List.Perm.length_eq (insertContext_accounted h)
  obtain ⟨-, hfresh, hvictims, rfl, rfl⟩ := insertContext_eq_ok.mp h
  have hremoves := c.replaceContexts_removes (c.activeContext context.scope)
  obtain ⟨hpinned, hactive⟩ := replaceContexts_invariant hc context.scope
  have hfresh' := hremoves.fresh hfresh
  refine ⟨⟨?_, ?_, ?_, (addContext_pinned hpinned hfresh').count_eq,
    (addContext_pinned hpinned hfresh').bound, fun scope id =>
      (addContext_activeExcept hactive hfresh').active scope id (by simp)⟩, hremoves.limits⟩
  · exact hremoves.limits.2.1 ▸ hc.limits
  · have hlength := length_replaceContexts hvictims
    have hle := hc.contexts_le
    have hlimit : (addContext (c.replaceContexts (c.activeContext context.scope)).2 context
      now).maximumContexts = c.maximumContexts := hremoves.limits.1
    simp only [generations, List.length_cons, List.length_map, List.length_append] at haccounted
    rw [hlimit]
    unfold contextCount at hle ⊢
    unfold lruNeeded at hlength
    omega
  · change (c.replaceContexts (c.activeContext context.scope)).2.flowCount ≤
      (c.replaceContexts (c.activeContext context.scope)).2.maximumFlows
    rw [flowCount, hremoves.flows, hremoves.limits.2.1]
    exact hc.flows_le

end RouteContextCache

end Volparossa.Selection
