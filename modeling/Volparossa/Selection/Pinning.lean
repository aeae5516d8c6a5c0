import Volparossa.Selection.Retirement

/-!
# Pinned flows and eviction

A flow keeps the route it started with: from the successful start of a flow until its end, the cache
holds the same binding for it and the same context generation behind the binding, whatever else is
called in between (`run_pinned`). Ending the flow works as soon as the clock is not behind the last
use of that context, and once (`finish_pinned`, `finish_unbound`).

A call that fails leaves the cache as it was, but for a start of a flow that finds the active
context expired: it closes that context (`failed_call`). And an insertion into a full cache makes
room by the least recently used context without flows (`evicts_least`), unless it replaces a context
of its own scope that has no flows: then that one is retired, and no other (`replaces_unpinned`).
**`flow_pinning`** collects these results for every run.
-/

namespace Volparossa.Selection

open Volparossa.Core RouteContextCache

variable {c c' : RouteContextCache}

/-! ## Flows stay where they are -/

/-- The step ends the flow. -/
def Finishes (flowId : FlowId) (e : Event) : Prop :=
  ∃ now outcome, e.input = .finishFlow flowId now ∧ e.output = .ok outcome

/-- The step starts the flow. -/
def Begins (flowId : FlowId) (e : Event) : Prop :=
  ∃ scope now outcome, e.input = .beginFlow scope flowId now ∧ e.output = .ok outcome

/-- The context behind an identifier. -/
def contextOf (c : RouteContextCache) (id : RouteContextId) : Option RouteContext :=
  (c.contexts.lookup id).map ContextEntry.context

variable {result : Except RouteContextError Outcome}

/-- A context that is cached after a step was cached before it, or is the one that was inserted. -/
theorem Effect.kept {i : Call} (h : Effect c i result c') {entry' : ContextEntry}
    (hentry' : entry' ∈ c'.contexts.rows) :
    (∃ entry ∈ c.contexts.rows, entry.context = entry'.context) ∨
      c.contexts.lookup entry'.id = none := by
  have huse : ∀ (id : RouteContextId) (count now : ℕ),
      entry' ∈ (c.useContext id count now).contexts.rows →
        ∃ entry ∈ c.contexts.rows, entry.context = entry'.context := by
    intro id count now hmem
    obtain ⟨e, he, rfl⟩ := List.mem_map.mp hmem
    refine ⟨e, he, ?_⟩
    split <;> rfl
  cases h with
  | refused => exact .inl ⟨entry', hentry', rfl⟩
  | @lapsed entry flowId now =>
    exact .inl ((closeActive_removes c entry.id entry.context.scope).kept entry' hentry')
  | @inserted context now retired c' hinsert =>
    obtain ⟨-, hfresh, -, -, rfl⟩ := insertContext_eq_ok.mp hinsert
    have hremoves := c.replaceContexts_removes (c.activeContext context.scope)
    rw [addContext_contexts _ (hremoves.fresh hfresh), List.mem_append,
      List.mem_singleton] at hentry'
    rcases hentry' with hentry' | rfl
    · exact .inl (hremoves.kept entry' hentry')
    · exact .inr hfresh
  | began | finished => exact .inl (huse _ _ _ hentry')
  | @finishedLast entry flowId now =>
    obtain ⟨e, he, heq⟩ :=
      (removeContext_removes (c.unpinFlow entry flowId now) entry.id).kept entry' hentry'
    obtain ⟨e', he', rfl⟩ := List.mem_map.mp he
    refine .inl ⟨e', he', Eq.trans ?_ heq⟩
    split <;> rfl
  | expired now order => exact .inl ((expire_removes c now order).kept entry' hentry')

variable {flowId : FlowId} {binding : FlowBinding}

/-- A bound flow's binding is that of the context behind it. -/
theorem exists_contextOf (h : c.Consistent) (hflow : c.flowBinding flowId = some binding) :
    ∃ context, contextOf c binding.routeContextId = some context ∧ binding = context.binding := by
  obtain ⟨entry, hlookup, rfl, -⟩ := h.exists_entry hflow
  refine ⟨entry.context, ?_, rfl⟩
  change (c.contexts.lookup entry.id).map ContextEntry.context = _
  rw [hlookup]
  rfl

/-- What ties a flow to its route in `c` still does in `c'`. -/
structure StaysPinned (flowId : FlowId) (binding : FlowBinding) (c c' : RouteContextCache) :
    Prop where
  binding_eq : c'.flowBinding flowId = some binding
  context_eq : contextOf c' binding.routeContextId = contextOf c binding.routeContextId

theorem Effect.flowBinding_pinned {i : Call} (h : Effect c i result c')
    (hflow : c.flowBinding flowId = some binding) (hi : ¬Finishes flowId ⟨c, i, result, c'⟩) :
    c'.flowBinding flowId = some binding := by
  rw [h.flowBinding flowId, hflow]
  cases h with
  | @refused i e he => cases i <;> rfl
  | lapsed | inserted | expired => rfl
  | @began entry flowId' now hlookup hfresh =>
    -- a flow that is bound cannot be started
    refine if_neg fun h => ?_
    rw [h] at hfresh
    rw [RouteContextCache.flowBinding, hfresh] at hflow
    cases hflow
  | finished | finishedLast => exact if_neg fun h => hi ⟨_, _, by rw [← h], rfl⟩

/-- **One step keeps a flow where it is**, unless it ends it, and neither retires nor inserts the
context that it is bound to. -/
theorem Effect.pinned {i : Call} (h : Effect c i result c') (hc : c.Consistent)
    (hflow : c.flowBinding flowId = some binding) (hi : ¬Finishes flowId ⟨c, i, result, c'⟩) :
    StaysPinned flowId binding c c' ∧
      ∀ generation ∈ insertedBy ⟨c, i, result, c'⟩ ++ retiredBy ⟨c, i, result, c'⟩,
        generation.routeContextId ≠ binding.routeContextId := by
  have hflow' := h.flowBinding_pinned hflow hi
  obtain ⟨entry, hlookup, hbinding, -⟩ := hc.exists_entry hflow
  obtain ⟨entry', hlookup', hbinding', -⟩ := (h.consistent hc).1.exists_entry hflow'
  have hid : binding.routeContextId = entry.id := congrArg FlowBinding.routeContextId hbinding
  have hid' : binding.routeContextId = entry'.id := congrArg FlowBinding.routeContextId hbinding'
  refine ⟨⟨hflow', ?_⟩, fun generation hgeneration => ?_⟩
  · rw [contextOf, contextOf, hid, hlookup, ← hid, hid', hlookup', Option.map_some,
      Option.map_some, Option.some.injEq]
    rcases h.kept (Table.mem_of_lookup hlookup') with ⟨e, he, heq⟩ | hfresh
    · have hkey : e.id = entry.id :=
        (congrArg RouteContext.routeContextId heq).trans (hid'.symm.trans hid)
      rw [← heq, c.contexts.eq_of_key_eq he (Table.mem_of_lookup hlookup) hkey]
    · rw [← hid', hid, hlookup] at hfresh
      cases hfresh
  · rcases List.mem_append.mp hgeneration with hinserted | hretired
    · -- an inserted identifier was not cached
      have hnodup := h.nodup
      rw [List.map_append, List.nodup_append] at hnodup
      refine hnodup.2.2 _ (List.mem_map_of_mem hinserted) _ ?_
      rw [map_id_generations, hid]
      exact List.mem_map_of_mem (Table.mem_of_lookup hlookup)
    · exact (h.retired_unbound hc hretired hflow').symm

/-- **Every run keeps a flow where it is** until it ends it. -/
theorem run_pinned (hc : c.Consistent) (hflow : c.flowBinding flowId = some binding)
    {calls : List Call}
    (hcalls : ∀ e ∈ machine.events c calls, ¬Finishes flowId e) :
    StaysPinned flowId binding c (machine.run c calls) ∧
      ∀ e ∈ machine.events c calls, ∀ generation ∈ insertedBy e ++ retiredBy e,
        generation.routeContextId ≠ binding.routeContextId := by
  induction calls generalizing c with
  | nil => exact ⟨⟨hflow, rfl⟩, by simp⟩
  | cons i calls ih =>
    rw [Machine.events_cons, List.forall_mem_cons] at hcalls
    obtain ⟨hstep, hgenerations⟩ := (call_effect hc i).pinned hc hflow hcalls.1
    obtain ⟨hrest, hgenerations'⟩ := ih (call_consistent hc i).1 hstep.binding_eq hcalls.2
    refine ⟨⟨hrest.binding_eq, hrest.context_eq.trans hstep.context_eq⟩, ?_⟩
    rw [Machine.events_cons, List.forall_mem_cons]
    exact ⟨hgenerations, hgenerations'⟩

/-! ## Flows end once -/

/-- **Ending a bound flow works** exactly when the clock is not behind the last use of its context;
otherwise nothing changes. -/
theorem finish_pinned (hc : c.Consistent) (hflow : c.flowBinding flowId = some binding) (now : ℕ) :
    ∃ entry, c.contexts.lookup binding.routeContextId = some entry ∧
      (entry.lastUsedAt ≤ now → Finishes flowId (machine.event c (.finishFlow flowId now)) ∧
        (machine.next c (.finishFlow flowId now)).flowBinding flowId = none) ∧
      (now < entry.lastUsedAt →
        machine.step c (.finishFlow flowId now) = (.error .clockMovedBackwards, c)) := by
  obtain ⟨entry, hlookup, rfl, hrow, hcases⟩ := finishFlow_of_bound hc hflow now
  have hstep : machine.step c (.finishFlow flowId now) =
      atomically c .finished (c.finishFlow flowId now) := rfl
  have hbinding := (call_effect hc (.finishFlow flowId now)).flowBinding flowId
  refine ⟨entry, hlookup, fun hle => ?_, fun hlt => ?_⟩
  · have hok : ∃ outcome, (machine.step c (.finishFlow flowId now)).1 = .ok outcome := by
      obtain ⟨hlt, -⟩ | ⟨-, heq | ⟨-, heq⟩⟩ := hcases
      · omega
      · exact ⟨.finished none, by rw [hstep, heq]; rfl⟩
      · exact ⟨.finished _, by rw [hstep, heq]; rfl⟩
    obtain ⟨outcome, hok⟩ := hok
    refine ⟨⟨now, outcome, rfl, hok⟩, ?_⟩
    have hcall : (call c (.finishFlow flowId now)).1 = .ok outcome := hok
    rw [hcall] at hbinding
    exact hbinding.trans (if_pos rfl)
  · obtain ⟨-, heq⟩ | ⟨hle, -⟩ := hcases
    · rw [hstep, heq]
      rfl
    · omega

/-- A flow that is not bound stays so until it is begun, and ending it fails. -/
theorem finish_unbound (hc : c.Consistent) (hflow : c.flowBinding flowId = none)
    {calls : List Call} (hcalls : ∀ e ∈ machine.events c calls, ¬Begins flowId e) (now : ℕ) :
    machine.step (machine.run c calls) (.finishFlow flowId now) =
      (.error .unknownFlow, machine.run c calls) := by
  induction calls generalizing c with
  | nil =>
    change atomically c .finished (c.finishFlow flowId now) = _
    rw [finishFlow_of_unknown hflow]
    rfl
  | cons i calls ih =>
    rw [Machine.events_cons, List.forall_mem_cons] at hcalls
    refine ih (call_consistent hc i).1 ?_ hcalls.2
    have heffect : Effect c i (call c i).1 (call c i).2 := call_effect hc i
    have hnot : ¬Begins flowId ⟨c, i, (call c i).1, (call c i).2⟩ := hcalls.1
    change (call c i).2.flowBinding flowId = none
    generalize (call c i).1 = result at heffect hnot
    generalize (call c i).2 = c' at heffect hnot
    rw [heffect.flowBinding flowId, hflow]
    cases heffect with
    | @refused i e he => cases i <;> rfl
    | lapsed | inserted | expired => rfl
    | @began entry flowId' now => exact if_neg fun h => hnot ⟨_, now, _, by rw [← h], rfl⟩
    | finished | finishedLast => exact ite_self none

/-! ## Failed calls -/

/-- The expiry bookkeeping of a start of a flow: the expired context that it found is closed for new
flows and no longer active for its scope. -/
def ExpiryBookkeeping (c : RouteContextCache) (i : Call) (c' : RouteContextCache) : Prop :=
  ∃ entry flowId now, c.contexts.lookup entry.id = some entry ∧
    entry.context.expiresAt ≤ now ∧ i = .beginFlow entry.context.scope flowId now ∧
    c' = (c.closeContext entry.id).dropActive entry.context.scope entry.id

/-- **A failed call** leaves the cache alone, but for the expiry bookkeeping. -/
theorem failed_call (hc : c.Consistent) {i : Call} {e : RouteContextError}
    (h : (machine.event c i).output = .error e) :
    machine.next c i = c ∨ e = .contextExpired ∧ ExpiryBookkeeping c i (machine.next c i) := by
  have heffect : Effect c i (machine.event c i).output (machine.next c i) := call_effect hc i
  rw [h] at heffect
  generalize machine.next c i = c' at heffect
  cases heffect with
  | refused => exact .inl rfl
  | @lapsed entry flowId now hlookup hexpired =>
    exact .inr ⟨rfl, entry, flowId, now, hlookup, hexpired, rfl, rfl⟩

/-! ## Eviction -/

instance : Std.Total Older where
  total a b := by
    rcases Nat.lt_trichotomy a.2 b.2 with h | h | h
    · exact .inl (.inl h)
    · rcases Identifier.le_total a.1 b.1 with hid | hid
      · exact .inl (.inr ⟨h, hid⟩)
      · exact .inr (.inr ⟨h.symm, hid⟩)
    · exact .inr (.inl h)

instance : IsTrans (RouteContextId × ℕ) Older where
  trans a b d := by
    rintro (h | ⟨h, hid⟩) (h' | ⟨h', hid'⟩)
    · exact .inl (h.trans h')
    · exact .inl (h' ▸ h)
    · exact .inl (h ▸ h')
    · exact .inr ⟨h.trans h', Identifier.le_trans hid hid'⟩

theorem older_refl (a : RouteContextId × ℕ) : Older a a :=
  or_self_iff.mp (Std.Total.total a a)

/-- The first victim is the least recently used one. -/
theorem first_victim {replacement : Option RouteContextId} {victim : RouteContextId × ℕ}
    {rest : List (RouteContextId × ℕ)} (h : c.victims replacement = victim :: rest) :
    ∃ entry ∈ c.contexts.rows, entry.activeFlowCount = 0 ∧
      victim = (entry.id, entry.lastUsedAt) ∧
      ∀ other ∈ c.contexts.rows, other.activeFlowCount = 0 →
        replacement.all (· != other.id) = true → Older victim (other.id, other.lastUsedAt) := by
  have hpairwise : (c.victims replacement).Pairwise Older := List.pairwise_insertionSort _ _
  have hvictim : victim ∈ c.victims replacement := by
    rw [h]
    exact List.mem_cons_self
  obtain ⟨entry, hentry, hcount, -, heq⟩ := mem_victims.mp hvictim
  refine ⟨entry, hentry, hcount, heq.symm, fun other hother hcount' hne => ?_⟩
  have hmem : (other.id, other.lastUsedAt) ∈ c.victims replacement :=
    mem_victims.mpr ⟨other, hother, hcount', hne, rfl⟩
  rw [h] at hpairwise hmem
  rcases List.mem_cons.mp hmem with heq' | hmem
  · rw [heq']
    exact older_refl victim
  · exact (List.pairwise_cons.mp hpairwise).1 _ hmem

/-- If the new context takes a slot of its own, the one it replaces is not among those without
flows. -/
theorem all_ne_of_additionalSlot {replacement : Option RouteContextId}
    (hslot : c.additionalSlot replacement = 1) {entry : ContextEntry}
    (hentry : entry ∈ c.contexts.rows) (hcount : entry.activeFlowCount = 0) :
    replacement.all (· != entry.id) = true := by
  cases replacement with
  | none => rfl
  | some old =>
    rw [Option.all_some, bne_iff_ne]
    rintro rfl
    simp [additionalSlot, c.contexts.lookup_key hentry, hcount] at hslot

variable {context : RouteContext} {retired : List RetiredContext}

/-- What an insertion retires was cached. -/
theorem mem_generations_of_retired {now : ℕ} (h : c.insertContext context now = .ok (retired, c'))
    {generation : RetiredContext} (hgeneration : generation ∈ retired) :
    generation ∈ c.generations := by
  obtain ⟨-, -, -, rfl, -⟩ := insertContext_eq_ok.mp h
  have hremoves := c.replaceContexts_removes (c.activeContext context.scope)
  exact (List.Perm.mem_iff hremoves.accounted).mpr (List.mem_append_left _ hgeneration)

/-- A retired generation with the identifier of an entry is that entry's. -/
theorem eq_of_mem_generations {generation : RetiredContext} {entry : ContextEntry}
    (hgeneration : generation ∈ c.generations) (hentry : entry ∈ c.contexts.rows)
    (hid : generation.routeContextId = entry.id) : generation = entry.context.retired := by
  obtain ⟨e, he, rfl⟩ := List.mem_map.mp hgeneration
  rw [c.contexts.eq_of_key_eq he hentry hid]

section

variable {now : ℕ} (hfull : c.contextCount = c.maximumContexts)
  (h : c.insertContext context now = .ok (retired, c'))

include hfull h

/-- **An insertion into a full cache** that does not replace a context without flows retires the
least recently used context without flows, and no other. -/
theorem evicts_least (hslot : c.additionalSlot (c.activeContext context.scope) = 1) :
    ∃ victim ∈ c.contexts.rows, victim.activeFlowCount = 0 ∧
      (∀ other ∈ c.contexts.rows, other.activeFlowCount = 0 →
        Older (victim.id, victim.lastUsedAt) (other.id, other.lastUsedAt)) ∧
      retired = [victim.context.retired] := by
  have hmem : ∀ generation ∈ retired, generation ∈ c.generations := fun _ =>
    mem_generations_of_retired h
  obtain ⟨-, -, hvictims, rfl, -⟩ := insertContext_eq_ok.mp h
  have hneeded : c.lruNeeded (c.activeContext context.scope) = 1 := by
    unfold contextCount at hfull
    rw [lruNeeded, hslot]
    omega
  have hreplaced : (collect retireReplaced c (c.activeContext context.scope).toList).1 = [] := by
    have := length_retireReplaced c (c.activeContext context.scope)
    exact List.length_eq_zero_iff.mp (by omega)
  obtain ⟨victim, rest, hrest⟩ : ∃ victim rest,
      c.victims (c.activeContext context.scope) = victim :: rest :=
    List.exists_cons_of_length_pos (by omega)
  obtain ⟨entry, hentry, hcount, rfl, hleast⟩ := first_victim hrest
  refine ⟨entry, hentry, hcount, fun other hother hcount' =>
    hleast other hother hcount' (all_ne_of_additionalSlot hslot hother hcount'), ?_⟩
  -- one context is retired, with the identifier of the first victim
  have hids : (c.replaceContexts (c.activeContext context.scope)).1.map
      RetiredContext.routeContextId = [entry.id] := by
    have hevicted := c.collect_evicted_ids (c.activeContext context.scope)
    simp only [replaceContexts, hreplaced, List.nil_append]
    rw [hevicted, evicted, hneeded, hrest]
    rfl
  obtain ⟨generation, hgeneration, hid⟩ := List.map_eq_singleton_iff.mp hids
  have hcached := hmem generation (by rw [hgeneration]; exact List.mem_singleton_self _)
  rw [hgeneration, eq_of_mem_generations hcached hentry hid]

/-- **An insertion into a full cache that replaces a context without flows** retires that one, and
no other. -/
theorem replaces_unpinned {old : RouteContextId} {entry : ContextEntry}
    (hold : c.activeContext context.scope = some old) (hlookup : c.contexts.lookup old = some entry)
    (hcount : entry.activeFlowCount = 0) : retired = [entry.context.retired] := by
  obtain ⟨-, -, -, rfl, -⟩ := insertContext_eq_ok.mp h
  have hslot : c.additionalSlot (some old) = 0 := by
    simp [additionalSlot, hlookup, hcount]
  have hneeded : c.lruNeeded (some old) = 0 := by
    unfold contextCount at hfull
    rw [lruNeeded, hslot]
    omega
  rw [hold]
  simp [replaceContexts, evicted, hneeded, collect, retireReplaced, removeContext, hlookup, hcount]

end

/-! ## Every run -/

/-- The flow is pinned from `c` on: as long as no step ends it, the cache holds this binding for it
and the context behind it, which is neither retired nor inserted anew, and a call that ends it works
exactly when the clock is not behind the last use of the context; after that, ending it fails until
it is begun again. -/
def PinnedFrom (c : RouteContextCache) (flowId : FlowId) (binding : FlowBinding) : Prop :=
  (∃ context, contextOf c binding.routeContextId = some context ∧ binding = context.binding) ∧
  ∀ between, (∀ e ∈ machine.events c between, ¬Finishes flowId e) →
    StaysPinned flowId binding c (machine.run c between) ∧
    (∀ e ∈ machine.events c between, ∀ generation ∈ insertedBy e ++ retiredBy e,
      generation.routeContextId ≠ binding.routeContextId) ∧
    ∀ now, ∃ entry,
      (machine.run c between).contexts.lookup binding.routeContextId = some entry ∧
      (now < entry.lastUsedAt → machine.step (machine.run c between) (.finishFlow flowId now) =
        (.error .clockMovedBackwards, machine.run c between)) ∧
      (entry.lastUsedAt ≤ now →
        Finishes flowId (machine.event (machine.run c between) (.finishFlow flowId now)) ∧
        ∀ after, (∀ e ∈ machine.events
            (machine.run c (between ++ [.finishFlow flowId now])) after, ¬Begins flowId e) →
          ∀ later, machine.step
              (machine.run c (between ++ .finishFlow flowId now :: after))
              (.finishFlow flowId later) =
            (.error .unknownFlow, machine.run c (between ++ .finishFlow flowId now :: after)))

theorem pinnedFrom_of_bound (hc : c.Consistent) (hflow : c.flowBinding flowId = some binding) :
    PinnedFrom c flowId binding := by
  refine ⟨exists_contextOf hc hflow, fun between hbetween => ?_⟩
  obtain ⟨hstays, hgenerations⟩ := run_pinned hc hflow hbetween
  refine ⟨hstays, hgenerations, fun now => ?_⟩
  have hrun := run_consistent hc between
  obtain ⟨entry, hlookup, hfinish, hback⟩ := finish_pinned hrun hstays.binding_eq now
  refine ⟨entry, hlookup, hback, fun hle => ?_⟩
  obtain ⟨hfinishes, hunbound⟩ := hfinish hle
  refine ⟨hfinishes, fun after hafter later => ?_⟩
  rw [Machine.run_append] at hafter ⊢
  exact finish_unbound (call_consistent hrun (.finishFlow flowId now)).1 hunbound hafter later

/-- What an insertion into a full cache may retire: the context of its own scope, if it has no
flows, and otherwise the least recently used of the contexts without flows. -/
def RetiresOne (c : RouteContextCache) (scope : RouteScope) (retired : List RetiredContext) :
    Prop :=
  (∃ old entry, c.activeContext scope = some old ∧ c.contexts.lookup old = some entry ∧
    entry.activeFlowCount = 0 ∧ retired = [entry.context.retired]) ∨
  (∀ old entry, c.activeContext scope = some old → c.contexts.lookup old = some entry →
    0 < entry.activeFlowCount) ∧
  ∃ victim ∈ c.contexts.rows, victim.activeFlowCount = 0 ∧
    (∀ other ∈ c.contexts.rows, other.activeFlowCount = 0 →
      Older (victim.id, victim.lastUsedAt) (other.id, other.lastUsedAt)) ∧
    retired = [victim.context.retired]

theorem insert_retiresOne {now : ℕ} (hfull : c.contextCount = c.maximumContexts)
    (h : c.insertContext context now = .ok (retired, c')) :
    RetiresOne c context.scope retired := by
  by_cases hunpinned : ∃ old entry, c.activeContext context.scope = some old ∧
      c.contexts.lookup old = some entry ∧ entry.activeFlowCount = 0
  · obtain ⟨old, entry, hold, hlookup, hcount⟩ := hunpinned
    exact .inl ⟨old, entry, hold, hlookup, hcount,
      replaces_unpinned hfull h hold hlookup hcount⟩
  · have hflows : ∀ old entry, c.activeContext context.scope = some old →
        c.contexts.lookup old = some entry → 0 < entry.activeFlowCount := fun old entry ho hl =>
      Nat.pos_of_ne_zero fun hzero => hunpinned ⟨old, entry, ho, hl, hzero⟩
    refine .inr ⟨hflows, evicts_least hfull h ?_⟩
    cases hold : c.activeContext context.scope with
    | none => rfl
    | some old =>
      cases hlookup : c.contexts.lookup old with
      | none => simp [additionalSlot, hlookup]
      | some entry => simp [additionalSlot, hlookup, hflows old entry hold hlookup]

/-- **Flow pinning.** In every state of every run of a new cache: a flow that is begun is pinned
from then on to its context generation and plan, until it ends, which it does once; a call that
fails leaves the cache alone, but for the expiry bookkeeping of a start of a flow; and an insertion
into a full cache retires the context of its scope, if that has no flows, and otherwise the least
recently used of the contexts without flows. -/
theorem flow_pinning {maximumContexts maximumTtlSeconds maximumFlows : ℕ}
    (hnew : newWithMaximumFlows maximumContexts maximumTtlSeconds maximumFlows = .ok c)
    (calls : List Call) :
    (∀ scope flowId now binding,
      (machine.event (machine.run c calls) (.beginFlow scope flowId now)).output =
        .ok (.began binding) →
      PinnedFrom (machine.run c (calls ++ [.beginFlow scope flowId now])) flowId binding) ∧
    (∀ i e, (machine.event (machine.run c calls) i).output = .error e →
      machine.next (machine.run c calls) i = machine.run c calls ∨
      e = .contextExpired ∧
        ExpiryBookkeeping (machine.run c calls) i (machine.next (machine.run c calls) i)) ∧
    ∀ context now retired,
      (machine.run c calls).contextCount = (machine.run c calls).maximumContexts →
      (machine.event (machine.run c calls) (.insertContext context now)).output =
        .ok (.inserted retired) →
      RetiresOne (machine.run c calls) context.scope retired := by
  have hrun := run_consistent (new_consistent hnew) calls
  refine ⟨fun scope flowId now binding hbegan => ?_, fun i e => failed_call hrun,
    fun context now retired hfull hinserted => ?_⟩
  · rw [Machine.run_append]
    refine pinnedFrom_of_bound (call_consistent hrun _).1 ?_
    have hflow := (call_effect hrun (.beginFlow scope flowId now)).flowBinding flowId
    have houtput : (call (machine.run c calls) (.beginFlow scope flowId now)).1 =
      .ok (.began binding) := hbegan
    rw [houtput] at hflow
    exact hflow.trans (if_pos rfl)
  · change (atomically (machine.run c calls) .inserted
      ((machine.run c calls).insertContext context now)).1 = _ at hinserted
    cases hinsert : (machine.run c calls).insertContext context now with
    | error e =>
      rw [hinsert] at hinserted
      cases hinserted
    | ok result =>
      obtain ⟨retired', c'⟩ := result
      rw [hinsert] at hinserted
      cases hinserted
      exact insert_retiresOne hfull hinsert

/-- Two contexts without flows fill the cache, the first one used less recently. -/
def sampleFull : List Call :=
  [.insertContext (sampleContext 1 1) 1000, .insertContext (sampleContext 2 2) 1010]

/-- A third scope makes room by the first context. -/
theorem flow_pinning_evicts :
    newWithMaximumFlows 2 600 4 = .ok sampleCache ∧
      (machine.run sampleCache sampleFull).contextCount = 2 ∧
      RetiresOne (machine.run sampleCache sampleFull) (sampleScope 3)
        [(sampleContext 1 1).retired] :=
  ⟨rfl, by decide +kernel, (flow_pinning (c := sampleCache)
    (rfl : newWithMaximumFlows 2 600 4 = _) sampleFull).2.2 (sampleContext 3 3) 1020 _
    (by decide +kernel) (by decide +kernel)⟩

/-- **An insertion into a full cache need not evict the least recently used context without flows**:
one for the scope of the second context retires that one, though the first was used before it. -/
theorem full_insert_keeps_least :
    newWithMaximumFlows 2 600 4 = .ok sampleCache ∧
      (machine.run sampleCache sampleFull).contextCount = 2 ∧
      (machine.run sampleCache sampleFull).flowCount = 0 ∧
      Older (sampleId 1, 1000) (sampleId 2, 1010) ∧ ¬Older (sampleId 2, 1010) (sampleId 1, 1000) ∧
      (machine.run sampleCache sampleFull).contexts.rows.map
        (fun entry => (entry.id, entry.lastUsedAt)) = [(sampleId 1, 1000), (sampleId 2, 1010)] ∧
      (machine.event (machine.run sampleCache sampleFull)
        (.insertContext (sampleContext 3 2) 1020)).output =
          .ok (.inserted [(sampleContext 2 2).retired]) := by
  decide +kernel

end Volparossa.Selection
