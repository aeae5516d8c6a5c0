import Volparossa.Selection.Consistency

/-!
# Retirement of route contexts

Every context generation that is inserted has network resources behind it, which the client cleans
up when the cache returns the generation as retired. This module follows the generations over whole
runs. An identifier may be inserted again once its context is retired, so that a generation is an
insertion and not an identifier: the generations of one identifier come one after the other.

The main result, **`retirement_conservation`**, says that of the generations of an identifier, in
the order of their insertion, all but the last have been returned, in this order and once each, and
the last is either the next one returned or the one in the cache. It also says that a context is not
returned while an unfinished flow is bound to it. Which flows are unfinished is read off the history
of the calls alone (`unfinished`), not off the cache.
-/

namespace Volparossa.Selection

open Volparossa.Core RouteContextCache RetiredContext

variable {c c' : RouteContextCache}

/-! ## What a history says -/

/-- The generation that a step inserts. -/
def insertedBy (e : Event) : List RetiredContext :=
  match e.input, e.output with
  | .insertContext context _, .ok _ => [context.retired]
  | _, _ => []

/-- The generations that a step returns as retired. -/
def retiredBy (e : Event) : List RetiredContext :=
  match e.output with
  | .ok outcome => outcome.retired
  | .error _ => []

/-- The generations inserted in a history, in order. -/
def insertions (history : List Event) : List RetiredContext := history.flatMap insertedBy

/-- The generations returned in a history, in order. -/
def retirements (history : List Event) : List RetiredContext := history.flatMap retiredBy

/-- The generations of one identifier. -/
def generationsOf (id : RouteContextId) (generations : List RetiredContext) : List RetiredContext :=
  generations.filter fun generation => generation.routeContextId = id

/-- The binding that a flow has after a step, given the one before it. -/
def follow (flowId : FlowId) (binding : Option FlowBinding) (e : Event) : Option FlowBinding :=
  match e.input, e.output with
  | .beginFlow _ flowId' _, .ok (.began binding') =>
    if flowId' = flowId then some binding' else binding
  | .finishFlow flowId' _, .ok _ => if flowId' = flowId then none else binding
  | _, _ => binding

/-- The binding that a flow got when it was last begun, unless it has been finished since. -/
def unfinished (history : List Event) (flowId : FlowId) : Option FlowBinding :=
  history.foldl (follow flowId) none

/-! ## One step -/

theorem flowBinding_of_flows (h : c'.flows = c.flows) (flowId : FlowId) :
    c'.flowBinding flowId = c.flowBinding flowId := by
  rw [flowBinding, flowBinding, h]

theorem flowBinding_pinFlow (entry : ContextEntry) (flowId : FlowId) (now : ℕ) (flowId' : FlowId) :
    (c.pinFlow entry flowId now).flowBinding flowId' =
      if flowId = flowId' then some entry.context.binding else c.flowBinding flowId' := by
  rw [flowBinding, pinFlow, Table.lookup_put]
  simp only [eq_comm]
  split <;> rfl

theorem flowBinding_unpinFlow (entry : ContextEntry) (flowId : FlowId) (now : ℕ)
    (flowId' : FlowId) :
    (c.unpinFlow entry flowId now).flowBinding flowId' =
      if flowId = flowId' then none else c.flowBinding flowId' := by
  rw [flowBinding, unpinFlow, Table.lookup_erase]
  simp only [eq_comm]
  split <;> rfl

theorem insertContext_flows {context : RouteContext} {now : ℕ} {retired : List RetiredContext}
    (h : c.insertContext context now = .ok (retired, c')) : c'.flows = c.flows := by
  obtain ⟨-, -, -, -, rfl⟩ := insertContext_eq_ok.mp h
  exact (c.replaceContexts_removes (c.activeContext context.scope)).flows

variable {result : Except RouteContextError Outcome}

/-- The flows of the cache are those that the history says. -/
theorem Effect.flowBinding {i : Call} (h : Effect c i result c') (flowId : FlowId) :
    c'.flowBinding flowId = follow flowId (c.flowBinding flowId) ⟨c, i, result, c'⟩ := by
  cases h with
  | @refused i e he => cases i <;> rfl
  | @lapsed entry flowId' now hlookup hexpired =>
    exact flowBinding_of_flows (closeActive_removes c entry.id entry.context.scope).flows flowId
  | inserted hinsert => exact flowBinding_of_flows (insertContext_flows hinsert) flowId
  | @began entry flowId' now => exact flowBinding_pinFlow entry flowId' now flowId
  | @finished entry flowId' now => exact flowBinding_unpinFlow entry flowId' now flowId
  | @finishedLast entry flowId' now =>
    have hflows := (removeContext_removes (c.unpinFlow entry flowId' now) entry.id).flows
    exact (flowBinding_of_flows hflows flowId).trans
      (flowBinding_unpinFlow entry flowId' now flowId)
  | expired now order => exact flowBinding_of_flows (expire_removes c now order).flows flowId

theorem generations_useContext (entry : ContextEntry) (count now : ℕ)
    {flows : Table (Prod.fst : FlowId × FlowBinding → FlowId)} :
    generations { c.useContext entry.id count now with flows } = c.generations :=
  generations_modify (fun entry => { entry with activeFlowCount := count, lastUsedAt := now })
    fun _ => rfl

/-- **One step accounts for every generation**: those cached before it and the one it inserts are
those it retires and those cached after it. -/
theorem Effect.accounted {i : Call} (h : Effect c i result c') :
    (insertedBy ⟨c, i, result, c'⟩ ++ c.generations).Perm
      (retiredBy ⟨c, i, result, c'⟩ ++ c'.generations) := by
  cases h with
  | @refused i e he => cases i <;> exact List.Perm.refl _
  | @lapsed entry flowId now hlookup hexpired =>
    exact (closeActive_removes c entry.id entry.context.scope).accounted
  | inserted hinsert => exact insertContext_accounted hinsert
  | @began entry flowId now =>
    exact List.Perm.of_eq (generations_useContext entry (entry.activeFlowCount + 1) now).symm
  | @finished entry flowId now =>
    exact List.Perm.of_eq (generations_useContext entry (entry.activeFlowCount - 1) now).symm
  | @finishedLast entry flowId now =>
    have haccounted := (removeContext_removes (c.unpinFlow entry flowId now) entry.id).accounted
    rw [Accounted, unpinFlow, generations_useContext] at haccounted
    exact haccounted
  | expired now order => exact (expire_removes c now order).accounted

theorem map_id_generations (c : RouteContextCache) :
    c.generations.map routeContextId = c.contexts.rows.map ContextEntry.id := by
  rw [generations, List.map_map]
  rfl

/-- No two of the generations that a step deals with have the same identifier. -/
theorem Effect.nodup {i : Call} (h : Effect c i result c') :
    ((insertedBy ⟨c, i, result, c'⟩ ++ c.generations).map
      routeContextId).Nodup := by
  have hcached : (c.generations.map routeContextId).Nodup := by
    rw [map_id_generations]
    exact c.contexts.nodup
  cases h with
  | @refused i e he => cases i <;> exact hcached
  | @inserted context now retired c' hinsert =>
    obtain ⟨-, hfresh, -⟩ := insertContext_eq_ok.mp hinsert
    change ((context.retired :: c.generations).map routeContextId).Nodup
    rw [List.map_cons, List.nodup_cons]
    refine ⟨?_, hcached⟩
    rw [map_id_generations, ← Table.lookup_ne_none, not_not]
    exact hfresh
  | _ => exact hcached

/-- A list without two elements of the same identifier has at most one of each. -/
theorem length_generationsOf_le (id : RouteContextId) {generations : List RetiredContext}
    (h : (generations.map routeContextId).Nodup) :
    (generationsOf id generations).length ≤ 1 := by
  have hsub : ((generationsOf id generations).map routeContextId).Nodup :=
    h.sublist (List.filter_sublist.map _)
  have hconst : (generationsOf id generations).map routeContextId =
      List.replicate (generationsOf id generations).length id := by
    refine List.eq_replicate_iff.mpr ⟨List.length_map _, fun b hb => ?_⟩
    obtain ⟨generation, hmem, rfl⟩ := List.mem_map.mp hb
    simpa using List.of_mem_filter hmem
  rw [hconst] at hsub
  exact List.nodup_replicate.mp hsub

theorem generationsOf_append (id : RouteContextId)
    (generations generations' : List RetiredContext) :
    generationsOf id (generations ++ generations') =
      generationsOf id generations ++ generationsOf id generations' :=
  List.filter_append _ _

/-- Lists that are permutations of each other and have at most one element are the same. -/
theorem eq_of_perm_of_length_le {α : Type*} {l l' : List α} (h : l.Perm l') (hl : l.length ≤ 1) :
    l = l' := by
  match l, hl with
  | [], _ => exact h.nil_eq
  | [a], _ => exact (List.perm_singleton.mp h.symm).symm

/-- One step accounts for the generations of an identifier, in their order. -/
theorem Effect.generationsOf_eq {i : Call} (h : Effect c i result c') (id : RouteContextId) :
    generationsOf id c.generations ++ generationsOf id (insertedBy ⟨c, i, result, c'⟩) =
      generationsOf id (retiredBy ⟨c, i, result, c'⟩) ++ generationsOf id c'.generations := by
  have hle := length_generationsOf_le id h.nodup
  have heq : generationsOf id (insertedBy ⟨c, i, result, c'⟩ ++ c.generations) =
      generationsOf id (retiredBy ⟨c, i, result, c'⟩ ++ c'.generations) :=
    eq_of_perm_of_length_le (h.accounted.filter _) hle
  rw [generationsOf_append, List.length_append] at hle
  rw [generationsOf_append, generationsOf_append] at heq
  rw [← heq]
  -- one of the two parts is empty
  rcases Nat.eq_zero_or_pos (generationsOf id c.generations).length with hzero | hpos
  · rw [List.length_eq_zero_iff.mp hzero, List.nil_append, List.append_nil]
  · have hzero : (generationsOf id (insertedBy ⟨c, i, result, c'⟩)).length = 0 := by omega
    rw [List.length_eq_zero_iff.mp hzero, List.nil_append, List.append_nil]

/-- A step returns no context that a flow is bound to after it. -/
theorem Effect.retired_unbound {i : Call} (h : Effect c i result c') (hc : c.Consistent)
    {generation : RetiredContext}
    (hretired : generation ∈ retiredBy ⟨c, i, result, c'⟩) {flowId : FlowId}
    {binding : FlowBinding} (hflow : c'.flowBinding flowId = some binding) :
    binding.routeContextId ≠ generation.routeContextId := by
  obtain ⟨entry, hlookup, rfl, -⟩ := (h.consistent hc).1.exists_entry hflow
  have hnodup : ((retiredBy ⟨c, i, result, c'⟩ ++ c'.generations).map
      routeContextId).Nodup :=
    ((h.accounted.map routeContextId).nodup_iff).mp h.nodup
  rw [List.map_append, List.nodup_append] at hnodup
  have hcached : entry.id ∈ c'.generations.map routeContextId := by
    rw [map_id_generations]
    exact List.mem_map_of_mem (Table.mem_of_lookup hlookup)
  exact (hnodup.2.2 _ (List.mem_map_of_mem hretired) _ hcached).symm

/-! ## Every run -/

theorem run_unfinished (hc : c.Consistent) (hflows : c.flows = .empty) (calls : List Call)
    (flowId : FlowId) :
    unfinished (machine.events c calls) flowId = (machine.run c calls).flowBinding flowId := by
  have hinv := Machine.history_invariant (m := machine) (s := c)
    (P := fun past c' => c'.Consistent ∧ unfinished past flowId = c'.flowBinding flowId)
    ⟨hc, by rw [flowBinding, hflows]; rfl⟩
    (fun past c' i ⟨hc', hpast⟩ => ⟨(call_consistent hc' i).1, by
      rw [unfinished, List.foldl_append, ← unfinished, hpast]
      exact ((call_effect hc' i).flowBinding flowId).symm⟩) calls
  exact hinv.2

/-- The generations of an identifier over a run from an empty cache. -/
theorem run_generationsOf (hc : c.Consistent) (hempty : c.contexts = .empty) (calls : List Call)
    (id : RouteContextId) :
    generationsOf id (insertions (machine.events c calls)) =
      generationsOf id (retirements (machine.events c calls)) ++
        generationsOf id (machine.run c calls).generations := by
  have hinv := Machine.history_invariant (m := machine) (s := c)
    (P := fun past c' => c'.Consistent ∧ generationsOf id (insertions past) =
      generationsOf id (retirements past) ++ generationsOf id c'.generations)
    ⟨hc, by rw [generations, hempty]; rfl⟩
    (fun past c' i ⟨hc', hpast⟩ => ⟨(call_consistent hc' i).1, by
      have hstep := (call_effect hc' i).generationsOf_eq id
      rw [insertions, retirements, List.flatMap_append, List.flatMap_append, generationsOf_append,
        generationsOf_append, ← insertions, ← retirements, hpast, List.append_assoc,
        List.append_assoc, List.flatMap_singleton, List.flatMap_singleton]
      exact congrArg _ hstep⟩) calls
  exact hinv.2

/-- **Retirement conservation.** Over every run of a new cache, the generations of each identifier,
in the order of their insertion, are those that have been returned as retired, in the same order,
followed by the one that is still cached, if there is one: so each is at every moment either
returned, once, or cached, and never both. And no step returns a context to which a flow is bound
that was begun and has not been finished. -/
theorem retirement_conservation {maximumContexts maximumTtlSeconds maximumFlows : ℕ}
    (hnew : newWithMaximumFlows maximumContexts maximumTtlSeconds maximumFlows = .ok c)
    (calls : List Call) :
    (∀ id, generationsOf id (insertions (machine.events c calls)) =
        generationsOf id (retirements (machine.events c calls)) ++
          generationsOf id (machine.run c calls).generations ∧
      (generationsOf id (machine.run c calls).generations).length ≤ 1) ∧
    ∀ past e later, machine.events c calls = past ++ e :: later →
      ∀ generation ∈ retiredBy e, ∀ flowId binding,
        unfinished (past ++ [e]) flowId = some binding →
          binding.routeContextId ≠ generation.routeContextId := by
  have hc := new_consistent hnew
  obtain ⟨-, rfl⟩ := newWithMaximumFlows_eq_ok.mp hnew
  refine ⟨fun id => ⟨run_generationsOf hc rfl calls id, length_generationsOf_le id ?_⟩, ?_⟩
  · rw [map_id_generations]
    exact Table.nodup _
  · intro past e later hevents generation hretired flowId binding hunfinished
    obtain ⟨before, i, after, -, rfl, rfl, -⟩ := Machine.exists_inputs_of_events_eq _ hevents
    -- the history up to this step is the one of the calls up to it
    have hpast := run_unfinished hc rfl (before ++ [i]) flowId
    rw [Machine.events_append, Machine.run_append] at hpast
    have hflow := hpast.symm.trans hunfinished
    exact (call_effect (run_consistent hc before) i).retired_unbound (run_consistent hc before)
      hretired hflow

/-- A context is replaced while a flow is bound to it, and returned when the flow ends. -/
theorem retirement_conservation_pinned :
    newWithMaximumFlows 2 600 4 = .ok sampleCache ∧
      let calls := [Call.insertContext (sampleContext 1 1) 1000,
        .beginFlow (sampleScope 1) (sampleId 7) 1010, .insertContext (sampleContext 2 1) 1020,
        .finishFlow (sampleId 7) 1030]
      retirements (machine.events sampleCache calls) = [(sampleContext 1 1).retired] ∧
      generationsOf (sampleId 1) (insertions (machine.events sampleCache calls)) =
        generationsOf (sampleId 1) (retirements (machine.events sampleCache calls)) ++
          generationsOf (sampleId 1) (machine.run sampleCache calls).generations :=
  ⟨rfl, by decide +kernel, ((retirement_conservation (c := sampleCache)
    (rfl : newWithMaximumFlows 2 600 4 = _) _).1 (sampleId 1)).1⟩

end Volparossa.Selection
