import Volparossa.Selection.Insertion

/-!
# The invariant in every run

Flows are pinned and unpinned with the counters of their contexts. `call_effect` says what one call
can do to a consistent cache; the invariant is kept by every call (`call_consistent`), so that it
holds after every run of a new cache (**`cache_invariant`**), and with it the errors that report a
corrupt binding or an overflowing counter are out of reach.
-/

namespace Volparossa.Selection

open Volparossa.Core Table

/-- The failures that report a broken representation. -/
def Corrupt : RouteContextError → Prop
  | .corruptFlowBinding | .flowCountOverflow => True
  | _ => False

namespace RouteContextCache

variable {c c' : RouteContextCache} {id : RouteContextId} {entry : ContextEntry}
  {scope : RouteScope}

/-! ## Flows -/

/-- The bindings to a context are among the flows, so that no counter gets near its bound. -/
theorem Consistent.count_lt (h : c.Consistent) (hentry : entry ∈ c.contexts.rows) :
    entry.activeFlowCount + 1 ≤ maxUsize := by
  have hcount := h.count_eq entry hentry
  have hle : c.flowsOf entry.id ≤ c.flows.rows.length := List.countP_le_length
  have hflows : c.flows.rows.length ≤ c.maximumFlows := h.flows_le
  have hlimit := h.limits
  unfold maximumActiveFlows at hlimit
  unfold maxUsize
  omega

/-- **What starting a flow can do**: fail and leave the cache alone, find the active context expired
and close it, or pin the flow to the active context. -/
theorem beginFlow_cases (h : c.Consistent) (scope : RouteScope) (flowId : FlowId) (now : ℕ) :
    (∃ e, c.beginFlow scope flowId now = (.error e, c) ∧ ¬Corrupt e) ∨
    (∃ entry, c.contexts.lookup entry.id = some entry ∧ entry.context.scope = scope ∧
      entry.context.expiresAt ≤ now ∧
      c.beginFlow scope flowId now = (.error .contextExpired,
        (c.closeContext entry.id).dropActive scope entry.id)) ∨
    ∃ entry, c.contexts.lookup entry.id = some entry ∧ entry.context.scope = scope ∧
      now < entry.context.expiresAt ∧ c.flows.lookup flowId = none ∧
      c.flowCount < c.maximumFlows ∧
      c.beginFlow scope flowId now = (.ok entry.context.binding,
        c.pinFlow entry flowId now) := by
  unfold beginFlow
  split
  · exact .inl ⟨_, rfl, id⟩
  · rename_i hfresh
    split
    · exact .inl ⟨_, rfl, id⟩
    · rename_i hflows
      cases hactive : c.activeContext scope with
      | none => exact .inl ⟨_, rfl, id⟩
      | some id =>
        have hrow := activeContext_eq_some.mp hactive
        obtain ⟨entry, hentry, rfl, hscope, haccepts⟩ :=
          (h.active scope id).mp (mem_of_lookup hrow)
        have hlookup := c.contexts.lookup_key hentry
        dsimp only
        rw [hlookup]
        dsimp only [beginFlowIn]
        split
        · exact .inl ⟨_, rfl, id⟩
        · split
          · rename_i hexpired
            refine .inr (.inl ⟨entry, hlookup, hscope, by simpa [haccepts] using hexpired, ?_⟩)
            -- the scope's context is the one that was found
            rw [dropActive, closeContext, if_pos hrow]
          · rename_i hexpired
            rw [if_neg (by have := h.count_lt hentry; omega)]
            exact .inr (.inr ⟨entry, hlookup, hscope, by simpa [haccepts] using hexpired,
              not_not.mp hfresh, by unfold flowCount; omega, rfl⟩)

/-- Recording a use rewrites the entry of the context and no other. -/
theorem mem_useContext {count : ℕ} {e : ContextEntry}
    (hlookup : c.contexts.lookup entry.id = some entry) :
    e ∈ (c.useContext entry.id count now).contexts.rows ↔
      e = { entry with activeFlowCount := count, lastUsedAt := now } ∨
      e ∈ c.contexts.rows ∧ e.id ≠ entry.id := by
  have hentry := mem_of_lookup hlookup
  rw [useContext, rows_modify, List.mem_map]
  constructor
  · rintro ⟨e, he, rfl⟩
    split
    · rename_i hid
      rw [c.contexts.eq_of_key_eq he hentry hid]
      exact .inl rfl
    · rename_i hid
      exact .inr ⟨he, hid⟩
  · rintro (rfl | ⟨he, hid⟩)
    · exact ⟨entry, hentry, if_pos rfl⟩
    · exact ⟨e, he, if_neg hid⟩

/-- Recording a use keeps every context, with its flag. -/
theorem exists_mem_useContext {count : ℕ} {P : RouteContext → Bool → Prop}
    (hlookup : c.contexts.lookup entry.id = some entry) :
    (∃ e ∈ (c.useContext entry.id count now).contexts.rows, P e.context e.acceptsNewFlows) ↔
      ∃ e ∈ c.contexts.rows, P e.context e.acceptsNewFlows := by
  simp only [mem_useContext hlookup]
  constructor
  · rintro ⟨e, rfl | ⟨he, -⟩, hP⟩
    · exact ⟨entry, mem_of_lookup hlookup, hP⟩
    · exact ⟨e, he, hP⟩
  · rintro ⟨e, he, hP⟩
    by_cases hid : e.id = entry.id
    · rw [c.contexts.eq_of_key_eq he (mem_of_lookup hlookup) hid] at hP
      exact ⟨_, .inl rfl, hP⟩
    · exact ⟨e, .inr ⟨he, hid⟩, hP⟩

/-- A use with the right number of flows keeps the invariant. -/
theorem Consistent.useContext (h : c.Consistent) {count : ℕ} (now : ℕ)
    {flows : Table (Prod.fst : FlowId × FlowBinding → FlowId)}
    (hlookup : c.contexts.lookup entry.id = some entry)
    (hflows : flows.rows.length ≤ c.maximumFlows)
    (hcount : count = flows.count fun flow => flow.2.routeContextId = entry.id)
    (hothers : ∀ id, id ≠ entry.id →
      (flows.count fun flow => flow.2.routeContextId = id) = c.flowsOf id)
    (hbound : ∀ flow ∈ flows.rows, ∃ e ∈ c.contexts.rows, flow.2 = e.context.binding) :
    Consistent { c.useContext entry.id count now with flows } where
  limits := h.limits
  contexts_le := by simpa [contextCount, RouteContextCache.useContext] using h.contexts_le
  flows_le := hflows
  count_eq e he := by
    rcases (mem_useContext hlookup).mp he with rfl | ⟨he, hne⟩
    · exact hcount
    · exact (h.count_eq e he).trans (hothers e.id hne).symm
  bound flow hflow :=
    (exists_mem_useContext (P := fun context _ => flow.2 = context.binding) hlookup).mpr
      (hbound flow hflow)
  active scope id :=
    (h.active scope id).trans (exists_mem_useContext (P := fun context accepts =>
      context.routeContextId = id ∧ context.scope = scope ∧ accepts = true) hlookup).symm

variable {flowId : FlowId}

/-- Pinning a flow keeps the invariant. -/
theorem pinFlow_consistent (h : c.Consistent) (now : ℕ)
    (hlookup : c.contexts.lookup entry.id = some entry) (hflow : c.flows.lookup flowId = none)
    (hflows : c.flowCount < c.maximumFlows) : (c.pinFlow entry flowId now).Consistent := by
  have hrows : (c.flows.put (flowId, entry.context.binding)).rows =
      c.flows.rows ++ [(flowId, entry.context.binding)] := rows_put hflow
  have hcount : ∀ id, ((c.flows.put (flowId, entry.context.binding)).count fun flow =>
      flow.2.routeContextId = id) = c.flowsOf id + if entry.id = id then 1 else 0 := by
    intro id
    rw [count, hrows, List.countP_append, flowsOf, count]
    simp [List.countP_cons, RouteContext.binding]
  refine h.useContext now hlookup ?_ ?_ (fun id hid => ?_) fun flow hmem => ?_
  · rw [hrows, List.length_append]
    exact hflows
  · rw [hcount, if_pos rfl, h.count_eq entry (mem_of_lookup hlookup)]
  · rw [hcount, if_neg hid.symm, Nat.add_zero]
  · rw [hrows, List.mem_append, List.mem_singleton] at hmem
    rcases hmem with hmem | rfl
    · exact h.bound flow hmem
    · exact ⟨entry, mem_of_lookup hlookup, rfl⟩

/-- The entry that a flow is bound to. -/
theorem Consistent.exists_entry (h : c.Consistent) {binding : FlowBinding}
    (hflow : c.flowBinding flowId = some binding) :
    ∃ entry, c.contexts.lookup entry.id = some entry ∧ binding = entry.context.binding ∧
      c.flows.lookup flowId = some (flowId, binding) ∧ 0 < entry.activeFlowCount := by
  obtain ⟨flow, hlookup, rfl⟩ := Option.map_eq_some_iff.mp hflow
  have hmem := mem_of_lookup hlookup
  obtain ⟨entry, hentry, hbinding⟩ := h.bound flow hmem
  have hflow' : flow = (flowId, flow.2) := by
    rw [← key_of_lookup hlookup]
  refine ⟨entry, c.contexts.lookup_key hentry, hbinding, hflow' ▸ hlookup, ?_⟩
  rw [h.count_eq entry hentry]
  exact List.countP_pos_iff.mpr ⟨flow, hmem, by rw [hbinding]; simp [RouteContext.binding]⟩

/-- Unpinning a flow keeps the invariant. -/
theorem unpinFlow_consistent (h : c.Consistent) (now : ℕ)
    (hlookup : c.contexts.lookup entry.id = some entry)
    (hflow : c.flows.lookup flowId = some (flowId, entry.context.binding)) :
    (c.unpinFlow entry flowId now).Consistent := by
  have hcount : ∀ id, ((c.flows.erase flowId).count fun flow => flow.2.routeContextId = id) +
      (if entry.id = id then 1 else 0) = c.flowsOf id := by
    intro id
    have hsum := count_erase hflow fun flow => decide (flow.2.routeContextId = id)
    simp only [decide_eq_true_eq] at hsum
    exact hsum
  refine h.useContext now hlookup ?_ ?_ (fun id hid => ?_) fun flow hmem => ?_
  · have := length_erase hflow
    have hle : c.flows.rows.length ≤ c.maximumFlows := h.flows_le
    omega
  · have hsum := hcount entry.id
    rw [if_pos rfl, ← h.count_eq entry (mem_of_lookup hlookup)] at hsum
    omega
  · have hsum := hcount id
    rwa [if_neg hid.symm, Nat.add_zero] at hsum
  · exact h.bound flow (mem_erase.mp hmem).1

theorem finishFlow_of_unknown (h : c.flowBinding flowId = none)
    (now : ℕ) : c.finishFlow flowId now = .error .unknownFlow := by
  rw [finishFlow, h]
  rfl

/-- **What ending a bound flow can do**: find that the clock moved backwards, or unpin the flow, and
retire its context if this was its last flow. -/
theorem finishFlow_of_bound (h : c.Consistent) {binding : FlowBinding}
    (hflow : c.flowBinding flowId = some binding) (now : ℕ) :
    ∃ entry, c.contexts.lookup entry.id = some entry ∧ binding = entry.context.binding ∧
      c.flows.lookup flowId = some (flowId, binding) ∧
      (now < entry.lastUsedAt ∧ c.finishFlow flowId now = .error .clockMovedBackwards ∨
      entry.lastUsedAt ≤ now ∧
        (c.finishFlow flowId now = .ok (none, c.unpinFlow entry flowId now) ∨
        entry.activeFlowCount = 1 ∧
          c.finishFlow flowId now =
            .ok ((c.unpinFlow entry flowId now).removeContext entry.id))) := by
  obtain ⟨entry, hlookup, hbinding, hrow, hpos⟩ := h.exists_entry hflow
  have hid : binding.routeContextId = entry.id := congrArg FlowBinding.routeContextId hbinding
  refine ⟨entry, hlookup, hbinding, hrow, ?_⟩
  rw [finishFlow, hflow, orFail_some, ok_bind, hid, hlookup, orFail_some, ok_bind,
    refuse_of_not (by omega), ok_bind]
  by_cases hnow : now < entry.lastUsedAt
  · exact .inl ⟨hnow, by rw [refuse, if_pos hnow]; rfl⟩
  · refine .inr ⟨by omega, ?_⟩
    rw [refuse_of_not hnow, ok_bind]
    split
    · rename_i hretire
      have hone := hretire.1
      exact .inr ⟨by omega, rfl⟩
    · exact .inl rfl

end RouteContextCache

/-! ## One call -/

open RouteContextCache

variable {c c' : RouteContextCache}

/-- What a call can do to a consistent cache. -/
inductive Effect (c : RouteContextCache) :
    Call → Except RouteContextError Outcome → RouteContextCache → Prop
  | refused {i : Call} {e : RouteContextError} (he : ¬Corrupt e) : Effect c i (.error e) c
  | lapsed {entry : ContextEntry} {flowId : FlowId} {now : ℕ}
      (hlookup : c.contexts.lookup entry.id = some entry)
      (hexpired : entry.context.expiresAt ≤ now) :
      Effect c (.beginFlow entry.context.scope flowId now) (.error .contextExpired)
        ((c.closeContext entry.id).dropActive entry.context.scope entry.id)
  | inserted {context : RouteContext} {now : ℕ} {retired : List RetiredContext}
      {c' : RouteContextCache} (h : c.insertContext context now = .ok (retired, c')) :
      Effect c (.insertContext context now) (.ok (.inserted retired)) c'
  | began {entry : ContextEntry} {flowId : FlowId} {now : ℕ}
      (hlookup : c.contexts.lookup entry.id = some entry)
      (hfresh : c.flows.lookup flowId = none) (hflows : c.flowCount < c.maximumFlows) :
      Effect c (.beginFlow entry.context.scope flowId now) (.ok (.began entry.context.binding))
        (c.pinFlow entry flowId now)
  | finished {entry : ContextEntry} {flowId : FlowId} {now : ℕ}
      (hlookup : c.contexts.lookup entry.id = some entry)
      (hflow : c.flows.lookup flowId = some (flowId, entry.context.binding)) :
      Effect c (.finishFlow flowId now) (.ok (.finished none)) (c.unpinFlow entry flowId now)
  | finishedLast {entry : ContextEntry} {flowId : FlowId} {now : ℕ}
      (hlookup : c.contexts.lookup entry.id = some entry)
      (hflow : c.flows.lookup flowId = some (flowId, entry.context.binding))
      (hcount : entry.activeFlowCount = 1) :
      Effect c (.finishFlow flowId now)
        (.ok (.finished ((c.unpinFlow entry flowId now).removeContext entry.id).1))
        ((c.unpinFlow entry flowId now).removeContext entry.id).2
  | expired (now : ℕ) (order : Iteration) :
      Effect c (.expire now order) (.ok (.expired (c.expire now order).1)) (c.expire now order).2

theorem checkRelays_failsOnly (exitNodeId : NodeId) (seen relays : List NodeId) :
    FailsOnly (fun e => ¬Corrupt e) (checkRelays exitNodeId seen relays) := by
  induction relays generalizing seen with
  | nil => exact failsOnly_ok ()
  | cons relay relays ih =>
    rw [checkRelays]
    split
    · exact failsOnly_error.mpr id
    · exact ih (relay :: seen)

theorem insertContext_failsOnly (c : RouteContextCache) (context : RouteContext) (now : ℕ) :
    FailsOnly (fun e => ¬Corrupt e) (c.insertContext context now) := by
  simp only [insertContext, validateContext, RoutePlan.validate, failsOnly_bind, failsOnly_refuse,
    pure_ok, failsOnly_ok, checkRelays_failsOnly]
  simp [Corrupt]

/-- **One call** on a consistent cache does one of these things. -/
theorem call_effect (h : c.Consistent) (i : Call) : Effect c i (call c i).1 (call c i).2 := by
  cases i with
  | insertContext context now =>
    dsimp only [call]
    cases hinsert : c.insertContext context now with
    | error e => exact .refused (insertContext_failsOnly c context now e hinsert)
    | ok result => exact .inserted hinsert
  | beginFlow scope flowId now =>
    dsimp only [call]
    obtain ⟨e, heq, he⟩ | ⟨entry, hlookup, rfl, hexpired, heq⟩ |
      ⟨entry, hlookup, rfl, -, hfresh, hflows, heq⟩ := beginFlow_cases h scope flowId now
    · rw [heq]
      exact .refused he
    · rw [heq]
      exact .lapsed hlookup hexpired
    · rw [heq]
      exact .began hlookup hfresh hflows
  | finishFlow flowId now =>
    dsimp only [call]
    cases hflow : c.flowBinding flowId with
    | none =>
      rw [finishFlow_of_unknown hflow]
      exact .refused id
    | some binding =>
      obtain ⟨entry, hlookup, rfl, hrow, ⟨-, heq⟩ | ⟨-, heq | ⟨hcount, heq⟩⟩⟩ :=
        finishFlow_of_bound h hflow now
      · rw [heq]
        exact .refused id
      · rw [heq]
        exact .finished hlookup hrow
      · rw [heq]
        exact .finishedLast hlookup hrow hcount
  | expire now order => exact .expired now order

theorem Effect.consistent {i : Call} {result : Except RouteContextError Outcome}
    (heffect : Effect c i result c') (h : c.Consistent) : c'.Consistent ∧ SameLimits c c' := by
  cases heffect with
  | refused he => exact ⟨h, .refl c⟩
  | @lapsed entry flowId now hlookup hexpired =>
    have hremoves := closeActive_removes c entry.id entry.context.scope
    exact ⟨h.of_removes hremoves ((h.pinned.closeContext _).dropActive _ _)
      (h.activeExcept.closeContext hlookup), hremoves.limits⟩
  | inserted hinsert => exact insertContext_consistent h hinsert
  | began hlookup hfresh hflows =>
    exact ⟨pinFlow_consistent h _ hlookup hfresh hflows, rfl, rfl, rfl⟩
  | finished hlookup hflow => exact ⟨unpinFlow_consistent h _ hlookup hflow, rfl, rfl, rfl⟩
  | @finishedLast entry flowId now hlookup hflow hcount =>
    have hunpin := unpinFlow_consistent h now hlookup hflow
    have hremoves := removeContext_removes (c.unpinFlow entry flowId now) entry.id
    have hunpinned : (c.unpinFlow entry flowId now).Unpinned entry.id := by
      intro e he
      have hmem := (mem_useContext hlookup).mp (mem_of_lookup he)
      rcases hmem with rfl | ⟨-, hne⟩
      · exact Nat.sub_eq_zero_of_le hcount.le
      · exact absurd (key_of_lookup he) hne
    exact ⟨hunpin.of_removes hremoves (removeContext_pinned hunpin.pinned hunpinned)
      (removeContext_activeExcept hunpin.activeExcept), hremoves.limits⟩
  | expired now order =>
    exact ⟨expire_consistent h now order, (expire_removes c now order).limits⟩

/-- **One call keeps the invariant** and the limits. -/
theorem call_consistent (h : c.Consistent) (i : Call) :
    (machine.next c i).Consistent ∧ SameLimits c (machine.next c i) :=
  (call_effect h i).consistent h

theorem Effect.not_corrupt {i : Call} {e : RouteContextError} (h : Effect c i (.error e) c') :
    ¬Corrupt e := by
  cases h with
  | refused he => exact he
  | lapsed hlookup hexpired => exact id

/-! ## Every run -/

theorem newWithMaximumFlows_eq_ok {maximumContexts maximumTtlSeconds maximumFlows : ℕ} :
    newWithMaximumFlows maximumContexts maximumTtlSeconds maximumFlows = .ok c ↔
      (0 < maximumContexts ∧ maximumContexts ≤ maximumRouteContexts ∧ 0 < maximumFlows ∧
        maximumFlows ≤ maximumActiveFlows ∧ 0 < maximumTtlSeconds ∧
        maximumTtlSeconds ≤ maximumContextTtlSeconds) ∧
      ⟨maximumContexts, maximumFlows, maximumTtlSeconds, .empty, .empty, .empty⟩ = c := by
  simp only [newWithMaximumFlows, ok_iff, exists_const, not_or, not_lt, Nat.pos_iff_ne_zero]

/-- A new cache is consistent. -/
theorem new_consistent {maximumContexts maximumTtlSeconds maximumFlows : ℕ}
    (hnew : newWithMaximumFlows maximumContexts maximumTtlSeconds maximumFlows = .ok c) :
    c.Consistent := by
  obtain ⟨⟨-, -, -, hflows, -⟩, rfl⟩ := newWithMaximumFlows_eq_ok.mp hnew
  exact ⟨hflows, Nat.zero_le _, Nat.zero_le _, by simp, by simp, by simp [Accepts]⟩

theorem run_consistent (h : c.Consistent) (calls : List Call) : (machine.run c calls).Consistent :=
  Machine.run_invariant (P := Consistent) (fun _ i hc => (call_consistent hc i).1) h calls

theorem run_sameLimits (h : c.Consistent) (calls : List Call) :
    SameLimits c (machine.run c calls) :=
  Machine.run_mono (P := Consistent) SameLimits.refl (fun _ _ _ => SameLimits.trans)
    (fun _ i hc => (call_consistent hc i).1) (fun _ i hc => (call_consistent hc i).2) h calls

/-- **The representation invariant of the cache.** After every sequence of calls on a new cache,
with arbitrary arguments and times, the contexts and the flows keep to their limits, the counters
count bindings, bindings name a cached context and its plan, and the active context of a scope is
the one that takes new flows for it. No call of the run reports a corrupt binding or an overflow of
a counter. -/
theorem cache_invariant {maximumContexts maximumTtlSeconds maximumFlows : ℕ}
    (hnew : newWithMaximumFlows maximumContexts maximumTtlSeconds maximumFlows = .ok c)
    (calls : List Call) :
    (machine.run c calls).Consistent ∧ (machine.run c calls).contextCount ≤ maximumContexts ∧
      (machine.run c calls).flowCount ≤ maximumFlows ∧
      ∀ e ∈ machine.events c calls, e.output ≠ .error .corruptFlowBinding ∧
        e.output ≠ .error .flowCountOverflow := by
  have hc := new_consistent hnew
  have hrun := run_consistent hc calls
  have hlimits := run_sameLimits hc calls
  obtain ⟨-, rfl⟩ := newWithMaximumFlows_eq_ok.mp hnew
  refine ⟨hrun, hrun.contexts_le.trans_eq hlimits.1, hrun.flows_le.trans_eq hlimits.2.1,
    fun e he => ?_⟩
  obtain ⟨hbefore, hevent⟩ :=
    Machine.events_invariant (P := Consistent) (fun _ i hc => (call_consistent hc i).1) hc calls e
      he
  have heffect := call_effect hbefore e.input
  have houtput : e.output = (call e.before e.input).1 := congrArg Machine.Event.output hevent
  rw [houtput]
  constructor
  · intro herror
    rw [herror] at heffect
    exact heffect.not_corrupt trivial
  · intro herror
    rw [herror] at heffect
    exact heffect.not_corrupt trivial

/-- A run in which a context is replaced while a flow is pinned to it. -/
theorem cache_invariant_replaced :
    newWithMaximumFlows 2 600 4 = .ok sampleCache ∧
      (machine.run sampleCache [.insertContext (sampleContext 1 1) 1000,
        .beginFlow (sampleScope 1) (sampleId 7) 1010,
        .insertContext (sampleContext 2 1) 1020]).Consistent :=
  ⟨rfl, (cache_invariant (c := sampleCache) (rfl : newWithMaximumFlows 2 600 4 = _) _).1⟩

end Volparossa.Selection
