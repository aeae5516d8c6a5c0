import Volparossa.Selection.RouteContext

/-!
# The representation invariant of the route-context cache

The three maps of the cache describe one state: the counters count bindings, bindings name cached
contexts with their plans, and the active context of a scope is the one that takes new flows for it.
`Consistent` states this.

Between the parts of an insertion the active context of one scope is stale: the replaced context is
closed or gone and the new one is not yet there. `ActiveExcept` is the invariant of the active
contexts with that one exception.

What is retired and what stays is accounted for along the way: `Accounted` says that the contexts
before an operation are those that it retires and those after it. `Removes` is what an operation
does that only takes contexts away, such as `expire` (`expire_consistent`).
-/

namespace Volparossa.Selection

open Volparossa.Core Table

namespace RouteContextCache

variable {c c' : RouteContextCache} {id : RouteContextId} {entry : ContextEntry}

/-! ## The invariant -/

/-- The number of flows that are bound to a context. -/
def flowsOf (c : RouteContextCache) (id : RouteContextId) : ℕ :=
  c.flows.count fun flow => flow.2.routeContextId = id

/-- The counters count bindings, and bindings name a cached context and its plan. -/
structure Pinned (c : RouteContextCache) : Prop where
  count_eq : ∀ entry ∈ c.contexts.rows, entry.activeFlowCount = c.flowsOf entry.id
  bound : ∀ flow ∈ c.flows.rows, ∃ entry ∈ c.contexts.rows, flow.2 = entry.context.binding

/-- The context has this scope and takes new flows. -/
def Accepts (c : RouteContextCache) (scope : RouteScope) (id : RouteContextId) : Prop :=
  ∃ entry ∈ c.contexts.rows, entry.id = id ∧ entry.context.scope = scope ∧
    entry.acceptsNewFlows = true

/-- The active context of a scope is the one that takes new flows for it, but for a stale scope,
for which no context does. -/
structure ActiveExcept (stale : Option RouteScope) (c : RouteContextCache) : Prop where
  active : ∀ scope id, stale ≠ some scope →
    ((scope, id) ∈ c.activeByScope.rows ↔ c.Accepts scope id)
  closed : ∀ scope id, c.Accepts scope id → stale ≠ some scope

/-- **The representation invariant** of the cache. -/
structure Consistent (c : RouteContextCache) : Prop where
  limits : c.maximumFlows ≤ maximumActiveFlows
  contexts_le : c.contextCount ≤ c.maximumContexts
  flows_le : c.flowCount ≤ c.maximumFlows
  count_eq : ∀ entry ∈ c.contexts.rows, entry.activeFlowCount = c.flowsOf entry.id
  bound : ∀ flow ∈ c.flows.rows, ∃ entry ∈ c.contexts.rows, flow.2 = entry.context.binding
  active : ∀ scope id, (scope, id) ∈ c.activeByScope.rows ↔ c.Accepts scope id

theorem Consistent.pinned (h : c.Consistent) : c.Pinned := ⟨h.count_eq, h.bound⟩

theorem Consistent.activeExcept (h : c.Consistent) : c.ActiveExcept none :=
  ⟨fun scope id _ => h.active scope id, fun _ _ _ => by simp⟩

/-- The contexts in the cache, as they are returned when they are retired. -/
def generations (c : RouteContextCache) : List RetiredContext :=
  c.contexts.rows.map fun entry => entry.context.retired

/-- The contexts of `c` are the retired ones and those of `c'`. -/
def Accounted (c : RouteContextCache) (retired : List RetiredContext) (c' : RouteContextCache) :
    Prop :=
  c.generations.Perm (retired ++ c'.generations)

theorem Accounted.length (h : Accounted c retired c') :
    c.contextCount = retired.length + c'.contextCount := by
  have := List.Perm.length_eq h
  simpa [generations, contextCount] using this

/-- The limits are set when the cache is made. -/
def SameLimits (c c' : RouteContextCache) : Prop :=
  c'.maximumContexts = c.maximumContexts ∧ c'.maximumFlows = c.maximumFlows ∧
    c'.maximumTtlSeconds = c.maximumTtlSeconds

/-! ## Elementary writes -/

section Writes

variable (c id)

@[simp] theorem dropActive_contexts (scope : RouteScope) :
    (c.dropActive scope id).contexts = c.contexts := by
  unfold dropActive
  split <;> rfl

@[simp] theorem dropActive_flows (scope : RouteScope) :
    (c.dropActive scope id).flows = c.flows := by
  unfold dropActive
  split <;> rfl

theorem dropActive_sameLimits (scope : RouteScope) : SameLimits c (c.dropActive scope id) := by
  unfold dropActive
  split <;> exact ⟨rfl, rfl, rfl⟩

end Writes

theorem SameLimits.refl (c : RouteContextCache) : SameLimits c c := ⟨rfl, rfl, rfl⟩

theorem SameLimits.trans {c'' : RouteContextCache} (h : SameLimits c c') (h' : SameLimits c' c'') :
    SameLimits c c'' :=
  ⟨h'.1.trans h.1, h'.2.1.trans h.2.1, h'.2.2.trans h.2.2⟩

/-- Rewriting entries in place keeps the contexts themselves. -/
theorem generations_modify (f : ContextEntry → ContextEntry)
    (hf : ∀ entry, (f entry).context = entry.context) :
    (c.contexts.modify id f fun entry => by rw [ContextEntry.id, hf]).rows.map
      (fun entry => entry.context.retired) = c.generations := by
  rw [rows_modify, List.map_map, generations]
  refine List.map_congr_left fun entry _ => ?_
  simp only [Function.comp_apply]
  split <;> simp [hf]

/-- A context is taken out of the list of those that are cached. -/
theorem generations_erase (h : c.contexts.lookup id = some entry) :
    c.generations.Perm (entry.context.retired ::
      (c.contexts.erase id).rows.map fun entry => entry.context.retired) :=
  (perm_erase h).map fun entry : ContextEntry => entry.context.retired

/-! ### Pins -/

/-- Rewriting entries in place keeps the pins, if it keeps contexts and counters. -/
theorem Pinned.modify (h : c.Pinned) {f : ContextEntry → ContextEntry}
    (hcontext : ∀ entry, (f entry).context = entry.context)
    (hcount : ∀ entry, (f entry).activeFlowCount = entry.activeFlowCount) (hf) :
    Pinned { c with contexts := c.contexts.modify id f hf } := by
  constructor
  · intro entry hentry
    obtain ⟨e, he, rfl⟩ := List.mem_map.mp hentry
    have := h.count_eq e he
    split <;> simpa [hcount, hcontext, flowsOf, ContextEntry.id] using this
  · intro flow hflow
    obtain ⟨e, he, hbinding⟩ := h.bound flow hflow
    refine ⟨if e.id = id then f e else e, List.mem_map.mpr ⟨e, he, rfl⟩, ?_⟩
    split <;> simpa [hcontext] using hbinding

/-- A context without flows can go. -/
theorem Pinned.erase (h : c.Pinned) (hentry : c.contexts.lookup id = some entry)
    (hcount : entry.activeFlowCount = 0) :
    Pinned { c with contexts := c.contexts.erase id } := by
  constructor
  · intro e he
    exact h.count_eq e (mem_erase.mp he).1
  · intro flow hflow
    obtain ⟨e, he, hbinding⟩ := h.bound flow hflow
    refine ⟨e, mem_erase.mpr ⟨he, fun hid => ?_⟩, hbinding⟩
    -- the flow would be one of none
    have heq : e = entry :=
      c.contexts.eq_of_key_eq he (mem_of_lookup hentry)
        (hid.trans (key_of_lookup hentry).symm)
    have hzero : c.flowsOf e.id = 0 := by
      rw [← h.count_eq e he, heq, hcount]
    have := List.countP_eq_zero.mp hzero flow hflow
    simp [hbinding, RouteContext.binding] at this

theorem Pinned.dropActive (h : c.Pinned) (scope : RouteScope) (id : RouteContextId) :
    (c.dropActive scope id).Pinned := by
  constructor
  · simpa [flowsOf] using h.count_eq
  · simpa using h.bound

/-! ### Active contexts -/

variable {scope : RouteScope}

theorem Accepts.scope_eq (h : c.Accepts scope entry.id)
    (hentry : entry ∈ c.contexts.rows) : scope = entry.context.scope := by
  obtain ⟨e, he, hid, hscope, -⟩ := h
  rw [← hscope, c.contexts.eq_of_key_eq he hentry hid]

/-- A context that no longer takes flows, or is gone, is dropped from the active ones. -/
theorem ActiveExcept.drop {stale : Option RouteScope} (h : c.ActiveExcept stale)
    (hentry : entry ∈ c.contexts.rows) (hactive : c'.activeByScope = c.activeByScope)
    (haccepts : ∀ scope id, c'.Accepts scope id ↔ c.Accepts scope id ∧ id ≠ entry.id) :
    (c'.dropActive entry.context.scope entry.id).ActiveExcept stale := by
  have haccepts' : ∀ scope id, (c'.dropActive entry.context.scope entry.id).Accepts scope id ↔
      c.Accepts scope id ∧ id ≠ entry.id := by
    intro scope id
    rw [← haccepts, Accepts, dropActive_contexts, Accepts]
  refine ⟨fun scope id hstale => ?_, fun scope id ha => ?_⟩
  · rw [haccepts', ← h.active scope id hstale]
    unfold RouteContextCache.dropActive
    rw [hactive]
    split
    · rename_i hlookup
      have hrow := mem_of_lookup hlookup
      rw [mem_erase]
      refine and_congr_right fun hmem => not_congr ⟨fun hs => ?_, fun hid => ?_⟩
      · obtain rfl : scope = entry.context.scope := hs
        exact congrArg Prod.snd (c.activeByScope.eq_of_key_eq hmem hrow rfl)
      · subst hid
        exact ((h.active _ _ hstale).mp hmem).scope_eq hentry
    · rename_i hlookup
      rw [hactive]
      refine ⟨fun hmem => ⟨hmem, ?_⟩, And.left⟩
      rintro rfl
      obtain rfl := ((h.active _ _ hstale).mp hmem).scope_eq hentry
      exact hlookup (lookup_key _ hmem)
  · exact h.closed scope id ((haccepts' scope id).mp ha).1

theorem accepts_closeContext (id' : RouteContextId) :
    (c.closeContext id).Accepts scope id' ↔ c.Accepts scope id' ∧ id' ≠ id := by
  constructor
  · rintro ⟨_, hmem, hid, hscope, haccepts⟩
    obtain ⟨e, he, rfl⟩ := List.mem_map.mp hmem
    split at haccepts
    · simp at haccepts
    · rename_i hne
      simp only [hne, if_false] at hid hscope
      exact ⟨⟨e, he, hid, hscope, haccepts⟩, hid ▸ hne⟩
  · rintro ⟨⟨e, he, rfl, hscope, haccepts⟩, hne⟩
    exact ⟨e, List.mem_map.mpr ⟨e, he, if_neg hne⟩, rfl, hscope, haccepts⟩

theorem accepts_erase (id' : RouteContextId) :
    Accepts { c with contexts := c.contexts.erase id } scope id' ↔
      c.Accepts scope id' ∧ id' ≠ id := by
  simp only [Accepts, mem_erase]
  constructor
  · rintro ⟨e, ⟨he, hne⟩, rfl, hrest⟩
    exact ⟨⟨e, he, rfl, hrest⟩, hne⟩
  · rintro ⟨⟨e, he, rfl, hrest⟩, hne⟩
    exact ⟨e, ⟨he, hne⟩, rfl, hrest⟩

/-! ## Removing contexts -/

/-- Nothing is bound to the context, if there is one. -/
def Unpinned (c : RouteContextCache) (id : RouteContextId) : Prop :=
  ∀ entry, c.contexts.lookup id = some entry → entry.activeFlowCount = 0

/-- What removing contexts does. -/
structure Removes (c : RouteContextCache) (retired : List RetiredContext)
    (c' : RouteContextCache) : Prop where
  accounted : Accounted c retired c'
  limits : SameLimits c c'
  flows : c'.flows = c.flows
  unpinned : ∀ id, c.Unpinned id → c'.Unpinned id
  kept : ∀ entry' ∈ c'.contexts.rows, ∃ entry ∈ c.contexts.rows, entry.context = entry'.context

theorem Removes.refl (c : RouteContextCache) : Removes c [] c :=
  ⟨List.Perm.refl _, .refl c, rfl, fun _ h => h, fun entry h => ⟨entry, h, rfl⟩⟩

variable {retired : List RetiredContext}

theorem Removes.trans {c'' : RouteContextCache} {retired' : List RetiredContext}
    (h : Removes c retired c') (h' : Removes c' retired' c'') :
    Removes c (retired ++ retired') c'' where
  accounted := by
    have hall := List.Perm.trans h.accounted (h'.accounted.append_left retired)
    rwa [← List.append_assoc] at hall
  limits := h.limits.trans h'.limits
  flows := h'.flows.trans h.flows
  unpinned id hid := h'.unpinned id (h.unpinned id hid)
  kept entry'' hentry'' := by
    obtain ⟨entry', hentry', heq'⟩ := h'.kept entry'' hentry''
    obtain ⟨entry, hentry, heq⟩ := h.kept entry' hentry'
    exact ⟨entry, hentry, heq.trans heq'⟩

theorem removeContext_of_lookup (h : c.contexts.lookup id = some entry) :
    c.removeContext id = (some entry.context.retired,
      dropActive { c with contexts := c.contexts.erase id } entry.context.scope entry.id) := by
  rw [removeContext, h, key_of_lookup h]

variable (c id) in
theorem removeContext_removes :
    Removes c (c.removeContext id).1.toList (c.removeContext id).2 := by
  cases h : c.contexts.lookup id with
  | none =>
    rw [removeContext, h]
    exact .refl c
  | some entry =>
    rw [removeContext_of_lookup h]
    refine ⟨?_, dropActive_sameLimits _ _ _, by simp, fun id' hid' e he => ?_, fun e he => ?_⟩
    · rw [Accounted, generations.eq_def (dropActive _ _ _), dropActive_contexts]
      exact generations_erase h
    · rw [dropActive_contexts, lookup_erase] at he
      split at he
      · cases he
      · exact hid' e he
    · rw [dropActive_contexts] at he
      exact ⟨e, (mem_erase.mp he).1, rfl⟩

theorem removeContext_pinned (hpinned : c.Pinned) (hid : c.Unpinned id) :
    (c.removeContext id).2.Pinned := by
  cases h : c.contexts.lookup id with
  | none => rwa [removeContext, h]
  | some entry =>
    rw [removeContext_of_lookup h]
    exact (hpinned.erase h (hid entry h)).dropActive _ _

theorem removeContext_activeExcept {stale : Option RouteScope} (hactive : c.ActiveExcept stale) :
    (c.removeContext id).2.ActiveExcept stale := by
  cases h : c.contexts.lookup id with
  | none => rwa [removeContext, h]
  | some entry =>
    rw [removeContext_of_lookup h]
    refine hactive.drop (mem_of_lookup h) rfl fun scope id' => ?_
    rw [key_of_lookup h]
    exact accepts_erase id'

section

variable {f : RouteContextCache → RouteContextId → Option RetiredContext × RouteContextCache}

/-- What holds of each turn of a collecting loop holds of the loop. -/
theorem collect_removes (hf : ∀ c id, Removes c (f c id).1.toList (f c id).2)
    (c : RouteContextCache) (ids : List RouteContextId) :
    Removes c (collect f c ids).1 (collect f c ids).2 := by
  induction ids generalizing c with
  | nil => exact .refl c
  | cons id ids ih => exact (hf c id).trans (ih (f c id).2)

theorem collect_invariant {P : RouteContextCache → Prop} (ids : List RouteContextId)
    (hf : ∀ c, ∀ id ∈ ids, P c → P (f c id).2) (hc : P c) : P (collect f c ids).2 := by
  induction ids generalizing c with
  | nil => exact hc
  | cons id ids ih =>
    exact ih (fun c id hid => hf c id (List.mem_cons_of_mem _ hid))
      (hf c id List.mem_cons_self hc)

end

/-! ## Closing and expiring contexts -/

section

variable (c id)

theorem dropActive_removes (scope : RouteScope) : Removes c [] (c.dropActive scope id) where
  accounted := by
    rw [Accounted, generations, generations, dropActive_contexts]
    exact List.Perm.refl _
  limits := dropActive_sameLimits c id scope
  flows := dropActive_flows c id scope
  unpinned _ h := by rwa [Unpinned, dropActive_contexts]
  kept entry hentry := ⟨entry, by rwa [dropActive_contexts] at hentry, rfl⟩

theorem closeContext_removes : Removes c [] (c.closeContext id) where
  accounted := List.Perm.of_eq
    (generations_modify (fun entry => { entry with acceptsNewFlows := false }) fun _ => rfl).symm
  limits := ⟨rfl, rfl, rfl⟩
  flows := rfl
  unpinned id' h entry hentry := by
    rw [closeContext, lookup_modify, Option.map_eq_some_iff] at hentry
    obtain ⟨e, he, rfl⟩ := hentry
    split <;> exact h e he
  kept entry hentry := by
    obtain ⟨e, he, rfl⟩ := List.mem_map.mp hentry
    refine ⟨e, he, ?_⟩
    split <;> rfl

theorem closeActive_removes (scope : RouteScope) :
    Removes c [] ((c.closeContext id).dropActive scope id) :=
  (closeContext_removes c id).trans (dropActive_removes (c.closeContext id) id scope)

end

theorem Pinned.closeContext (h : c.Pinned) (id : RouteContextId) : (c.closeContext id).Pinned :=
  h.modify (f := fun entry => { entry with acceptsNewFlows := false }) (fun _ => rfl)
    (fun _ => rfl) _

theorem ActiveExcept.closeContext {stale : Option RouteScope} (h : c.ActiveExcept stale)
    (hentry : c.contexts.lookup id = some entry) :
    ((c.closeContext id).dropActive entry.context.scope id).ActiveExcept stale := by
  rw [← key_of_lookup hentry]
  exact h.drop (mem_of_lookup hentry) rfl fun _ id' => accepts_closeContext id'

variable (c id) in
theorem expireContext_removes :
    Removes c (c.expireContext id).1.toList (c.expireContext id).2 := by
  cases h : c.contexts.lookup id with
  | none =>
    rw [expireContext, h]
    exact .refl c
  | some entry =>
    have hclose := closeActive_removes c id entry.context.scope
    rw [expireContext, h]
    dsimp only
    split
    · exact hclose.trans (removeContext_removes _ id)
    · exact hclose

theorem expireContext_invariant (h : c.Pinned ∧ c.ActiveExcept none) (id : RouteContextId) :
    (c.expireContext id).2.Pinned ∧ (c.expireContext id).2.ActiveExcept none := by
  cases hlookup : c.contexts.lookup id with
  | none => rwa [expireContext, hlookup]
  | some entry =>
    have hclose := closeActive_removes c id entry.context.scope
    have hpinned := (h.1.closeContext id).dropActive entry.context.scope id
    have hactive := h.2.closeContext hlookup
    rw [expireContext, hlookup]
    dsimp only
    split
    · rename_i hcount
      have hid : c.Unpinned id := fun e he => by
        rw [hlookup, Option.some.injEq] at he
        rw [← he, hcount]
      exact ⟨removeContext_pinned hpinned (hclose.unpinned id hid),
        removeContext_activeExcept hactive⟩
    · exact ⟨hpinned, hactive⟩

/-- Removing contexts does not break the bounds. -/
theorem Consistent.of_removes (h : c.Consistent)
    (hremoves : Removes c retired c') (hpinned : c'.Pinned) (hactive : c'.ActiveExcept none) :
    c'.Consistent where
  limits := hremoves.limits.2.1 ▸ h.limits
  contexts_le := by
    have := hremoves.accounted.length
    have := h.contexts_le
    rw [hremoves.limits.1]
    omega
  flows_le := by
    rw [flowCount, hremoves.flows, hremoves.limits.2.1]
    exact h.flows_le
  count_eq := hpinned.count_eq
  bound := hpinned.bound
  active scope id := hactive.active scope id (by simp)

theorem expire_removes (c : RouteContextCache) (now : ℕ) (order : Iteration) :
    Removes c (c.expire now order).1 (c.expire now order).2 :=
  collect_removes expireContext_removes c _

theorem expire_consistent (h : c.Consistent) (now : ℕ) (order : Iteration) :
    (c.expire now order).2.Consistent := by
  have hinv : (c.expire now order).2.Pinned ∧ (c.expire now order).2.ActiveExcept none :=
    collect_invariant (P := fun c => c.Pinned ∧ c.ActiveExcept none) _
      (fun _ id _ hc => expireContext_invariant hc id) ⟨h.pinned, h.activeExcept⟩
  exact h.of_removes (expire_removes c now order) hinv.1 hinv.2

end RouteContextCache

end Volparossa.Selection
