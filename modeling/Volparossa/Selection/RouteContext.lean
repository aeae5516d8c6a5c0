import Volparossa.Core.Basic
import Volparossa.Foundations.Machine
import Volparossa.Foundations.Table

/-!
# Route contexts

The bounded in-memory cache of route contexts of the client. A context is one generation of an exit
and its relays for a scope; flows are pinned to the generation in which they start, and a generation
is retired, for its network resources to be cleaned up, only when no flow is pinned to it.

The cache holds three maps: the contexts by identifier, the context that takes new flows for each
scope, and the binding of each established flow. Each public operation is modelled as the source has
it, with the state it leaves behind when it fails. A hash map lists its entries in no particular
order: `expire` therefore takes the order of its listing as an argument (`Iteration`), while the
victims of `insertContext` are sorted and do not depend on it.
-/

namespace Volparossa.Selection

open Volparossa.Core

/-! ## Contexts, plans and bindings -/

/-- Hard upper bound for any route context. -/
def maximumContextTtlSeconds : ℕ := 3600

/-- Hard allocation bound for route-context generations in one cache. -/
def maximumRouteContexts : ℕ := 4096

/-- Hard allocation bound for established flow pins in one cache. -/
def maximumActiveFlows : ℕ := 65536

def maximumRoutePaths : ℕ := 8

/-- Route-context validation, pinning or capacity failure. -/
inductive RouteContextError where
  | invalidLimits
  | invalidTransportPathCount
  | directExitPlan
  | duplicateOrInvalidRelay
  | tooManyPaths
  | invalidLifetime
  | ttlTooLong
  | duplicateContext
  | allContextsPinned
  | noActiveContext
  | contextExpired
  | duplicateFlow
  | tooManyFlows
  | unknownFlow
  | flowCountOverflow
  | clockMovedBackwards
  | corruptFlowBinding
  deriving DecidableEq, Repr

/-- In-memory partition key for route reuse. -/
structure RouteScope where
  localProfile : LocalProfileId
  originKey : OriginKey
  transport : Transport
  policyVersion : ℕ
  policyHash : PolicyHash
  deriving DecidableEq

/-- Exit and diverse relay pool fixed for one route-context generation. -/
structure RoutePlan where
  exitNodeId : NodeId
  activeRelays : List NodeId
  warmRelays : List NodeId
  deriving DecidableEq

/-- The loop over the relays: none is the exit or was seen before. -/
def checkRelays (exitNodeId : NodeId) (seen : List NodeId) :
    List NodeId → Except RouteContextError Unit
  | [] => .ok ()
  | relay :: relays =>
    if relay = exitNodeId ∨ relay ∈ seen then .error .duplicateOrInvalidRelay
    else checkRelays exitNodeId (relay :: seen) relays

def RoutePlan.validate (plan : RoutePlan) : Except RouteContextError Unit := do
  refuse (plan.activeRelays = []) .directExitPlan
  refuse (maximumRoutePaths < plan.activeRelays.length + plan.warmRelays.length) .tooManyPaths
  checkRelays plan.exitNodeId [] (plan.activeRelays ++ plan.warmRelays)

/-- One bounded generation of a route context. -/
structure RouteContext where
  routeContextId : RouteContextId
  scope : RouteScope
  plan : RoutePlan
  createdAt : ℕ
  expiresAt : ℕ
  deriving DecidableEq

/-- A copy of the route binding held for the complete lifetime of one flow. -/
structure FlowBinding where
  routeContextId : RouteContextId
  exitNodeId : NodeId
  activeRelays : List NodeId
  warmRelays : List NodeId
  deriving DecidableEq

/-- A retired generation whose associated network resources may be cleaned up. -/
structure RetiredContext where
  routeContextId : RouteContextId
  plan : RoutePlan
  deriving DecidableEq

/-- The binding of a flow that starts in a context. -/
def RouteContext.binding (context : RouteContext) : FlowBinding :=
  ⟨context.routeContextId, context.plan.exitNodeId, context.plan.activeRelays,
    context.plan.warmRelays⟩

/-- What is returned of a context when it is retired. -/
def RouteContext.retired (context : RouteContext) : RetiredContext :=
  ⟨context.routeContextId, context.plan⟩

structure ContextEntry where
  context : RouteContext
  lastUsedAt : ℕ
  activeFlowCount : ℕ
  acceptsNewFlows : Bool
  deriving DecidableEq

/-- The key of an entry. -/
abbrev ContextEntry.id (entry : ContextEntry) : RouteContextId := entry.context.routeContextId

/-! ## The cache -/

/-- Bounded in-memory LRU cache with TTL generations and immutable flow pins. -/
structure RouteContextCache where
  maximumContexts : ℕ
  maximumFlows : ℕ
  maximumTtlSeconds : ℕ
  contexts : Table ContextEntry.id
  activeByScope : Table (Prod.fst : RouteScope × RouteContextId → RouteScope)
  flows : Table (Prod.fst : FlowId × FlowBinding → FlowId)
  deriving DecidableEq

namespace RouteContextCache

def newWithMaximumFlows (maximumContexts maximumTtlSeconds maximumFlows : ℕ) :
    Except RouteContextError RouteContextCache := do
  refuse (maximumContexts = 0 ∨ maximumRouteContexts < maximumContexts ∨ maximumFlows = 0 ∨
    maximumActiveFlows < maximumFlows ∨ maximumTtlSeconds = 0 ∨
    maximumContextTtlSeconds < maximumTtlSeconds) .invalidLimits
  pure ⟨maximumContexts, maximumFlows, maximumTtlSeconds, .empty, .empty, .empty⟩

def new (maximumContexts maximumTtlSeconds : ℕ) : Except RouteContextError RouteContextCache :=
  newWithMaximumFlows maximumContexts maximumTtlSeconds maximumActiveFlows

/-- The number of active paths that a transport allows. -/
def activePathCountIsValid : Transport → ℕ → Bool
  | .udpSinglePath, n => n = 1
  | .tcpMptcp, n | .multipathQuic, n => 2 ≤ n && n ≤ maximumRoutePaths

def validateContext (c : RouteContextCache) (context : RouteContext) (now : ℕ) :
    Except RouteContextError Unit := do
  context.plan.validate
  refuse (activePathCountIsValid context.scope.transport context.plan.activeRelays.length = false)
    .invalidTransportPathCount
  refuse (now < context.createdAt ∨ context.expiresAt ≤ context.createdAt ∨
    isExpiredAt context.expiresAt now = true) .invalidLifetime
  refuse (c.maximumTtlSeconds < context.expiresAt - context.createdAt) .ttlTooLong

/-- Forget the active context of a scope, if it is this one. -/
def dropActive (c : RouteContextCache) (scope : RouteScope) (id : RouteContextId) :
    RouteContextCache :=
  if c.activeByScope.lookup scope = some (scope, id) then
    { c with activeByScope := c.activeByScope.erase scope }
  else c

/-- Stop a context from taking new flows. -/
def closeContext (c : RouteContextCache) (id : RouteContextId) : RouteContextCache :=
  { c with contexts :=
      c.contexts.modify id (fun entry => { entry with acceptsNewFlows := false }) fun _ => rfl }

def removeContext (c : RouteContextCache) (id : RouteContextId) :
    Option RetiredContext × RouteContextCache :=
  match c.contexts.lookup id with
  | none => (none, c)
  | some entry =>
    (some entry.context.retired,
      dropActive { c with contexts := c.contexts.erase id } entry.context.scope id)

/-- A loop over identifiers that collects the contexts it retires. -/
def collect (f : RouteContextCache → RouteContextId → Option RetiredContext × RouteContextCache) :
    RouteContextCache → List RouteContextId → List RetiredContext × RouteContextCache
  | c, [] => ([], c)
  | c, id :: ids =>
    let (retired, c') := f c id
    let (rest, c'') := collect f c' ids
    (retired.toList ++ rest, c'')

/-! ### Inserting a context -/

/-- The order in which contexts are evicted: by last use, then by identifier. -/
def Older (a b : RouteContextId × ℕ) : Prop := a.2 < b.2 ∨ a.2 = b.2 ∧ a.1 ≤ b.1

instance : DecidableRel Older := fun a b =>
  inferInstanceAs (Decidable (a.2 < b.2 ∨ a.2 = b.2 ∧ a.1 ≤ b.1))

/-- The contexts that may be evicted, the least recently used first. -/
def victims (c : RouteContextCache) (replacement : Option RouteContextId) :
    List (RouteContextId × ℕ) :=
  ((c.contexts.rows.filter fun entry =>
    entry.activeFlowCount = 0 && replacement.all fun old => old != entry.id).map fun entry =>
      (entry.id, entry.lastUsedAt)).insertionSort Older

/-- Whether the new context takes a slot of its own: there is no context that it replaces, or the
one it replaces stays because of its flows. -/
def additionalSlot (c : RouteContextCache) (replacement : Option RouteContextId) : ℕ :=
  if (replacement.bind c.contexts.lookup).all fun entry => 0 < entry.activeFlowCount then 1 else 0

/-- How many contexts the new one would have in excess of the capacity. -/
def lruNeeded (c : RouteContextCache) (replacement : Option RouteContextId) : ℕ :=
  c.contexts.rows.length + c.additionalSlot replacement - c.maximumContexts

/-- The contexts that are evicted for the new one. -/
def evicted (c : RouteContextCache) (replacement : Option RouteContextId) : List RouteContextId :=
  ((c.victims replacement).take (c.lruNeeded replacement)).map Prod.fst

/-- Close the replaced context if it carries flows, retire it otherwise. -/
def retireReplaced (c : RouteContextCache) (old : RouteContextId) :
    Option RetiredContext × RouteContextCache :=
  if (c.contexts.lookup old).any fun entry => 0 < entry.activeFlowCount then
    (none, c.closeContext old)
  else c.removeContext old

def addContext (c : RouteContextCache) (context : RouteContext) (now : ℕ) :
    RouteContextCache :=
  { c with
    activeByScope := c.activeByScope.put (context.scope, context.routeContextId)
    contexts := c.contexts.put ⟨context, now, 0, true⟩ }

/-- The contexts that a successful insertion retires, and the cache without them. -/
def replaceContexts (c : RouteContextCache) (replacement : Option RouteContextId) :
    List RetiredContext × RouteContextCache :=
  let (replaced, c') := collect retireReplaced c replacement.toList
  let (lru, c'') := collect removeContext c' (c.evicted replacement)
  (replaced ++ lru, c'')

/-- The context that takes new flows for a scope. -/
def activeContext (c : RouteContextCache) (scope : RouteScope) : Option RouteContextId :=
  (c.activeByScope.lookup scope).map Prod.snd

/-- Inserts a new generation, retiring only unpinned LRU entries. -/
def insertContext (c : RouteContextCache) (context : RouteContext) (now : ℕ) :
    Except RouteContextError (List RetiredContext × RouteContextCache) := do
  c.validateContext context now
  refuse (c.contexts.lookup context.routeContextId ≠ none) .duplicateContext
  let replacement := c.activeContext context.scope
  refuse ((c.victims replacement).length < c.lruNeeded replacement) .allContextsPinned
  let (retired, c') := c.replaceContexts replacement
  pure (retired, c'.addContext context now)

/-! ### Flows -/

/-- The largest value of the source's `usize`. -/
def maxUsize : ℕ := 2 ^ 64 - 1

/-- Record a use of a context and its number of flows. -/
def useContext (c : RouteContextCache) (id : RouteContextId) (count : ℕ) (now : ℕ) :
    RouteContextCache :=
  { c with
    contexts := c.contexts.modify id
      (fun entry => { entry with activeFlowCount := count, lastUsedAt := now }) fun _ => rfl }

/-- Pin a flow: one more flow of the context, used now. -/
def pinFlow (c : RouteContextCache) (entry : ContextEntry) (flowId : FlowId) (now : ℕ) :
    RouteContextCache :=
  { c.useContext entry.id (entry.activeFlowCount + 1) now with
    flows := c.flows.put (flowId, entry.context.binding) }

/-- What `beginFlow` does with the entry it finds. -/
def beginFlowIn (c : RouteContextCache) (scope : RouteScope) (entry : ContextEntry)
    (flowId : FlowId) (now : ℕ) : Except RouteContextError FlowBinding × RouteContextCache :=
  if now < entry.lastUsedAt then (.error .clockMovedBackwards, c)
  else if !entry.acceptsNewFlows || isExpiredAt entry.context.expiresAt now then
    (.error .contextExpired,
      { c.closeContext entry.id with activeByScope := c.activeByScope.erase scope })
  else if maxUsize < entry.activeFlowCount + 1 then (.error .flowCountOverflow, c)
  else (.ok entry.context.binding, c.pinFlow entry flowId now)

/-- Pins a new flow to the currently active, unexpired generation. -/
def beginFlow (c : RouteContextCache) (scope : RouteScope) (flowId : FlowId) (now : ℕ) :
    Except RouteContextError FlowBinding × RouteContextCache :=
  if c.flows.lookup flowId ≠ none then (.error .duplicateFlow, c)
  else if c.maximumFlows ≤ c.flows.rows.length then (.error .tooManyFlows, c)
  else
    match c.activeContext scope with
    | none => (.error .noActiveContext, c)
    | some contextId =>
      match c.contexts.lookup contextId with
      | none => (.error .noActiveContext, c)
      | some entry => c.beginFlowIn scope entry flowId now

/-- Returns a pinned flow binding without changing its LRU position. -/
def flowBinding (c : RouteContextCache) (flowId : FlowId) : Option FlowBinding :=
  (c.flows.lookup flowId).map Prod.snd

/-- Unpin a flow: one flow of the context less, used now. -/
def unpinFlow (c : RouteContextCache) (entry : ContextEntry) (flowId : FlowId) (now : ℕ) :
    RouteContextCache :=
  { c.useContext entry.id (entry.activeFlowCount - 1) now with flows := c.flows.erase flowId }

/-- Ends a flow and returns immediate cleanup work for a retired generation. -/
def finishFlow (c : RouteContextCache) (flowId : FlowId) (now : ℕ) :
    Except RouteContextError (Option RetiredContext × RouteContextCache) := do
  let binding ← orFail (c.flowBinding flowId) .unknownFlow
  let entry ← orFail (c.contexts.lookup binding.routeContextId) .corruptFlowBinding
  refuse (entry.activeFlowCount = 0) .corruptFlowBinding
  refuse (now < entry.lastUsedAt) .clockMovedBackwards
  if entry.activeFlowCount - 1 = 0 ∧
      (entry.acceptsNewFlows = false ∨ isExpiredAt entry.context.expiresAt now = true) then
    pure ((c.unpinFlow entry flowId now).removeContext binding.routeContextId)
  else pure (none, c.unpinFlow entry flowId now)

/-! ### Expiry -/

/-- The order in which a hash map lists its entries. -/
structure Iteration where
  list : List ContextEntry → List ContextEntry
  perm : ∀ entries, (list entries).Perm entries

/-- One turn of the loop of `expire`. -/
def expireContext (c : RouteContextCache) (id : RouteContextId) :
    Option RetiredContext × RouteContextCache :=
  match c.contexts.lookup id with
  | none => (none, c)
  | some entry =>
    let c' := (c.closeContext id).dropActive entry.context.scope id
    if entry.activeFlowCount = 0 then c'.removeContext id else (none, c')

/-- Expires contexts for new flows and returns only generations without established flows. -/
def expire (c : RouteContextCache) (now : ℕ) (order : Iteration) :
    List RetiredContext × RouteContextCache :=
  collect expireContext c
    (((order.list c.contexts.rows).filter fun entry => isExpiredAt entry.context.expiresAt now).map
      ContextEntry.id)

def contextCount (c : RouteContextCache) : ℕ := c.contexts.rows.length

def flowCount (c : RouteContextCache) : ℕ := c.flows.rows.length

end RouteContextCache

/-! ## Runs -/

/-- A call of a public operation that changes the cache. Contexts are removed inside these calls
only: `removeContext` is private to the cache. -/
inductive Call where
  | insertContext (context : RouteContext) (now : ℕ)
  | beginFlow (scope : RouteScope) (flowId : FlowId) (now : ℕ)
  | finishFlow (flowId : FlowId) (now : ℕ)
  | expire (now : ℕ) (order : RouteContextCache.Iteration)

/-- What a successful call returns. -/
inductive Outcome where
  | inserted (retired : List RetiredContext)
  | began (binding : FlowBinding)
  | finished (retired : Option RetiredContext)
  | expired (retired : List RetiredContext)
  deriving DecidableEq

/-- The contexts that a call hands out for clean-up. -/
def Outcome.retired : Outcome → List RetiredContext
  | .inserted retired => retired
  | .began _ => []
  | .finished retired => retired.toList
  | .expired retired => retired

/-- The result of a call that leaves the cache alone when it fails. -/
def atomically {α : Type} (c : RouteContextCache) (outcome : α → Outcome)
    (x : Except RouteContextError (α × RouteContextCache)) :
    Except RouteContextError Outcome × RouteContextCache :=
  match x with
  | .error e => (.error e, c)
  | .ok (a, c') => (.ok (outcome a), c')

def call (c : RouteContextCache) : Call → Except RouteContextError Outcome × RouteContextCache
  | .insertContext context now => atomically c .inserted (c.insertContext context now)
  | .beginFlow scope flowId now =>
    let (result, c') := c.beginFlow scope flowId now
    (result.map .began, c')
  | .finishFlow flowId now => atomically c .finished (c.finishFlow flowId now)
  | .expire now order =>
    let (retired, c') := c.expire now order
    (.ok (.expired retired), c')

/-- The cache as a machine that takes one call after another. -/
def machine : Machine RouteContextCache Call (Except RouteContextError Outcome) := ⟨call⟩

abbrev Event := Machine.Event RouteContextCache Call (Except RouteContextError Outcome)

/-! ## A sample cache -/

def sampleScope (n : Fin 10) : RouteScope := ⟨sampleId n, sampleId 0, .udpSinglePath, 1, .zero 32⟩

/-- A context for a scope, with one relay, that lives for 100 seconds. -/
def sampleContext (id scope : Fin 10) : RouteContext :=
  ⟨sampleId id, sampleScope scope, ⟨sampleId 0, [sampleId 1], []⟩, 1000, 1100⟩

/-- A new cache for two contexts and four flows. -/
def sampleCache : RouteContextCache := ⟨2, 4, 600, .empty, .empty, .empty⟩

end Volparossa.Selection
