import Volparossa.Core.Network
import Volparossa.Foundations.Fallible
import Volparossa.Foundations.Machine
import Volparossa.Foundations.Table

/-!
# The MPTCP path manager

The manager owns the MPTCP endpoints of one network namespace for one route context at a time. Its
state is behind a lock, which is not held while it calls the kernel: a call records under the lock
what it is about to do, calls the kernel, and takes the lock again to record what came of it.
Between these points the calls of other threads run.

The model has one definition for each section of a call that runs under the lock, and the calls that
are in progress as data (`Call`), so that a step of the system either starts a call or lets one of
them go on, up to its next section or through its next call to the kernel. A kernel call may fail
before or after it took effect. The manager comes in two kinds, for callers with and without an
executor, whose sections are the same except for what the synchronous one retains of the limits.
-/

namespace Volparossa.Mptcp

open Volparossa.Core

/-! ## Endpoints and limits -/

def maxPaths : ℕ := 8

inductive MptcpError where
  | io (rawOsError : Option ℕ)
  | invalid (reason : String)
  | netlink (reason : String)
  | cleanupIncomplete (reason : String)
  | worker (reason : String)
  deriving DecidableEq

instance : DecidableEq (Except MptcpError Unit)
  | .ok (), .ok () => isTrue rfl
  | .ok (), .error _ => isFalse nofun
  | .error _, .ok () => isFalse nofun
  | .error e, .error e' => decidable_of_iff (e = e') (by simp)

def eexist : ℕ := 17

def isErrno (error : MptcpError) (expected : ℕ) : Bool :=
  error == .io (some expected)

/-- One selected address exposed to the kernel path manager. -/
structure MptcpEndpoint where
  id : ℕ
  address : IpAddr
  ifIndex : ℕ
  flags : UInt32
  listenerPort : Option UInt16
  deriving DecidableEq

/-- A group of sixteen bits of an address. -/
def segment (octets : FixedBytes 16) (i : ℕ) : ℕ :=
  (octets.toBytes.getD (2 * i) 0).toNat * 256 + (octets.toBytes.getD (2 * i + 1) 0).toNat

namespace EndpointFlags

def signal : UInt32 := 1

def subflow : UInt32 := 2

def backup : UInt32 := 4

end EndpointFlags

def MptcpEndpoint.validate (endpoint : MptcpEndpoint) : Except MptcpError Unit := do
  refuse (endpoint.id = 0)
    (.invalid "endpoint id zero is reserved for the implicit initial path")
  refuse (endpoint.id > maxPaths)
    (.invalid ("endpoint id " ++ toString endpoint.id ++ " exceeds maximum " ++ toString maxPaths))
  refuse (endpoint.ifIndex = 0 ∨ endpoint.ifIndex ≥ 2 ^ 31)
    (.invalid "endpoint must use a positive Linux WireGuard interface index")
  let octets ← match endpoint.address with
    | .v6 octets => .ok octets
    | .v4 .. => .error (.invalid "endpoint must use a VOLPAROSSA IPv6 overlay address")
  refuse ((List.range 3).map (segment octets) ≠ [0xfd76, 0x6f6c, 0x7061] ∨
    segment octets 5 ≠ endpoint.id ∨ ¬(segment octets 7 = 1 ∨ segment octets 7 = 4))
    (.invalid "endpoint address is outside its client/exit overlay path")
  refuse (endpoint.flags &&& (EndpointFlags.signal ||| EndpointFlags.subflow) = 0 ∨
    endpoint.flags &&& ~~~(EndpointFlags.signal ||| EndpointFlags.subflow |||
      EndpointFlags.backup) ≠ 0)
    (.invalid "endpoint flags are outside the closed signal/subflow/backup set")
  refuse (endpoint.listenerPort = some 0 ∨
    endpoint.listenerPort.isSome = true ∧ endpoint.flags ≠ EndpointFlags.signal)
    (.invalid "endpoint listener port requires an address-only signal endpoint")

/-- Namespace-local path-manager limits. -/
structure MptcpLimits where
  acceptedAddrs : ℕ
  subflows : ℕ
  deriving DecidableEq

def MptcpLimits.validate (limits : MptcpLimits) : Except MptcpError Unit := do
  refuse (limits.acceptedAddrs > maxPaths ∨ limits.subflows > maxPaths)
    (.invalid ("MPTCP limits cannot exceed " ++ toString maxPaths))
  refuse (limits.subflows = 0) (.invalid "at least one additional subflow must be permitted")

/-- A letter, a digit, a hyphen or an underscore. -/
def contextByte (byte : UInt8) : Bool :=
  (48 ≤ byte && byte ≤ 57) || (65 ≤ byte && byte ≤ 90) || (97 ≤ byte && byte ≤ 122) ||
    byte == 45 || byte == 95

def validateContextId (value : Bytes) : Except MptcpError Unit := do
  refuse (value = [] ∨ value.length > 64) (.invalid "route context ID length must be 1..=64")
  refuse (value.all contextByte = false)
    (.invalid "route context ID contains a forbidden character")

/-! ## The kernel -/

/-- An endpoint in the kernel; `ours` says whether the manager put it there. -/
structure KernelEntry where
  endpoint : MptcpEndpoint
  ours : Bool
  deriving DecidableEq

abbrev KernelEntry.id (entry : KernelEntry) : ℕ := entry.endpoint.id

structure Kernel where
  endpoints : Table KernelEntry.id
  limits : Option MptcpLimits

/-- The error of a kernel call other than that an identifier exists. -/
abbrev Failure := { error : MptcpError // isErrno error eexist = false }

/-- A kernel call fails, before or after it took effect. -/
inductive Fault where
  | before (failure : Failure)
  | after (failure : Failure)
  deriving DecidableEq

/-- What a kernel call returns that took effect. -/
def Fault.result : Option Fault → Except MptcpError Unit
  | some (.before failure) | some (.after failure) => .error failure.1
  | none => .ok ()

namespace Kernel

def setLimits (k : Kernel) (limits : MptcpLimits) (fault : Option Fault) :
    Except MptcpError Unit × Kernel :=
  match fault with
  | some (.before failure) => (.error failure.1, k)
  | _ => (Fault.result fault, { k with limits := some limits })

/-- An identifier that is taken is refused without effect. -/
def addEndpoint (k : Kernel) (endpoint : MptcpEndpoint) (fault : Option Fault) :
    Except MptcpError Unit × Kernel :=
  match fault with
  | some (.before failure) => (.error failure.1, k)
  | _ =>
    if k.endpoints.lookup endpoint.id ≠ none then (.error (.io (some eexist)), k)
    else (Fault.result fault, { k with endpoints := k.endpoints.put ⟨endpoint, true⟩ })

/-- The endpoint with the identifier is removed; that there is none is not an error. -/
def deleteEndpoint (k : Kernel) (endpoint : MptcpEndpoint) (fault : Option Fault) :
    Except MptcpError Unit × Kernel :=
  match fault with
  | some (.before failure) => (.error failure.1, k)
  | _ => (Fault.result fault, { k with endpoints := k.endpoints.erase endpoint.id })

end Kernel

/-! ## The sections under the lock -/

inductive EndpointPhase where
  | adding
  | active
  | removing
  | cleanupRequired
  deriving DecidableEq

structure ManagedEndpoint where
  phase : EndpointPhase
  endpoint : MptcpEndpoint
  deriving DecidableEq

abbrev ManagedEndpoint.id (managed : ManagedEndpoint) : ℕ := managed.endpoint.id

inductive ManagedContext where
  | preparing (limits : MptcpLimits)
  | active (endpoints : Table ManagedEndpoint.id)
  | cleaning (endpoints : Table MptcpEndpoint.id)
  deriving DecidableEq

structure ContextRow where
  routeContextId : Bytes
  context : ManagedContext
  deriving DecidableEq

abbrev Contexts := Table ContextRow.routeContextId

inductive Kind where
  | synchronous
  | asynchronous
  deriving DecidableEq

namespace Contexts

/-- The state of a context. -/
def get (contexts : Contexts) (routeContextId : Bytes) : Option ManagedContext :=
  (contexts.lookup routeContextId).map ContextRow.context

def insert (contexts : Contexts) (routeContextId : Bytes) (context : ManagedContext) : Contexts :=
  contexts.put ⟨routeContextId, context⟩

def beginPrepare (contexts : Contexts) (routeContextId : Bytes) (limits : MptcpLimits) :
    Except MptcpError Contexts := do
  validateContextId routeContextId
  limits.validate
  refuse (contexts.rows ≠ []) (.invalid "backend already owns its namespace context")
  pure (contexts.insert routeContextId (.preparing limits))

def finishPrepare (contexts : Contexts) (routeContextId : Bytes) (limits : MptcpLimits)
    (result : Except MptcpError Unit) : Except MptcpError Unit × Contexts :=
  match result with
  | .ok () =>
    if contexts.get routeContextId = some (.preparing limits) then
      (.ok (), contexts.insert routeContextId (.active .empty))
    else
      (.error (.cleanupIncomplete "prepared context state changed before limits commit"), contexts)
  | .error e =>
    (.error e, if contexts.get routeContextId = some (.preparing limits) then
      contexts.erase routeContextId else contexts)

/-- Record that an endpoint is about to be added, unless it is active already. -/
def beginAdd (contexts : Contexts) (routeContextId : Bytes) (endpoint : MptcpEndpoint) :
    Except MptcpError (Option Contexts) := do
  validateContextId routeContextId
  endpoint.validate
  match contexts.get routeContextId with
  | some (.active endpoints) =>
    match endpoints.lookup endpoint.id with
    | some current =>
      if current = ⟨.active, endpoint⟩ then pure none
      else .error (.invalid "endpoint id has a conflicting or pending owner")
    | none =>
      refuse (endpoints.rows.length ≥ maxPaths) (.invalid "route context path limit reached")
      pure (some (contexts.insert routeContextId (.active (endpoints.put ⟨.adding, endpoint⟩))))
  | _ => .error (.invalid "route context is absent or busy")

/-- The endpoints of an active context in which the endpoint is in a phase. -/
def activeWith (contexts : Contexts) (routeContextId : Bytes) (managed : ManagedEndpoint) :
    Option (Table ManagedEndpoint.id) :=
  match contexts.get routeContextId with
  | some (.active endpoints) =>
    if endpoints.lookup managed.id = some managed then some endpoints else none
  | _ => none

/-- Forget an endpoint that was to be added. -/
def abandonAdd (contexts : Contexts) (routeContextId : Bytes) (endpoint : MptcpEndpoint) :
    Contexts :=
  match contexts.activeWith routeContextId ⟨.adding, endpoint⟩ with
  | some endpoints => contexts.insert routeContextId (.active (endpoints.erase endpoint.id))
  | none => contexts

/-- Record that an endpoint was added, if it is still the one to be added. -/
def commitAdd (contexts : Contexts) (routeContextId : Bytes) (endpoint : MptcpEndpoint) :
    Option Contexts :=
  (contexts.activeWith routeContextId ⟨.adding, endpoint⟩).map fun endpoints =>
    contexts.insert routeContextId (.active (endpoints.put ⟨.active, endpoint⟩))

def markAddCleanupRequired (kind : Kind) (contexts : Contexts) (routeContextId : Bytes)
    (endpoint : MptcpEndpoint) : Except MptcpError Contexts :=
  match kind, contexts.get routeContextId with
  | _, some (.active endpoints) =>
    .ok (contexts.insert routeContextId (.active (endpoints.put ⟨.cleanupRequired, endpoint⟩)))
  | _, some (.cleaning endpoints) =>
    .ok (contexts.insert routeContextId (.cleaning (endpoints.put endpoint)))
  | .asynchronous, some (.preparing _) => .error (.cleanupIncomplete
      "route context returned to preparation while retaining endpoint ownership")
  | .synchronous, some (.preparing _) | _, none => .error (.cleanupIncomplete
      "route context vanished while retaining endpoint ownership")

/-- Record that an endpoint is about to be removed; one that is not there is removed already. -/
def beginRemove (contexts : Contexts) (routeContextId : Bytes) (endpointId : ℕ) :
    Except MptcpError (Option (MptcpEndpoint × Contexts)) := do
  validateContextId routeContextId
  refuse (endpointId = 0 ∨ endpointId > maxPaths) (.invalid "invalid endpoint id")
  match contexts.get routeContextId with
  | some (.active endpoints) =>
    match endpoints.lookup endpointId with
    | none => pure none
    | some ⟨.active, endpoint⟩ | some ⟨.cleanupRequired, endpoint⟩ =>
      pure (some (endpoint,
        contexts.insert routeContextId (.active (endpoints.put ⟨.removing, endpoint⟩))))
    | some ⟨.adding, _⟩ | some ⟨.removing, _⟩ =>
      .error (.invalid "endpoint mutation is already pending")
  | _ => .error (.invalid "route context is absent or busy")

def finishRemove (contexts : Contexts) (routeContextId : Bytes) (endpoint : MptcpEndpoint)
    (result : Except MptcpError Unit) : Except MptcpError Unit × Contexts :=
  match contexts.get routeContextId with
  | some (.active endpoints) =>
    if endpoints.lookup endpoint.id ≠ some ⟨.removing, endpoint⟩ then
      (.error (.cleanupIncomplete "endpoint state changed during removal"), contexts)
    else
      match result with
      | .ok () =>
        (.ok (), contexts.insert routeContextId (.active (endpoints.erase endpoint.id)))
      | .error _ =>
        (.error (.cleanupIncomplete "endpoint removal failed and remains owned"),
          contexts.insert routeContextId (.active (endpoints.put ⟨.cleanupRequired, endpoint⟩)))
  | _ => (.error (.cleanupIncomplete "context state changed during endpoint removal"), contexts)

/-- The endpoints of managed ones. -/
def ownedEndpoints (endpoints : Table ManagedEndpoint.id) : Table MptcpEndpoint.id :=
  ⟨endpoints.rows.map ManagedEndpoint.endpoint, by
    rw [List.map_map]
    exact endpoints.nodup⟩

/-- Start to clean, or go on with it: the endpoints to delete, in the order of their identifiers. -/
def beginCleanup (contexts : Contexts) (routeContextId : Bytes) :
    Except MptcpError (Option (List MptcpEndpoint × Contexts)) := do
  validateContextId routeContextId
  match contexts.get routeContextId with
  | none => pure none
  | some (.preparing _) => .error (.invalid "context preparation is still pending")
  | some (.active endpoints) =>
    refuse ((endpoints.rows.any fun managed =>
      managed.phase = .adding || managed.phase = .removing) = true)
      (.invalid "endpoint mutation is still pending")
    let owned := ownedEndpoints endpoints
    pure (some (owned.orderBy MptcpEndpoint.id (· ≤ ·),
      contexts.insert routeContextId (.cleaning owned)))
  | some (.cleaning endpoints) =>
    pure (some (endpoints.orderBy MptcpEndpoint.id (· ≤ ·), contexts))

/-- Forget an endpoint that was cleaned. -/
def forgetCleaned (contexts : Contexts) (routeContextId : Bytes) (endpoint : MptcpEndpoint) :
    Except MptcpError Contexts :=
  match contexts.get routeContextId with
  | some (.cleaning remaining) =>
    if remaining.lookup endpoint.id ≠ some endpoint then
      .error (.cleanupIncomplete "owned endpoint changed during cleanup")
    else .ok (contexts.insert routeContextId (.cleaning (remaining.erase endpoint.id)))
  | _ => .error (.cleanupIncomplete "context cleanup state changed unexpectedly")

def finishCleanup (contexts : Contexts) (routeContextId : Bytes) :
    Except MptcpError Unit × Contexts :=
  match contexts.get routeContextId with
  | some (.cleaning remaining) =>
    if remaining.rows = [] then (.ok (), contexts.erase routeContextId)
    else (.error (.cleanupIncomplete "context retained endpoint ownership after cleanup"), contexts)
  | _ => (.error (.cleanupIncomplete "context retained endpoint ownership after cleanup"), contexts)

end Contexts

/-! ## Calls -/

/-- Where a call about one endpoint stands: before or after which call to the kernel. -/
inductive Stage where
  | adding
  | added (result : Except MptcpError Unit)
  | rollingBack (error : MptcpError)
  | rolledBack (error : MptcpError) (result : Except MptcpError Unit)
  | undoing
  | undone (result : Except MptcpError Unit)
  | removing
  | removed (result : Except MptcpError Unit)

/-- A call that is in progress, outside the lock. -/
inductive Call where
  | prepare (routeContextId : Bytes) (limits : MptcpLimits)
    (result : Option (Except MptcpError Unit))
  | endpoint (routeContextId : Bytes) (endpoint : MptcpEndpoint) (stage : Stage)
  | cleanup (routeContextId : Bytes) (rest : List MptcpEndpoint)
    (deleted : Option (MptcpEndpoint × Except MptcpError Unit))

/-- What the calls share: the contexts behind the lock, the kernel, and the limits that a
synchronous manager retains. -/
structure Shared where
  contexts : Contexts
  kernel : Kernel
  limits : Option (Bytes × MptcpLimits)

/-- A call goes on, or it returns. -/
inductive Progress where
  | next (call : Call)
  | done (result : Except MptcpError Unit)

namespace Shared

def stepPrepare (kind : Kind) (sh : Shared) (routeContextId : Bytes) (limits : MptcpLimits)
    (fault : Option Fault) : Option (Except MptcpError Unit) → Progress × Shared
  | none =>
    let (result, kernel) := sh.kernel.setLimits limits fault
    (.next (.prepare routeContextId limits (some result)), { sh with kernel })
  | some result =>
    let (answer, contexts) := sh.contexts.finishPrepare routeContextId limits result
    (.done answer, { sh with
      contexts
      limits := if kind = .synchronous ∧ answer = .ok () then some (routeContextId, limits)
        else sh.limits })

/-- Keep an endpoint as one to be cleaned up; the answer of the call does not depend on whether this
was possible. -/
def retain (kind : Kind) (sh : Shared) (routeContextId : Bytes) (endpoint : MptcpEndpoint) :
    Shared :=
  match sh.contexts.markAddCleanupRequired kind routeContextId endpoint with
  | .ok contexts => { sh with contexts }
  | .error _ => sh

def stepEndpoint (kind : Kind) (sh : Shared) (routeContextId : Bytes) (endpoint : MptcpEndpoint)
    (fault : Option Fault) : Stage → Progress × Shared
  | .adding =>
    let (result, kernel) := sh.kernel.addEndpoint endpoint fault
    (.next (.endpoint routeContextId endpoint (.added result)), { sh with kernel })
  | .added (.error error) =>
    if isErrno error eexist then
      (.done (.error error), { sh with contexts := sh.contexts.abandonAdd routeContextId endpoint })
    else (.next (.endpoint routeContextId endpoint (.rollingBack error)), sh)
  | .rollingBack error =>
    let (result, kernel) := sh.kernel.deleteEndpoint endpoint fault
    (.next (.endpoint routeContextId endpoint (.rolledBack error result)), { sh with kernel })
  | .rolledBack error (.ok ()) =>
    (.done (.error error),
      { sh with contexts := sh.contexts.abandonAdd routeContextId endpoint })
  | .rolledBack _ (.error _) =>
    (.done (.error (.cleanupIncomplete "failed endpoint add could not be rolled back")),
      sh.retain kind routeContextId endpoint)
  | .added (.ok ()) =>
    match sh.contexts.commitAdd routeContextId endpoint with
    | some contexts => (.done (.ok ()), { sh with contexts })
    | none => (.next (.endpoint routeContextId endpoint .undoing), sh)
  | .undoing =>
    let (result, kernel) := sh.kernel.deleteEndpoint endpoint fault
    (.next (.endpoint routeContextId endpoint (.undone result)), { sh with kernel })
  | .undone (.ok ()) =>
    (.done (.error (.worker "endpoint state commit failed; exact kernel rollback completed")), sh)
  | .undone (.error _) =>
    (.done (.error (.cleanupIncomplete "endpoint state commit and exact rollback failed")),
      sh.retain kind routeContextId endpoint)
  | .removing =>
    let (result, kernel) := sh.kernel.deleteEndpoint endpoint fault
    (.next (.endpoint routeContextId endpoint (.removed result)), { sh with kernel })
  | .removed result =>
    let (answer, contexts) := sh.contexts.finishRemove routeContextId endpoint result
    (.done answer, { sh with contexts })

def stepCleanup (sh : Shared) (routeContextId : Bytes) (fault : Option Fault) :
    List MptcpEndpoint → Option (MptcpEndpoint × Except MptcpError Unit) → Progress × Shared
  | [], none =>
    let (answer, contexts) := sh.contexts.finishCleanup routeContextId
    (.done answer, { sh with contexts })
  | endpoint :: rest, none =>
    let (result, kernel) := sh.kernel.deleteEndpoint endpoint fault
    (.next (.cleanup routeContextId rest (some (endpoint, result))), { sh with kernel })
  | _, some (_, .error _) =>
    (.done (.error (.cleanupIncomplete "context endpoint cleanup failed")), sh)
  | rest, some (endpoint, .ok ()) =>
    match sh.contexts.forgetCleaned routeContextId endpoint with
    | .ok contexts => (.next (.cleanup routeContextId rest none), { sh with contexts })
    | .error e => (.done (.error e), sh)

/-- A call goes on, through its next call to the kernel or its next section under the lock. -/
def stepCall (kind : Kind) (sh : Shared) (fault : Option Fault) : Call → Progress × Shared
  | .prepare routeContextId limits result => sh.stepPrepare kind routeContextId limits fault result
  | .endpoint routeContextId endpoint stage =>
    sh.stepEndpoint kind routeContextId endpoint fault stage
  | .cleanup routeContextId rest deleted => sh.stepCleanup routeContextId fault rest deleted

/-- Raise the limits of the context; the lock is held during the kernel call. -/
def updateContextLimits (sh : Shared) (routeContextId : Bytes) (limits : MptcpLimits)
    (fault : Option Fault) : Except MptcpError Unit × Shared :=
  match (do
    validateContextId routeContextId
    limits.validate
    let old ← match sh.contexts.get routeContextId, sh.limits with
      | some (.active _), some old => .ok old
      | some (.active _), none => .error (.invalid "limits owner absent")
      | _, _ => .error (.invalid "route context is absent or busy")
    refuse (old.1 ≠ routeContextId ∨ limits.acceptedAddrs < old.2.acceptedAddrs ∨
      limits.subflows < old.2.subflows) (.invalid "limits decrease or foreign owner")
    : Except MptcpError Unit) with
  | .error e => (.error e, sh)
  | .ok () =>
    let (result, kernel) := sh.kernel.setLimits limits fault
    (result, { sh with kernel, limits := some (routeContextId, limits) })

/-- An update of the limits changes nothing else. -/
theorem updateContextLimits_eq (sh : Shared) (c : Bytes) (l : MptcpLimits)
    (fault : Option Fault) : ∃ k limits, k.endpoints = sh.kernel.endpoints ∧
      (sh.updateContextLimits c l fault).2 = ⟨sh.contexts, k, limits⟩ := by
  rw [updateContextLimits]
  split
  · exact ⟨_, _, rfl, rfl⟩
  · refine ⟨_, _, ?_, rfl⟩
    rcases fault with _ | failure | failure <;> rfl

end Shared

/-! ## The system -/

inductive Request where
  | prepareContext (routeContextId : Bytes) (limits : MptcpLimits)
  | addPath (routeContextId : Bytes) (endpoint : MptcpEndpoint)
  | removePath (routeContextId : Bytes) (endpointId : ℕ)
  | cleanupContext (routeContextId : Bytes)
  | updateContextLimits (routeContextId : Bytes) (limits : MptcpLimits) (fault : Option Fault)

/-- A caller starts a call, or a call in progress goes on. -/
inductive Step where
  | start (request : Request)
  | advance (call : ℕ) (fault : Option Fault)

structure State where
  shared : Shared
  calls : List Call

namespace State

/-- The first section of a call: it returns at once, or it is in progress. -/
def start (kind : Kind) (s : State) : Request → Option (Except MptcpError Unit) × State
  | .prepareContext routeContextId limits =>
    match s.shared.contexts.beginPrepare routeContextId limits with
    | .error e => (some (.error e), s)
    | .ok contexts =>
      (none, ⟨{ s.shared with contexts }, s.calls ++ [.prepare routeContextId limits none]⟩)
  | .addPath routeContextId endpoint =>
    match s.shared.contexts.beginAdd routeContextId endpoint with
    | .error e => (some (.error e), s)
    | .ok none => (some (.ok ()), s)
    | .ok (some contexts) =>
      (none, ⟨{ s.shared with contexts }, s.calls ++ [.endpoint routeContextId endpoint .adding]⟩)
  | .removePath routeContextId endpointId =>
    match s.shared.contexts.beginRemove routeContextId endpointId with
    | .error e => (some (.error e), s)
    | .ok none => (some (.ok ()), s)
    | .ok (some (endpoint, contexts)) =>
      (none, ⟨{ s.shared with contexts }, s.calls ++ [.endpoint routeContextId endpoint .removing]⟩)
  | .cleanupContext routeContextId =>
    match s.shared.contexts.beginCleanup routeContextId with
    | .error e => (some (.error e), s)
    | .ok none => (some (.ok ()), s)
    | .ok (some (rest, contexts)) =>
      (none, ⟨{ s.shared with contexts }, s.calls ++ [.cleanup routeContextId rest none]⟩)
  | .updateContextLimits routeContextId limits fault =>
    -- only the synchronous manager has this call
    match kind with
    | .asynchronous => (none, s)
    | .synchronous =>
      let (answer, shared) := s.shared.updateContextLimits routeContextId limits fault
      (some answer, { s with shared })

def step (kind : Kind) (s : State) : Step → Option (Except MptcpError Unit) × State
  | .start request => s.start kind request
  | .advance i fault =>
    match s.calls[i]? with
    | none => (none, s)
    | some call =>
      match s.shared.stepCall kind fault call with
      | (.next call', shared) => (none, ⟨shared, s.calls.set i call'⟩)
      | (.done answer, shared) => (some answer, ⟨shared, s.calls.eraseIdx i⟩)

/-- A manager takes one step after another; the output is the answer of a call that returns. -/
def machine (kind : Kind) : Machine State Step (Option (Except MptcpError Unit)) := ⟨step kind⟩

/-- A manager that owns nothing, on a kernel with endpoints of others. -/
def initial (foreign : List MptcpEndpoint) : State :=
  ⟨⟨.empty, ⟨foreign.foldl (fun t endpoint => t.put ⟨endpoint, false⟩) .empty, none⟩, none⟩, []⟩

end State

end Volparossa.Mptcp
