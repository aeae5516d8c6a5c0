import Volparossa.Discovery.Provenance
import Volparossa.Protocol.Preselection

/-!
# Dispatch of preselection observations

A discovery service sends one preselection request at a time in each of two directions: as a client
to a relay, and as a control relay upstream to an exit. A dispatch takes the slot of its direction
and returns a token, which is the only way to free the slot again: with the response that arrives,
by cancelling it, or, for the client, with the failure of the request. A token may be bare or carry
the context of its caller.

The two directions are nearly the same, and differ in what happens to a token that does not fit. A
client transaction that is not the active one of the service is given back; a client dispatch is
consumed. Once a client token is recognized as the active one, any response is final and frees the
slot. Upstream, a response that does not belong to the token consumes the token and leaves the slot.
-/

namespace Volparossa.Discovery

open Volparossa.Core Protocol

open Transaction (Crypto checkedSub)

inductive PreselectionDispatchError where
  | role
  | request
  | provenance
  | correlation
  | time
  | busy
  deriving DecidableEq

structure DiscoveryProtocolRoles where
  client : Bool
  relay : Bool
  exit : Bool
  deriving DecidableEq

/-- A monotonic instant, in nanoseconds. -/
abbrev Instant := ℕ

/-- A later instant, if the clock can represent it. -/
def addDuration (instant : Instant) (nanoseconds : ℕ) : Option Instant :=
  if instant + nanoseconds < 2 ^ 63 * 10 ^ 9 then some (instant + nanoseconds) else none

/-- What the clocks show at a call: the monotonic one, and the wall clock in milliseconds, if it is
not before its epoch. -/
structure Clocks where
  mono : Instant
  unixMs : Option ℕ
  deriving DecidableEq

/-- Five seconds. -/
def preselectionObservationRequestTimeout : ℕ := 5 * 10 ^ 9

/-- A witness from before the request was sent, or the family of the connection that the response
must arrive on. -/
inductive DispatchWitness where
  | preSend (witness : ConnectionWitness)
  | bindResponse (family : IpFamily)
  deriving DecidableEq

/-- One request that was sent, of either direction. -/
structure PreselectionDispatch where
  requestId : ℕ
  requestHash : FixedBytes 32
  expectedPeerId : PeerId
  ownerInstance : ℕ
  sentAt : Instant
  deadline : Instant
  witness : DispatchWitness
  deriving DecidableEq

abbrev ClientPreselectionDispatch := PreselectionDispatch

abbrev UpstreamPreselectionDispatch := PreselectionDispatch

/-- A dispatch with the context of its caller. -/
structure ClientPreselectionTransaction (Context : Type) where
  dispatch : ClientPreselectionDispatch
  context : Context

structure UpstreamPreselectionTransaction (Context : Type) where
  dispatch : UpstreamPreselectionDispatch
  context : Context

/-- A response, sealed by the service that observed it. -/
structure PreselectionResponseArrival where
  peer : PeerId
  connectionId : ConnectionId
  requestId : ℕ
  response : Bytes
  ownerInstance : ℕ
  arrivedAtMono : Instant
  arrivedAtUnixMs : ℕ
  deriving DecidableEq

/-- A dispatch that was bound to a response and to the connection it arrived on. -/
structure BoundPreselectionTransport where
  observation : BoundConnectionObservation
  requestHash : FixedBytes 32
  requestId : ℕ
  sentAtMono : Instant
  arrivedAtMono : Instant
  arrivedAtUnixMs : ℕ
  deadlineMono : Instant
  deriving DecidableEq

/-- A transaction of another service is given back; one of this service is over, and only its
context returns. -/
inductive ClientPreselectionBindFailure (Context : Type) where
  | retained (transaction : ClientPreselectionTransaction Context)
    (error : PreselectionDispatchError)
  | released (context : Context) (error : PreselectionDispatchError)

/-- The transaction that could not be cancelled. -/
structure ClientPreselectionCancelFailure (Context : Type) where
  transaction : ClientPreselectionTransaction Context
  error : PreselectionDispatchError

/-- What the dispatches of a service use of it: the slots, whose owner no other service shares, its
roles, its own identity and its connections. -/
structure DiscoveryService where
  ownInstance : ℕ
  clientActive : Option ℕ
  upstreamActive : Option ℕ
  protocolRoles : DiscoveryProtocolRoles
  localPeerId : PeerId
  connectionProvenance : ConnectionProvenanceBehaviour

/-! ## Targets -/

section Targets

variable (fromBytes : Bytes → Option PeerId)

def observedFamily (scope : PreselectionObservationScope) :
    Except PreselectionDispatchError IpFamily :=
  match ObservationAddressFamily.tryFrom scope.addressFamily with
  | some .ipv4 => .ok .ipv4
  | some .ipv6 => .ok .ipv6
  | some .unspecified | none => .error .request

/-- The peer that a client sends a request to, its actor, and the family. -/
def requestTargetAndFamily (request : PreselectionObservationRequest) :
    Except PreselectionDispatchError (PeerId × PeerId × IpFamily) := do
  let actor ← orFail request.actor PreselectionDispatchError.request
  let scope ← orFail request.scope PreselectionDispatchError.request
  let role ← orFail (PreselectionObservationRole.tryFrom scope.role)
    PreselectionDispatchError.request
  let family ← observedFamily scope
  let actorPeer ← orFail (fromBytes actor.peerId) PreselectionDispatchError.request
  match role, request.forwardedControl with
  | .relay, none => pure (actorPeer, actorPeer, family)
  | .exit, some control =>
    let controlPeer ← orFail (fromBytes control.peerId) PreselectionDispatchError.request
    refuse (controlPeer = actorPeer) PreselectionDispatchError.request
    pure (controlPeer, actorPeer, family)
  | _, _ => .error .request

/-- The exit that a control relay forwards a request to, and the family. -/
def upstreamTargetAndFamily (request : PreselectionObservationRequest) (localPeerId : PeerId) :
    Except PreselectionDispatchError (PeerId × IpFamily) := do
  let actor ← orFail request.actor PreselectionDispatchError.request
  let scope ← orFail request.scope PreselectionDispatchError.request
  let control ← orFail request.forwardedControl PreselectionDispatchError.request
  let role ← orFail (PreselectionObservationRole.tryFrom scope.role)
    PreselectionDispatchError.request
  refuse (role ≠ .exit) PreselectionDispatchError.request
  let family ← observedFamily scope
  let exitPeer ← orFail (fromBytes actor.peerId) PreselectionDispatchError.request
  let controlPeer ← orFail (fromBytes control.peerId) PreselectionDispatchError.request
  refuse (controlPeer ≠ localPeerId ∨ exitPeer = localPeerId ∨ exitPeer = controlPeer)
    PreselectionDispatchError.request
  pure (exitPeer, family)

end Targets

/-- The request of its bytes, and its hash. -/
def openRequest (crypto : Crypto) (encoded : Bytes) :
    Except PreselectionDispatchError (PreselectionObservationRequest × FixedBytes 32) := do
  let requestHash ← (preselectionObservationRequestHash crypto encoded).mapError fun _ => .request
  let request : PreselectionObservationRequest ←
    (decodeCanonical encoded maxPreselectionRequestSize).mapError fun _ => .request
  (request.validate crypto).mapError fun _ => .request
  pure (request, requestHash)

/-- The deadline of a request that is sent now: the end of the transport's timeout, of the request
and of the caller's own, whichever comes first. -/
def effectiveDeadline (request : PreselectionObservationRequest) (clocks : Clocks)
    (absoluteDeadline : Instant) : Except PreselectionDispatchError Instant := do
  let sentAtUnixMs ← orFail clocks.unixMs PreselectionDispatchError.time
  refuse (request.createdAtMs > sentAtUnixMs ∨ sentAtUnixMs ≥ request.expiresAtMs)
    PreselectionDispatchError.time
  let remaining ← orFail (checkedSub request.expiresAtMs sentAtUnixMs)
    PreselectionDispatchError.time
  let timeout ← orFail (addDuration clocks.mono preselectionObservationRequestTimeout)
    PreselectionDispatchError.time
  let expiry ← orFail (addDuration clocks.mono (remaining * 10 ^ 6)) PreselectionDispatchError.time
  let deadline := min (min timeout expiry) absoluteDeadline
  refuse (clocks.mono ≥ deadline) PreselectionDispatchError.time
  pure deadline

namespace DiscoveryService

variable (crypto : Crypto) (fromBytes : Bytes → Option PeerId) {Context : Type}

/-! ## Dispatch -/

/-- The witness of the only connection to the peer, if it has the family. -/
def dispatchWitness (s : DiscoveryService) (peerId : PeerId) (family : IpFamily) :
    DispatchWitness :=
  match s.connectionProvenance.registry.uniqueWitness peerId family with
  | some witness => .preSend witness
  | none => .bindResponse family

/-- The dispatch of a client request; the transport chooses the identifier of the request. -/
def prepareClient (s : DiscoveryService) (request : Bytes) (absoluteDeadline : Instant)
    (clocks : Clocks) (requestId : ℕ) :
    Except PreselectionDispatchError ClientPreselectionDispatch := do
  refuse (s.clientActive.isSome = true) PreselectionDispatchError.busy
  refuse (s.protocolRoles.client = false) PreselectionDispatchError.role
  let (typedRequest, requestHash) ← openRequest crypto request
  let (expectedPeerId, actorPeerId, family) ← requestTargetAndFamily fromBytes typedRequest
  refuse (expectedPeerId = s.localPeerId ∨ actorPeerId = s.localPeerId)
    PreselectionDispatchError.request
  let deadline ← effectiveDeadline typedRequest clocks absoluteDeadline
  pure ⟨requestId, requestHash, expectedPeerId, s.ownInstance, clocks.mono, deadline,
    s.dispatchWitness expectedPeerId family⟩

def dispatchPreselectionObservation (s : DiscoveryService) (request : Bytes)
    (absoluteDeadline : Instant) (clocks : Clocks) (requestId : ℕ) :
    Except PreselectionDispatchError ClientPreselectionDispatch × DiscoveryService :=
  match s.prepareClient crypto fromBytes request absoluteDeadline clocks requestId with
  | .ok dispatch => (.ok dispatch, { s with clientActive := some requestId })
  | .error e => (.error e, s)

def dispatchPreselectionObservationWithContext (s : DiscoveryService) (request : Bytes)
    (absoluteDeadline : Instant) (clocks : Clocks) (requestId : ℕ) (context : Context) :
    Except (Context × PreselectionDispatchError) (ClientPreselectionTransaction Context) ×
      DiscoveryService :=
  match s.dispatchPreselectionObservation crypto fromBytes request absoluteDeadline clocks
    requestId with
  | (.ok dispatch, s') => (.ok ⟨dispatch, context⟩, s')
  | (.error e, s') => (.error (context, e), s')

def prepareUpstream (s : DiscoveryService) (request : Bytes) (absoluteDeadline : Instant)
    (clocks : Clocks) (requestId : ℕ) :
    Except PreselectionDispatchError UpstreamPreselectionDispatch := do
  refuse (s.upstreamActive.isSome = true) PreselectionDispatchError.busy
  refuse (s.protocolRoles.relay = false) PreselectionDispatchError.role
  let (typedRequest, requestHash) ← openRequest crypto request
  let (expectedPeerId, family) ← upstreamTargetAndFamily fromBytes typedRequest s.localPeerId
  let deadline ← effectiveDeadline typedRequest clocks absoluteDeadline
  pure ⟨requestId, requestHash, expectedPeerId, s.ownInstance, clocks.mono, deadline,
    s.dispatchWitness expectedPeerId family⟩

def dispatchPreselectionObservationUpstream (s : DiscoveryService) (request : Bytes)
    (absoluteDeadline : Instant) (clocks : Clocks) (requestId : ℕ) :
    Except PreselectionDispatchError UpstreamPreselectionDispatch × DiscoveryService :=
  match s.prepareUpstream crypto fromBytes request absoluteDeadline clocks requestId with
  | .ok dispatch => (.ok dispatch, { s with upstreamActive := some requestId })
  | .error e => (.error e, s)

/-- The context of a request that is not dispatched is dropped. -/
def dispatchPreselectionObservationUpstreamWithContext (s : DiscoveryService) (request : Bytes)
    (absoluteDeadline : Instant) (clocks : Clocks) (requestId : ℕ) (context : Context) :
    Except PreselectionDispatchError (UpstreamPreselectionTransaction Context) × DiscoveryService :=
  match s.dispatchPreselectionObservationUpstream crypto fromBytes request absoluteDeadline clocks
    requestId with
  | (.ok dispatch, s') => (.ok ⟨dispatch, context⟩, s')
  | (.error e, s') => (.error e, s')

/-! ## Responses -/

/-- Seal a response of the request that occupies a slot. -/
def sealResponse (s : DiscoveryService) (active : Option ℕ) (peer : PeerId)
    (connectionId : ConnectionId) (requestId : ℕ) (response : Bytes) (clocks : Clocks) :
    Except PreselectionDispatchError PreselectionResponseArrival := do
  refuse (active ≠ some requestId) PreselectionDispatchError.correlation
  let arrivedAtUnixMs ← orFail clocks.unixMs PreselectionDispatchError.time
  pure ⟨peer, connectionId, requestId, response, s.ownInstance, clocks.mono, arrivedAtUnixMs⟩

def sealClientPreselectionResponse (s : DiscoveryService) (peer : PeerId)
    (connectionId : ConnectionId) (requestId : ℕ) (response : Bytes) (clocks : Clocks) :
    Except PreselectionDispatchError PreselectionResponseArrival :=
  s.sealResponse s.clientActive peer connectionId requestId response clocks

def sealUpstreamPreselectionResponse (s : DiscoveryService) (peer : PeerId)
    (connectionId : ConnectionId) (requestId : ℕ) (response : Bytes) (clocks : Clocks) :
    Except PreselectionDispatchError PreselectionResponseArrival :=
  s.sealResponse s.upstreamActive peer connectionId requestId response clocks

/-- A response within its time is bound to the connection that it arrived on. -/
def bindConnection (s : DiscoveryService) (dispatch : PreselectionDispatch)
    (eventConnection : ConnectionId) (arrivedAtMono : Instant) (arrivedAtUnixMs : ℕ) :
    Except PreselectionDispatchError BoundPreselectionTransport := do
  refuse (arrivedAtMono < dispatch.sentAt ∨ arrivedAtMono ≥ dispatch.deadline)
    PreselectionDispatchError.time
  let witness ← match dispatch.witness with
    | .preSend witness => pure witness
    | .bindResponse family =>
      orFail (s.connectionProvenance.registry.exactWitness dispatch.expectedPeerId eventConnection
        family) PreselectionDispatchError.provenance
  let observation ← orFail (s.connectionProvenance.registry.bind witness dispatch.expectedPeerId
    eventConnection) PreselectionDispatchError.provenance
  pure ⟨observation, dispatch.requestHash, dispatch.requestId, dispatch.sentAt, arrivedAtMono,
    arrivedAtUnixMs, dispatch.deadline⟩

def bindPreselectionObservationResponseAfterSlotRelease (s : DiscoveryService)
    (dispatch : ClientPreselectionDispatch) (eventPeer : PeerId) (eventConnection : ConnectionId)
    (eventRequest : ℕ) (arrivedAtMono : Instant) (arrivedAtUnixMs : ℕ) :
    Except PreselectionDispatchError BoundPreselectionTransport := do
  refuse (dispatch.expectedPeerId ≠ eventPeer ∨ dispatch.requestId ≠ eventRequest)
    PreselectionDispatchError.correlation
  s.bindConnection dispatch eventConnection arrivedAtMono arrivedAtUnixMs

def clientPreselectionDispatchIsActive (s : DiscoveryService)
    (dispatch : ClientPreselectionDispatch) : Bool :=
  s.ownInstance = dispatch.ownerInstance && s.clientActive = some dispatch.requestId

def bindPreselectionObservationResponse (s : DiscoveryService)
    (dispatch : ClientPreselectionDispatch) (arrival : PreselectionResponseArrival) :
    Except PreselectionDispatchError (BoundPreselectionTransport × Bytes) × DiscoveryService :=
  if s.clientPreselectionDispatchIsActive dispatch = false then (.error .correlation, s)
  else
    let s' := { s with clientActive := none }
    (do
      refuse (s'.ownInstance ≠ arrival.ownerInstance ∨
        dispatch.ownerInstance ≠ arrival.ownerInstance) PreselectionDispatchError.correlation
      let transport ← s'.bindPreselectionObservationResponseAfterSlotRelease dispatch arrival.peer
        arrival.connectionId arrival.requestId arrival.arrivedAtMono arrival.arrivedAtUnixMs
      pure (transport, arrival.response), s')

def bindPreselectionObservationResponseWithContext (s : DiscoveryService)
    (transaction : ClientPreselectionTransaction Context) (arrival : PreselectionResponseArrival) :
    Except (ClientPreselectionBindFailure Context) (Context × BoundPreselectionTransport × Bytes) ×
      DiscoveryService :=
  if s.clientPreselectionDispatchIsActive transaction.dispatch = false then
    (.error (.retained transaction .correlation), s)
  else
    match s.bindPreselectionObservationResponse transaction.dispatch arrival with
    | (.ok (transport, response), s') => (.ok (transaction.context, transport, response), s')
    | (.error e, s') => (.error (.released transaction.context e), s')

def bindPreselectionObservationUpstreamResponseAt (s : DiscoveryService)
    (dispatch : UpstreamPreselectionDispatch) (eventPeer : PeerId) (eventConnection : ConnectionId)
    (eventRequest : ℕ) (arrivedAtMono : Instant) (arrivedAtUnixMs : ℕ) :
    Except PreselectionDispatchError BoundPreselectionTransport × DiscoveryService :=
  if s.ownInstance ≠ dispatch.ownerInstance ∨ s.upstreamActive ≠ some dispatch.requestId then
    (.error .correlation, s)
  else if dispatch.expectedPeerId ≠ eventPeer ∨ dispatch.requestId ≠ eventRequest then
    -- the token is gone, and the slot is still occupied
    (.error .correlation, s)
  else
    let s' := { s with upstreamActive := none }
    (s'.bindConnection dispatch eventConnection arrivedAtMono arrivedAtUnixMs, s')

def bindPreselectionObservationUpstreamResponse (s : DiscoveryService)
    (dispatch : UpstreamPreselectionDispatch) (arrival : PreselectionResponseArrival) :
    Except PreselectionDispatchError (BoundPreselectionTransport × Bytes) × DiscoveryService :=
  if s.ownInstance ≠ dispatch.ownerInstance ∨ s.ownInstance ≠ arrival.ownerInstance ∨
      dispatch.ownerInstance ≠ arrival.ownerInstance then (.error .correlation, s)
  else
    match s.bindPreselectionObservationUpstreamResponseAt dispatch arrival.peer
      arrival.connectionId arrival.requestId arrival.arrivedAtMono arrival.arrivedAtUnixMs with
    | (.ok transport, s') => (.ok (transport, arrival.response), s')
    | (.error e, s') => (.error e, s')

def bindPreselectionObservationUpstreamResponseWithContext (s : DiscoveryService)
    (transaction : UpstreamPreselectionTransaction Context)
    (arrival : PreselectionResponseArrival) :
    Except PreselectionDispatchError (Context × BoundPreselectionTransport × Bytes) ×
      DiscoveryService :=
  match s.bindPreselectionObservationUpstreamResponse transaction.dispatch arrival with
  | (.ok (transport, response), s') => (.ok (transaction.context, transport, response), s')
  | (.error e, s') => (.error e, s')

/-! ## Cancellation and failure -/

def cancelPreselectionObservationDispatch (s : DiscoveryService)
    (dispatch : ClientPreselectionDispatch) :
    Except PreselectionDispatchError Unit × DiscoveryService :=
  if s.ownInstance ≠ dispatch.ownerInstance ∨ s.clientActive ≠ some dispatch.requestId then
    (.error .correlation, s)
  else (.ok (), { s with clientActive := none })

def cancelPreselectionObservationTransaction (s : DiscoveryService)
    (transaction : ClientPreselectionTransaction Context) :
    Except (ClientPreselectionCancelFailure Context) Context × DiscoveryService :=
  if s.clientPreselectionDispatchIsActive transaction.dispatch = false then
    (.error ⟨transaction, .correlation⟩, s)
  else (.ok transaction.context, { s with clientActive := none })

def consumePreselectionObservationOutboundFailureWithContext (s : DiscoveryService)
    (transaction : ClientPreselectionTransaction Context) (eventPeer : PeerId)
    (eventRequest : ℕ) :
    Except (ClientPreselectionCancelFailure Context) Context × DiscoveryService :=
  if s.clientPreselectionDispatchIsActive transaction.dispatch = false ∨
      transaction.dispatch.expectedPeerId ≠ eventPeer ∨
      transaction.dispatch.requestId ≠ eventRequest then (.error ⟨transaction, .correlation⟩, s)
  else (.ok transaction.context, { s with clientActive := none })

def cancelPreselectionObservationUpstreamDispatch (s : DiscoveryService)
    (dispatch : UpstreamPreselectionDispatch) :
    Except PreselectionDispatchError Unit × DiscoveryService :=
  if s.ownInstance ≠ dispatch.ownerInstance ∨ s.upstreamActive ≠ some dispatch.requestId then
    (.error .correlation, s)
  else (.ok (), { s with upstreamActive := none })

def cancelPreselectionObservationUpstreamTransaction (s : DiscoveryService)
    (transaction : UpstreamPreselectionTransaction Context) :
    Except PreselectionDispatchError Context × DiscoveryService :=
  match s.cancelPreselectionObservationUpstreamDispatch transaction.dispatch with
  | (.ok (), s') => (.ok transaction.context, s')
  | (.error e, s') => (.error e, s')

end DiscoveryService

end Volparossa.Discovery
