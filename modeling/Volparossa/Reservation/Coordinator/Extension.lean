import Volparossa.Foundations.Machine
import Volparossa.Reservation.Coordinator.Operations

/-!
# The client reservation coordinator: extensions, queries, runs

A finalized route is extended by one path in phases (`verifyRouteExtensionResponse`,
`signExtensionRelayRequest`, `verifyExtensionRelayResponse`), and its active paths are queried
(`verifyMptcpPathsState`). The original bundle stays the authority for both.

`machine` is the coordinator as a machine: a run is any sequence of operations that change it, with
arbitrary arguments. The operations that only sign do not change it.
-/

namespace Volparossa.Reservation

open Protocol

open Transaction (Crypto)

open Wireguard (ClientEndpointLease)

namespace ReservationCoordinator

variable (crypto : Crypto) (c : ReservationCoordinator)

/-! ## Extensions -/

/-- Verify a message that stands inside another one, against a cache of its own. -/
def verifyNested (T : Type) [ControlPayload T] (encoded : Bytes) (nowMs : ℕ) :
    Except CoordinatorError (VerifiedControlMessage T) := do
  let replay ← fromProtocol (ReplayCache.new 1)
  fromProtocol (verifyControlMessage crypto encoded nowMs .default replay).1

/-- The scope of a request with its original grant and capability, which are the session's own. -/
def extensionAuthority (original : VerifiedFinalizedExitBundle) (request : RouteExtensionRequest) :
    Except CoordinatorError (RouteExtensionScope × ExitReservation × ClientSessionCapability) := do
  fromProtocol (request.validate crypto)
  let scope ← orFail request.scope (.scope "extension scope")
  let parent ← fromProtocol (scope.parent crypto)
  let envelope : SignedEnvelope ← fromProtocol
    (decodeCanonical original.signedCapability maxControlMessageSize)
  let capability : ClientSessionCapability ← fromProtocol
    (decodeCanonical envelope.payload maxControlPayloadSize)
  refuse (scope.signedExitReservation ≠ original.signedExitReservation ∨
    scope.finalizedBundleHash ≠ original.finalizedBundleHash.toBytes ∨
    parent.clientSessionId ≠ c.clientSessionId.toBytes ∨
    parent.clientSessionPublicKey ≠ c.clientSessionPublicKey.toBytes ∨
    scope.pathId > capability.probePermitLimit) (.scope "extension original authority")
  pure (scope, parent, capability)

/-- The probe permit inside a response, if there is one, is for the new path under the grant. -/
def checkExtensionPermit (scope : RouteExtensionScope) (parent : ExitReservation)
    (message : RouteExtension) (nowMs : ℕ) : Except CoordinatorError Unit :=
  if message.signedProbePermit = [] then pure ()
  else do
    let permit ← verifyNested crypto RelayProbePermit message.signedProbePermit nowMs
    let p := permit.message
    refuse (permit.senderId.toBytes ≠ parent.exitNodeId ∨ p.probeId ≠ scope.probeId ∨
      p.pathId ≠ scope.pathId ∨ p.relayNodeId ≠ scope.relayNodeId ∨
      p.relayPeerId ≠ scope.relayPeerId ∨ p.reservationId ≠ parent.reservationId ∨
      p.routeContextId ≠ parent.routeContextId ∨ p.clientSessionId ≠ parent.clientSessionId ∨
      p.capabilityId ≠ parent.capabilityId ∨ p.holdId ≠ parent.holdId ∨
      p.exitBootId ≠ parent.exitBootId ∨ p.exitNodeId ≠ parent.exitNodeId ∨
      p.exitPeerId ≠ parent.exitPeerId ∨ p.controlRelayNodeId ≠ parent.controlRelayNodeId ∨
      p.controlRelayPeerId ≠ parent.controlRelayPeerId ∨ p.policyHash ≠ parent.policyHash ∨
      p.transport ≠ Transport.tcpMptcp.number ∨ p.addressFamily ≠ scope.addressFamily ∨
      p.expiresAtMs > parent.expiresAtMs) (.scope "extension permit")

/-- The relay authorization inside a response, if there is one, is for the new path under the grant,
and for the key that the request names. -/
def checkExtensionAuthorization (scope : RouteExtensionScope) (parent : ExitReservation)
    (request : RouteExtensionRequest) (message : RouteExtension) (nowMs : ℕ) :
    Except CoordinatorError Unit :=
  if message.signedRelayAuthorization = [] then pure ()
  else do
    let grant ← verifyNested crypto RelayAuthorization message.signedRelayAuthorization nowMs
    let g := grant.message
    refuse (grant.senderId.toBytes ≠ parent.exitNodeId ∨ g.pathId ≠ scope.pathId ∨
      g.relayNodeId ≠ scope.relayNodeId ∨ g.relayPeerId ≠ scope.relayPeerId ∨
      g.reservationId ≠ parent.reservationId ∨ g.routeContextId ≠ parent.routeContextId ∨
      g.clientSessionId ≠ parent.clientSessionId ∨
      g.clientSessionPublicKey ≠ parent.clientSessionPublicKey ∨
      g.exitNodeId ≠ parent.exitNodeId ∨ g.exitPeerId ≠ parent.exitPeerId ∨
      g.capabilityId ≠ parent.capabilityId ∨ g.holdId ≠ parent.holdId ∨
      g.finalizeId ≠ parent.finalizeId ∨ g.exitBootId ≠ parent.exitBootId ∨
      g.policyHash ≠ parent.policyHash ∨ g.controlRelayNodeId ≠ parent.controlRelayNodeId ∨
      g.controlRelayPeerId ≠ parent.controlRelayPeerId ∨
      g.allowedTransports ≠ parent.allowedTransports ∨ g.maximumUpMbps ≠ parent.reservedUpMbps ∨
      g.maximumDownMbps ≠ parent.reservedDownMbps ∨ g.createdAtMs ≠ parent.createdAtMs ∨
      g.expiresAtMs ≠ parent.expiresAtMs ∨
      (request.path.any fun p => decide (p.clientWireguardPublicKey ≠ g.clientWireguardPublicKey)) =
        true) (.scope "extension relay authorization")

/-- A committed response has the receipt for the confirmation that the request carries. -/
def checkExtensionReceipt (scope : RouteExtensionScope) (parent : ExitReservation)
    (request : RouteExtensionRequest) (message : RouteExtension) (nowMs : ℕ) :
    Except CoordinatorError Unit :=
  if request.phase ≠ RouteExtensionPhase.commit.number then pure ()
  else do
    let receipt ← verifyNested crypto ExitConfirmationReceipt message.signedConfirmationReceipt
      nowMs
    let r := receipt.message
    refuse (receipt.senderId.toBytes ≠ parent.exitNodeId ∨ r.pathId ≠ scope.pathId ∨
      r.reservationId ≠ parent.reservationId ∨ r.routeContextId ≠ parent.routeContextId ∨
      r.finalizedBundleHash ≠ scope.finalizedBundleHash) (.scope "extension commit receipt")
    let confirmationHash ← fromProtocol
      (exitConfirmationEnvelopeHash crypto request.signedConfirmation)
    refuse (r.confirmationEnvelopeHash ≠ confirmationHash.toBytes)
      (.scope "extension commit receipt")

def extensionAttempt (scope : RouteExtensionScope) (parent : ExitReservation)
    (capability : ClientSessionCapability) (request : RouteExtensionRequest) (encoded : Bytes)
    (nowMs : ℕ) : Attempt CoordinatorError VerifiedRouteExtension := do
  let verified ← verifying crypto RouteExtension encoded nowMs
  let message := verified.message
  Attempt.refuse (message.scope ≠ request.scope ∨ message.phase ≠ request.phase ∨
    verified.senderId.toBytes ≠ parent.exitNodeId ∨
    message.hardExpiresAtMs ≠ parent.expiresAtMs ∨
    message.selectedPathIds.length > capability.maximumPaths) (.scope "extension response")
  Attempt.lift (checkExtensionPermit crypto scope parent message nowMs)
  Attempt.lift (checkExtensionAuthorization crypto scope parent request message nowMs)
  Attempt.lift (checkExtensionReceipt crypto scope parent request message nowMs)
  pure ⟨encoded, message⟩

/-- Verify the exact exit response against the immutable original bundle and requested phase. -/
def verifyRouteExtensionResponse (original : VerifiedFinalizedExitBundle)
    (request : RouteExtensionRequest) (encoded : Bytes) (nowMs : ℕ) :
    Outcome VerifiedRouteExtension :=
  match c.extensionAuthority crypto original request with
  | .error e => (.error e, c)
  | .ok (scope, parent, capability) =>
    let (outcome, cache) :=
      (extensionAttempt crypto scope parent capability request encoded nowMs).settle c.exitReplay
    (outcome, { c with exitReplay := cache })

/-- The request that an extension signs for its relay. -/
def extensionRelayRequest (original : VerifiedFinalizedExitBundle)
    (extension : VerifiedRouteExtension) (endpoint : ClientEndpointLease)
    (createdAtMs expiresAtMs : ℕ) (nonce : FixedBytes 32) : RelayReservationRequest where
  clientSessionId := c.clientSessionId.toBytes
  exitAuthorization := extension.message.signedRelayAuthorization
  createdAtMs := createdAtMs
  expiresAtMs := expiresAtMs
  nonce := nonce.toBytes
  clientWireguardEndpoint := some (wireEndpoint endpoint.publicEndpoint)
  clientSessionCapability := original.signedCapability
  exitReservation := original.signedExitReservation

/-- Everything that can fail before the lease of an extension is retained: the signed request and
the lease under its key. -/
def prepareExtension (original : VerifiedFinalizedExitBundle) (extension : VerifiedRouteExtension)
    (endpoint : ClientEndpointLease) (createdAtMs expiresAtMs : ℕ) (nonce : FixedBytes 32) :
    Except CoordinatorError (Bytes × ClientPathState) := do
  let scope ← orFail extension.message.scope (.scope "extension scope")
  let parent ← fromProtocol (scope.parent crypto)
  refuse (extension.message.phase ≠ RouteExtensionPhase.authorize.number ∨
    scope.signedExitReservation ≠ original.signedExitReservation ∨
    scope.finalizedBundleHash ≠ original.finalizedBundleHash.toBytes ∨
    endpoint.routeContextId.toBytes ≠ parent.routeContextId ∨ endpoint.pathId ≠ scope.pathId ∨
    c.clientPaths.rows.length ≥ maxLocalPathLeases) (.scope "extension endpoint scope")
  let reservationId ← fixed 16 parent.reservationId "extension reservation"
  let key : ClientPathKey := ⟨reservationId, scope.pathId⟩
  refuse (c.clientPaths.lookup key ≠ none) (.scope "extension endpoint already retained")
  let envelope : SignedEnvelope ← fromProtocol
    (decodeCanonical extension.message.signedRelayAuthorization maxControlMessageSize)
  let authorization : RelayAuthorization ← fromProtocol
    (decodeCanonical envelope.payload maxControlPayloadSize)
  refuse (authorization.clientWireguardPublicKey ≠ endpoint.publicEndpoint.publicKey.toBytes)
    (.scope "extension endpoint key")
  let request := c.extensionRelayRequest original extension endpoint createdAtMs expiresAtMs nonce
  let encoded ← c.sign crypto request createdAtMs expiresAtMs nonce
  pure (encoded, ⟨key, endpoint, parent.expiresAtMs⟩)

/-- Retain only the new helper lease and sign its normal relay capacity request. The lease is not
compared with the other leases. -/
def signExtensionRelayRequest (original : VerifiedFinalizedExitBundle)
    (extension : VerifiedRouteExtension) (endpoint : ClientEndpointLease)
    (createdAtMs expiresAtMs : ℕ) (nonce : FixedBytes 32) : Outcome Bytes :=
  match c.prepareExtension crypto original extension endpoint createdAtMs expiresAtMs nonce with
  | .error e => (.error e, c)
  | .ok (encoded, state) => (.ok encoded, { c with clientPaths := c.clientPaths.put state })

/-- The relay that a verified extension names, if the grant asked for belongs to it. -/
def extensionRelay (original : VerifiedFinalizedExitBundle) (extension : VerifiedRouteExtension)
    (authenticatedPeer : Bytes) : Except CoordinatorError (FixedBytes 32) := do
  let scope ← orFail extension.message.scope (.scope "extension scope")
  refuse (extension.message.phase ≠ RouteExtensionPhase.authorize.number ∨
    scope.signedExitReservation ≠ original.signedExitReservation ∨
    scope.finalizedBundleHash ≠ original.finalizedBundleHash.toBytes ∨
    scope.relayPeerId ≠ authenticatedPeer) (.scope "extension relay response scope")
  fixed 32 scope.relayNodeId "extension relay"

/-- Verify the new relay's normal capacity grant against its exact extension grant. -/
def verifyExtensionRelayResponse (original : VerifiedFinalizedExitBundle)
    (extension : VerifiedRouteExtension) (encoded authenticatedPeer : Bytes) (nowMs : ℕ) :
    Outcome VerifiedRelayGrant :=
  match extensionRelay original extension authenticatedPeer with
  | .error e => (.error e, c)
  | .ok relayNodeId => c.verifyRelayResponseInner crypto extension.message.signedRelayAuthorization
      original.finalizedBundleHash encoded relayNodeId authenticatedPeer nowMs

/-! ## Queries of the active paths -/

/-- The query of this session that a state is to answer, with its original grant. -/
def mptcpQuery (original : VerifiedFinalizedExitBundle) (signedRequest : Bytes) (nowMs : ℕ) :
    Except CoordinatorError (VerifiedControlMessage MptcpPathsRequest × ExitReservation) := do
  let query ← verifyNested crypto MptcpPathsRequest signedRequest nowMs
  let parent ← fromProtocol (query.message.parent crypto)
  refuse (query.message.signedExitReservation ≠ original.signedExitReservation ∨
    query.senderId ≠ c.clientSessionId) (.scope "MPTCP path-state original authority")
  pure (query, parent)

/-- A state answers exactly this query, under its grant. -/
def answersQuery (query : VerifiedControlMessage MptcpPathsRequest) (parent : ExitReservation)
    (signedRequest : Bytes) (state : VerifiedControlMessage MptcpPathsState) : Bool :=
  state.message.requestSha256 = (mptcpPathsRequestHash crypto signedRequest).toBytes ∧
  state.senderId.toBytes = parent.exitNodeId ∧
  state.message.exitNodeId = parent.exitNodeId ∧
  state.message.routeContextId = parent.routeContextId ∧
  state.message.reservationId = parent.reservationId ∧
  state.message.hardExpiresAtMs = parent.expiresAtMs ∧
  state.expiresAtMs ≤ query.expiresAtMs

/-- Verify an exit snapshot for the exact fresh query and retained original authority. A snapshot
that does not answer the query stays recorded in the replay cache. -/
def verifyMptcpPathsState (original : VerifiedFinalizedExitBundle) (signedRequest encoded : Bytes)
    (nowMs : ℕ) : Outcome MptcpPathsState :=
  match c.mptcpQuery crypto original signedRequest nowMs with
  | .error e => (.error e, c)
  | .ok (query, parent) =>
    match verifyControlMessage (T := MptcpPathsState) crypto encoded nowMs .default
      c.exitReplay with
    | (.error e, cache) => (.error (.protocol e), { c with exitReplay := cache })
    | (.ok state, cache) =>
      if answersQuery crypto query parent signedRequest state = false then
        (.error (.scope "MPTCP path-state response"), { c with exitReplay := cache })
      else (.ok state.message, { c with exitReplay := cache })

/-! ## Runs -/

/-- The operations that can change a coordinator. -/
inductive Call where
  | verifyHoldResponse (intent : ExitReservationIntent)
      (signedCapability signedHold authenticatedExitPeerId : Bytes) (nowMs : ℕ)
  | verifyProbePermit (request : SignedProbePermitRequest) (signedPermit : Bytes) (nowMs : ℕ)
  | verifyProbeResult (permit : VerifiedProbePermit) (signedResult : Bytes) (nowMs : ℕ)
  | signFinalizeRequest (intent : ExitReservationIntent) (hold : VerifiedExitCapacityHold)
      (probes : List VerifiedRelayProbe) (createdAtMs expiresAtMs : ℕ)
      (provider : ℕ → Option ClientEndpointLease) (draws : FinalizeDraws)
  | verifyFinalizeResponse (intent : ExitReservationIntent) (hold : VerifiedExitCapacityHold)
      (request : SignedExitFinalizeRequest) (signedExitReservation : Bytes)
      (relayAuthorizations : List Bytes) (authenticatedExitPeerId : Bytes) (nowMs : ℕ)
  | verifyRelayResponse (bundle : VerifiedFinalizedExitBundle) (signedRelayReservation : Bytes)
      (expectedPathIndex : ℕ) (expectedRelayNodeId : FixedBytes 32)
      (authenticatedRelayPeerId : Bytes) (nowMs : ℕ)
  | verifyConfirmationReceipt (grant : VerifiedRelayGrant)
      (signedConfirmation signedReceipt : Bytes) (nowMs : ℕ)
  | takeNativeRouteAuthorization (finalizeId : FixedBytes 16) (nowMs : ℕ)
  | release (reservationId : FixedBytes 16)
  | purgeExpired (nowMs : ℕ)
  | verifyRouteExtensionResponse (original : VerifiedFinalizedExitBundle)
      (request : RouteExtensionRequest) (encoded : Bytes) (nowMs : ℕ)
  | signExtensionRelayRequest (original : VerifiedFinalizedExitBundle)
      (extension : VerifiedRouteExtension) (endpoint : ClientEndpointLease)
      (createdAtMs expiresAtMs : ℕ) (nonce : FixedBytes 32)
  | verifyExtensionRelayResponse (original : VerifiedFinalizedExitBundle)
      (extension : VerifiedRouteExtension) (encoded authenticatedPeer : Bytes) (nowMs : ℕ)
  | verifyMptcpPathsState (original : VerifiedFinalizedExitBundle) (signedRequest encoded : Bytes)
      (nowMs : ℕ)

/-- What an operation returns when it succeeds. -/
inductive Answer where
  | hold (hold : VerifiedExitCapacityHold)
  | permit (permit : VerifiedProbePermit)
  | probe (probe : VerifiedRelayProbe)
  | finalize (request : SignedExitFinalizeRequest)
  | bundle (bundle : VerifiedFinalizedExitBundle)
  | grant (grant : VerifiedRelayGrant)
  | confirmed
  | authorization (authorization : ClientNativeRouteAuthorization)
  | dropped (leases : ℕ)
  | extension (extension : VerifiedRouteExtension)
  | request (encoded : Bytes)
  | paths (state : MptcpPathsState)
  deriving DecidableEq

/-- An outcome as the answer of a call. -/
def Outcome.answer {α : Type} (outcome : Outcome α) (f : α → Answer) : Outcome Answer :=
  (outcome.1.map f, outcome.2)

def call : Call → Outcome Answer
  | .verifyHoldResponse intent signedCapability signedHold authenticatedExitPeerId nowMs =>
    (c.verifyHoldResponse crypto intent signedCapability signedHold authenticatedExitPeerId
      nowMs).answer .hold
  | .verifyProbePermit request signedPermit nowMs =>
    (c.verifyProbePermit crypto request signedPermit nowMs).answer .permit
  | .verifyProbeResult permit signedResult nowMs =>
    (c.verifyProbeResult crypto permit signedResult nowMs).answer .probe
  | .signFinalizeRequest intent hold probes createdAtMs expiresAtMs provider draws =>
    (c.signFinalizeRequest crypto intent hold probes createdAtMs expiresAtMs provider draws).answer
      .finalize
  | .verifyFinalizeResponse intent hold request signedExitReservation relayAuthorizations
      authenticatedExitPeerId nowMs =>
    (c.verifyFinalizeResponse crypto intent hold request signedExitReservation relayAuthorizations
      authenticatedExitPeerId nowMs).answer .bundle
  | .verifyRelayResponse bundle signedRelayReservation expectedPathIndex expectedRelayNodeId
      authenticatedRelayPeerId nowMs =>
    (c.verifyRelayResponse crypto bundle signedRelayReservation expectedPathIndex
      expectedRelayNodeId authenticatedRelayPeerId nowMs).answer .grant
  | .verifyConfirmationReceipt grant signedConfirmation signedReceipt nowMs =>
    (c.verifyConfirmationReceipt crypto grant signedConfirmation signedReceipt nowMs).answer
      fun _ => .confirmed
  | .takeNativeRouteAuthorization finalizeId nowMs =>
    (c.takeNativeRouteAuthorization crypto finalizeId nowMs).answer .authorization
  | .release reservationId =>
    (.ok (.dropped (c.release reservationId).1), (c.release reservationId).2)
  | .purgeExpired nowMs => (.ok (.dropped (c.purgeExpired nowMs).1), (c.purgeExpired nowMs).2)
  | .verifyRouteExtensionResponse original request encoded nowMs =>
    (c.verifyRouteExtensionResponse crypto original request encoded nowMs).answer .extension
  | .signExtensionRelayRequest original extension endpoint createdAtMs expiresAtMs nonce =>
    (c.signExtensionRelayRequest crypto original extension endpoint createdAtMs expiresAtMs
      nonce).answer .request
  | .verifyExtensionRelayResponse original extension encoded authenticatedPeer nowMs =>
    (c.verifyExtensionRelayResponse crypto original extension encoded authenticatedPeer
      nowMs).answer .grant
  | .verifyMptcpPathsState original signedRequest encoded nowMs =>
    (c.verifyMptcpPathsState crypto original signedRequest encoded nowMs).answer .paths

/-- The coordinator as a machine. -/
def machine : Machine ReservationCoordinator Call (Except CoordinatorError Answer) where
  step c call := c.call crypto call

end ReservationCoordinator

end Volparossa.Reservation
