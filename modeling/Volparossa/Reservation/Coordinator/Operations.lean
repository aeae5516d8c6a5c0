import Volparossa.Reservation.Coordinator.Scope

/-!
# The client reservation coordinator: its operations

The operations of the coordinator, in the order of the rounds: a capacity hold, permits and results
of probes, the finalization of an exact set of relay paths, the grants of the relays and the
receipts of the exit, and the hand-out of the route bearer.

An operation that verifies a response returns what it verified, or an error, and the coordinator
after it. Random values are arguments: `FinalizeDraws` has those of a finalization. The caller's
endpoint provider is asked once for each path of a call, so it is a function of the path.
-/

namespace Volparossa.Reservation

open Protocol

open Transaction (Crypto)

open Wireguard (ClientEndpointLease HelperHandle PublicWireGuardEndpoint WireGuardPublicKey)

namespace ReservationCoordinator

/-- What an operation returns, and the coordinator after it. -/
abbrev Outcome (α : Type) := Except CoordinatorError α × ReservationCoordinator

variable (crypto : Crypto) (c : ReservationCoordinator)

def clientSessionPublicKey : FixedBytes 32 := c.sessionKey.verifyingKey

/-- Verify a message within an attempt, under the default time policy. -/
def verifying (T : Type) [ControlPayload T] (encoded : Bytes) (nowMs : ℕ) :
    Attempt CoordinatorError (VerifiedControlMessage T) :=
  .verify crypto T encoded nowMs .default .protocol

/-- Sign with the session key, under the default time policy. -/
def sign {T : Type} [ControlPayload T] (message : T) (createdAtMs expiresAtMs : ℕ)
    (nonce : FixedBytes 32) : Except CoordinatorError Bytes :=
  fromProtocol
    (signControlMessage crypto message c.sessionKey createdAtMs expiresAtMs nonce .default)

/-! ## Holds and probes -/

def holdAttempt (intent : ExitReservationIntent)
    (signedCapability signedHold authenticatedExitPeerId : Bytes) (nowMs : ℕ) :
    Attempt CoordinatorError VerifiedExitCapacityHold := do
  let capability ← verifying crypto ClientSessionCapability signedCapability nowMs
  Attempt.refuse (capability.senderId ≠ intent.exitNodeId ∨
    authenticatedExitPeerId ≠ intent.exitPeerId ∨
    sameCapabilityScope capability.message intent c = false) (.scope "client session capability")
  let hold ← verifying crypto ExitCapacityHold signedHold nowMs
  Attempt.refuse (hold.senderId ≠ intent.exitNodeId ∨
    sameHoldScope capability.message intent c hold.message signedCapability = false)
    (.scope "exit capacity hold")
  pure ⟨signedCapability, signedHold, capability.message, hold.message⟩

/-- Verify the coupled exit-signed capability and short capacity hold. -/
def verifyHoldResponse (intent : ExitReservationIntent)
    (signedCapability signedHold authenticatedExitPeerId : Bytes) (nowMs : ℕ) :
    Outcome VerifiedExitCapacityHold :=
  let (outcome, cache) := (c.holdAttempt crypto intent signedCapability signedHold
    authenticatedExitPeerId nowMs).settle c.exitReplay
  (outcome, { c with exitReplay := cache })

def permitAttempt (request : SignedProbePermitRequest) (signedPermit : Bytes) (nowMs : ℕ) :
    Attempt CoordinatorError VerifiedProbePermit := do
  let verified ← verifying crypto RelayProbePermit signedPermit nowMs
  Attempt.refuse (sameProbePermit verified.message request.request request.hold = false)
    (.scope "relay probe permit")
  pure ⟨signedPermit, verified.message, request.request, request.hold⟩

/-- Verify one exit-signed probe permit against the exact request frame. -/
def verifyProbePermit (request : SignedProbePermitRequest) (signedPermit : Bytes) (nowMs : ℕ) :
    Outcome VerifiedProbePermit :=
  let (outcome, cache) := (permitAttempt crypto request signedPermit nowMs).settle c.exitReplay
  (outcome, { c with exitReplay := cache })

def resultAttempt (permit : VerifiedProbePermit) (signedResult : Bytes) (nowMs : ℕ) :
    Attempt CoordinatorError VerifiedRelayProbe := do
  let verified ← verifying crypto RelayProbeResult signedResult nowMs
  let message := verified.message
  Attempt.refuse (sameProbeResult message permit = false) (.scope "relay probe result")
  let transport ← Attempt.orFail (Transport.tryFrom message.transport)
    (.scope "relay probe transport")
  let addressFamily ← Attempt.orFail (ProbeAddressFamily.tryFrom message.addressFamily)
    (.scope "relay probe address family")
  let clientRelay ← Attempt.orFail message.clientRelay (.scope "client-relay probe evidence")
  let relayExit ← Attempt.orFail message.relayExit (.scope "relay-exit probe evidence")
  pure ⟨permit, signedResult, message, transport, addressFamily, clientRelay, relayExit⟩

/-- Verify a relay-signed structured result for one exact permit. -/
def verifyProbeResult (permit : VerifiedProbePermit) (signedResult : Bytes) (nowMs : ℕ) :
    Outcome VerifiedRelayProbe :=
  let (outcome, cache) := (resultAttempt crypto permit signedResult nowMs).settle c.probeReplay
  (outcome, { c with probeReplay := cache })

/-! ## Finalization -/

/-- The random values of a finalization: the identifiers that the generator yields one after the
other, the bits of the bearer, and the nonce of the request. -/
structure FinalizeDraws where
  finalizeIds : List (FixedBytes 16)
  entropy : FixedBytes 32
  nonce : FixedBytes 32

/-- Check one probe against the paths before it: the scope is the one of the hold, the path numbers
increase, and no relay occurs twice. -/
def selectPath (intent : ExitReservationIntent) (hold : VerifiedExitCapacityHold)
    (paths : List RelayPathIntent) (probe : VerifiedRelayProbe) :
    Except CoordinatorError (List RelayPathIntent) := do
  let permit := probe.permit.permit
  let relayNodeId ← fixed 32 permit.relayNodeId "probe relay node"
  refuse (permit.pathId ≤ (paths.getLast?.map (·.pathId)).getD 0 ∨
    permit.pathId > intent.probePermitLimit ∨ probe.permit.hold ≠ hold ∨
    sameProbePermit permit probe.permit.request hold = false ∨
    sameProbeResult probe.result probe.permit = false) (.scope "finalize probe scope")
  refuse (relayNodeId ∈ paths.map (·.relayNodeId) ∨ permit.relayPeerId ∈ paths.map (·.relayPeerId))
    (.scope "finalize relay uniqueness")
  pure (paths ++ [⟨permit.pathId, relayNodeId, permit.relayPeerId⟩])

/-- The leases generated so far, and what the next one must differ from. -/
structure GeneratedLeases where
  generated : List (ClientEndpointLease × VerifiedRelayProbe)
  publicKeys : List WireGuardPublicKey
  listenPorts : List UInt16
  helperHandles : List HelperHandle
  contextHandle : Option HelperHandle

/-- Before the first lease of a call: everything that the retained leases use. -/
def retainedLeases : GeneratedLeases where
  generated := []
  publicKeys := c.clientPaths.rows.map (·.endpoint.publicEndpoint.publicKey)
  listenPorts := c.clientPaths.rows.map (·.endpoint.publicEndpoint.listenPort)
  helperHandles := c.clientPaths.rows.flatMap fun state =>
    [state.endpoint.contextHandle, state.endpoint.leaseHandle]
  contextHandle := none

/-- The handle of the route context: the same for every lease of a call, and new at the first. -/
def contextHandles (leases : GeneratedLeases) (endpoint : ClientEndpointLease) :
    Except CoordinatorError (List HelperHandle) :=
  match leases.contextHandle with
  | some handle => do
    refuse (handle ≠ endpoint.contextHandle) (.scope "client helper context binding")
    pure leases.helperHandles
  | none => do
    refuse (endpoint.contextHandle ∈ leases.helperHandles)
      (.scope "client helper handle uniqueness")
    pure (endpoint.contextHandle :: leases.helperHandles)

/-- Ask the provider for the lease of one path, and check that it is bound to the path and shares no
handle, key or port with a retained or generated one. -/
def generateLease (intent : ExitReservationIntent) (provider : ℕ → Option ClientEndpointLease)
    (leases : GeneratedLeases) (probe : VerifiedRelayProbe) :
    Except CoordinatorError GeneratedLeases := do
  let pathId := probe.permit.permit.pathId
  let endpoint ← orFail (provider pathId) .endpointUnavailable
  refuse (endpoint.routeContextId ≠ intent.routeContextId ∨ endpoint.pathId ≠ pathId)
    (.scope "client helper lease binding")
  let helperHandles ← contextHandles leases endpoint
  refuse (endpoint.leaseHandle ∈ helperHandles) (.scope "client helper handle uniqueness")
  refuse (endpoint.publicEndpoint.publicKey ∈ leases.publicKeys ∨
    endpoint.publicEndpoint.listenPort ∈ leases.listenPorts) (.scope "client endpoint uniqueness")
  pure ⟨leases.generated ++ [(endpoint, probe)],
    endpoint.publicEndpoint.publicKey :: leases.publicKeys,
    endpoint.publicEndpoint.listenPort :: leases.listenPorts,
    endpoint.leaseHandle :: helperHandles, some endpoint.contextHandle⟩

/-- The scope within which a finalization is signed. -/
def finalizePhase (intent : ExitReservationIntent) (hold : VerifiedExitCapacityHold)
    (probes : List VerifiedRelayProbe) (createdAtMs expiresAtMs : ℕ) : Bool :=
  probes.length < 2 ^ 32 ∧ 1 ≤ probes.length ∧ probes.length ≤ intent.maximumPaths ∧
    intent.maximumPaths ≤ intent.probePermitLimit ∧ intent.probePermitLimit ≤ maxProtocolPaths ∧
    sameCapabilityScope hold.capability intent c ∧
    sameHoldScope hold.capability intent c hold.hold hold.signedCapability ∧
    expiresAtMs ≤ hold.hold.expiresAtMs ∧ createdAtMs < expiresAtMs ∧
    intent.masqueContextId ≠ 0 ∧ intent.masqueContextId ≤ maxMasqueContextId ∧
    intent.clientNativeInstanceId ≠ .zero 32

/-- The request that a finalization signs. -/
def finalizeRequest (intent : ExitReservationIntent) (hold : VerifiedExitCapacityHold)
    (generated : List (ClientEndpointLease × VerifiedRelayProbe)) (createdAtMs expiresAtMs : ℕ)
    (finalizeId : FixedBytes 16) (authCommitment nonce : FixedBytes 32) :
    ExitReservationFinalizeRequest where
  reservationId := intent.reservationId.toBytes
  routeContextId := intent.routeContextId.toBytes
  exitNodeId := intent.exitNodeId.toBytes
  clientSessionId := c.clientSessionId.toBytes
  clientSessionCapability := hold.signedCapability
  exitCapacityHold := hold.signedHold
  relayPaths := generated.map fun (endpoint, probe) => {
    pathId := probe.permit.permit.pathId
    relayNodeId := probe.permit.permit.relayNodeId
    relayPeerId := probe.permit.permit.relayPeerId
    clientWireguardPublicKey := endpoint.publicEndpoint.publicKey.toBytes
    relayProbePermit := probe.permit.encoded
    relayProbeResult := probe.encodedResult }
  createdAtMs := createdAtMs
  expiresAtMs := expiresAtMs
  nonce := nonce.toBytes
  controlRelayNodeId := intent.controlRelayNodeId.toBytes
  controlRelayPeerId := intent.controlRelayPeerId
  finalizeId := finalizeId.toBytes
  exitPeerId := intent.exitPeerId
  authCommitment := authCommitment.toBytes
  masqueContextId := intent.masqueContextId
  clientNativeInstanceId := intent.clientNativeInstanceId.toBytes

/-- What a finalization retains and returns, once everything in it has succeeded. -/
structure PreparedFinalize where
  signed : SignedExitFinalizeRequest
  leases : List ClientPathState
  pending : PendingNativeRouteAuthorization

/-- Everything that can fail in a finalization. -/
def prepareFinalize (intent : ExitReservationIntent) (hold : VerifiedExitCapacityHold)
    (probes : List VerifiedRelayProbe) (createdAtMs expiresAtMs : ℕ)
    (provider : ℕ → Option ClientEndpointLease) (draws : FinalizeDraws) :
    Except CoordinatorError PreparedFinalize := do
  refuse (c.finalizePhase intent hold probes createdAtMs expiresAtMs = false)
    (.scope "finalize phase scope")
  refuse (c.pendingNativeAuthorizations.rows.length ≥ maxPendingNativeAuthorizations)
    (.scope "pending native authorization capacity")
  refuse (c.clientPaths.rows.length + probes.length > maxLocalPathLeases)
    (.scope "client path capacity")
  let paths ← probes.foldlM (selectPath intent hold) []
  let leases ← probes.foldlM (generateLease intent provider) c.retainedLeases
  let finalizeId ← orFail (draws.finalizeIds.find? fun candidate => decide (candidate ≠ .zero 16 ∧
    c.pendingNativeAuthorizations.lookup candidate = none)) .drawing
  let authBearer ← generateNativeRouteBearer draws.entropy
  let authCommitment ← fromProtocol (nativeRouteAuthCommitment crypto authBearer)
  let request := c.finalizeRequest intent hold leases.generated createdAtMs expiresAtMs finalizeId
    authCommitment draws.nonce
  let encoded ← c.sign crypto request createdAtMs expiresAtMs draws.nonce
  pure {
    signed := ⟨encoded, finalizeId, paths, authCommitment, intent.masqueContextId,
      intent.clientNativeInstanceId⟩
    leases := leases.generated.map fun (endpoint, probe) =>
      ⟨⟨intent.reservationId, probe.permit.permit.pathId⟩, endpoint, intent.reservationExpiresAtMs⟩
    pending := {
      finalizeId := finalizeId
      reservationId := intent.reservationId
      routeContextId := intent.routeContextId
      exitNodeId := intent.exitNodeId
      authBearer := authBearer
      authCommitment := authCommitment
      masqueContextId := intent.masqueContextId
      clientNativeInstanceId := intent.clientNativeInstanceId
      expiresAtMs := intent.reservationExpiresAtMs
      expectedPathIds := (paths.map (·.pathId)).toFinset
      confirmedPathIds := ∅
      finalizedBundleHash := none
      identity := none } }

/-- Allocate client endpoint leases and sign one exact-relay-set finalization request. The leases
are put under their keys whether or not there are leases under them. -/
def signFinalizeRequest (intent : ExitReservationIntent) (hold : VerifiedExitCapacityHold)
    (probes : List VerifiedRelayProbe) (createdAtMs expiresAtMs : ℕ)
    (provider : ℕ → Option ClientEndpointLease) (draws : FinalizeDraws) :
    Outcome SignedExitFinalizeRequest :=
  match c.prepareFinalize crypto intent hold probes createdAtMs expiresAtMs provider draws with
  | .error e => (.error e, c)
  | .ok prepared => (.ok prepared.signed, { c with
      clientPaths := prepared.leases.foldl (fun leases state => leases.put state) c.clientPaths
      pendingNativeAuthorizations := c.pendingNativeAuthorizations.put prepared.pending })

/-- The attempt that a response belongs to is pending, and has not been answered. -/
def pendingMatches (intent : ExitReservationIntent) (request : SignedExitFinalizeRequest) : Bool :=
  match c.pendingNativeAuthorizations.lookup request.finalizeId with
  | none => false
  | some pending =>
    pending.reservationId = intent.reservationId ∧ pending.routeContextId = intent.routeContextId ∧
    pending.authCommitment = request.authCommitment ∧
    pending.masqueContextId = request.masqueContextId ∧
    pending.clientNativeInstanceId = request.clientNativeInstanceId ∧
    pending.expectedPathIds.card = request.paths.length ∧
    (∀ path ∈ request.paths, path.pathId ∈ pending.expectedPathIds) ∧
    pending.identity = none ∧ pending.finalizedBundleHash = none

def finalizeAttempt (intent : ExitReservationIntent) (hold : VerifiedExitCapacityHold)
    (request : SignedExitFinalizeRequest) (signedExitReservation : Bytes)
    (relayAuthorizations : List Bytes) (nowMs : ℕ) :
    Attempt CoordinatorError (VerifiedFinalizedExitBundle × NativeRouteIdentity) := do
  let exit ← verifying crypto ExitReservation signedExitReservation nowMs
  Attempt.refuse (exit.senderId ≠ intent.exitNodeId ∨
    sameFinalExitScope intent c exit.message hold request = false)
    (.scope "finalized exit reservation")
  (relayAuthorizations.zip request.paths).forM fun (encoded, path) => do
    let authorization ← verifying crypto RelayAuthorization encoded nowMs
    let retained ← Attempt.orFail (c.clientPaths.lookup ⟨intent.reservationId, path.pathId⟩)
      (.scope "client endpoint secret")
    Attempt.refuse (authorization.senderId ≠ intent.exitNodeId ∨
      sameAuthorizationScope authorization.message exit.message path
        retained.endpoint.publicEndpoint.publicKey = false) (.scope "relay authorization")
  let bundleHash ← Attempt.lift (fromProtocol
    (finalizedReservationBundleHash crypto signedExitReservation relayAuthorizations))
  let identity ← Attempt.orFail exit.message.nativeRouteIdentity (.scope "native route identity")
  pure (⟨hold.signedCapability, signedExitReservation, relayAuthorizations, bundleHash⟩, identity)

/-- Verify a final exit grant and all exact per-path authorizations. -/
def verifyFinalizeResponse (intent : ExitReservationIntent) (hold : VerifiedExitCapacityHold)
    (request : SignedExitFinalizeRequest) (signedExitReservation : Bytes)
    (relayAuthorizations : List Bytes) (authenticatedExitPeerId : Bytes) (nowMs : ℕ) :
    Outcome VerifiedFinalizedExitBundle :=
  if relayAuthorizations.length ≠ request.paths.length ∨
      authenticatedExitPeerId ≠ intent.exitPeerId then
    (.error (.scope "finalized exit response count"), c)
  else if c.pendingMatches intent request = false then
    (.error (.scope "pending native authorization scope"), c)
  else
    match (c.finalizeAttempt crypto intent hold request signedExitReservation relayAuthorizations
        nowMs).settle c.exitReplay with
    | (.error e, cache) => (.error e, { c with exitReplay := cache })
    | (.ok (bundle, identity), cache) =>
      match c.pendingNativeAuthorizations.lookup request.finalizeId with
      | none =>
        (.error (.scope "pending native authorization scope"), { c with exitReplay := cache })
      | some _ => (.ok bundle, { c with
          exitReplay := cache
          pendingNativeAuthorizations := c.pendingNativeAuthorizations.modify request.finalizeId
            (fun pending => { pending with
              finalizedBundleHash := some bundle.finalizedBundleHash
              identity := some identity }) fun _ => rfl })

/-! ## Relay grants -/

/-- The grant that a relay's reservation gives, if it is the one that was asked for. -/
def relayGrant (expectedAuthorization : Bytes) (finalizedBundleHash : FixedBytes 32)
    (signedRelayReservation : Bytes) (expectedRelayNodeId : FixedBytes 32)
    (authenticatedRelayPeerId : Bytes) (relay : VerifiedControlMessage RelayReservation) :
    Except CoordinatorError VerifiedRelayGrant := do
  let message := relay.message
  let reservationId ← fixed 16 message.reservationId "relay reservation id"
  let routeContextId ← fixed 16 message.routeContextId "relay route context"
  let relayNodeId ← fixed 32 message.relayNodeId "relay node id"
  let exitNodeId ← fixed 32 message.exitNodeId "relay exit node id"
  let policyHash ← fixed 32 message.policyHash "relay policy hash"
  let retained ← orFail (c.clientPaths.lookup ⟨reservationId, message.pathId⟩)
    (.scope "client endpoint secret")
  refuse (relay.senderId ≠ expectedRelayNodeId ∨ relayNodeId ≠ expectedRelayNodeId ∨
    message.clientSessionId ≠ c.clientSessionId.toBytes ∨
    message.exitAuthorization ≠ expectedAuthorization ∨
    message.relayPeerId ≠ authenticatedRelayPeerId ∨
    message.clientWireguardPublicKey ≠ retained.endpoint.publicEndpoint.publicKey.toBytes)
    (.scope "relay response")
  let endpoint ← orFail message.relayClientWireguardEndpoint (.scope "relay client endpoint")
  let relayClientEndpoint ← publicEndpoint endpoint "relay client endpoint"
  let capabilityId ← fixed 16 message.capabilityId "relay capability id"
  let exitBootId ← fixed 16 message.exitBootId "relay exit boot id"
  let holdId ← fixed 16 message.holdId "relay hold id"
  let finalizeId ← fixed 16 message.finalizeId "relay finalize id"
  let controlRelayNodeId ← fixed 32 message.controlRelayNodeId "relay control node"
  pure {
    signedRelayReservation, reservationId, routeContextId, pathId := message.pathId, relayNodeId,
    exitNodeId, policyHash, capabilityId, exitBootId, holdId, finalizeId, controlRelayNodeId,
    controlRelayPeerId := message.controlRelayPeerId, exitPeerId := message.exitPeerId,
    finalizedBundleHash, relayClientEndpoint, expiresAtMs := message.expiresAtMs }

def verifyRelayResponseInner (expectedAuthorization : Bytes) (finalizedBundleHash : FixedBytes 32)
    (signedRelayReservation : Bytes) (expectedRelayNodeId : FixedBytes 32)
    (authenticatedRelayPeerId : Bytes) (nowMs : ℕ) : Outcome VerifiedRelayGrant :=
  match verifyRelayReservation crypto signedRelayReservation nowMs .default c.relayReplay with
  | (.error e, cache) => (.error (.protocol e), { c with relayReplay := cache })
  | (.ok (relay, exit), cache) =>
    match c.relayGrant expectedAuthorization finalizedBundleHash signedRelayReservation
        expectedRelayNodeId authenticatedRelayPeerId relay with
    | .error e => (.error e, { c with relayReplay := cache.rollbackAll [relay.key, exit.key] })
    | .ok grant => (.ok grant, { c with relayReplay := cache })

/-- Verify one relay response and its exact nested exit authorization. -/
def verifyRelayResponse (bundle : VerifiedFinalizedExitBundle) (signedRelayReservation : Bytes)
    (expectedPathIndex : ℕ) (expectedRelayNodeId : FixedBytes 32) (authenticatedRelayPeerId : Bytes)
    (nowMs : ℕ) : Outcome VerifiedRelayGrant :=
  match bundle.relayAuthorizations[expectedPathIndex]? with
  | none => (.error (.scope "relay authorization index"), c)
  | some expectedAuthorization => c.verifyRelayResponseInner crypto expectedAuthorization
      bundle.finalizedBundleHash signedRelayReservation expectedRelayNodeId authenticatedRelayPeerId
      nowMs

/-! ## Confirmations and the route bearer -/

/-- The attempt of a grant is answered and not expired, and this path of it still to be
confirmed. -/
def pendingConfirmation (grant : VerifiedRelayGrant) (nowMs : ℕ) : Bool :=
  match c.pendingNativeAuthorizations.lookup grant.finalizeId with
  | none => false
  | some pending =>
    pending.reservationId = grant.reservationId ∧ pending.routeContextId = grant.routeContextId ∧
    nowMs < pending.expiresAtMs ∧
    pending.finalizedBundleHash = some grant.finalizedBundleHash ∧ pending.identity ≠ none ∧
    grant.pathId ∈ pending.expectedPathIds ∧ grant.pathId ∉ pending.confirmedPathIds

def validReceipt (grant : VerifiedRelayGrant)
    (receipt : VerifiedControlMessage ExitConfirmationReceipt)
    (confirmationHash : FixedBytes 32) : Bool :=
  let message := receipt.message
  receipt.senderId = grant.exitNodeId ∧
  message.reservationId = grant.reservationId.toBytes ∧
  message.routeContextId = grant.routeContextId.toBytes ∧
  message.clientSessionId = c.clientSessionId.toBytes ∧
  message.capabilityId = grant.capabilityId.toBytes ∧
  message.holdId = grant.holdId.toBytes ∧
  message.finalizeId = grant.finalizeId.toBytes ∧
  message.pathId = grant.pathId ∧
  message.finalizedBundleHash = grant.finalizedBundleHash.toBytes ∧
  message.confirmationEnvelopeHash = confirmationHash.toBytes ∧
  message.controlRelayNodeId = grant.controlRelayNodeId.toBytes ∧
  message.controlRelayPeerId = grant.controlRelayPeerId ∧
  message.exitNodeId = grant.exitNodeId.toBytes ∧
  message.exitPeerId = grant.exitPeerId ∧
  message.exitBootId = grant.exitBootId.toBytes

/-- Verify an exit-signed positive acknowledgement for one exact finalized bundle and path. -/
def verifyConfirmationReceipt (grant : VerifiedRelayGrant)
    (signedConfirmation signedReceipt : Bytes) (nowMs : ℕ) : Outcome Unit :=
  match verifyControlMessage (T := ExitConfirmationReceipt) crypto signedReceipt nowMs .default
      c.exitReplay with
  | (.error e, cache) => (.error (.protocol e), { c with exitReplay := cache })
  | (.ok receipt, cache) =>
    let rolledBack := { c with exitReplay := (cache.rollback receipt.key).2 }
    match exitConfirmationEnvelopeHash crypto signedConfirmation with
    | .error e => (.error (.protocol e), rolledBack)
    | .ok confirmationHash =>
      if c.pendingConfirmation grant nowMs && c.validReceipt grant receipt confirmationHash then
        match c.pendingNativeAuthorizations.lookup grant.finalizeId with
        | none => (.error (.scope "pending native authorization scope"), rolledBack)
        | some pending =>
          if grant.pathId ∈ pending.confirmedPathIds then
            (.error (.scope "duplicate exit confirmation receipt"), rolledBack)
          else (.ok (), { c with
              exitReplay := cache
              pendingNativeAuthorizations := c.pendingNativeAuthorizations.modify grant.finalizeId
                (fun pending => { pending with
                  confirmedPathIds := insert grant.pathId pending.confirmedPathIds }) fun _ =>
                    rfl })
      else (.error (.scope "exit confirmation receipt"), rolledBack)

/-- The exit signed the identity that the finalization committed to. -/
def PendingNativeRouteAuthorization.identityMatches (pending : PendingNativeRouteAuthorization) :
    Bool :=
  match pending.identity with
  | none => false
  | some identity =>
    identity.authCommitment = pending.authCommitment.toBytes ∧
    identity.masqueContextId = pending.masqueContextId ∧
    identity.clientNativeInstanceId = pending.clientNativeInstanceId.toBytes

/-- Everything that is needed before a bearer is handed out, but the time. -/
def fullyConfirmed (pending : PendingNativeRouteAuthorization) : Bool :=
  pending.finalizedBundleHash ≠ none ∧
    PendingNativeRouteAuthorization.identityMatches pending = true ∧
    nativeRouteAuthCommitment crypto pending.authBearer = .ok pending.authCommitment ∧
    pending.expectedPathIds ≠ ∅ ∧ pending.confirmedPathIds = pending.expectedPathIds

/-- Consume one fully confirmed route bearer and its exact exit-signed native identity. An attempt
that has expired is dropped, with everything else of its reservation. -/
def takeNativeRouteAuthorization (finalizeId : FixedBytes 16) (nowMs : ℕ) :
    Outcome ClientNativeRouteAuthorization :=
  match c.pendingNativeAuthorizations.lookup finalizeId with
  | none => (.error (.scope "native route authorization unavailable"), c)
  | some pending =>
    if pending.expiresAtMs ≤ nowMs then
      (.error (.scope "native route authorization expired"), { c with
        pendingNativeAuthorizations := c.pendingNativeAuthorizations.filter fun other =>
          decide (other.reservationId ≠ pending.reservationId)
        clientPaths := c.clientPaths.filter fun state =>
          decide (state.key.reservationId ≠ pending.reservationId) })
    else if fullyConfirmed crypto pending = false then
      (.error (.scope "native route authorization is not fully confirmed"), c)
    else
      let taken := { c with
        pendingNativeAuthorizations := c.pendingNativeAuthorizations.erase finalizeId }
      match pending.identity with
      | none => (.error (.scope "native route identity"), taken)
      | some identity => (.ok ⟨pending.reservationId, pending.routeContextId, finalizeId,
          pending.exitNodeId, pending.authBearer, identity, pending.expiresAtMs⟩, taken)

/-- Release every client-side opaque helper lease for one reservation. -/
def release (reservationId : FixedBytes 16) : ℕ × ReservationCoordinator :=
  let released := { c with
    clientPaths := c.clientPaths.filter fun state =>
      decide (state.key.reservationId ≠ reservationId)
    pendingNativeAuthorizations := c.pendingNativeAuthorizations.filter fun pending =>
      decide (pending.reservationId ≠ reservationId) }
  (c.clientPaths.rows.length - released.clientPaths.rows.length, released)

/-- Drop all expired client-side opaque helper lease capabilities. -/
def purgeExpired (nowMs : ℕ) : ℕ × ReservationCoordinator :=
  let purged := { c with
    clientPaths := c.clientPaths.filter fun state => decide (nowMs < state.expiresAtMs)
    pendingNativeAuthorizations := c.pendingNativeAuthorizations.filter fun pending =>
      decide (nowMs < pending.expiresAtMs) }
  (c.clientPaths.rows.length - purged.clientPaths.rows.length, purged)

end ReservationCoordinator

end Volparossa.Reservation
