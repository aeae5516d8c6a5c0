import Volparossa.Protocol.Attempt
import Volparossa.Protocol.RouteExtension
import Volparossa.Wireguard.Lease

/-!
# The client reservation coordinator: its state and its scopes

The coordinator is the client's side of the reservation rounds: it signs with the key of one
session, verifies what exits and relays answer, and keeps the leases of the client's endpoints and
the route bearers that are not handed out yet. This module has the data: what a caller asks for
(`ExitReservationIntent`), what the rounds return (`VerifiedExitCapacityHold`, …,
`VerifiedRelayGrant`), and the state (`ReservationCoordinator`). An answer counts only for the exact
request it answers; the functions `same…` compare the two, field by field.
-/

namespace Volparossa.Reservation

open Protocol

open Transaction (Crypto ascii)

open Wireguard (ClientEndpointLease PublicWireGuardEndpoint WireGuardPublicKey)

/-! ## Errors and bounds -/

/-- Why a request is not built or a response is refused. -/
inductive CoordinatorError where
  /-- Canonical signing, signature, replay, time or parser validation failed. -/
  | protocol (error : ProtocolError)
  /-- A validly signed message did not match the selected route scope. -/
  | scope (field : String)
  /-- No local endpoint lease was available. -/
  | endpointUnavailable
  /-- Not an error of the coordinator: the generator has yielded no usable identifier so far, and
  the call still draws. -/
  | drawing
  deriving DecidableEq

def maxLocalPathLeases : ℕ := 64

def maxPendingNativeAuthorizations : ℕ := 64

def maxProtocolPaths : ℕ := 8

/-- How long after its measurement a probe may be used. -/
def maxNativeProbeLifetimeMs : ℕ := 5 * 60 * 1000

/-- A byte string of a fixed length. -/
def fixed (n : ℕ) (b : Bytes) (field : String) : Except CoordinatorError (FixedBytes n) :=
  orFail (FixedBytes.ofBytes n b) (.scope field)

/-- The result of a protocol function, as the coordinator passes it on. -/
def fromProtocol {α : Type} (x : Except ProtocolError α) : Except CoordinatorError α :=
  x.mapError .protocol

/-! ## What is asked for, and what the rounds return -/

/-- Exact client-selected scope for one relay path. -/
structure RelayPathIntent where
  pathId : ℕ
  relayNodeId : FixedBytes 32
  relayPeerId : Bytes
  deriving DecidableEq

/-- Capacity scope requested before any relay is disclosed to the exit. -/
structure ExitReservationIntent where
  reservationId : FixedBytes 16
  routeContextId : FixedBytes 16
  exitNodeId : FixedBytes 32
  exitPeerId : Bytes
  controlRelayNodeId : FixedBytes 32
  controlRelayPeerId : Bytes
  allowedTransports : List Transport
  reservedUpMbps : ℕ
  reservedDownMbps : ℕ
  maximumPaths : ℕ
  probePermitLimit : ℕ
  policyHash : FixedBytes 32
  createdAtMs : ℕ
  holdExpiresAtMs : ℕ
  reservationExpiresAtMs : ℕ
  masqueContextId : ℕ
  clientNativeInstanceId : FixedBytes 32
  deriving DecidableEq

/-- Verified exit-issued proof-of-possession and capacity hold. -/
structure VerifiedExitCapacityHold where
  signedCapability : Bytes
  signedHold : Bytes
  capability : ClientSessionCapability
  hold : ExitCapacityHold
  deriving DecidableEq

/-- Client-signed request retained to bind one returned probe permit. -/
structure SignedProbePermitRequest where
  encoded : Bytes
  request : RelayProbePermitRequest
  hold : VerifiedExitCapacityHold
  deriving DecidableEq

/-- Exit-signed probe permit verified against its exact client request. -/
structure VerifiedProbePermit where
  encoded : Bytes
  permit : RelayProbePermit
  request : RelayProbePermitRequest
  hold : VerifiedExitCapacityHold
  deriving DecidableEq

/-- Structurally and cryptographically verified relay probe result. -/
structure VerifiedRelayProbe where
  permit : VerifiedProbePermit
  encodedResult : Bytes
  result : RelayProbeResult
  transport : Transport
  addressFamily : ProbeAddressFamily
  clientRelay : ProbeLegEvidence
  relayExit : ProbeLegEvidence
  deriving DecidableEq

/-- One client-session-signed exact finalization frame and its generated identifier. -/
structure SignedExitFinalizeRequest where
  encoded : Bytes
  finalizeId : FixedBytes 16
  paths : List RelayPathIntent
  authCommitment : FixedBytes 32
  masqueContextId : ℕ
  clientNativeInstanceId : FixedBytes 32
  deriving DecidableEq

/-- One confirmed, affine client authorization for starting the exact native route. -/
structure ClientNativeRouteAuthorization where
  reservationId : FixedBytes 16
  routeContextId : FixedBytes 16
  finalizeId : FixedBytes 16
  exitNodeId : FixedBytes 32
  authBearer : Bytes
  identity : NativeRouteIdentity
  expiresAtMs : ℕ
  deriving DecidableEq

/-- Fully verified final exit grant and exact per-path authorizations. -/
structure VerifiedFinalizedExitBundle where
  signedCapability : Bytes
  signedExitReservation : Bytes
  relayAuthorizations : List Bytes
  finalizedBundleHash : FixedBytes 32
  deriving DecidableEq

/-- One relay grant whose outer relay and nested exit signatures and scope are verified. -/
structure VerifiedRelayGrant where
  signedRelayReservation : Bytes
  reservationId : FixedBytes 16
  routeContextId : FixedBytes 16
  pathId : ℕ
  relayNodeId : FixedBytes 32
  exitNodeId : FixedBytes 32
  policyHash : FixedBytes 32
  capabilityId : FixedBytes 16
  exitBootId : FixedBytes 16
  holdId : FixedBytes 16
  finalizeId : FixedBytes 16
  controlRelayNodeId : FixedBytes 32
  controlRelayPeerId : Bytes
  exitPeerId : Bytes
  finalizedBundleHash : FixedBytes 32
  relayClientEndpoint : PublicWireGuardEndpoint
  expiresAtMs : ℕ
  deriving DecidableEq

/-- Exit-verified original-parent-bound extension response. -/
structure VerifiedRouteExtension where
  encoded : Bytes
  message : RouteExtension
  deriving DecidableEq

/-! ## State -/

/-- The key under which a client lease is retained. -/
structure ClientPathKey where
  reservationId : FixedBytes 16
  pathId : ℕ
  deriving DecidableEq

/-- A retained client lease. -/
structure ClientPathState where
  key : ClientPathKey
  endpoint : ClientEndpointLease
  expiresAtMs : ℕ
  deriving DecidableEq

/-- A route bearer that is not handed out yet, and what is still needed before it is. -/
structure PendingNativeRouteAuthorization where
  finalizeId : FixedBytes 16
  reservationId : FixedBytes 16
  routeContextId : FixedBytes 16
  exitNodeId : FixedBytes 32
  authBearer : Bytes
  authCommitment : FixedBytes 32
  masqueContextId : ℕ
  clientNativeInstanceId : FixedBytes 32
  expiresAtMs : ℕ
  expectedPathIds : Finset ℕ
  confirmedPathIds : Finset ℕ
  finalizedBundleHash : Option (FixedBytes 32)
  identity : Option NativeRouteIdentity
  deriving DecidableEq

/-- Client-side fresh session signer, replay state and bounded endpoint leases. -/
structure ReservationCoordinator where
  sessionKey : SigningKey
  clientSessionId : FixedBytes 32
  exitReplay : ReplayCache
  probeReplay : ReplayCache
  relayReplay : ReplayCache
  clientPaths : Table ClientPathState.key
  pendingNativeAuthorizations : Table PendingNativeRouteAuthorization.finalizeId

/-- A session with a fresh key, bounded replay state, and nothing retained. -/
def ReservationCoordinator.new (crypto : Crypto) (sessionKey : SigningKey) (replayCapacity : ℕ) :
    Except CoordinatorError ReservationCoordinator := do
  let cache ← fromProtocol (ReplayCache.new replayCapacity)
  pure ⟨sessionKey, nodeIdFromPublicKey crypto sessionKey.verifyingKey, cache, cache, cache, .empty,
    .empty⟩

/-! ## Scopes -/

section Scopes

variable (capability : ClientSessionCapability) (intent : ExitReservationIntent)
  (coordinator : ReservationCoordinator)

def transports (values : List Transport) : List ℤ := values.map Transport.number

def sameCapabilityScope : Bool :=
  capability.reservationId = intent.reservationId.toBytes ∧
  capability.routeContextId = intent.routeContextId.toBytes ∧
  capability.clientSessionId = coordinator.clientSessionId.toBytes ∧
  capability.clientSessionPublicKey = coordinator.sessionKey.verifyingKey.toBytes ∧
  capability.exitNodeId = intent.exitNodeId.toBytes ∧
  capability.exitPeerId = intent.exitPeerId ∧
  capability.controlRelayNodeId = intent.controlRelayNodeId.toBytes ∧
  capability.controlRelayPeerId = intent.controlRelayPeerId ∧
  capability.policyHash = intent.policyHash.toBytes ∧
  capability.allowedTransports = transports intent.allowedTransports ∧
  capability.reservedUpMbps = intent.reservedUpMbps ∧
  capability.reservedDownMbps = intent.reservedDownMbps ∧
  capability.maximumPaths = intent.maximumPaths ∧
  capability.probePermitLimit = intent.probePermitLimit ∧
  capability.createdAtMs = intent.createdAtMs ∧
  capability.expiresAtMs = intent.reservationExpiresAtMs

def sameHoldScope (hold : ExitCapacityHold) (signedCapability : Bytes) : Bool :=
  hold.clientSessionCapability = signedCapability ∧
  hold.reservationId = capability.reservationId ∧
  hold.routeContextId = capability.routeContextId ∧
  hold.exitNodeId = capability.exitNodeId ∧
  hold.exitPeerId = capability.exitPeerId ∧
  hold.exitBootId = capability.exitBootId ∧
  hold.clientSessionId = coordinator.clientSessionId.toBytes ∧
  hold.policyHash = capability.policyHash ∧
  hold.allowedTransports = capability.allowedTransports ∧
  hold.reservedUpMbps = capability.reservedUpMbps ∧
  hold.reservedDownMbps = capability.reservedDownMbps ∧
  hold.maximumPaths = capability.maximumPaths ∧
  hold.probePermitLimit = capability.probePermitLimit ∧
  hold.createdAtMs = intent.createdAtMs ∧
  hold.expiresAtMs = intent.holdExpiresAtMs ∧
  hold.reservationExpiresAtMs = intent.reservationExpiresAtMs ∧
  hold.controlRelayNodeId = capability.controlRelayNodeId ∧
  hold.controlRelayPeerId = capability.controlRelayPeerId

def sameProbePermit (permit : RelayProbePermit) (request : RelayProbePermitRequest)
    (hold : VerifiedExitCapacityHold) : Bool :=
  request.exitCapacityHold = hold.signedHold ∧
  request.clientSessionCapability = hold.signedCapability ∧
  permit.probeId = request.probeId ∧
  permit.holdId = hold.hold.holdId ∧
  permit.capabilityId = hold.capability.capabilityId ∧
  permit.reservationId = hold.capability.reservationId ∧
  permit.routeContextId = hold.capability.routeContextId ∧
  permit.clientSessionId = request.clientSessionId ∧
  permit.clientSessionId = hold.capability.clientSessionId ∧
  permit.exitNodeId = request.exitNodeId ∧
  permit.exitNodeId = hold.capability.exitNodeId ∧
  permit.exitBootId = hold.capability.exitBootId ∧
  permit.exitPeerId = request.exitPeerId ∧
  permit.exitPeerId = hold.capability.exitPeerId ∧
  permit.controlRelayNodeId = request.controlRelayNodeId ∧
  permit.controlRelayNodeId = hold.capability.controlRelayNodeId ∧
  permit.controlRelayPeerId = request.controlRelayPeerId ∧
  permit.controlRelayPeerId = hold.capability.controlRelayPeerId ∧
  permit.policyHash = hold.capability.policyHash ∧
  permit.relayNodeId = request.relayNodeId ∧
  permit.relayPeerId = request.relayPeerId ∧
  permit.pathId = request.pathId ∧
  permit.createdAtMs = request.createdAtMs ∧
  permit.expiresAtMs = request.expiresAtMs ∧
  permit.transport = request.transport ∧
  permit.addressFamily = request.addressFamily

def sameProbeResult (result : RelayProbeResult) (permit : VerifiedProbePermit) : Bool :=
  let expected := permit.permit
  result.relayProbePermit = permit.encoded ∧
  result.probeId = expected.probeId ∧
  result.relayNodeId = expected.relayNodeId ∧
  result.relayPeerId = expected.relayPeerId ∧
  result.exitNodeId = expected.exitNodeId ∧
  result.exitPeerId = expected.exitPeerId ∧
  result.exitBootId = expected.exitBootId ∧
  result.holdId = expected.holdId ∧
  result.capabilityId = expected.capabilityId ∧
  result.reservationId = expected.reservationId ∧
  result.routeContextId = expected.routeContextId ∧
  result.clientSessionId = expected.clientSessionId ∧
  result.policyHash = expected.policyHash ∧
  result.transport = expected.transport ∧
  result.addressFamily = expected.addressFamily ∧
  -- the measurement may lie after the permit was made; then nothing is subtracted
  expected.createdAtMs - result.measuredAtMs ≤ maxNativeProbeLifetimeMs ∧
  result.expiresAtMs ≤ expected.expiresAtMs

def sameFinalExitScope (response : ExitReservation) (hold : VerifiedExitCapacityHold)
    (request : SignedExitFinalizeRequest) : Bool :=
  match response.nativeRouteIdentity with
  | none => false
  | some nativeIdentity =>
    request.paths.length < 2 ^ 32 ∧
    response.reservationId = intent.reservationId.toBytes ∧
    response.routeContextId = intent.routeContextId.toBytes ∧
    response.exitNodeId = intent.exitNodeId.toBytes ∧
    response.exitPeerId = intent.exitPeerId ∧
    response.clientSessionId = coordinator.clientSessionId.toBytes ∧
    response.clientSessionPublicKey = coordinator.sessionKey.verifyingKey.toBytes ∧
    response.allowedTransports = transports intent.allowedTransports ∧
    response.reservedUpMbps = intent.reservedUpMbps ∧
    response.reservedDownMbps = intent.reservedDownMbps ∧
    response.maximumPaths = request.paths.length ∧
    response.maximumPaths ≤ intent.maximumPaths ∧
    response.policyHash = intent.policyHash.toBytes ∧
    response.createdAtMs = intent.createdAtMs ∧
    response.expiresAtMs = intent.reservationExpiresAtMs ∧
    response.capabilityId = hold.capability.capabilityId ∧
    response.exitBootId = hold.capability.exitBootId ∧
    response.holdId = hold.hold.holdId ∧
    response.finalizeId = request.finalizeId.toBytes ∧
    response.controlRelayNodeId = intent.controlRelayNodeId.toBytes ∧
    response.controlRelayPeerId = intent.controlRelayPeerId ∧
    nativeIdentity.authCommitment = request.authCommitment.toBytes ∧
    nativeIdentity.masqueContextId = request.masqueContextId ∧
    nativeIdentity.clientNativeInstanceId = request.clientNativeInstanceId.toBytes

def sameAuthorizationScope (response : RelayAuthorization) (exit : ExitReservation)
    (path : RelayPathIntent) (clientWireguardPublicKey : WireGuardPublicKey) : Bool :=
  response.reservationId = exit.reservationId ∧
  response.routeContextId = exit.routeContextId ∧
  response.pathId = path.pathId ∧
  response.relayNodeId = path.relayNodeId.toBytes ∧
  response.relayPeerId = path.relayPeerId ∧
  response.exitNodeId = exit.exitNodeId ∧
  response.clientSessionId = exit.clientSessionId ∧
  response.allowedTransports = exit.allowedTransports ∧
  response.maximumUpMbps = exit.reservedUpMbps ∧
  response.maximumDownMbps = exit.reservedDownMbps ∧
  response.clientWireguardPublicKey = clientWireguardPublicKey.toBytes ∧
  response.policyHash = exit.policyHash ∧
  response.createdAtMs = exit.createdAtMs ∧
  response.expiresAtMs = exit.expiresAtMs ∧
  response.capabilityId = exit.capabilityId ∧
  response.clientSessionPublicKey = exit.clientSessionPublicKey ∧
  response.exitBootId = exit.exitBootId ∧
  response.holdId = exit.holdId ∧
  response.finalizeId = exit.finalizeId ∧
  response.controlRelayNodeId = exit.controlRelayNodeId ∧
  response.controlRelayPeerId = exit.controlRelayPeerId ∧
  response.exitPeerId = exit.exitPeerId

end Scopes

/-! ## Endpoints and bearers -/

/-- An endpoint as messages carry it. -/
def wireEndpoint (endpoint : PublicWireGuardEndpoint) : WireguardEndpoint where
  publicKey := endpoint.publicKey.toBytes
  underlayIp := endpoint.underlayIp.toBytes
  listenPort := endpoint.listenPort.toNat
  underlayScope := if endpoint.isLocalLan then 1 else 0

/-- The endpoint that a message carries. -/
def publicEndpoint (endpoint : WireguardEndpoint) (field : String) :
    Except CoordinatorError PublicWireGuardEndpoint := do
  fromProtocol (endpoint.validate field)
  let publicKey ← fixed 32 endpoint.publicKey field
  let underlayIp ← orFail (Core.parseIpBytes endpoint.underlayIp) (.scope field)
  refuse (endpoint.listenPort ≥ 2 ^ 16) (.scope field)
  let listenPort := UInt16.ofNat endpoint.listenPort
  match endpoint.underlayScope with
  | 0 =>
    (PublicWireGuardEndpoint.new publicKey underlayIp listenPort).mapError fun _ => .scope field
  | 1 =>
    (PublicWireGuardEndpoint.newDirectLocalLan publicKey underlayIp listenPort).mapError
      fun _ => .scope field
  | _ => .error (.scope field)

def nativeRouteAuthBearerLength : ℕ := 43

def isBearerByte (c : UInt8) : Bool :=
  (48 ≤ c && c ≤ 57) || (65 ≤ c && c ≤ 90) || (97 ≤ c && c ≤ 122) || c == 95 || c == 45

/-- The digest of one exact canonical unpadded base64url encoding of a 256-bit route bearer. -/
def nativeRouteAuthCommitment (crypto : Crypto) (bearer : Bytes) :
    Except ProtocolError (FixedBytes 32) := do
  refuse (bearer.length ≠ nativeRouteAuthBearerLength ∨ bearer.all isBearerByte = false ∨
    ¬bearer.getLastD 0 ∈ ascii "AEIMQUYcgkosw048")
    (.invalidField "native route authentication bearer")
  pure (crypto.sha256 (ascii "VOLPAROSSA-NATIVE-ROUTE-AUTH-COMMITMENT-V4\x00" ++ bearer))

/-- The character of a base64url sextet. -/
def sextet (n : ℕ) : UInt8 :=
  (ascii "ABCDEFGHIJKLMNOPQRSTUVWXYZabcdefghijklmnopqrstuvwxyz0123456789-_").getD n 0

/-- Base64url without padding. -/
def base64Url : Bytes → Bytes
  | a :: b :: c :: rest =>
    let n := a.toNat * 2 ^ 16 + b.toNat * 2 ^ 8 + c.toNat
    sextet (n / 2 ^ 18) :: sextet (n / 2 ^ 12 % 64) :: sextet (n / 2 ^ 6 % 64) :: sextet (n % 64) ::
      base64Url rest
  | [a, b] =>
    let n := a.toNat * 2 ^ 10 + b.toNat * 2 ^ 2
    [sextet (n / 2 ^ 12), sextet (n / 2 ^ 6 % 64), sextet (n % 64)]
  | [a] => [sextet (a.toNat / 4), sextet (a.toNat % 4 * 16)]
  | [] => []

/-- The bearer that 256 random bits give. -/
def generateNativeRouteBearer (entropy : FixedBytes 32) : Except CoordinatorError Bytes := do
  let bearer := base64Url entropy.toBytes
  refuse (bearer.length ≠ nativeRouteAuthBearerLength) (.scope "native route bearer encoding")
  pure bearer

end Volparossa.Reservation
