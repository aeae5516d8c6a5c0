import Volparossa.Core.Network
import Volparossa.Foundations.Protobuf.Schema
import Volparossa.Protocol.Envelope

/-!
# Reservation grants

The messages with which an exit and a relay grant a route, and the checks that a receiver makes
before it looks at anything else: identifiers have their lengths and are not zero, rates and
lifetimes are within bounds, keys are distinct, a session is bound to its key, and what a message
says of its sender, its times and its nonce agrees with the envelope it came in.

`verifyRelayReservation` verifies a relay's grant together with the exit's grant inside it, and
takes the first back when the second does not fit. `finalizedReservationBundleHash` is the digest of
a finalized exit grant with its ordered relay authorizations.
-/

namespace Volparossa.Protocol

open Protobuf

open Volparossa.Core (IpAddr parseIpBytes isPublicRoutableIp isLocalLanIp)

open Transaction (Crypto ascii checkedSub)

/-! ## Checks on fields -/

def maxRateMbps : ℕ := 1000000

def maxReservationLifetimeMs : ℕ := 15 * 60 * 1000

def maxPhaseLifetimeMs : ℕ := 30 * 1000

def maxTransports : ℕ := 3

/-- A byte string of a fixed length that is not zero. -/
def requireNonzero (n : ℕ) (b : Bytes) (field : String) : Except ProtocolError Unit :=
  refuse (b.length ≠ n ∨ ∀ x ∈ b, x = 0) (.invalidField field)

def validatePeerId (peerId : Bytes) (field : String) : Except ProtocolError Unit :=
  refuse (peerId = [] ∨ peerId.length > 64) (.invalidField field)

def validateRate (rate : ℕ) (field : String) : Except ProtocolError Unit :=
  refuse (rate = 0 ∨ rate > maxRateMbps) (.invalidField field)

def validatePort (port : ℕ) (field : String) : Except ProtocolError Unit :=
  refuse (¬(1 ≤ port ∧ port ≤ 65535)) (.invalidField field)

/-- A path number of a route context. -/
def validatePathId (pathId : ℕ) (field : String) : Except ProtocolError Unit :=
  refuse (¬(1 ≤ pathId ∧ pathId ≤ 8)) (.invalidField field)

/-- A lifetime is positive and at most `maximum`. -/
def validateLifetime (createdAtMs expiresAtMs maximum : ℕ) (error : ProtocolError) :
    Except ProtocolError Unit := do
  let lifetime ← orFail (checkedSub expiresAtMs createdAtMs) error
  refuse (lifetime = 0 ∨ lifetime > maximum) error

/-- A number of a transport other than the unspecified one. -/
def isTransport (value : ℤ) : Bool :=
  match Transport.tryFrom value with
  | none => false
  | some transport => transport ≠ .unspecified

/-- Between one and three transports, in increasing order. -/
def validateTransports (transports : List ℤ) (field : String) : Except ProtocolError Unit := do
  refuse (transports = [] ∨ transports.length > maxTransports) (.invalidField field)
  refuse (transports.all isTransport = false ∨ ¬transports.Pairwise (· < ·)) (.invalidField field)

/-- Four decimal numbers below 256 without leading zeros. A text with colons has no valid label. -/
def isIpv4Text (hostname : Bytes) : Bool :=
  let parts := hostname.splitOn 46
  parts.length = 4 && parts.all fun part =>
    1 ≤ part.length && part.length ≤ 3 && part.all (fun c => 48 ≤ c && c ≤ 57) &&
      (part.length = 1 || part.headD 0 ≠ 48) &&
      part.foldl (fun n c => 10 * n + (c.toNat - 48)) 0 < 256

/-- A label of a canonical name. -/
def isDnsLabel (label : Bytes) : Bool :=
  label ≠ [] && label.length ≤ 63 && label.headD 0 ≠ 45 && label.getLastD 0 ≠ 45 &&
    label.all fun c => (48 ≤ c && c ≤ 57) || (65 ≤ c && c ≤ 90) || (97 ≤ c && c ≤ 122) || c = 45

def validateCanonicalDnsName (hostname : Bytes) (field : String) : Except ProtocolError Unit := do
  refuse (hostname = [] ∨ hostname.length > 253 ∨ hostname.getLastD 0 = 46 ∨
    (hostname.any fun c => 65 ≤ c && c ≤ 90) = true ∨ isIpv4Text hostname = true)
    (.invalidField field)
  refuse ((hostname.splitOn 46).all isDnsLabel = false ∨ 46 ∉ hostname) (.invalidField field)

def validateReservationIds (reservationId routeContextId clientSessionId : Bytes) :
    Except ProtocolError Unit := do
  requireNonzero 16 reservationId "reservation_id"
  requireNonzero 16 routeContextId "route_context_id"
  requireNonzero 32 clientSessionId "client_session_id"

/-- A session identifier is the one of the session's key. -/
def validateSessionBinding (crypto : Crypto) (clientSessionId clientSessionPublicKey : Bytes) :
    Except ProtocolError Unit := do
  requireNonzero 32 clientSessionPublicKey "client_session_public_key"
  let key ← fixedArray 32 clientSessionPublicKey "client_session_public_key"
  refuse (clientSessionId ≠ (nodeIdFromPublicKey crypto key).toBytes)
    (.invalidField "client session key binding")

def validateReservationBinding (capabilityId exitBootId holdId finalizeId controlRelayNodeId
    controlRelayPeerId : Bytes) : Except ProtocolError Unit := do
  requireNonzero 16 capabilityId "capability_id"
  requireNonzero 16 exitBootId "exit_boot_id"
  requireNonzero 16 holdId "hold_id"
  requireNonzero 16 finalizeId "finalize_id"
  requireNonzero 32 controlRelayNodeId "control_relay_node_id"
  validatePeerId controlRelayPeerId "control_relay_peer_id"

def validateDistinctWireguardKeys (keys : List Bytes) : Except ProtocolError Unit :=
  refuse (¬keys.Nodup) (.invalidField "distinct WireGuard public keys")

/-- A message states the sender, the times and the nonce of its envelope. -/
def validateSignedFields (senderId : Bytes) (timestampMs expiresAtMs : ℕ) (nonce : Bytes)
    (envelope : SignedEnvelope) (field : String) : Except ProtocolError Unit :=
  refuse (senderId ≠ envelope.senderId ∨ timestampMs ≠ envelope.timestampMs ∨
    expiresAtMs ≠ envelope.expiresAtMs ∨ nonce ≠ envelope.nonce) (.invalidField field)

/-! ## Endpoints -/

/-- Signed route-specific WireGuard underlay endpoint. -/
structure WireguardEndpoint where
  (publicKey underlayIp : Bytes := [])
  listenPort : ℕ := 0
  underlayScope : ℤ := 0
  deriving DecidableEq

instance : Message WireguardEndpoint := schema {} [
  .bytes 1 (·.publicKey) ({ · with publicKey := · }),
  .bytes 2 (·.underlayIp) ({ · with underlayIp := · }),
  .uint32 3 (·.listenPort) ({ · with listenPort := · }),
  .enumeration 4 (·.underlayScope) ({ · with underlayScope := · })]

/-- The key, the explicitly scoped address and the port of an endpoint. Scope zero is the public
Internet, scope one the local network. -/
def WireguardEndpoint.validate (endpoint : WireguardEndpoint) (field : String) :
    Except ProtocolError Unit := do
  requireNonzero 32 endpoint.publicKey field
  let address ← orFail (parseIpBytes endpoint.underlayIp) (.invalidField field)
  refuse (¬((endpoint.underlayScope = 0 ∧ isPublicRoutableIp address = true) ∨
    (endpoint.underlayScope = 1 ∧ isLocalLanIp address = true))) (.invalidField field)
  validatePort endpoint.listenPort field

/-! ## Exit reservations -/

/-- Exit-signed identity and authentication commitment for one native route. -/
structure NativeRouteIdentity where
  (authCommitment certificateSha256 spkiSha256 tlsServerName : Bytes := [])
  masqueContextId : ℕ := 0
  (clientNativeInstanceId exitNativeInstanceId credentialHpkePublicKey : Bytes := [])
  deriving DecidableEq

instance : Message NativeRouteIdentity := schema {} [
  .bytes 1 (·.authCommitment) ({ · with authCommitment := · }),
  .bytes 2 (·.certificateSha256) fun m v => { m with certificateSha256 := v },
  .bytes 3 (·.spkiSha256) fun m v => { m with spkiSha256 := v },
  .text 4 (·.tlsServerName) ({ · with tlsServerName := · }),
  .uint64 5 (·.masqueContextId) ({ · with masqueContextId := · }),
  .bytes 6 (·.clientNativeInstanceId) ({ · with clientNativeInstanceId := · }),
  .bytes 7 (·.exitNativeInstanceId) ({ · with exitNativeInstanceId := · }),
  .bytes 8 (·.credentialHpkePublicKey) ({ · with credentialHpkePublicKey := · })]

def NativeRouteIdentity.validate (m : NativeRouteIdentity) : Except ProtocolError Unit := do
  requireNonzero 32 m.authCommitment "native_route_identity.auth_commitment"
  requireNonzero 32 m.certificateSha256 "native_route_identity.certificate_sha256"
  requireNonzero 32 m.spkiSha256 "native_route_identity.spki_sha256"
  validateCanonicalDnsName m.tlsServerName "native_route_identity.tls_server_name"
  refuse (m.masqueContextId = 0 ∨ m.masqueContextId > maxMasqueContextId)
    (.invalidField "native_route_identity.masque_context_id")
  requireNonzero 32 m.clientNativeInstanceId "native_route_identity.client_native_instance_id"
  requireNonzero 32 m.exitNativeInstanceId "native_route_identity.exit_native_instance_id"
  requireNonzero 32 m.credentialHpkePublicKey "native_route_identity.credential_hpke_public_key"

/-- Exit-signed finalized capacity and exact relay-set grant. -/
structure ExitReservation where
  (reservationId routeContextId exitNodeId clientSessionId : Bytes := [])
  allowedTransports : List ℤ := []
  (reservedUpMbps reservedDownMbps maximumPaths : ℕ := 0)
  policyHash : Bytes := []
  (createdAtMs expiresAtMs : ℕ := 0)
  (nonce capabilityId clientSessionPublicKey exitBootId holdId finalizeId controlRelayNodeId
    controlRelayPeerId exitPeerId : Bytes := [])
  nativeRouteIdentity : Option NativeRouteIdentity := none
  deriving DecidableEq

namespace ExitReservation

def validate (crypto : Crypto) (m : ExitReservation) : Except ProtocolError Unit := do
  validateReservationIds m.reservationId m.routeContextId m.clientSessionId
  requireNonzero 32 m.exitNodeId "exit_reservation.exit_node_id"
  validatePeerId m.exitPeerId "exit_reservation.exit_peer_id"
  validateSessionBinding crypto m.clientSessionId m.clientSessionPublicKey
  validateReservationBinding m.capabilityId m.exitBootId m.holdId m.finalizeId m.controlRelayNodeId
    m.controlRelayPeerId
  let identity ← orFail m.nativeRouteIdentity
    (.invalidField "exit_reservation.native_route_identity")
  identity.validate
  validateTransports m.allowedTransports "exit_reservation.allowed_transports"
  validateRate m.reservedUpMbps "exit_reservation.reserved_up_mbps"
  validateRate m.reservedDownMbps "exit_reservation.reserved_down_mbps"
  refuse (¬(1 ≤ m.maximumPaths ∧ m.maximumPaths ≤ 8))
    (.invalidField "exit_reservation.maximum_paths")
  requireNonzero 32 m.policyHash "exit_reservation.policy_hash"
  requireNonzero 32 m.nonce "exit_reservation.nonce"
  validateLifetime m.createdAtMs m.expiresAtMs maxReservationLifetimeMs
    (.invalidField "exit_reservation lifetime")

def validateEnvelope (m : ExitReservation) (envelope : SignedEnvelope) :
    Except ProtocolError Unit :=
  validateSignedFields m.exitNodeId m.createdAtMs m.expiresAtMs m.nonce envelope
    "exit_reservation envelope binding"

end ExitReservation

instance : ControlPayload ExitReservation where
  toMessage := schema {} [
    .bytes 1 (·.reservationId) ({ · with reservationId := · }),
    .bytes 2 (·.routeContextId) ({ · with routeContextId := · }),
    .bytes 3 (·.exitNodeId) ({ · with exitNodeId := · }),
    .bytes 4 (·.clientSessionId) ({ · with clientSessionId := · }),
    .packedEnumeration 6 (·.allowedTransports) ({ · with allowedTransports := · }),
    .uint64 7 (·.reservedUpMbps) ({ · with reservedUpMbps := · }),
    .uint64 8 (·.reservedDownMbps) ({ · with reservedDownMbps := · }),
    .uint32 9 (·.maximumPaths) ({ · with maximumPaths := · }),
    .bytes 10 (·.policyHash) ({ · with policyHash := · }),
    .uint64 11 (·.createdAtMs) ({ · with createdAtMs := · }),
    .uint64 12 (·.expiresAtMs) ({ · with expiresAtMs := · }),
    .bytes 13 (·.nonce) ({ · with nonce := · }),
    .bytes 14 (·.capabilityId) ({ · with capabilityId := · }),
    .bytes 15 (·.clientSessionPublicKey) ({ · with clientSessionPublicKey := · }),
    .bytes 16 (·.exitBootId) ({ · with exitBootId := · }),
    .bytes 17 (·.holdId) ({ · with holdId := · }),
    .bytes 18 (·.finalizeId) ({ · with finalizeId := · }),
    .bytes 19 (·.controlRelayNodeId) ({ · with controlRelayNodeId := · }),
    .bytes 20 (·.controlRelayPeerId) ({ · with controlRelayPeerId := · }),
    .bytes 21 (·.exitPeerId) ({ · with exitPeerId := · }),
    .message 22 (·.nativeRouteIdentity) ({ · with nativeRouteIdentity := · })]
  messageType := .exitReservation
  validate := ExitReservation.validate
  validateEnvelope _ := ExitReservation.validateEnvelope

/-! ## Relay authorizations and relay reservations -/

/-- Exit-signed authorization for one relay path. -/
structure RelayAuthorization where
  (reservationId routeContextId : Bytes := [])
  pathId : ℕ := 0
  (relayNodeId exitNodeId clientSessionId : Bytes := [])
  allowedTransports : List ℤ := []
  (maximumUpMbps maximumDownMbps : ℕ := 0)
  clientWireguardPublicKey : Bytes := []
  exitWireguardEndpoint : Option WireguardEndpoint := none
  policyHash : Bytes := []
  (createdAtMs expiresAtMs : ℕ := 0)
  (nonce relayPeerId capabilityId clientSessionPublicKey exitBootId holdId finalizeId
    controlRelayNodeId controlRelayPeerId exitPeerId : Bytes := [])
  deriving DecidableEq

/-- Relay-signed acceptance carrying the exit's independently signed grant. -/
structure RelayReservation where
  (reservationId routeContextId : Bytes := [])
  pathId : ℕ := 0
  (relayNodeId exitNodeId clientSessionId : Bytes := [])
  allowedTransports : List ℤ := []
  (maximumUpMbps maximumDownMbps : ℕ := 0)
  clientWireguardPublicKey : Bytes := []
  (relayClientWireguardEndpoint relayExitWireguardEndpoint exitWireguardEndpoint : Option
    WireguardEndpoint := none)
  policyHash : Bytes := []
  (createdAtMs expiresAtMs : ℕ := 0)
  (nonce exitAuthorization relayPeerId capabilityId clientSessionPublicKey exitBootId holdId
    finalizeId controlRelayNodeId controlRelayPeerId exitPeerId signedClientRelayRequestSha256 :
    Bytes := [])
  receiveBudgetRequired : Bool := false
  deriving DecidableEq

/-- The fields that the grants of an exit and of a relay for one path have in common. -/
structure RelayFields where
  reservationId : Bytes
  routeContextId : Bytes
  pathId : ℕ
  relayNodeId : Bytes
  exitNodeId : Bytes
  clientSessionId : Bytes
  relayPeerId : Bytes
  allowedTransports : List ℤ
  maximumUpMbps : ℕ
  maximumDownMbps : ℕ
  clientWireguardPublicKey : Bytes
  exitWireguardEndpoint : Option WireguardEndpoint
  policyHash : Bytes
  createdAtMs : ℕ
  expiresAtMs : ℕ
  capabilityId : Bytes
  clientSessionPublicKey : Bytes
  exitBootId : Bytes
  holdId : Bytes
  finalizeId : Bytes
  controlRelayNodeId : Bytes
  controlRelayPeerId : Bytes
  exitPeerId : Bytes
  deriving DecidableEq

def RelayAuthorization.relayFields (m : RelayAuthorization) : RelayFields :=
  ⟨m.reservationId, m.routeContextId, m.pathId, m.relayNodeId, m.exitNodeId, m.clientSessionId,
    m.relayPeerId, m.allowedTransports, m.maximumUpMbps, m.maximumDownMbps,
    m.clientWireguardPublicKey, m.exitWireguardEndpoint, m.policyHash, m.createdAtMs, m.expiresAtMs,
    m.capabilityId, m.clientSessionPublicKey, m.exitBootId, m.holdId, m.finalizeId,
    m.controlRelayNodeId, m.controlRelayPeerId, m.exitPeerId⟩

def RelayReservation.relayFields (m : RelayReservation) : RelayFields :=
  ⟨m.reservationId, m.routeContextId, m.pathId, m.relayNodeId, m.exitNodeId, m.clientSessionId,
    m.relayPeerId, m.allowedTransports, m.maximumUpMbps, m.maximumDownMbps,
    m.clientWireguardPublicKey, m.exitWireguardEndpoint, m.policyHash, m.createdAtMs, m.expiresAtMs,
    m.capabilityId, m.clientSessionPublicKey, m.exitBootId, m.holdId, m.finalizeId,
    m.controlRelayNodeId, m.controlRelayPeerId, m.exitPeerId⟩

def validateRelayFields (crypto : Crypto) (m : RelayFields) (nonce : Bytes) :
    Except ProtocolError Unit := do
  validateReservationIds m.reservationId m.routeContextId m.clientSessionId
  validatePathId m.pathId "relay path_id"
  requireNonzero 32 m.relayNodeId "relay_node_id"
  requireNonzero 32 m.exitNodeId "exit_node_id"
  refuse (m.relayNodeId = m.exitNodeId) (.invalidField "relay equals exit")
  validatePeerId m.relayPeerId "relay relay_peer_id"
  validatePeerId m.exitPeerId "relay exit_peer_id"
  validateSessionBinding crypto m.clientSessionId m.clientSessionPublicKey
  validateReservationBinding m.capabilityId m.exitBootId m.holdId m.finalizeId m.controlRelayNodeId
    m.controlRelayPeerId
  validateTransports m.allowedTransports "exit_reservation.allowed_transports"
  validateRate m.maximumUpMbps "relay maximum_up_mbps"
  validateRate m.maximumDownMbps "relay maximum_down_mbps"
  requireNonzero 32 m.clientWireguardPublicKey "client_wireguard_public_key"
  let exitEndpoint ← orFail m.exitWireguardEndpoint (.invalidField "exit_wireguard_endpoint")
  exitEndpoint.validate "exit_wireguard_endpoint"
  validateDistinctWireguardKeys [m.clientWireguardPublicKey, exitEndpoint.publicKey]
  requireNonzero 32 m.policyHash "relay policy_hash"
  requireNonzero 32 nonce "relay nonce"
  validateLifetime m.createdAtMs m.expiresAtMs maxReservationLifetimeMs
    (.invalidField "relay lifetime")

namespace RelayAuthorization

def validate (crypto : Crypto) (m : RelayAuthorization) : Except ProtocolError Unit :=
  validateRelayFields crypto m.relayFields m.nonce

def validateEnvelope (m : RelayAuthorization) (envelope : SignedEnvelope) :
    Except ProtocolError Unit :=
  validateSignedFields m.exitNodeId m.createdAtMs m.expiresAtMs m.nonce envelope
    "relay_authorization envelope binding"

end RelayAuthorization

instance : ControlPayload RelayAuthorization where
  toMessage := schema {} [
    .bytes 1 (·.reservationId) ({ · with reservationId := · }),
    .bytes 2 (·.routeContextId) ({ · with routeContextId := · }),
    .uint32 3 (·.pathId) ({ · with pathId := · }),
    .bytes 4 (·.relayNodeId) ({ · with relayNodeId := · }),
    .bytes 5 (·.exitNodeId) ({ · with exitNodeId := · }),
    .bytes 6 (·.clientSessionId) ({ · with clientSessionId := · }),
    .packedEnumeration 8 (·.allowedTransports) ({ · with allowedTransports := · }),
    .uint64 9 (·.maximumUpMbps) ({ · with maximumUpMbps := · }),
    .uint64 10 (·.maximumDownMbps) ({ · with maximumDownMbps := · }),
    .bytes 11 (·.clientWireguardPublicKey) ({ · with clientWireguardPublicKey := · }),
    .message 12 (·.exitWireguardEndpoint) ({ · with exitWireguardEndpoint := · }),
    .bytes 14 (·.policyHash) ({ · with policyHash := · }),
    .uint64 15 (·.createdAtMs) ({ · with createdAtMs := · }),
    .uint64 16 (·.expiresAtMs) ({ · with expiresAtMs := · }),
    .bytes 17 (·.nonce) ({ · with nonce := · }),
    .bytes 18 (·.relayPeerId) ({ · with relayPeerId := · }),
    .bytes 19 (·.capabilityId) ({ · with capabilityId := · }),
    .bytes 20 (·.clientSessionPublicKey) ({ · with clientSessionPublicKey := · }),
    .bytes 21 (·.exitBootId) ({ · with exitBootId := · }),
    .bytes 22 (·.holdId) ({ · with holdId := · }),
    .bytes 23 (·.finalizeId) ({ · with finalizeId := · }),
    .bytes 24 (·.controlRelayNodeId) ({ · with controlRelayNodeId := · }),
    .bytes 25 (·.controlRelayPeerId) ({ · with controlRelayPeerId := · }),
    .bytes 26 (·.exitPeerId) ({ · with exitPeerId := · })]
  messageType := .relayAuthorization
  validate := RelayAuthorization.validate
  validateEnvelope _ := RelayAuthorization.validateEnvelope

namespace RelayReservation

def validate (crypto : Crypto) (m : RelayReservation) : Except ProtocolError Unit := do
  validateRelayFields crypto m.relayFields m.nonce
  let relayClient ← orFail m.relayClientWireguardEndpoint
    (.invalidField "relay_client_wireguard_endpoint")
  relayClient.validate "relay_client_wireguard_endpoint"
  let relayExit ← orFail m.relayExitWireguardEndpoint
    (.invalidField "relay_exit_wireguard_endpoint")
  relayExit.validate "relay_exit_wireguard_endpoint"
  let exit ← orFail m.exitWireguardEndpoint (.invalidField "exit_wireguard_endpoint")
  validateDistinctWireguardKeys
    [m.clientWireguardPublicKey, relayClient.publicKey, relayExit.publicKey, exit.publicKey]
  refuse (relayClient.listenPort = relayExit.listenPort) (.invalidField "relay unique listen ports")
  requireNonzero 32 m.signedClientRelayRequestSha256 "relay signed client request SHA-256"
  let nested : SignedEnvelope ← decodeCanonical m.exitAuthorization maxControlMessageSize
  refuse (nested.messageType ≠ ControlMessageType.relayAuthorization.number)
    (.invalidField "relay_reservation.exit_authorization type")

def validateEnvelope (m : RelayReservation) (envelope : SignedEnvelope) :
    Except ProtocolError Unit :=
  validateSignedFields m.relayNodeId m.createdAtMs m.expiresAtMs m.nonce envelope
    "relay_reservation envelope binding"

end RelayReservation

instance : ControlPayload RelayReservation where
  toMessage := schema {} [
    .bytes 1 (·.reservationId) ({ · with reservationId := · }),
    .bytes 2 (·.routeContextId) ({ · with routeContextId := · }),
    .uint32 3 (·.pathId) ({ · with pathId := · }),
    .bytes 4 (·.relayNodeId) ({ · with relayNodeId := · }),
    .bytes 5 (·.exitNodeId) ({ · with exitNodeId := · }),
    .bytes 6 (·.clientSessionId) ({ · with clientSessionId := · }),
    .packedEnumeration 8 (·.allowedTransports) ({ · with allowedTransports := · }),
    .uint64 9 (·.maximumUpMbps) ({ · with maximumUpMbps := · }),
    .uint64 10 (·.maximumDownMbps) ({ · with maximumDownMbps := · }),
    .bytes 11 (·.clientWireguardPublicKey) ({ · with clientWireguardPublicKey := · }),
    .message 12 (·.relayClientWireguardEndpoint)
      ({ · with relayClientWireguardEndpoint := · }),
    .message 13 (·.relayExitWireguardEndpoint)
      ({ · with relayExitWireguardEndpoint := · }),
    .message 14 (·.exitWireguardEndpoint) ({ · with exitWireguardEndpoint := · }),
    .bytes 16 (·.policyHash) ({ · with policyHash := · }),
    .uint64 17 (·.createdAtMs) ({ · with createdAtMs := · }),
    .uint64 18 (·.expiresAtMs) ({ · with expiresAtMs := · }),
    .bytes 19 (·.nonce) ({ · with nonce := · }),
    .bytes 20 (·.exitAuthorization) ({ · with exitAuthorization := · }),
    .bytes 21 (·.relayPeerId) ({ · with relayPeerId := · }),
    .bytes 22 (·.capabilityId) ({ · with capabilityId := · }),
    .bytes 23 (·.clientSessionPublicKey) ({ · with clientSessionPublicKey := · }),
    .bytes 24 (·.exitBootId) ({ · with exitBootId := · }),
    .bytes 25 (·.holdId) ({ · with holdId := · }),
    .bytes 26 (·.finalizeId) ({ · with finalizeId := · }),
    .bytes 27 (·.controlRelayNodeId) ({ · with controlRelayNodeId := · }),
    .bytes 28 (·.controlRelayPeerId) ({ · with controlRelayPeerId := · }),
    .bytes 29 (·.exitPeerId) ({ · with exitPeerId := · }),
    .bytes 30 (·.signedClientRelayRequestSha256)
      fun m v => { m with signedClientRelayRequestSha256 := v },
    .bool 31 (·.receiveBudgetRequired) ({ · with receiveBudgetRequired := · })]
  messageType := .relayReservation
  validate := RelayReservation.validate
  validateEnvelope _ := RelayReservation.validateEnvelope

/-! ## Confirmations -/

/-- Client-session-signed return of one verified relay grant to the selected exit. -/
structure ExitReservationConfirmation where
  (reservationId routeContextId : Bytes := [])
  pathId : ℕ := 0
  (relayNodeId exitNodeId clientSessionId policyHash relayReservation : Bytes := [])
  (createdAtMs expiresAtMs : ℕ := 0)
  (nonce capabilityId clientSessionPublicKey exitBootId holdId finalizeId controlRelayNodeId
    controlRelayPeerId exitPeerId : Bytes := [])
  deriving DecidableEq

namespace ExitReservationConfirmation

def validate (crypto : Crypto) (m : ExitReservationConfirmation) : Except ProtocolError Unit := do
  validateReservationIds m.reservationId m.routeContextId m.clientSessionId
  validatePathId m.pathId "exit_confirmation.path_id"
  requireNonzero 32 m.relayNodeId "exit_confirmation.relay_node_id"
  requireNonzero 32 m.exitNodeId "exit_confirmation.exit_node_id"
  validatePeerId m.exitPeerId "exit_confirmation.exit_peer_id"
  validateSessionBinding crypto m.clientSessionId m.clientSessionPublicKey
  validateReservationBinding m.capabilityId m.exitBootId m.holdId m.finalizeId m.controlRelayNodeId
    m.controlRelayPeerId
  requireNonzero 32 m.policyHash "exit_confirmation.policy_hash"
  let nested : SignedEnvelope ← decodeCanonical m.relayReservation maxControlMessageSize
  refuse (nested.messageType ≠ ControlMessageType.relayReservation.number)
    (.invalidField "exit_confirmation.relay_reservation type")
  requireNonzero 32 m.nonce "exit_confirmation.nonce"
  validateLifetime m.createdAtMs m.expiresAtMs maxPhaseLifetimeMs
    (.invalidField "exit confirmation lifetime")

def validateEnvelope (m : ExitReservationConfirmation) (envelope : SignedEnvelope) :
    Except ProtocolError Unit :=
  validateSignedFields m.clientSessionId m.createdAtMs m.expiresAtMs m.nonce envelope
    "exit_confirmation envelope binding"

end ExitReservationConfirmation

instance : ControlPayload ExitReservationConfirmation where
  toMessage := schema {} [
    .bytes 1 (·.reservationId) ({ · with reservationId := · }),
    .bytes 2 (·.routeContextId) ({ · with routeContextId := · }),
    .uint32 3 (·.pathId) ({ · with pathId := · }),
    .bytes 4 (·.relayNodeId) ({ · with relayNodeId := · }),
    .bytes 5 (·.exitNodeId) ({ · with exitNodeId := · }),
    .bytes 6 (·.clientSessionId) ({ · with clientSessionId := · }),
    .bytes 8 (·.policyHash) ({ · with policyHash := · }),
    .bytes 9 (·.relayReservation) ({ · with relayReservation := · }),
    .uint64 10 (·.createdAtMs) ({ · with createdAtMs := · }),
    .uint64 11 (·.expiresAtMs) ({ · with expiresAtMs := · }),
    .bytes 12 (·.nonce) ({ · with nonce := · }),
    .bytes 13 (·.capabilityId) ({ · with capabilityId := · }),
    .bytes 14 (·.clientSessionPublicKey) ({ · with clientSessionPublicKey := · }),
    .bytes 15 (·.exitBootId) ({ · with exitBootId := · }),
    .bytes 16 (·.holdId) ({ · with holdId := · }),
    .bytes 17 (·.finalizeId) ({ · with finalizeId := · }),
    .bytes 18 (·.controlRelayNodeId) ({ · with controlRelayNodeId := · }),
    .bytes 19 (·.controlRelayPeerId) ({ · with controlRelayPeerId := · }),
    .bytes 20 (·.exitPeerId) ({ · with exitPeerId := · })]
  messageType := .exitReservationConfirmation
  validate := ExitReservationConfirmation.validate
  validateEnvelope _ := ExitReservationConfirmation.validateEnvelope

/-- Exit-signed positive acknowledgement for one exact confirmation frame. -/
structure ExitConfirmationReceipt where
  (reservationId routeContextId clientSessionId capabilityId holdId finalizeId : Bytes := [])
  pathId : ℕ := 0
  (finalizedBundleHash controlRelayNodeId controlRelayPeerId exitNodeId exitPeerId exitBootId :
    Bytes := [])
  (createdAtMs expiresAtMs : ℕ := 0)
  (nonce confirmationEnvelopeHash : Bytes := [])
  deriving DecidableEq

namespace ExitConfirmationReceipt

def validate (m : ExitConfirmationReceipt) : Except ProtocolError Unit := do
  validateReservationIds m.reservationId m.routeContextId m.clientSessionId
  validateReservationBinding m.capabilityId m.exitBootId m.holdId m.finalizeId m.controlRelayNodeId
    m.controlRelayPeerId
  validatePathId m.pathId "confirmation_receipt.path_id"
  requireNonzero 32 m.finalizedBundleHash "confirmation_receipt.finalized_bundle_hash"
  requireNonzero 32 m.confirmationEnvelopeHash "confirmation_receipt.confirmation_envelope_hash"
  requireNonzero 32 m.exitNodeId "confirmation_receipt.exit_node_id"
  validatePeerId m.exitPeerId "confirmation_receipt.exit_peer_id"
  requireNonzero 32 m.nonce "confirmation_receipt.nonce"
  validateLifetime m.createdAtMs m.expiresAtMs maxPhaseLifetimeMs
    (.invalidField "confirmation receipt lifetime")

def validateEnvelope (m : ExitConfirmationReceipt) (envelope : SignedEnvelope) :
    Except ProtocolError Unit :=
  validateSignedFields m.exitNodeId m.createdAtMs m.expiresAtMs m.nonce envelope
    "confirmation_receipt envelope binding"

end ExitConfirmationReceipt

instance : ControlPayload ExitConfirmationReceipt where
  toMessage := schema {} [
    .bytes 1 (·.reservationId) ({ · with reservationId := · }),
    .bytes 2 (·.routeContextId) ({ · with routeContextId := · }),
    .bytes 3 (·.clientSessionId) ({ · with clientSessionId := · }),
    .bytes 4 (·.capabilityId) ({ · with capabilityId := · }),
    .bytes 5 (·.holdId) ({ · with holdId := · }),
    .bytes 6 (·.finalizeId) ({ · with finalizeId := · }),
    .uint32 7 (·.pathId) ({ · with pathId := · }),
    .bytes 8 (·.finalizedBundleHash) ({ · with finalizedBundleHash := · }),
    .bytes 9 (·.controlRelayNodeId) ({ · with controlRelayNodeId := · }),
    .bytes 10 (·.controlRelayPeerId) ({ · with controlRelayPeerId := · }),
    .bytes 11 (·.exitNodeId) ({ · with exitNodeId := · }),
    .bytes 12 (·.exitPeerId) ({ · with exitPeerId := · }),
    .bytes 13 (·.exitBootId) ({ · with exitBootId := · }),
    .uint64 14 (·.createdAtMs) ({ · with createdAtMs := · }),
    .uint64 15 (·.expiresAtMs) ({ · with expiresAtMs := · }),
    .bytes 16 (·.nonce) ({ · with nonce := · }),
    .bytes 17 (·.confirmationEnvelopeHash) ({ · with confirmationEnvelopeHash := · })]
  messageType := .exitConfirmationReceipt
  validate _ := ExitConfirmationReceipt.validate
  validateEnvelope _ := ExitConfirmationReceipt.validateEnvelope

/-! ## Grants inside grants, and digests of grants -/

def finalizedBundleDomain : Bytes := ascii "volparossa/finalized-reservation-bundle/v4\x00"

def confirmationEnvelopeDomain : Bytes := ascii "volparossa/exit-confirmation-envelope/v4\x00"

/-- A relay repeats exactly what the exit granted. -/
def sameRelayGrant (relay : RelayReservation) (exit : RelayAuthorization) : Bool :=
  relay.relayFields = exit.relayFields

/-- The scope of a finalized exit grant and of the authorization of one of its paths. -/
def sameFinalizedScope (exit : ExitReservation) (path : RelayAuthorization) : Bool :=
  path.reservationId = exit.reservationId ∧ path.routeContextId = exit.routeContextId ∧
  path.exitNodeId = exit.exitNodeId ∧ path.clientSessionId = exit.clientSessionId ∧
  path.allowedTransports = exit.allowedTransports ∧ path.maximumUpMbps = exit.reservedUpMbps ∧
  path.maximumDownMbps = exit.reservedDownMbps ∧ path.policyHash = exit.policyHash ∧
  path.createdAtMs = exit.createdAtMs ∧ path.expiresAtMs = exit.expiresAtMs ∧
  path.capabilityId = exit.capabilityId ∧
  path.clientSessionPublicKey = exit.clientSessionPublicKey ∧ path.exitBootId = exit.exitBootId ∧
  path.holdId = exit.holdId ∧ path.finalizeId = exit.finalizeId ∧
  path.controlRelayNodeId = exit.controlRelayNodeId ∧
  path.controlRelayPeerId = exit.controlRelayPeerId ∧ path.exitPeerId = exit.exitPeerId

variable (crypto : Crypto)

/-- **Verify a relay's grant and the exit's grant inside it.** What was recorded of one is taken
back when the other fails, and both when they differ. -/
def verifyRelayReservation (encoded : Bytes) (nowMs : ℕ) (policy : TimePolicy)
    (cache : ReplayCache) : Except ProtocolError (VerifiedControlMessage RelayReservation ×
      VerifiedControlMessage RelayAuthorization) × ReplayCache :=
  match verifyControlMessage (T := RelayReservation) crypto encoded nowMs policy cache with
  | (.error e, cache) => (.error e, cache)
  | (.ok relay, cache) =>
    match verifyControlMessage (T := RelayAuthorization) crypto relay.message.exitAuthorization
        nowMs policy cache with
    | (.error e, cache) => (.error e, (cache.rollback relay.key).2)
    | (.ok exit, cache) =>
      if sameRelayGrant relay.message exit.message then (.ok (relay, exit), cache)
      else (.error (.invalidField "relay reservation differs from exit authorization"),
        ((cache.rollback relay.key).2.rollback exit.key).2)

/-- A member of a bundle, after its length. -/
def bundleMember (encoded : Bytes) : Except ProtocolError Bytes := do
  refuse (2 ^ 32 ≤ encoded.length) (.invalidField "finalized bundle member length")
  pure ((FixedBytes.ofNat 4 encoded.length).toBytes ++ encoded)

/-- Hash one exact canonical client-signed exit-confirmation envelope. -/
def exitConfirmationEnvelopeHash (signedConfirmation : Bytes) :
    Except ProtocolError (FixedBytes 32) := do
  let envelope : SignedEnvelope ← decodeCanonical signedConfirmation maxControlMessageSize
  refuse (envelope.protocolVersion ≠ protocolVersion ∨
    envelope.messageType ≠ ControlMessageType.exitReservationConfirmation.number)
    (.invalidField "exit confirmation envelope hash")
  let hashed ← bundleMember signedConfirmation
  pure (crypto.sha256 (confirmationEnvelopeDomain ++ hashed))

/-- The members of a bundle so far: the last path number, and the bytes to be hashed. -/
def bundleStep (exit : ExitReservation) (acc : ℕ × Bytes) (encoded : Bytes) :
    Except ProtocolError (ℕ × Bytes) := do
  let envelope : SignedEnvelope ← decodeCanonical encoded maxControlMessageSize
  refuse (envelope.protocolVersion ≠ protocolVersion ∨
    envelope.messageType ≠ ControlMessageType.relayAuthorization.number)
    (.invalidField "finalized bundle relay authorization")
  let authorization : RelayAuthorization ← decodeCanonical envelope.payload maxControlPayloadSize
  authorization.validate crypto
  authorization.validateEnvelope envelope
  refuse (authorization.pathId ≤ acc.1 ∨ sameFinalizedScope exit authorization = false)
    (.invalidField "finalized bundle authorization scope")
  let hashed ← bundleMember encoded
  pure (authorization.pathId, acc.2 ++ hashed)

/-- Hash one canonical finalized exit grant and its exact ordered authorization set. -/
def finalizedReservationBundleHash (signedExitReservation : Bytes)
    (relayAuthorizations : List Bytes) : Except ProtocolError (FixedBytes 32) := do
  let envelope : SignedEnvelope ← decodeCanonical signedExitReservation maxControlMessageSize
  refuse (envelope.protocolVersion ≠ protocolVersion ∨
    envelope.messageType ≠ ControlMessageType.exitReservation.number)
    (.invalidField "finalized bundle exit grant")
  let exit : ExitReservation ← decodeCanonical envelope.payload maxControlPayloadSize
  exit.validate crypto
  exit.validateEnvelope envelope
  refuse (relayAuthorizations.length ≠ exit.maximumPaths ∨
    ¬(1 ≤ exit.maximumPaths ∧ exit.maximumPaths ≤ 8)) (.invalidField "finalized bundle path count")
  let hashed ← bundleMember signedExitReservation
  let (_, hashed) ← relayAuthorizations.foldlM (bundleStep crypto exit)
    (0, finalizedBundleDomain ++ hashed)
  pure (crypto.sha256 hashed)

end Volparossa.Protocol
