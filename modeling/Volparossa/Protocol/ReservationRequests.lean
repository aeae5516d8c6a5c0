import Volparossa.Protocol.Messages

/-!
# Reservation requests and their proofs

The messages of the phases before a grant: a client asks an exit to hold capacity, the exit answers
with a capability for the client's session and a hold, the client asks for permits to probe relays,
a relay reports what a probe measured, and the client asks the exit to finalize an exact set of
relay paths and each relay to reserve one. The messages carry the signed messages of earlier phases,
of which the receiver checks the type at once (`validateNested`).
-/

namespace Volparossa.Protocol

open Protobuf

open Transaction (Crypto)

/-! ## Checks on fields -/

def maxProbeLifetimeMs : ℕ := 30 * 1000

def maxProbeWindowMs : ℕ := 10 * 1000

def maxProbeRttUs : ℕ := 60 * 1000 * 1000

/-- A nested message is an envelope of the expected type. -/
def validateNested (encoded : Bytes) (expected : ControlMessageType) (field : String) :
    Except ProtocolError Unit := do
  refuse (encoded = [] ∨ encoded.length > maxControlMessageSize) (.invalidField field)
  let envelope : SignedEnvelope ← decodeCanonical encoded maxControlMessageSize
  refuse (envelope.messageType ≠ expected.number) (.invalidField field)

def validateBaseIds (reservationId routeContextId clientSessionId : Bytes) :
    Except ProtocolError Unit := do
  requireNonzero 16 reservationId "reservation_id"
  requireNonzero 16 routeContextId "route_context_id"
  refuse (reservationId = routeContextId) (.invalidField "distinct reservation ids")
  requireNonzero 32 clientSessionId "client_session_id"

def validateControlRelay (nodeId peerId : Bytes) : Except ProtocolError Unit := do
  requireNonzero 32 nodeId "control_relay_node_id"
  validatePeerId peerId "control_relay_peer_id"

def validateTransport (value : ℤ) (field : String) : Except ProtocolError Unit :=
  refuse (isTransport value = false) (.invalidField field)

def validateFamily (value : ℤ) (field : String) : Except ProtocolError Unit := do
  let family ← orFail (ProbeAddressFamily.tryFrom value) (.invalidField field)
  refuse (family = .unspecified) (.invalidField field)

def validateScope (transports : List ℤ) (upMbps downMbps maximumPaths probePermitLimit : ℕ)
    (policyHash : Bytes) : Except ProtocolError Unit := do
  validateTransports transports "allowed_transports"
  validateRate upMbps "reservation_scope.up_mbps"
  validateRate downMbps "reservation_scope.down_mbps"
  refuse (¬(1 ≤ maximumPaths ∧ maximumPaths ≤ 8)) (.invalidField "reservation_scope.maximum_paths")
  refuse (¬(maximumPaths ≤ probePermitLimit ∧ probePermitLimit ≤ 8))
    (.invalidField "reservation_scope.probe_permit_limit")
  requireNonzero 32 policyHash "reservation_scope.policy_hash"

/-- Byte strings of one length that are not zero, each with the field it stands in. -/
def requireNonzeros (n : ℕ) (values : List (Bytes × String)) : Except ProtocolError Unit :=
  values.forM fun (value, field) => requireNonzero n value field

/-! ## Capacity holds -/

/-- Exit-signed bounded proof of possession for one fresh route-attempt key. -/
structure ClientSessionCapability where
  (capabilityId reservationId routeContextId clientSessionId clientSessionPublicKey exitNodeId
    exitBootId controlRelayNodeId controlRelayPeerId policyHash : Bytes := [])
  allowedTransports : List ℤ := []
  (reservedUpMbps reservedDownMbps maximumPaths createdAtMs expiresAtMs : ℕ := 0)
  (nonce exitPeerId : Bytes := [])
  probePermitLimit : ℕ := 0
  deriving DecidableEq

namespace ClientSessionCapability

def validate (crypto : Crypto) (m : ClientSessionCapability) : Except ProtocolError Unit := do
  requireNonzero 16 m.capabilityId "session_capability.capability_id"
  validateBaseIds m.reservationId m.routeContextId m.clientSessionId
  validateSessionBinding crypto m.clientSessionId m.clientSessionPublicKey
  requireNonzero 32 m.exitNodeId "session_capability.exit_node_id"
  validatePeerId m.exitPeerId "session_capability.exit_peer_id"
  requireNonzero 16 m.exitBootId "session_capability.exit_boot_id"
  validateControlRelay m.controlRelayNodeId m.controlRelayPeerId
  validateScope m.allowedTransports m.reservedUpMbps m.reservedDownMbps m.maximumPaths
    m.probePermitLimit m.policyHash
  requireNonzero 32 m.nonce "session_capability.nonce"
  validateLifetime m.createdAtMs m.expiresAtMs maxReservationLifetimeMs .invalidLifetime

def validateEnvelope (m : ClientSessionCapability) (envelope : SignedEnvelope) :
    Except ProtocolError Unit :=
  validateSignedFields m.exitNodeId m.createdAtMs m.expiresAtMs m.nonce envelope
    "session_capability envelope binding"

end ClientSessionCapability

instance : ControlPayload ClientSessionCapability where
  toMessage := schema {} [
    .bytes 1 (·.capabilityId) ({ · with capabilityId := · }),
    .bytes 2 (·.reservationId) ({ · with reservationId := · }),
    .bytes 3 (·.routeContextId) ({ · with routeContextId := · }),
    .bytes 4 (·.clientSessionId) ({ · with clientSessionId := · }),
    .bytes 5 (·.clientSessionPublicKey) ({ · with clientSessionPublicKey := · }),
    .bytes 6 (·.exitNodeId) ({ · with exitNodeId := · }),
    .bytes 7 (·.exitBootId) ({ · with exitBootId := · }),
    .bytes 8 (·.controlRelayNodeId) ({ · with controlRelayNodeId := · }),
    .bytes 9 (·.controlRelayPeerId) ({ · with controlRelayPeerId := · }),
    .bytes 10 (·.policyHash) ({ · with policyHash := · }),
    .packedEnumeration 11 (·.allowedTransports) ({ · with allowedTransports := · }),
    .uint64 12 (·.reservedUpMbps) ({ · with reservedUpMbps := · }),
    .uint64 13 (·.reservedDownMbps) ({ · with reservedDownMbps := · }),
    .uint32 14 (·.maximumPaths) ({ · with maximumPaths := · }),
    .uint64 15 (·.createdAtMs) ({ · with createdAtMs := · }),
    .uint64 16 (·.expiresAtMs) ({ · with expiresAtMs := · }),
    .bytes 17 (·.nonce) ({ · with nonce := · }),
    .bytes 18 (·.exitPeerId) ({ · with exitPeerId := · }),
    .uint32 19 (·.probePermitLimit) ({ · with probePermitLimit := · })]
  messageType := .clientSessionCapability
  validate := ClientSessionCapability.validate
  validateEnvelope _ := ClientSessionCapability.validateEnvelope

/-- Exit-signed proof that capacity is held without committing to relays. -/
structure ExitCapacityHold where
  (holdId clientSessionCapability reservationId routeContextId exitNodeId exitBootId clientSessionId
    policyHash : Bytes := [])
  allowedTransports : List ℤ := []
  (reservedUpMbps reservedDownMbps maximumPaths createdAtMs expiresAtMs : ℕ := 0)
  (nonce exitPeerId controlRelayNodeId controlRelayPeerId : Bytes := [])
  (reservationExpiresAtMs probePermitLimit : ℕ := 0)
  deriving DecidableEq

namespace ExitCapacityHold

def validate (m : ExitCapacityHold) : Except ProtocolError Unit := do
  requireNonzero 16 m.holdId "capacity_hold.hold_id"
  validateNested m.clientSessionCapability .clientSessionCapability
    "capacity_hold.client_session_capability"
  validateBaseIds m.reservationId m.routeContextId m.clientSessionId
  requireNonzero 32 m.exitNodeId "capacity_hold.exit_node_id"
  validatePeerId m.exitPeerId "capacity_hold.exit_peer_id"
  requireNonzero 16 m.exitBootId "capacity_hold.exit_boot_id"
  validateControlRelay m.controlRelayNodeId m.controlRelayPeerId
  validateScope m.allowedTransports m.reservedUpMbps m.reservedDownMbps m.maximumPaths
    m.probePermitLimit m.policyHash
  requireNonzero 32 m.nonce "capacity_hold.nonce"
  validateLifetime m.createdAtMs m.expiresAtMs maxProbeLifetimeMs .invalidLifetime
  validateLifetime m.createdAtMs m.reservationExpiresAtMs maxReservationLifetimeMs .invalidLifetime
  refuse (m.reservationExpiresAtMs < m.expiresAtMs) .invalidLifetime

def validateEnvelope (m : ExitCapacityHold) (envelope : SignedEnvelope) :
    Except ProtocolError Unit :=
  validateSignedFields m.exitNodeId m.createdAtMs m.expiresAtMs m.nonce envelope
    "capacity_hold envelope binding"

end ExitCapacityHold

instance : ControlPayload ExitCapacityHold where
  toMessage := schema {} [
    .bytes 1 (·.holdId) ({ · with holdId := · }),
    .bytes 2 (·.clientSessionCapability) ({ · with clientSessionCapability := · }),
    .bytes 3 (·.reservationId) ({ · with reservationId := · }),
    .bytes 4 (·.routeContextId) ({ · with routeContextId := · }),
    .bytes 5 (·.exitNodeId) ({ · with exitNodeId := · }),
    .bytes 6 (·.exitBootId) ({ · with exitBootId := · }),
    .bytes 7 (·.clientSessionId) ({ · with clientSessionId := · }),
    .bytes 8 (·.policyHash) ({ · with policyHash := · }),
    .packedEnumeration 9 (·.allowedTransports) ({ · with allowedTransports := · }),
    .uint64 10 (·.reservedUpMbps) ({ · with reservedUpMbps := · }),
    .uint64 11 (·.reservedDownMbps) ({ · with reservedDownMbps := · }),
    .uint32 12 (·.maximumPaths) ({ · with maximumPaths := · }),
    .uint64 13 (·.createdAtMs) ({ · with createdAtMs := · }),
    .uint64 14 (·.expiresAtMs) ({ · with expiresAtMs := · }),
    .bytes 15 (·.nonce) ({ · with nonce := · }),
    .bytes 16 (·.exitPeerId) ({ · with exitPeerId := · }),
    .bytes 17 (·.controlRelayNodeId) ({ · with controlRelayNodeId := · }),
    .bytes 18 (·.controlRelayPeerId) ({ · with controlRelayPeerId := · }),
    .uint64 19 (·.reservationExpiresAtMs) ({ · with reservationExpiresAtMs := · }),
    .uint32 20 (·.probePermitLimit) ({ · with probePermitLimit := · })]
  messageType := .exitCapacityHold
  validate _ := ExitCapacityHold.validate
  validateEnvelope _ := ExitCapacityHold.validateEnvelope

/-! ## Probes -/

/-- Client-session-signed request for one exit-issued bounded probe permit. -/
structure RelayProbePermitRequest where
  (probeId exitCapacityHold clientSessionCapability : Bytes := [])
  pathId : ℕ := 0
  (relayNodeId relayPeerId clientSessionId controlRelayNodeId controlRelayPeerId : Bytes := [])
  (createdAtMs expiresAtMs : ℕ := 0)
  (nonce exitNodeId exitPeerId : Bytes := [])
  (transport addressFamily : ℤ := 0)
  deriving DecidableEq

namespace RelayProbePermitRequest

def validate (m : RelayProbePermitRequest) : Except ProtocolError Unit := do
  requireNonzero 16 m.probeId "probe_request.probe_id"
  validateNested m.exitCapacityHold .exitCapacityHold "probe_request.exit_capacity_hold"
  validateNested m.clientSessionCapability .clientSessionCapability
    "probe_request.client_session_capability"
  validatePathId m.pathId "probe_request.path_id"
  requireNonzero 32 m.relayNodeId "probe_request.relay_node_id"
  validatePeerId m.relayPeerId "probe_request.relay_peer_id"
  requireNonzero 32 m.clientSessionId "probe_request.client_session_id"
  requireNonzero 32 m.exitNodeId "probe_request.exit_node_id"
  validatePeerId m.exitPeerId "probe_request.exit_peer_id"
  validateControlRelay m.controlRelayNodeId m.controlRelayPeerId
  validateTransport m.transport "probe_request.transport"
  validateFamily m.addressFamily "probe_request.address_family"
  requireNonzero 32 m.nonce "probe_request.nonce"
  validateLifetime m.createdAtMs m.expiresAtMs maxProbeLifetimeMs .invalidLifetime

def validateEnvelope (m : RelayProbePermitRequest) (envelope : SignedEnvelope) :
    Except ProtocolError Unit :=
  validateSignedFields m.clientSessionId m.createdAtMs m.expiresAtMs m.nonce envelope
    "probe_request envelope binding"

end RelayProbePermitRequest

instance : ControlPayload RelayProbePermitRequest where
  toMessage := schema {} [
    .bytes 1 (·.probeId) ({ · with probeId := · }),
    .bytes 2 (·.exitCapacityHold) ({ · with exitCapacityHold := · }),
    .bytes 3 (·.clientSessionCapability) ({ · with clientSessionCapability := · }),
    .uint32 4 (·.pathId) ({ · with pathId := · }),
    .bytes 5 (·.relayNodeId) ({ · with relayNodeId := · }),
    .bytes 6 (·.relayPeerId) ({ · with relayPeerId := · }),
    .bytes 7 (·.clientSessionId) ({ · with clientSessionId := · }),
    .bytes 8 (·.controlRelayNodeId) ({ · with controlRelayNodeId := · }),
    .bytes 9 (·.controlRelayPeerId) ({ · with controlRelayPeerId := · }),
    .uint64 10 (·.createdAtMs) ({ · with createdAtMs := · }),
    .uint64 11 (·.expiresAtMs) ({ · with expiresAtMs := · }),
    .bytes 12 (·.nonce) ({ · with nonce := · }),
    .bytes 13 (·.exitNodeId) ({ · with exitNodeId := · }),
    .bytes 14 (·.exitPeerId) ({ · with exitPeerId := · }),
    .enumeration 15 (·.transport) ({ · with transport := · }),
    .enumeration 16 (·.addressFamily) ({ · with addressFamily := · })]
  messageType := .relayProbePermitRequest
  validate _ := RelayProbePermitRequest.validate
  validateEnvelope _ := RelayProbePermitRequest.validateEnvelope

/-- Exit-signed authorization for one exact, short, bounded relay probe. -/
structure RelayProbePermit where
  (probeId holdId capabilityId reservationId routeContextId clientSessionId exitNodeId exitBootId
    controlRelayNodeId controlRelayPeerId relayNodeId relayPeerId : Bytes := [])
  (pathId createdAtMs expiresAtMs : ℕ := 0)
  (nonce exitPeerId policyHash : Bytes := [])
  (transport addressFamily : ℤ := 0)
  deriving DecidableEq

namespace RelayProbePermit

def validate (m : RelayProbePermit) : Except ProtocolError Unit := do
  requireNonzeros 16 [(m.probeId, "probe_permit.probe_id"), (m.holdId, "probe_permit.hold_id"),
    (m.capabilityId, "probe_permit.capability_id"),
    (m.reservationId, "probe_permit.reservation_id"),
    (m.routeContextId, "probe_permit.route_context_id"),
    (m.exitBootId, "probe_permit.exit_boot_id")]
  requireNonzeros 32 [(m.clientSessionId, "probe_permit.client_session_id"),
    (m.exitNodeId, "probe_permit.exit_node_id"),
    (m.controlRelayNodeId, "probe_permit.control_relay_node_id"),
    (m.relayNodeId, "probe_permit.relay_node_id"), (m.policyHash, "probe_permit.policy_hash")]
  validatePeerId m.exitPeerId "probe_permit.exit_peer_id"
  validatePeerId m.controlRelayPeerId "probe_permit.control_relay_peer_id"
  validatePeerId m.relayPeerId "probe_permit.relay_peer_id"
  validatePathId m.pathId "probe_permit.path_id"
  validateTransport m.transport "probe_permit.transport"
  validateFamily m.addressFamily "probe_permit.address_family"
  requireNonzero 32 m.nonce "probe_permit.nonce"
  validateLifetime m.createdAtMs m.expiresAtMs maxProbeLifetimeMs .invalidLifetime

def validateEnvelope (m : RelayProbePermit) (envelope : SignedEnvelope) :
    Except ProtocolError Unit :=
  validateSignedFields m.exitNodeId m.createdAtMs m.expiresAtMs m.nonce envelope
    "probe_permit envelope binding"

end RelayProbePermit

instance : ControlPayload RelayProbePermit where
  toMessage := schema {} [
    .bytes 1 (·.probeId) ({ · with probeId := · }),
    .bytes 2 (·.holdId) ({ · with holdId := · }),
    .bytes 3 (·.capabilityId) ({ · with capabilityId := · }),
    .bytes 4 (·.reservationId) ({ · with reservationId := · }),
    .bytes 5 (·.routeContextId) ({ · with routeContextId := · }),
    .bytes 6 (·.clientSessionId) ({ · with clientSessionId := · }),
    .bytes 7 (·.exitNodeId) ({ · with exitNodeId := · }),
    .bytes 8 (·.exitBootId) ({ · with exitBootId := · }),
    .bytes 9 (·.controlRelayNodeId) ({ · with controlRelayNodeId := · }),
    .bytes 10 (·.controlRelayPeerId) ({ · with controlRelayPeerId := · }),
    .bytes 11 (·.relayNodeId) ({ · with relayNodeId := · }),
    .bytes 12 (·.relayPeerId) ({ · with relayPeerId := · }),
    .uint32 13 (·.pathId) ({ · with pathId := · }),
    .uint64 14 (·.createdAtMs) ({ · with createdAtMs := · }),
    .uint64 15 (·.expiresAtMs) ({ · with expiresAtMs := · }),
    .bytes 16 (·.nonce) ({ · with nonce := · }),
    .bytes 17 (·.exitPeerId) ({ · with exitPeerId := · }),
    .bytes 18 (·.policyHash) ({ · with policyHash := · }),
    .enumeration 19 (·.transport) ({ · with transport := · }),
    .enumeration 20 (·.addressFamily) ({ · with addressFamily := · })]
  messageType := .relayProbePermit
  validate _ := RelayProbePermit.validate
  validateEnvelope _ := RelayProbePermit.validateEnvelope

/-- One required directional leg measurement inside a controlled probe window. -/
structure ProbeLegEvidence where
  (upCapacityMbps downCapacityMbps rttMicros transmittedBytes receivedBytes windowStartedAtMs
    windowEndedAtMs measuredAtMs : ℕ := 0)
  deriving DecidableEq

instance : Message ProbeLegEvidence := schema {} [
  .uint64 1 (·.upCapacityMbps) ({ · with upCapacityMbps := · }),
  .uint64 2 (·.downCapacityMbps) ({ · with downCapacityMbps := · }),
  .uint64 3 (·.rttMicros) ({ · with rttMicros := · }),
  .uint64 4 (·.transmittedBytes) ({ · with transmittedBytes := · }),
  .uint64 5 (·.receivedBytes) ({ · with receivedBytes := · }),
  .uint64 6 (·.windowStartedAtMs) ({ · with windowStartedAtMs := · }),
  .uint64 7 (·.windowEndedAtMs) ({ · with windowEndedAtMs := · }),
  .uint64 8 (·.measuredAtMs) ({ · with measuredAtMs := · })]

def ProbeLegEvidence.validate (evidence : ProbeLegEvidence) (field : String) :
    Except ProtocolError Unit := do
  validateRate evidence.upCapacityMbps field
  validateRate evidence.downCapacityMbps field
  refuse (evidence.rttMicros = 0 ∨ evidence.rttMicros > maxProbeRttUs ∨
    evidence.transmittedBytes = 0 ∨ evidence.receivedBytes = 0 ∨
    evidence.measuredAtMs < evidence.windowStartedAtMs ∨
    evidence.measuredAtMs > evidence.windowEndedAtMs) (.invalidField field)
  validateLifetime evidence.windowStartedAtMs evidence.windowEndedAtMs maxProbeWindowMs
    .invalidLifetime

/-- Relay-signed structured observations for one exact probe permit. -/
structure RelayProbeResult where
  (probeId relayProbePermit relayNodeId relayPeerId exitNodeId exitPeerId exitBootId holdId
    capabilityId reservationId routeContextId clientSessionId policyHash : Bytes := [])
  (transport addressFamily : ℤ := 0)
  (clientRelay relayExit : Option ProbeLegEvidence := none)
  (measuredAtMs expiresAtMs : ℕ := 0)
  nonce : Bytes := []
  deriving DecidableEq

namespace RelayProbeResult

def validate (m : RelayProbeResult) : Except ProtocolError Unit := do
  validateNested m.relayProbePermit .relayProbePermit "probe_result.relay_probe_permit"
  requireNonzeros 16 [(m.probeId, "probe_result.probe_id"), (m.holdId, "probe_result.hold_id"),
    (m.capabilityId, "probe_result.capability_id"),
    (m.reservationId, "probe_result.reservation_id"),
    (m.routeContextId, "probe_result.route_context_id"),
    (m.exitBootId, "probe_result.exit_boot_id")]
  requireNonzeros 32 [(m.relayNodeId, "probe_result.relay_node_id"),
    (m.exitNodeId, "probe_result.exit_node_id"),
    (m.clientSessionId, "probe_result.client_session_id"),
    (m.policyHash, "probe_result.policy_hash")]
  validatePeerId m.relayPeerId "probe_result.relay_peer_id"
  validatePeerId m.exitPeerId "probe_result.exit_peer_id"
  validateTransport m.transport "probe_result.transport"
  validateFamily m.addressFamily "probe_result.address_family"
  let clientRelay ← orFail m.clientRelay (.invalidField "probe_result.client_relay")
  let relayExit ← orFail m.relayExit (.invalidField "probe_result.relay_exit")
  clientRelay.validate "probe_result.client_relay"
  relayExit.validate "probe_result.relay_exit"
  refuse (clientRelay.windowStartedAtMs ≠ relayExit.windowStartedAtMs ∨
    clientRelay.windowEndedAtMs ≠ relayExit.windowEndedAtMs ∨
    m.measuredAtMs < clientRelay.windowStartedAtMs ∨ m.measuredAtMs > clientRelay.windowEndedAtMs)
    (.invalidField "probe_result controlled window")
  requireNonzero 32 m.nonce "probe_result.nonce"
  validateLifetime m.measuredAtMs m.expiresAtMs maxProbeLifetimeMs .invalidLifetime

def validateEnvelope (m : RelayProbeResult) (envelope : SignedEnvelope) :
    Except ProtocolError Unit :=
  validateSignedFields m.relayNodeId m.measuredAtMs m.expiresAtMs m.nonce envelope
    "probe_result envelope binding"

end RelayProbeResult

instance : ControlPayload RelayProbeResult where
  toMessage := schema {} [
    .bytes 1 (·.probeId) ({ · with probeId := · }),
    .bytes 2 (·.relayProbePermit) ({ · with relayProbePermit := · }),
    .bytes 3 (·.relayNodeId) ({ · with relayNodeId := · }),
    .bytes 4 (·.relayPeerId) ({ · with relayPeerId := · }),
    .bytes 5 (·.exitNodeId) ({ · with exitNodeId := · }),
    .bytes 6 (·.exitPeerId) ({ · with exitPeerId := · }),
    .bytes 7 (·.exitBootId) ({ · with exitBootId := · }),
    .bytes 8 (·.holdId) ({ · with holdId := · }),
    .bytes 9 (·.capabilityId) ({ · with capabilityId := · }),
    .bytes 10 (·.reservationId) ({ · with reservationId := · }),
    .bytes 11 (·.routeContextId) ({ · with routeContextId := · }),
    .bytes 12 (·.clientSessionId) ({ · with clientSessionId := · }),
    .bytes 13 (·.policyHash) ({ · with policyHash := · }),
    .enumeration 14 (·.transport) ({ · with transport := · }),
    .enumeration 15 (·.addressFamily) ({ · with addressFamily := · }),
    .message 16 (·.clientRelay) ({ · with clientRelay := · }),
    .message 17 (·.relayExit) ({ · with relayExit := · }),
    .uint64 18 (·.measuredAtMs) ({ · with measuredAtMs := · }),
    .uint64 19 (·.expiresAtMs) ({ · with expiresAtMs := · }),
    .bytes 20 (·.nonce) ({ · with nonce := · })]
  messageType := .relayProbeResult
  validate _ := RelayProbeResult.validate
  validateEnvelope _ := RelayProbeResult.validateEnvelope

/-! ## Finalization and relay requests -/

/-- One exact relay path submitted only during finalization. -/
structure FinalizedRelayPath where
  pathId : ℕ := 0
  (relayNodeId relayPeerId clientWireguardPublicKey relayProbePermit relayProbeResult : Bytes := [])
  deriving DecidableEq

instance : Message FinalizedRelayPath := schema {} [
  .uint32 1 (·.pathId) ({ · with pathId := · }),
  .bytes 2 (·.relayNodeId) ({ · with relayNodeId := · }),
  .bytes 3 (·.relayPeerId) ({ · with relayPeerId := · }),
  .bytes 4 (·.clientWireguardPublicKey) ({ · with clientWireguardPublicKey := · }),
  .bytes 6 (·.relayProbePermit) ({ · with relayProbePermit := · }),
  .bytes 7 (·.relayProbeResult) ({ · with relayProbeResult := · })]

/-- What the paths of a finalization so far have: the last path number, and the relays, relay peers
and client keys. -/
structure FinalizedPaths where
  previousPathId : ℕ := 0
  (relays relayPeers keys : List Bytes := [])

/-- One more path of a finalization. -/
def FinalizedPaths.next (seen : FinalizedPaths) (path : FinalizedRelayPath) :
    Except ProtocolError FinalizedPaths := do
  validatePathId path.pathId "finalize_request.path_id"
  refuse (path.pathId ≤ seen.previousPathId) (.invalidField "finalize_request path order")
  requireNonzero 32 path.relayNodeId "finalize_request.relay_node_id"
  refuse (path.relayNodeId ∈ seen.relays) (.invalidField "finalize_request distinct relays")
  validatePeerId path.relayPeerId "finalize_request.relay_peer_id"
  refuse (path.relayPeerId ∈ seen.relayPeers)
    (.invalidField "finalize_request distinct relay peers")
  requireNonzero 32 path.clientWireguardPublicKey "finalize_request.client_wireguard_public_key"
  refuse (path.clientWireguardPublicKey ∈ seen.keys)
    (.invalidField "finalize_request distinct client keys")
  validateNested path.relayProbePermit .relayProbePermit "finalize_request.relay_probe_permit"
  validateNested path.relayProbeResult .relayProbeResult "finalize_request.relay_probe_result"
  pure ⟨path.pathId, path.relayNodeId :: seen.relays, path.relayPeerId :: seen.relayPeers,
    path.clientWireguardPublicKey :: seen.keys⟩

def validateFinalizedPaths (paths : List FinalizedRelayPath) : Except ProtocolError Unit := do
  refuse (paths = [] ∨ paths.length > 8) (.invalidField "finalize_request.relay_paths")
  let _ ← paths.foldlM FinalizedPaths.next {}

def validateMasqueContext (value : ℕ) : Except ProtocolError Unit :=
  refuse (value = 0 ∨ value > maxMasqueContextId)
    (.invalidField "finalize_request.masque_context_id")

/-- Client-session-signed request to finalize one held capacity allocation. -/
structure ExitReservationFinalizeRequest where
  (reservationId routeContextId exitNodeId clientSessionId clientSessionCapability exitCapacityHold
    : Bytes := [])
  relayPaths : List FinalizedRelayPath := []
  (createdAtMs expiresAtMs : ℕ := 0)
  (nonce controlRelayNodeId controlRelayPeerId finalizeId exitPeerId authCommitment : Bytes := [])
  masqueContextId : ℕ := 0
  clientNativeInstanceId : Bytes := []
  deriving DecidableEq

namespace ExitReservationFinalizeRequest

def validate (m : ExitReservationFinalizeRequest) : Except ProtocolError Unit := do
  validateBaseIds m.reservationId m.routeContextId m.clientSessionId
  requireNonzero 32 m.exitNodeId "finalize_request.exit_node_id"
  validatePeerId m.exitPeerId "finalize_request.exit_peer_id"
  validateControlRelay m.controlRelayNodeId m.controlRelayPeerId
  requireNonzero 16 m.finalizeId "finalize_request.finalize_id"
  validateNested m.clientSessionCapability .clientSessionCapability
    "finalize_request.client_session_capability"
  validateNested m.exitCapacityHold .exitCapacityHold "finalize_request.exit_capacity_hold"
  validateFinalizedPaths m.relayPaths
  requireNonzero 32 m.authCommitment "finalize_request.auth_commitment"
  validateMasqueContext m.masqueContextId
  requireNonzero 32 m.clientNativeInstanceId "finalize_request.client_native_instance_id"
  requireNonzero 32 m.nonce "finalize_request.nonce"
  validateLifetime m.createdAtMs m.expiresAtMs maxProbeLifetimeMs .invalidLifetime

def validateEnvelope (m : ExitReservationFinalizeRequest) (envelope : SignedEnvelope) :
    Except ProtocolError Unit :=
  validateSignedFields m.clientSessionId m.createdAtMs m.expiresAtMs m.nonce envelope
    "finalize_request envelope binding"

end ExitReservationFinalizeRequest

instance : ControlPayload ExitReservationFinalizeRequest where
  toMessage := schema {} [
    .bytes 1 (·.reservationId) ({ · with reservationId := · }),
    .bytes 2 (·.routeContextId) ({ · with routeContextId := · }),
    .bytes 3 (·.exitNodeId) ({ · with exitNodeId := · }),
    .bytes 4 (·.clientSessionId) ({ · with clientSessionId := · }),
    .bytes 5 (·.clientSessionCapability) ({ · with clientSessionCapability := · }),
    .bytes 6 (·.exitCapacityHold) ({ · with exitCapacityHold := · }),
    .repeatedMessage 7 (·.relayPaths) ({ · with relayPaths := · }),
    .uint64 8 (·.createdAtMs) ({ · with createdAtMs := · }),
    .uint64 9 (·.expiresAtMs) ({ · with expiresAtMs := · }),
    .bytes 10 (·.nonce) ({ · with nonce := · }),
    .bytes 11 (·.controlRelayNodeId) ({ · with controlRelayNodeId := · }),
    .bytes 12 (·.controlRelayPeerId) ({ · with controlRelayPeerId := · }),
    .bytes 13 (·.finalizeId) ({ · with finalizeId := · }),
    .bytes 14 (·.exitPeerId) ({ · with exitPeerId := · }),
    .bytes 15 (·.authCommitment) ({ · with authCommitment := · }),
    .uint64 16 (·.masqueContextId) ({ · with masqueContextId := · }),
    .bytes 17 (·.clientNativeInstanceId) ({ · with clientNativeInstanceId := · })]
  messageType := .exitReservationFinalizeRequest
  validate _ := ExitReservationFinalizeRequest.validate
  validateEnvelope _ := ExitReservationFinalizeRequest.validateEnvelope

/-- Client-session-signed relay request carrying exit capability and final grants. -/
structure RelayReservationRequest where
  (clientSessionId exitAuthorization : Bytes := [])
  (createdAtMs expiresAtMs : ℕ := 0)
  nonce : Bytes := []
  clientWireguardEndpoint : Option WireguardEndpoint := none
  (clientSessionCapability exitReservation : Bytes := [])
  deriving DecidableEq

namespace RelayReservationRequest

def validate (m : RelayReservationRequest) : Except ProtocolError Unit := do
  requireNonzero 32 m.clientSessionId "relay_request.client_session_id"
  validateNested m.exitAuthorization .relayAuthorization "relay_request.exit_authorization"
  validateNested m.clientSessionCapability .clientSessionCapability
    "relay_request.client_session_capability"
  validateNested m.exitReservation .exitReservation "relay_request.exit_reservation"
  let endpoint ← orFail m.clientWireguardEndpoint
    (.invalidField "relay_request.client_wireguard_endpoint")
  endpoint.validate "relay_request.client_wireguard_endpoint"
  requireNonzero 32 m.nonce "relay_request.nonce"
  validateLifetime m.createdAtMs m.expiresAtMs maxProbeLifetimeMs .invalidLifetime

def validateEnvelope (m : RelayReservationRequest) (envelope : SignedEnvelope) :
    Except ProtocolError Unit :=
  validateSignedFields m.clientSessionId m.createdAtMs m.expiresAtMs m.nonce envelope
    "relay_request envelope binding"

end RelayReservationRequest

instance : ControlPayload RelayReservationRequest where
  toMessage := schema {} [
    .bytes 1 (·.clientSessionId) ({ · with clientSessionId := · }),
    .bytes 3 (·.exitAuthorization) ({ · with exitAuthorization := · }),
    .uint64 4 (·.createdAtMs) ({ · with createdAtMs := · }),
    .uint64 5 (·.expiresAtMs) ({ · with expiresAtMs := · }),
    .bytes 6 (·.nonce) ({ · with nonce := · }),
    .message 7 (·.clientWireguardEndpoint) ({ · with clientWireguardEndpoint := · }),
    .bytes 8 (·.clientSessionCapability) ({ · with clientSessionCapability := · }),
    .bytes 9 (·.exitReservation) ({ · with exitReservation := · })]
  messageType := .relayReservationRequest
  validate _ := RelayReservationRequest.validate
  validateEnvelope _ := RelayReservationRequest.validateEnvelope

end Volparossa.Protocol
