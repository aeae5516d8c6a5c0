import Volparossa.Protocol.ReservationRequests

/-!
# Additions to a finalized route

One path is added to a finalized route in phases, each a request of the client's session and an
answer of the exit. A request names the original exit grant, which stays the authority (`parent`):
the addition has its session, its exit and its expiry. The same grant is the authority for a query
of the paths that are active (`MptcpPathsRequest`, `MptcpPathsState`).
-/

namespace Volparossa.Protocol

open Protobuf

open Transaction (Crypto ascii checkedSub)

/-- Bound for a complete signed extension including its one nested probe transcript. -/
def maxRouteExtensionBytes : ℕ := 64 * 1024

/-- Independently replay-bound phases; only a commit exposes the enlarged usable path set. -/
inductive RouteExtensionPhase where
  | probe
  | authorize
  | commit
  | abort
  deriving DecidableEq, Repr

/-- The phases are numbered from one. -/
def RouteExtensionPhase.all : List RouteExtensionPhase := [.probe, .authorize, .commit, .abort]

def RouteExtensionPhase.number (phase : RouteExtensionPhase) : ℤ :=
  RouteExtensionPhase.all.idxOf phase + 1

def RouteExtensionPhase.tryFrom (n : ℤ) : Option RouteExtensionPhase :=
  valueAt RouteExtensionPhase.all (n - 1)

/-- The exit grant that is the authority for an addition or a query, in its canonical encoding. -/
def originalGrant (crypto : Crypto) (signedExitReservation : Bytes) (field : String) :
    Except ProtocolError ExitReservation := do
  let envelope : SignedEnvelope ← decodeCanonical signedExitReservation 8192
  refuse (envelope.messageType ≠ ControlMessageType.exitReservation.number ∨
    envelope.protocolVersion ≠ protocolVersion) (.invalidField field)
  let parent : ExitReservation ← decodeCanonical envelope.payload 8192
  parent.validate crypto
  parent.validateEnvelope envelope
  pure parent

/-- The lifetime of an envelope is positive, at most `maximum`, and ends by `hard`. -/
def lifetimeWithin (envelope : SignedEnvelope) (hard maximum : ℕ) : Bool :=
  envelope.expiresAtMs ≤ hard ∧
    (checkedSub envelope.expiresAtMs envelope.timestampMs).any fun n => 1 ≤ n ∧ n ≤ maximum

/-- Path numbers in increasing order. -/
def increasingPaths (ids : List ℕ) : Bool := (∀ id ∈ ids, 1 ≤ id ∧ id ≤ 8) ∧ ids.Pairwise (· < ·)

/-! ## Extensions -/

/-- Immutable parent and exactly one previously unused path. No Client address is present. -/
structure RouteExtensionScope where
  (extensionId signedExitReservation finalizedBundleHash : Bytes := [])
  pathId : ℕ := 0
  (relayNodeId relayPeerId probeId : Bytes := [])
  addressFamily : ℤ := 0
  deriving DecidableEq

instance : Message RouteExtensionScope := schema {} [
  .bytes 1 (·.extensionId) ({ · with extensionId := · }),
  .bytes 2 (·.signedExitReservation) ({ · with signedExitReservation := · }),
  .bytes 3 (·.finalizedBundleHash) ({ · with finalizedBundleHash := · }),
  .uint32 4 (·.pathId) ({ · with pathId := · }),
  .bytes 5 (·.relayNodeId) ({ · with relayNodeId := · }),
  .bytes 6 (·.relayPeerId) ({ · with relayPeerId := · }),
  .bytes 7 (·.probeId) ({ · with probeId := · }),
  .enumeration 8 (·.addressFamily) ({ · with addressFamily := · })]

/-- The original grant of an extension; the new path is not one of the grant's own nodes. -/
def RouteExtensionScope.parent (crypto : Crypto) (scope : RouteExtensionScope) :
    Except ProtocolError ExitReservation := do
  requireNonzero 16 scope.extensionId "extension identifier"
  requireNonzero 32 scope.finalizedBundleHash "extension identifier"
  requireNonzero 32 scope.relayNodeId "extension identifier"
  requireNonzero 16 scope.probeId "extension identifier"
  refuse (¬(1 ≤ scope.pathId ∧ scope.pathId ≤ 8) ∨ scope.relayPeerId = [] ∨
    scope.relayPeerId.length > 64 ∨
    ¬(scope.addressFamily = ProbeAddressFamily.ipv4.number ∨
      scope.addressFamily = ProbeAddressFamily.ipv6.number)) (.invalidField "extension path")
  let parent ← originalGrant crypto scope.signedExitReservation "extension parent type"
  refuse (parent.allowedTransports ≠ [Transport.tcpMptcp.number] ∨
    scope.relayNodeId = parent.exitNodeId ∨ scope.relayNodeId = parent.controlRelayNodeId ∨
    scope.relayPeerId = parent.exitPeerId ∨ scope.relayPeerId = parent.controlRelayPeerId)
    (.invalidField "extension original route scope")
  pure parent

/-- Fresh session-signed operation; Authorize carries one real probe and Commit one Relay grant. -/
structure RouteExtensionRequest where
  scope : Option RouteExtensionScope := none
  phase : ℤ := 0
  path : Option FinalizedRelayPath := none
  signedConfirmation : Bytes := []
  deriving DecidableEq

instance : Message RouteExtensionRequest := schema {} [
  .message 1 (·.scope) ({ · with scope := · }),
  .enumeration 2 (·.phase) ({ · with phase := · }),
  .message 3 (·.path) ({ · with path := · }),
  .bytes 4 (·.signedConfirmation) ({ · with signedConfirmation := · })]

namespace RouteExtensionRequest

def validate (crypto : Crypto) (m : RouteExtensionRequest) : Except ProtocolError Unit := do
  let scope ← orFail m.scope (.invalidField "extension scope")
  let _ ← scope.parent crypto
  refuse ((encode m).length > maxRouteExtensionBytes) (.invalidField "extension size")
  match RouteExtensionPhase.tryFrom m.phase with
  | some .authorize =>
    let path ← orFail m.path (.invalidField "extension measured path")
    refuse (m.signedConfirmation ≠ [] ∨ path.pathId ≠ scope.pathId ∨
      path.relayNodeId ≠ scope.relayNodeId ∨ path.relayPeerId ≠ scope.relayPeerId ∨
      path.relayProbePermit = [] ∨ path.relayProbeResult = [])
      (.invalidField "extension measured path scope")
    requireNonzero 32 path.clientWireguardPublicKey "extension identifier"
  | some .commit =>
    refuse (¬(m.path = none ∧ m.signedConfirmation ≠ [])) (.invalidField "extension request phase")
  | some .probe | some .abort =>
    refuse (¬(m.path = none ∧ m.signedConfirmation = [])) (.invalidField "extension request phase")
  | none => .error (.invalidField "extension request phase")

end RouteExtensionRequest

/-- Exit-signed result. Only committed results authorize the effective expanded path set. -/
structure RouteExtension where
  scope : Option RouteExtensionScope := none
  phase : ℤ := 0
  (signedProbePermit signedRelayAuthorization signedConfirmationReceipt : Bytes := [])
  selectedPathIds : List ℕ := []
  hardExpiresAtMs : ℕ := 0
  deriving DecidableEq

instance : Message RouteExtension := schema {} [
  .message 1 (·.scope) ({ · with scope := · }),
  .enumeration 2 (·.phase) ({ · with phase := · }),
  .bytes 3 (·.signedProbePermit) ({ · with signedProbePermit := · }),
  .bytes 4 (·.signedRelayAuthorization) ({ · with signedRelayAuthorization := · }),
  .bytes 5 (·.signedConfirmationReceipt) ({ · with signedConfirmationReceipt := · }),
  .packedUint32 6 (·.selectedPathIds) ({ · with selectedPathIds := · }),
  .uint64 7 (·.hardExpiresAtMs) ({ · with hardExpiresAtMs := · })]

namespace RouteExtension

/-- The nested messages that an answer has in a phase, and whether the new path is selected. -/
def phaseFits (m : RouteExtension) (scope : RouteExtensionScope) : Bool :=
  match RouteExtensionPhase.tryFrom m.phase with
  | some .probe => m.signedProbePermit ≠ [] ∧ m.signedRelayAuthorization = [] ∧
      m.signedConfirmationReceipt = []
  | some .authorize => m.signedProbePermit ≠ [] ∧ m.signedRelayAuthorization ≠ [] ∧
      m.signedConfirmationReceipt = []
  | some .commit => m.signedProbePermit ≠ [] ∧ m.signedRelayAuthorization ≠ [] ∧
      m.signedConfirmationReceipt ≠ [] ∧ scope.pathId ∈ m.selectedPathIds
  | some .abort => m.signedProbePermit = [] ∧ m.signedRelayAuthorization = [] ∧
      m.signedConfirmationReceipt = [] ∧ scope.pathId ∉ m.selectedPathIds
  | none => false

def validate (crypto : Crypto) (m : RouteExtension) : Except ProtocolError Unit := do
  let scope ← orFail m.scope (.invalidField "extension scope")
  let parent ← scope.parent crypto
  refuse ((encode m).length > maxRouteExtensionBytes ∨ m.hardExpiresAtMs ≠ parent.expiresAtMs ∨
    m.selectedPathIds = [] ∨ m.selectedPathIds.length > 8 ∨
    increasingPaths m.selectedPathIds = false) (.invalidField "extension effective scope")
  refuse (m.phaseFits scope = false) (.invalidField "extension response phase")

def validateEnvelope (crypto : Crypto) (m : RouteExtension) (envelope : SignedEnvelope) :
    Except ProtocolError Unit := do
  let scope ← orFail m.scope (.invalidField "extension scope")
  let parent ← scope.parent crypto
  refuse (envelope.senderId ≠ parent.exitNodeId ∨ envelope.expiresAtMs > parent.expiresAtMs ∨
    envelope.timestampMs < parent.createdAtMs) (.invalidField "extension response authority")

end RouteExtension

instance : ControlPayload RouteExtension where
  messageType := .routeExtension
  validate := RouteExtension.validate
  validateEnvelope := RouteExtension.validateEnvelope

/-! ## Active paths -/

/-- Fresh session-signed query against the exact retained original reservation. -/
structure MptcpPathsRequest where
  signedExitReservation : Bytes := []
  deriving DecidableEq

instance : Message MptcpPathsRequest := schema {} [
  .bytes 1 (·.signedExitReservation) ({ · with signedExitReservation := · })]

namespace MptcpPathsRequest

/-- The bounded original scope of a query. -/
def parent (crypto : Crypto) (m : MptcpPathsRequest) : Except ProtocolError ExitReservation := do
  let parent ← originalGrant crypto m.signedExitReservation "MPTCP path-state parent type"
  refuse (parent.allowedTransports ≠ [Transport.tcpMptcp.number])
    (.invalidField "MPTCP path-state transport")
  pure parent

def validate (crypto : Crypto) (m : MptcpPathsRequest) : Except ProtocolError Unit := do
  let _ ← m.parent crypto

def validateEnvelope (crypto : Crypto) (m : MptcpPathsRequest) (envelope : SignedEnvelope) :
    Except ProtocolError Unit := do
  let parent ← m.parent crypto
  refuse (lifetimeWithin envelope parent.expiresAtMs 5000 = false)
    (.invalidField "MPTCP path-state lifetime")
  refuse (envelope.senderId ≠ parent.clientSessionId ∨
    envelope.senderPublicKey ≠ parent.clientSessionPublicKey ∨
    envelope.timestampMs < parent.createdAtMs) (.invalidField "MPTCP path-state session")

end MptcpPathsRequest

instance : ControlPayload MptcpPathsRequest where
  messageType := .mptcpPathsRequest
  validate := MptcpPathsRequest.validate
  validateEnvelope := MptcpPathsRequest.validateEnvelope

/-- Exit-signed snapshot of its actual endpoint lifecycle, not evidence of subflow traffic. -/
structure MptcpPathsState where
  (requestSha256 routeContextId reservationId exitNodeId : Bytes := [])
  (hardExpiresAtMs revision : ℕ := 0)
  (activePathIds retiredPathIds : List ℕ := [])
  deriving DecidableEq

instance : Message MptcpPathsState := schema {} [
  .bytes 1 (·.requestSha256) fun m v => { m with requestSha256 := v },
  .bytes 2 (·.routeContextId) ({ · with routeContextId := · }),
  .bytes 3 (·.reservationId) ({ · with reservationId := · }),
  .bytes 4 (·.exitNodeId) ({ · with exitNodeId := · }),
  .uint64 5 (·.hardExpiresAtMs) ({ · with hardExpiresAtMs := · }),
  .uint64 6 (·.revision) ({ · with revision := · }),
  .packedUint32 7 (·.activePathIds) ({ · with activePathIds := · }),
  .packedUint32 8 (·.retiredPathIds) ({ · with retiredPathIds := · })]

namespace MptcpPathsState

def validate (m : MptcpPathsState) : Except ProtocolError Unit := do
  requireNonzero 32 m.requestSha256 "MPTCP path-state identity"
  requireNonzero 16 m.routeContextId "MPTCP path-state identity"
  requireNonzero 16 m.reservationId "MPTCP path-state identity"
  requireNonzero 32 m.exitNodeId "MPTCP path-state identity"
  refuse (m.revision = 0 ∨ m.hardExpiresAtMs = 0 ∨ m.activePathIds.length < 2 ∨
    m.activePathIds.length + m.retiredPathIds.length > 8 ∨
    increasingPaths m.activePathIds = false ∨ increasingPaths m.retiredPathIds = false ∨
    ∃ id ∈ m.retiredPathIds, id ∈ m.activePathIds) (.invalidField "MPTCP path-state paths")

def validateEnvelope (m : MptcpPathsState) (envelope : SignedEnvelope) :
    Except ProtocolError Unit := do
  refuse (lifetimeWithin envelope m.hardExpiresAtMs 5000 = false)
    (.invalidField "MPTCP path-state lifetime")
  refuse (envelope.senderId ≠ m.exitNodeId) (.invalidField "MPTCP path-state Exit")

end MptcpPathsState

instance : ControlPayload MptcpPathsState where
  messageType := .mptcpPathsState
  validate _ := MptcpPathsState.validate
  validateEnvelope _ := MptcpPathsState.validateEnvelope

/-- Bind a state response to the complete exact session-signed request, including its nonce. -/
def mptcpPathsRequestHash (crypto : Crypto) (encoded : Bytes) : FixedBytes 32 :=
  crypto.sha256 (ascii "volparossa:mptcp-path-state:v1\x00" ++ encoded)

end Volparossa.Protocol
