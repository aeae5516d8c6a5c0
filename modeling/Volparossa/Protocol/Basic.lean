import Mathlib

/-!
# Vocabulary of the control plane

The numbered message types, transports and address families of the control messages, the size
limits, and the errors of every function that creates or validates control-plane data. A number
that the source writes as an enumeration travels as a signed 32-bit integer; `tryFrom` reads it
back, and fails on a number that the enumeration does not have.
-/

namespace Volparossa.Protocol

/-- Current control-plane protocol version. -/
def protocolVersion : ℕ := 4

/-- Maximum accepted encoded control message size. -/
def maxControlMessageSize : ℕ := 256 * 1024

/-- Maximum accepted encoded payload size inside a signed envelope. -/
def maxControlPayloadSize : ℕ := 192 * 1024

/-- Largest valid MASQUE context identifier, a QUIC variable-length integer. -/
def maxMasqueContextId : ℕ := 2 ^ 62 - 1

/-- What an envelope carries. -/
inductive ControlMessageType where
  | unspecified
  | nodeAdvertisement
  | exitReservation
  | relayAuthorization
  | relayReservation
  | openTcp
  | udpFlowAuthorization
  | exitCapacityHoldRequest
  | relayReservationRequest
  | exitReservationConfirmation
  | clientSessionCapability
  | exitCapacityHold
  | relayProbePermitRequest
  | relayProbePermit
  | relayProbeResult
  | exitReservationFinalizeRequest
  | exitConfirmationReceipt
  | preselectionObservationReceipt
  | forwardedPreselectionAttestation
  | nativeProbePermitRequest
  | nativeProbePermit
  | nativeProbeExitReady
  | nativeProbeRelayReady
  | nativeProbeStart
  | nativeProbeExitResult
  | nativeProbeRelayResult
  | nativeRouteCredentialDelivery
  | adjacentReceiveBudget
  | adjacentReceiveBudgetReceipt
  | routeRetire
  | retirementReceipt
  | dnsCacheQuery
  | dnsCacheReply
  | routeExtensionRequest
  | routeExtension
  | routeExtensionRelayCommit
  | mptcpPathsRequest
  | mptcpPathsState
  deriving DecidableEq, Repr

/-- The message types, each at its number. -/
def ControlMessageType.all : List ControlMessageType :=
  [.unspecified, .nodeAdvertisement, .exitReservation, .relayAuthorization, .relayReservation,
    .openTcp, .udpFlowAuthorization, .exitCapacityHoldRequest, .relayReservationRequest,
    .exitReservationConfirmation, .clientSessionCapability, .exitCapacityHold,
    .relayProbePermitRequest, .relayProbePermit, .relayProbeResult,
    .exitReservationFinalizeRequest, .exitConfirmationReceipt, .preselectionObservationReceipt,
    .forwardedPreselectionAttestation, .nativeProbePermitRequest, .nativeProbePermit,
    .nativeProbeExitReady, .nativeProbeRelayReady, .nativeProbeStart, .nativeProbeExitResult,
    .nativeProbeRelayResult, .nativeRouteCredentialDelivery, .adjacentReceiveBudget,
    .adjacentReceiveBudgetReceipt, .routeRetire, .retirementReceipt, .dnsCacheQuery,
    .dnsCacheReply, .routeExtensionRequest, .routeExtension, .routeExtensionRelayCommit,
    .mptcpPathsRequest, .mptcpPathsState]

/-- Data transport authorized by a reservation. -/
inductive Transport where
  | unspecified
  | tcpMptcp
  | udpSinglePath
  | multipathQuic
  deriving DecidableEq, Repr

/-- The transports, each at its number. -/
def Transport.all : List Transport := [.unspecified, .tcpMptcp, .udpSinglePath, .multipathQuic]

/-- Network family measured by one bounded relay probe. -/
inductive ProbeAddressFamily where
  | unspecified
  | ipv4
  | ipv6
  deriving DecidableEq, Repr

/-- The address families, each at its number. -/
def ProbeAddressFamily.all : List ProbeAddressFamily := [.unspecified, .ipv4, .ipv6]

/-- The value of an enumeration at a number. -/
def valueAt {α : Type} (all : List α) (n : ℤ) : Option α := if 0 ≤ n then all[n.toNat]? else none

def ControlMessageType.number (t : ControlMessageType) : ℤ := ControlMessageType.all.idxOf t

def ControlMessageType.tryFrom (n : ℤ) : Option ControlMessageType :=
  valueAt ControlMessageType.all n

def Transport.number (t : Transport) : ℤ := Transport.all.idxOf t

def Transport.tryFrom (n : ℤ) : Option Transport := valueAt Transport.all n

def ProbeAddressFamily.number (f : ProbeAddressFamily) : ℤ := ProbeAddressFamily.all.idxOf f

def ProbeAddressFamily.tryFrom (n : ℤ) : Option ProbeAddressFamily :=
  valueAt ProbeAddressFamily.all n

/-- Errors returned while creating or validating control-plane data. -/
inductive ProtocolError where
  | oversized (what : String) (maximum : ℕ)
  | decode
  | nonCanonical
  | unsupportedVersion (version : ℕ)
  | unknownMessageType (number : ℤ)
  | wrongMessageType (expected actual : ControlMessageType)
  | invalidField (field : String)
  | senderKeyMismatch
  | payloadHashMismatch
  | invalidSignature
  | signingFailed
  | notYetValid
  | expired
  | invalidLifetime
  | replay
  | replayCapacity
  deriving DecidableEq

end Volparossa.Protocol
