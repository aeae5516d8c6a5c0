import Volparossa.Protocol.Messages

/-!
# Preselection observations

Before it selects a route, a client challenges a relay, or through a control relay an exit, to show
that it answers now. The challenge is not signed: it names the actor by the identity that was
advertised for it, the scope of the selection, and for an exit the control relay that forwards it.
-/

namespace Volparossa.Protocol

open Protobuf

open Transaction (Crypto ascii checkedSub)

def maxPreselectionRequestSize : ℕ := 4 * 1024

def maxChallengeLifetimeMs : ℕ := 120 * 1000

/-- Actor role addressed by one preselection observation challenge. -/
inductive PreselectionObservationRole where
  | unspecified
  | relay
  | exit
  deriving DecidableEq

def PreselectionObservationRole.all : List PreselectionObservationRole :=
  [.unspecified, .relay, .exit]

def PreselectionObservationRole.number (role : PreselectionObservationRole) : ℤ :=
  PreselectionObservationRole.all.idxOf role

def PreselectionObservationRole.tryFrom (n : ℤ) : Option PreselectionObservationRole :=
  valueAt PreselectionObservationRole.all n

/-- Address family whose network origin is being observed. -/
inductive ObservationAddressFamily where
  | unspecified
  | ipv4
  | ipv6
  deriving DecidableEq

def ObservationAddressFamily.all : List ObservationAddressFamily := [.unspecified, .ipv4, .ipv6]

def ObservationAddressFamily.number (family : ObservationAddressFamily) : ℤ :=
  ObservationAddressFamily.all.idxOf family

def ObservationAddressFamily.tryFrom (n : ℤ) : Option ObservationAddressFamily :=
  valueAt ObservationAddressFamily.all n

/-- Exact advertised actor identity bound into a preselection transcript. -/
structure PreselectionActorBinding where
  (nodeId peerId publicKey : Bytes := [])
  (advertisementSequence advertisementExpiresAtMs : ℕ := 0)
  advertisementPayloadHash : Bytes := []
  capabilityExpiresAtMs : ℕ := 0
  deriving DecidableEq

instance : Message PreselectionActorBinding := schema {} [
  .bytes 1 (·.nodeId) ({ · with nodeId := · }),
  .bytes 2 (·.peerId) ({ · with peerId := · }),
  .bytes 3 (·.publicKey) ({ · with publicKey := · }),
  .uint64 4 (·.advertisementSequence) ({ · with advertisementSequence := · }),
  .uint64 5 (·.advertisementExpiresAtMs) ({ · with advertisementExpiresAtMs := · }),
  .bytes 6 (·.advertisementPayloadHash) ({ · with advertisementPayloadHash := · }),
  .uint64 7 (·.capabilityExpiresAtMs) ({ · with capabilityExpiresAtMs := · })]

/-- Every byte is zero. -/
def allZero (b : Bytes) : Bool := b.all (· == 0)

def PreselectionActorBinding.validate (crypto : Crypto) (m : PreselectionActorBinding)
    (field : String) : Except ProtocolError Unit := do
  let nodeId ← fixedArray 32 m.nodeId field
  let publicKey ← fixedArray 32 m.publicKey field
  refuse (allZero nodeId.toBytes ∨ allZero publicKey.toBytes ∨
    nodeIdFromPublicKey crypto publicKey ≠ nodeId ∨ m.peerId = [] ∨ m.peerId.length > 64 ∨
    allZero m.peerId ∨ m.advertisementSequence = 0 ∨ m.advertisementExpiresAtMs = 0)
    (.invalidField field)
  let advertisementPayloadHash ← fixedArray 32 m.advertisementPayloadHash field
  refuse (allZero advertisementPayloadHash.toBytes ∨ m.capabilityExpiresAtMs = 0 ∨
    m.capabilityExpiresAtMs > m.advertisementExpiresAtMs) (.invalidField field)

/-- Static route-selection scope echoed by an actor receipt. -/
structure PreselectionObservationScope where
  (role transport addressFamily : ℤ := 0)
  policyVersion : ℕ := 0
  policyHash : Bytes := []
  policyExpiresAtMs : ℕ := 0
  deriving DecidableEq

instance : Message PreselectionObservationScope := schema {} [
  .enumeration 1 (·.role) ({ · with role := · }),
  .enumeration 2 (·.transport) ({ · with transport := · }),
  .enumeration 3 (·.addressFamily) ({ · with addressFamily := · }),
  .uint64 4 (·.policyVersion) ({ · with policyVersion := · }),
  .bytes 5 (·.policyHash) ({ · with policyHash := · }),
  .uint64 6 (·.policyExpiresAtMs) ({ · with policyExpiresAtMs := · })]

namespace PreselectionObservationScope

def roleValue (m : PreselectionObservationScope) :
    Except ProtocolError PreselectionObservationRole :=
  orFail (PreselectionObservationRole.tryFrom m.role) (.invalidField "preselection scope role")

def validate (m : PreselectionObservationScope) : Except ProtocolError Unit := do
  let role ← m.roleValue
  let transport ← orFail (Transport.tryFrom m.transport)
    (.invalidField "preselection scope transport")
  let family ← orFail (ObservationAddressFamily.tryFrom m.addressFamily)
    (.invalidField "preselection scope address_family")
  refuse (role = .unspecified ∨ transport = .unspecified ∨ family = .unspecified ∨
    m.policyVersion = 0) (.invalidField "preselection scope")
  let policyHash ← fixedArray 32 m.policyHash "preselection scope policy_hash"
  refuse (allZero policyHash.toBytes ∨ m.policyExpiresAtMs = 0)
    (.invalidField "preselection scope")

end PreselectionObservationScope

/-- Unsigned canonical per-actor challenge. -/
structure PreselectionObservationRequest where
  protocolVersion : ℕ := 0
  challenge : Bytes := []
  actor : Option PreselectionActorBinding := none
  scope : Option PreselectionObservationScope := none
  forwardedControl : Option PreselectionActorBinding := none
  (createdAtMs expiresAtMs : ℕ := 0)
  deriving DecidableEq

instance : Message PreselectionObservationRequest := schema {} [
  .uint32 1 (·.protocolVersion) ({ · with protocolVersion := · }),
  .bytes 2 (·.challenge) ({ · with challenge := · }),
  .message 3 (·.actor) ({ · with actor := · }),
  .message 4 (·.scope) ({ · with scope := · }),
  .message 5 (·.forwardedControl) ({ · with forwardedControl := · }),
  .uint64 6 (·.createdAtMs) ({ · with createdAtMs := · }),
  .uint64 7 (·.expiresAtMs) ({ · with expiresAtMs := · })]

def requiredActor (crypto : Crypto) (actor : Option PreselectionActorBinding) (field : String) :
    Except ProtocolError PreselectionActorBinding := do
  let actor ← orFail actor (.invalidField field)
  actor.validate crypto field
  pure actor

def requiredScope (scope : Option PreselectionObservationScope) :
    Except ProtocolError PreselectionObservationScope := do
  let scope ← orFail scope (.invalidField "preselection scope")
  scope.validate
  pure scope

/-- A challenge is created at a time after zero and lives for a bounded time. -/
def validateChallengeLifetime (createdAtMs expiresAtMs maximumLifetimeMs : ℕ) :
    Except ProtocolError Unit := do
  let lifetime ← orFail (checkedSub expiresAtMs createdAtMs) ProtocolError.invalidLifetime
  refuse (createdAtMs = 0 ∨ lifetime = 0 ∨ lifetime > maximumLifetimeMs)
    ProtocolError.invalidLifetime

def validateDirectCapabilityExpiry (actor : PreselectionActorBinding)
    (scope : PreselectionObservationScope) : Except ProtocolError Unit :=
  refuse (actor.capabilityExpiresAtMs ≠
    min actor.advertisementExpiresAtMs scope.policyExpiresAtMs)
    (.invalidField "preselection direct capability expiry")

def validateForwardedCapabilityExpiry (control exit : PreselectionActorBinding)
    (scope : PreselectionObservationScope) : Except ProtocolError Unit := do
  validateDirectCapabilityExpiry control scope
  refuse (exit.capabilityExpiresAtMs ≠ min (min exit.advertisementExpiresAtMs
    scope.policyExpiresAtMs) control.capabilityExpiresAtMs)
    (.invalidField "preselection forwarded capability expiry")

namespace PreselectionObservationRequest

def validate (crypto : Crypto) (m : PreselectionObservationRequest) :
    Except ProtocolError Unit := do
  refuse (m.protocolVersion ≠ Protocol.protocolVersion) (.unsupportedVersion m.protocolVersion)
  requireNonzero 32 m.challenge "preselection request challenge"
  let actor ← requiredActor crypto m.actor "preselection request actor"
  let scope ← requiredScope m.scope
  validateChallengeLifetime m.createdAtMs m.expiresAtMs maxChallengeLifetimeMs
  refuse (m.expiresAtMs > actor.advertisementExpiresAtMs ∨
    m.expiresAtMs > actor.capabilityExpiresAtMs ∨ m.expiresAtMs > scope.policyExpiresAtMs)
    ProtocolError.invalidLifetime
  match ← scope.roleValue, m.forwardedControl with
  | .relay, none => validateDirectCapabilityExpiry actor scope
  | .exit, some control =>
    control.validate crypto "preselection request control"
    validateForwardedCapabilityExpiry control actor scope
    refuse (m.expiresAtMs > control.advertisementExpiresAtMs ∨
      m.expiresAtMs > control.capabilityExpiresAtMs ∨ control.nodeId = actor.nodeId ∨
      control.peerId = actor.peerId ∨ control.publicKey = actor.publicKey)
      (.invalidField "preselection request forwarded control")
  | _, _ => .error (.invalidField "preselection request role shape")

end PreselectionObservationRequest

def requestHashDomain : Bytes := ascii "volparossa/preselection-observation-request/v4\x00"

/-- The request of canonical bytes, and the digest of exactly these bytes. -/
def decodeRequest (crypto : Crypto) (encodedRequest : Bytes) :
    Except ProtocolError (PreselectionObservationRequest × FixedBytes 32) := do
  let request : PreselectionObservationRequest ←
    decodeCanonical encodedRequest maxPreselectionRequestSize
  request.validate crypto
  refuse (encodedRequest.length ≥ 2 ^ 32)
    (.oversized "preselection observation request" maxPreselectionRequestSize)
  pure (request, crypto.sha256 (requestHashDomain ++ (FixedBytes.ofNat 4
    encodedRequest.length).toBytes ++ encodedRequest))

def preselectionObservationRequestHash (crypto : Crypto) (encodedRequest : Bytes) :
    Except ProtocolError (FixedBytes 32) := do
  let (_, digest) ← decodeRequest crypto encodedRequest
  pure digest

end Volparossa.Protocol
