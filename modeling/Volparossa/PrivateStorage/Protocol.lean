import Volparossa.Foundations.Protobuf.Schema
import Volparossa.Protocol.Envelope

/-!
# Authorization of private storage operations

A provider signs a grant that gives an owner bounded custody rights, and a fresh challenge for it;
the owner signs each operation, with the challenge and the exact archive it is about. This module
makes and verifies the three messages; what is drawn at random is an argument.

A grant is known by its bytes: two verified grants with the same bytes are equal
(`VerifiedStorageGrant.Verified.eq_of_encode_eq`), so what is stored of a grant determines its owner
and its limits.
-/

namespace Volparossa.PrivateStorage

open Protobuf

open Transaction (Crypto ascii checkedAdd)

open Protocol (SigningKey)

/-- Maximum ciphertext archive: 64 GiB. -/
def maxArchiveBytes : ℕ := 64 * 1024 * 1024 * 1024

/-- Maximum explicitly configured ciphertext payload capacity: 1 TiB. -/
def maxCapacityBytes : ℕ := 1024 * 1024 * 1024 * 1024

/-- Maximum new lease interval. -/
def maxLeaseSeconds : ℕ := 31 * 24 * 60 * 60

def maxLeases : ℕ := 256

/-- The length of a chunk that is not the last of its archive. -/
def chunkBytes : ℕ := 256 * 1024

/-- Maximum chunks in a single range. -/
def maxRangeChunks : ℕ := 64

/-- Maximum bytes in a single range. -/
def maxRangeBytes : ℕ := maxRangeChunks * chunkBytes

/-- Largest canonical provider grant. -/
def maxGrantBytes : ℕ := 2048

/-- Largest fresh provider challenge. -/
def maxChallengeBytes : ℕ := 1024

/-- Largest signed operation metadata. -/
def maxRequestBytes : ℕ := 4096

/-- Maximum challenge or operation validity interval in seconds. -/
def maxAuthSeconds : ℕ := 120

/-- The largest signed 64-bit integer. -/
def maxInt64 : ℕ := 2 ^ 63 - 1

/-- Bounded authentication failure. -/
inductive ProtocolError where
  | invalid
  | unauthorized
  | expired
  | entropy
  deriving DecidableEq, Repr

/-- Authenticated validity interval, in seconds; the end is exclusive. -/
structure Validity where
  created : ℕ
  expires : ℕ
  deriving DecidableEq, Repr

/-- The primitives of the signature library, with its test for keys of small order. -/
structure Ed25519 extends Crypto where
  isWeak : FixedBytes 32 → Bool

/-- The primitives on the keys and the messages of given signatures, none of the keys of small
order. -/
def Ed25519.ofSignatures (signatures : Protocol.Signatures) : Ed25519 where
  toCrypto := signatures.primitives
  isWeak _ := false

/-! ## Envelopes -/

structure Body where
  version : ℕ := 0
  sender : Bytes := []
  (created expires : ℕ := 0)
  nonce : Bytes := []
  messageType : ℕ := 0
  (payloadHash payload : Bytes := [])
  deriving DecidableEq, Repr

instance : Message Body := schema {} [
  .uint32 1 (·.version) ({ · with version := · }),
  .bytes 2 (·.sender) ({ · with sender := · }),
  .uint64 3 (·.created) ({ · with created := · }),
  .uint64 4 (·.expires) ({ · with expires := · }),
  .bytes 5 (·.nonce) ({ · with nonce := · }),
  .uint32 6 (·.messageType) ({ · with messageType := · }),
  .bytes 7 (·.payloadHash) ({ · with payloadHash := · }),
  .bytes 8 (·.payload) ({ · with payload := · })]

structure Envelope where
  body : Option Body := none
  signature : Bytes := []
  deriving DecidableEq, Repr

instance : Message Envelope := schema {} [
  .message 1 (·.body) ({ · with body := · }),
  .bytes 2 (·.signature) ({ · with signature := · })]

namespace Envelope

def domain : Bytes := ascii "VOLPAROSSA/private-storage/v1\x00"

def grantKind : ℕ := 1

def challengeKind : ℕ := 2

def requestKind : ℕ := 3

/-- Decode a message from its one accepted encoding. -/
def decode (M : Type) [Message M] (bytes : Bytes) (maximum : ℕ) : Except ProtocolError M := do
  refuse (bytes = [] ∨ bytes.length > maximum) .invalid
  let value : M ← orFail (Protobuf.decode bytes) .invalid
  refuse (encode value ≠ bytes) .invalid
  pure value

theorem encode_of_decode {M : Type} [Message M] {bytes : Bytes} {maximum : ℕ} {value : M}
    (h : decode M bytes maximum = .ok value) : encode value = bytes := by
  simp only [decode, ok_iff, not_not] at h
  obtain ⟨-, -, value', -, -, hencode, rfl⟩ := h
  exact hencode

def fixed (n : ℕ) (bytes : Bytes) : Except ProtocolError (FixedBytes n) :=
  orFail (FixedBytes.ofBytes n bytes) .invalid

/-- An identifier is not zero. -/
def identifier (n : ℕ) (bytes : Bytes) : Except ProtocolError (FixedBytes n) := do
  let value ← fixed n bytes
  refuse (value = .zero n) .invalid
  pure value

/-- Whether the child's interval lies in the parent's. -/
def within (child parent : Validity) : Except ProtocolError Unit :=
  refuse (child.created < parent.created ∨ child.expires > parent.expires) .unauthorized

def validity (body : Body) : Validity := ⟨body.created, body.expires⟩

def signingBytes (body : Body) : Bytes := domain ++ encode body

variable (crypto : Ed25519)

/-- An Ed25519 key that is not weak. -/
def key (bytes : Bytes) : Except ProtocolError (FixedBytes 32) := do
  let value ← fixed 32 bytes
  refuse (crypto.verifyingKey value = false) .invalid
  refuse (crypto.isWeak value = true) .invalid
  pure value

/-- The body of an envelope of a kind, within its bounds. -/
def checkedBody (envelope : Envelope) (kind maxLifetime : ℕ) : Except ProtocolError Body := do
  let body ← orFail envelope.body .invalid
  let _ ← key crypto body.sender
  let _ ← identifier 32 body.nonce
  refuse (envelope.signature.length ≠ 64 ∨ body.version ≠ 1 ∨ body.messageType ≠ kind ∨
    body.created = 0 ∨ body.expires ≤ body.created ∨ body.expires > maxInt64 ∨
    body.expires - body.created > maxLifetime ∨
    body.payloadHash ≠ (crypto.sha256 body.payload).toBytes) .invalid
  pure body

/-- Sign a payload of a kind. -/
def sign (signer : SigningKey) (kind : ℕ) (payload : Bytes) (validity : Validity)
    (maxLifetime : ℕ) (nonce : FixedBytes 32) : Except ProtocolError Envelope := do
  let nonce ← identifier 32 nonce.toBytes
  let body : Body := ⟨1, signer.verifyingKey.toBytes, validity.created, validity.expires,
    nonce.toBytes, kind, (crypto.sha256 payload).toBytes, payload⟩
  let envelope : Envelope := ⟨some body, (signer.sign (signingBytes body)).toBytes⟩
  let _ ← envelope.checkedBody crypto kind maxLifetime
  pure envelope

/-- The body of an envelope that a trusted key signed and that is current. -/
def verify (envelope : Envelope) (trusted : FixedBytes 32) (kind maxLifetime now : ℕ) :
    Except ProtocolError Body := do
  let body ← envelope.checkedBody crypto kind maxLifetime
  refuse (body.sender ≠ trusted.toBytes) .unauthorized
  refuse (now < body.created ∨ body.expires ≤ now) .expired
  refuse (crypto.signature envelope.signature = false) .invalid
  refuse (crypto.verifyStrict trusted (signingBytes body) envelope.signature = false) .unauthorized
  pure body

end Envelope

/-! ## Operations -/

/-- Immutable archive identity and, after reservation, the exact copy. -/
structure StorageTarget where
  archiveId : FixedBytes 32
  leaseId : Option (FixedBytes 16)
  ciphertextBytes : ℕ
  sha256 : FixedBytes 32
  deriving DecidableEq

/-- Narrow ciphertext operations. -/
inductive StorageOperation where
  | reserve (expiresAt : ℕ)
  | append (offset length : ℕ) (sha256 : FixedBytes 32)
  | progress
  | finalize
  | readRange (offset length : ℕ)
  | renew (expiresAt : ℕ)
  | delete
  deriving DecidableEq

def StorageOperation.isReserve : StorageOperation → Bool
  | .reserve _ => true
  | _ => false

/-! ## Grants -/

/-- Explicit least-authority operation set, as its bits. -/
structure StorageRights where
  bits : ℕ
  deriving DecidableEq, Repr

namespace StorageRights

def all : ℕ := 2 ^ 7 - 1

/-- A nonempty set of known permissions. -/
def fromBits (bits : ℕ) : Except ProtocolError StorageRights := do
  refuse (bits = 0 ∨ bits > all) .invalid
  pure ⟨bits⟩

/-- The bit of an operation. -/
def required : StorageOperation → ℕ
  | .reserve _ => 0
  | .append .. => 1
  | .progress => 2
  | .finalize => 3
  | .readRange .. => 4
  | .renew _ => 5
  | .delete => 6

def allows (rights : StorageRights) (operation : StorageOperation) : Bool :=
  rights.bits.testBit (required operation)

end StorageRights

/-- Provider-issued bounds. -/
structure GrantLimits where
  maxPayloadBytes : ℕ
  maxLeases : ℕ
  rights : StorageRights
  maxRetentionSeconds : ℕ
  deriving DecidableEq, Repr

structure GrantPayload where
  (capabilityId provider owner : Bytes := [])
  (maxPayloadBytes maxLeases rights maxRetentionSeconds : ℕ := 0)
  deriving DecidableEq, Repr

instance : Message GrantPayload := schema {} [
  .bytes 1 (·.capabilityId) ({ · with capabilityId := · }),
  .bytes 2 (·.provider) ({ · with provider := · }),
  .bytes 3 (·.owner) ({ · with owner := · }),
  .uint64 4 (·.maxPayloadBytes) ({ · with maxPayloadBytes := · }),
  .uint32 5 (·.maxLeases) ({ · with maxLeases := · }),
  .uint32 6 (·.rights) ({ · with rights := · }),
  .uint64 7 (·.maxRetentionSeconds) ({ · with maxRetentionSeconds := · })]

/-- Original provider-signed grant; decoding alone establishes no trust. -/
structure SignedStorageGrant where
  envelope : Envelope
  payload : GrantPayload
  deriving DecidableEq, Repr

/-- Grant authenticated against an independently selected provider. -/
structure VerifiedStorageGrant where
  signed : SignedStorageGrant
  provider : FixedBytes 32
  owner : FixedBytes 32
  capabilityId : FixedBytes 32
  limits : GrantLimits
  validity : Validity
  deriving DecidableEq

namespace SignedStorageGrant

def encode (signed : SignedStorageGrant) : Bytes := Protobuf.encode signed.envelope

variable (crypto : Ed25519)

def validate (signed : SignedStorageGrant) : Except ProtocolError GrantLimits := do
  let body ← signed.envelope.checkedBody crypto Envelope.grantKind maxLeaseSeconds
  let _ ← Envelope.key crypto signed.payload.owner
  let _ ← Envelope.identifier 32 signed.payload.capabilityId
  refuse (signed.payload.provider ≠ body.sender ∨
    ¬(1 ≤ signed.payload.maxPayloadBytes ∧ signed.payload.maxPayloadBytes ≤ maxCapacityBytes) ∨
    ¬(1 ≤ signed.payload.maxLeases ∧ signed.payload.maxLeases ≤ maxLeases) ∨
    ¬(1 ≤ signed.payload.maxRetentionSeconds ∧
      signed.payload.maxRetentionSeconds ≤ maxLeaseSeconds)) .invalid
  let rights ← StorageRights.fromBits signed.payload.rights
  pure ⟨signed.payload.maxPayloadBytes, signed.payload.maxLeases, rights,
    signed.payload.maxRetentionSeconds⟩

/-- Decode bounded metadata without accepting its embedded provider as a trust root. -/
def decode (bytes : Bytes) : Except ProtocolError SignedStorageGrant := do
  let envelope ← Envelope.decode Envelope bytes maxGrantBytes
  let body ← envelope.checkedBody crypto Envelope.grantKind maxLeaseSeconds
  let payload ← Envelope.decode GrantPayload body.payload maxGrantBytes
  let signed : SignedStorageGrant := ⟨envelope, payload⟩
  let _ ← signed.validate crypto
  pure signed

/-- Authenticate the grant against a provider selected independently of untrusted bytes. -/
def verify (signed : SignedStorageGrant) (trustedProvider : FixedBytes 32) (now : ℕ) :
    Except ProtocolError VerifiedStorageGrant := do
  let body ← signed.envelope.verify crypto trustedProvider Envelope.grantKind maxLeaseSeconds now
  let limits ← signed.validate crypto
  let owner ← Envelope.key crypto signed.payload.owner
  let capabilityId ← Envelope.identifier 32 signed.payload.capabilityId
  pure ⟨signed, trustedProvider, owner, capabilityId, limits, Envelope.validity body⟩

theorem encode_of_decode {bytes : Bytes} {signed : SignedStorageGrant}
    (h : decode crypto bytes = .ok signed) : signed.encode = bytes := by
  simp only [decode, ok_iff] at h
  obtain ⟨envelope, henvelope, body, -, payload, -, limits, -, rfl⟩ := h
  exact Envelope.encode_of_decode henvelope

end SignedStorageGrant

namespace VerifiedStorageGrant

variable (crypto : Ed25519) (grant : VerifiedStorageGrant)

/-- Exact digest of the original signed grant. -/
def id : FixedBytes 32 := crypto.sha256 grant.signed.encode

/-- Recheck this original grant without extending its finite authorization window. -/
def current (now : ℕ) : Except ProtocolError Unit := do
  let _ ← grant.signed.verify crypto grant.provider now
  pure ()

/-- The grant came out of a verification of received bytes. -/
def Verified : Prop :=
  SignedStorageGrant.decode crypto grant.signed.encode = .ok grant.signed ∧
    ∃ now, grant.signed.verify crypto grant.provider now = .ok grant

variable {crypto grant}

/-- The limits of a verified grant are the ones that its bytes state. -/
theorem Verified.validate (h : grant.Verified crypto) :
    grant.signed.validate crypto = .ok grant.limits := by
  obtain ⟨-, now, h⟩ := h
  simp only [SignedStorageGrant.verify, ok_iff] at h
  obtain ⟨body, -, limits, hlimits, owner, -, capabilityId, -, hgrant⟩ := h
  rw [← hgrant]
  exact hlimits

/-- **The bytes of a grant determine it.** -/
theorem Verified.eq_of_encode_eq {grant' : VerifiedStorageGrant} (h : grant.Verified crypto)
    (h' : grant'.Verified crypto) (hencode : grant.signed.encode = grant'.signed.encode)
    (hprovider : grant.provider = grant'.provider) : grant = grant' := by
  obtain ⟨hdecode, now, hverify⟩ := h
  obtain ⟨hdecode', now', hverify'⟩ := h'
  rw [hencode, hdecode', Except.ok.injEq] at hdecode
  rw [← hdecode, hprovider] at hverify
  simp only [SignedStorageGrant.verify, Envelope.verify, ok_iff] at hverify hverify'
  obtain ⟨body, ⟨b, hb, -, -, -, -, -, -, -, -, rfl⟩, limits, hlimits, owner, howner, capabilityId,
    hcapability, rfl⟩ := hverify
  obtain ⟨body', ⟨b', hb', -, -, -, -, -, -, -, -, rfl⟩, limits', hlimits', owner', howner',
    capabilityId', hcapability', hgrant'⟩ := hverify'
  rw [← hgrant', ok_unique hb hb', ok_unique hlimits hlimits', ok_unique howner howner',
    ok_unique hcapability hcapability']

end VerifiedStorageGrant

/-! ## Challenges -/

structure ChallengePayload where
  (provider owner capabilityId grantId : Bytes := [])
  deriving DecidableEq, Repr

instance : Message ChallengePayload := schema {} [
  .bytes 1 (·.provider) ({ · with provider := · }),
  .bytes 2 (·.owner) ({ · with owner := · }),
  .bytes 3 (·.capabilityId) ({ · with capabilityId := · }),
  .bytes 4 (·.grantId) ({ · with grantId := · })]

/-- Fresh signed provider challenge for one exact grant. -/
structure StorageChallenge where
  envelope : Envelope
  validity : Validity
  deriving DecidableEq, Repr

namespace StorageChallenge

variable (crypto : Ed25519)

def id (challenge : StorageChallenge) : FixedBytes 32 := crypto.sha256 (encode challenge.envelope)

def verify (challenge : StorageChallenge) (grant : VerifiedStorageGrant) (now : ℕ) :
    Except ProtocolError Validity := do
  grant.current crypto now
  let body ← challenge.envelope.verify crypto grant.provider Envelope.challengeKind maxAuthSeconds
    now
  let payload ← Envelope.decode ChallengePayload body.payload maxChallengeBytes
  refuse (payload.provider ≠ grant.provider.toBytes ∨ payload.owner ≠ grant.owner.toBytes ∨
    payload.capabilityId ≠ grant.capabilityId.toBytes ∨
    payload.grantId ≠ (grant.id crypto).toBytes) .unauthorized
  Envelope.within (Envelope.validity body) grant.validity
  pure (Envelope.validity body)

/-- Verify against the independently authenticated provider in the exact supplied grant. -/
def decodeAndVerify (bytes : Bytes) (grant : VerifiedStorageGrant) (now : ℕ) :
    Except ProtocolError StorageChallenge := do
  let envelope ← Envelope.decode Envelope bytes maxChallengeBytes
  let body ← envelope.checkedBody crypto Envelope.challengeKind maxAuthSeconds
  let challenge : StorageChallenge := ⟨envelope, Envelope.validity body⟩
  let _ ← challenge.verify crypto grant now
  pure challenge

end StorageChallenge

/-! ## Requests -/

structure Command where
  (kind offset length : ℕ := 0)
  sha256 : Bytes := []
  expiresAt : ℕ := 0
  deriving DecidableEq, Repr

instance : Message Command := schema {} [
  .uint32 1 (·.kind) ({ · with kind := · }),
  .uint64 2 (·.offset) ({ · with offset := · }),
  .uint64 3 (·.length) ({ · with length := · }),
  .bytes 4 (·.sha256) (fun m v => { m with sha256 := v }),
  .uint64 5 (·.expiresAt) ({ · with expiresAt := · })]

namespace Command

def ofOperation : StorageOperation → Command
  | .reserve expiresAt => { kind := 1, expiresAt := expiresAt }
  | .append offset length sha256 =>
    { kind := 2, offset := offset, length := length, sha256 := sha256.toBytes }
  | .progress => { kind := 3 }
  | .finalize => { kind := 4 }
  | .readRange offset length => { kind := 5, offset := offset, length := length }
  | .renew expiresAt => { kind := 6, expiresAt := expiresAt }
  | .delete => { kind := 7 }

/-- The operation that a command of this kind may stand for. -/
def operationOfKind (command : Command) : Except ProtocolError StorageOperation :=
  match command.kind with
  | 1 => .ok (.reserve command.expiresAt)
  | 2 => do
    refuse (command.length ≥ 2 ^ 32) .invalid
    let sha256 ← Envelope.fixed 32 command.sha256
    pure (.append command.offset command.length sha256)
  | 3 => .ok .progress
  | 4 => .ok .finalize
  | 5 => .ok (.readRange command.offset command.length)
  | 6 => .ok (.renew command.expiresAt)
  | 7 => .ok .delete
  | _ => .error .invalid

/-- The operation of a command that sets no field which its kind does not use. -/
def operation (command : Command) : Except ProtocolError StorageOperation := do
  let operation ← command.operationOfKind
  refuse (command ≠ ofOperation operation) .invalid
  pure operation

end Command

structure RequestPayload where
  (provider capabilityId grantId challengeId archiveId leaseId : Bytes := [])
  ciphertextBytes : ℕ := 0
  sha256 : Bytes := []
  command : Option Command := none
  deriving DecidableEq, Repr

instance : Message RequestPayload := schema {} [
  .bytes 1 (·.provider) ({ · with provider := · }),
  .bytes 2 (·.capabilityId) ({ · with capabilityId := · }),
  .bytes 3 (·.grantId) ({ · with grantId := · }),
  .bytes 4 (·.challengeId) ({ · with challengeId := · }),
  .bytes 5 (·.archiveId) ({ · with archiveId := · }),
  .bytes 6 (·.leaseId) ({ · with leaseId := · }),
  .uint64 7 (·.ciphertextBytes) ({ · with ciphertextBytes := · }),
  .bytes 8 (·.sha256) (fun m v => { m with sha256 := v }),
  .message 9 (·.command) ({ · with command := · })]

/-- Owner-signed authorization bytes. -/
structure SignedStorageRequest where
  envelope : Envelope
  deriving DecidableEq, Repr

/-- Exact signed operation after independently trusted grant and fresh challenge checks. -/
structure VerifiedStorageRequest where
  signed : SignedStorageRequest
  grant : VerifiedStorageGrant
  challengeId : FixedBytes 32
  target : StorageTarget
  operation : StorageOperation
  validity : Validity
  deriving DecidableEq

/-- The bounds of one kind of operation. -/
def validateOperation (target : StorageTarget) (grant : VerifiedStorageGrant) (created now : ℕ) :
    StorageOperation → Except ProtocolError Unit
  | .reserve expiresAt | .renew expiresAt =>
    refuse (expiresAt ≤ now ∨ expiresAt ≤ created ∨ expiresAt > grant.validity.expires ∨
      expiresAt - created > grant.limits.maxRetentionSeconds) .invalid
  | .append offset length _ =>
    refuse (offset % chunkBytes ≠ 0 ∨ offset ≥ target.ciphertextBytes ∨
      length ≠ min (target.ciphertextBytes - offset) chunkBytes) .invalid
  | .readRange offset length => do
    let stop ← orFail (checkedAdd offset length) .invalid
    refuse (offset % chunkBytes ≠ 0 ∨ ¬(1 ≤ length ∧ length ≤ maxRangeBytes) ∨
      stop > target.ciphertextBytes ∨
      (stop ≠ target.ciphertextBytes ∧ stop % chunkBytes ≠ 0)) .invalid
  | .progress | .finalize | .delete => pure ()

/-- A lease that is named is not zero. -/
def validateLeaseId : Option (FixedBytes 16) → Except ProtocolError Unit
  | none => pure ()
  | some lease => do
    let _ ← Envelope.identifier 16 lease.toBytes
    pure ()

/-- The bounds of a target and an operation under a grant. -/
def validate (target : StorageTarget) (operation : StorageOperation) (grant : VerifiedStorageGrant)
    (created now : ℕ) : Except ProtocolError Unit := do
  let _ ← Envelope.identifier 32 target.archiveId.toBytes
  validateLeaseId target.leaseId
  refuse (¬(1 ≤ target.ciphertextBytes ∧
      target.ciphertextBytes ≤ min maxArchiveBytes grant.limits.maxPayloadBytes) ∨
    target.leaseId.isNone ≠ operation.isReserve) .invalid
  refuse (grant.limits.rights.allows operation = false) .unauthorized
  validateOperation target grant created now operation

namespace SignedStorageRequest

variable (crypto : Ed25519)

/-- The target that a payload names. -/
def targetOf (payload : RequestPayload) : Except ProtocolError StorageTarget := do
  let archiveId ← Envelope.identifier 32 payload.archiveId
  let leaseId ← if payload.leaseId = [] then pure none else do
    let id ← Envelope.identifier 16 payload.leaseId
    pure (some id)
  let sha256 ← Envelope.fixed 32 payload.sha256
  pure ⟨archiveId, leaseId, payload.ciphertextBytes, sha256⟩

/-- Authenticate request bytes against current grant/challenge scope. -/
def verify (signed : SignedStorageRequest) (grant : VerifiedStorageGrant)
    (challenge : StorageChallenge) (now : ℕ) : Except ProtocolError VerifiedStorageRequest := do
  let challengeValidity ← challenge.verify crypto grant now
  let body ← signed.envelope.verify crypto grant.owner Envelope.requestKind maxAuthSeconds now
  Envelope.within (Envelope.validity body) challengeValidity
  let payload ← Envelope.decode RequestPayload body.payload maxRequestBytes
  refuse (payload.provider ≠ grant.provider.toBytes ∨
    payload.capabilityId ≠ grant.capabilityId.toBytes ∨
    payload.grantId ≠ (grant.id crypto).toBytes ∨
    payload.challengeId ≠ (challenge.id crypto).toBytes) .unauthorized
  let target ← targetOf payload
  let command ← orFail payload.command .invalid
  let operation ← command.operation
  validate target operation grant body.created now
  pure ⟨signed, grant, challenge.id crypto, target, operation, Envelope.validity body⟩

/-- Decode and authenticate one bounded request against the connection's exact challenge. -/
def decodeAndVerify (bytes : Bytes) (grant : VerifiedStorageGrant) (challenge : StorageChallenge)
    (now : ℕ) : Except ProtocolError VerifiedStorageRequest := do
  let envelope ← Envelope.decode Envelope bytes maxRequestBytes
  verify crypto ⟨envelope⟩ grant challenge now

end SignedStorageRequest

namespace VerifiedStorageRequest

variable (crypto : Ed25519) (request : VerifiedStorageRequest)

/-- Recheck the signed validity, grant, rights and immutable bounds before execution. -/
def current (now : ℕ) : Except ProtocolError Unit := do
  request.grant.current crypto now
  let _ ← request.signed.envelope.verify crypto request.grant.owner Envelope.requestKind
    maxAuthSeconds now
  validate request.target request.operation request.grant request.validity.created now

/-- The request came out of a verification, under a verified grant. -/
def Verified : Prop :=
  request.grant.Verified crypto ∧
    ∃ challenge now, request.signed.verify crypto request.grant challenge now = .ok request

end VerifiedStorageRequest

theorem verified_of_receive {crypto : Ed25519} {provider : FixedBytes 32}
    {grantBytes requestBytes : Bytes} {signed : SignedStorageGrant} {grant : VerifiedStorageGrant}
    {challenge : StorageChallenge} {request : VerifiedStorageRequest} {grantedAt now : ℕ}
    (hdecode : SignedStorageGrant.decode crypto grantBytes = .ok signed)
    (hverify : signed.verify crypto provider grantedAt = .ok grant)
    (hrequest : SignedStorageRequest.decodeAndVerify crypto requestBytes grant challenge now =
      .ok request) : request.Verified crypto := by
  have hgrant : grant.signed = signed ∧ grant.provider = provider := by
    simp only [SignedStorageGrant.verify, ok_iff] at hverify
    obtain ⟨body, -, limits, -, owner, -, capabilityId, -, rfl⟩ := hverify
    exact ⟨rfl, rfl⟩
  simp only [SignedStorageRequest.decodeAndVerify, bind_eq_ok] at hrequest
  obtain ⟨envelope, -, hrequest⟩ := hrequest
  have hsigned : request.signed = ⟨envelope⟩ ∧ request.grant = grant := by
    simp only [SignedStorageRequest.verify, ok_iff] at hrequest
    obtain ⟨_, -, body, -, _, -, payload, -, _, -, target, -, command, -, operation, -, _, -,
      rfl⟩ := hrequest
    exact ⟨rfl, rfl⟩
  refine ⟨?_, challenge, now, by rw [hsigned.1, hsigned.2]; exact hrequest⟩
  rw [hsigned.2]
  refine ⟨?_, grantedAt, by rw [hgrant.1, hgrant.2]; exact hverify⟩
  rw [hgrant.1, SignedStorageGrant.encode_of_decode crypto hdecode]
  exact hdecode

/-- A verified request of an owner. -/
abbrev OwnerRequest (crypto : Ed25519) :=
  { request : VerifiedStorageRequest // request.Verified crypto }

/-- Receive a request on a connection: the grant, then the request for the challenge that was issued
for it. -/
def receive (crypto : Ed25519) (provider : FixedBytes 32) (grantBytes : Bytes) (grantedAt : ℕ)
    (challenge : StorageChallenge) (requestBytes : Bytes) (now : ℕ) :
    Except ProtocolError (OwnerRequest crypto) :=
  match hdecode : SignedStorageGrant.decode crypto grantBytes with
  | .error e => .error e
  | .ok signed =>
    match hverify : signed.verify crypto provider grantedAt with
    | .error e => .error e
    | .ok grant =>
      match hrequest : SignedStorageRequest.decodeAndVerify crypto requestBytes grant challenge
          now with
      | .error e => .error e
      | .ok request => .ok ⟨request, verified_of_receive hdecode hverify hrequest⟩

/-- What a check before execution guarantees of the target: its length is within the bounds, and it
names a lease unless the operation is a reservation. -/
theorem target_of_current {crypto : Ed25519} {request : VerifiedStorageRequest} {now : ℕ}
    (h : request.current crypto now = .ok ()) :
    1 ≤ request.target.ciphertextBytes ∧ request.target.ciphertextBytes ≤ maxArchiveBytes ∧
      request.target.ciphertextBytes ≤ request.grant.limits.maxPayloadBytes ∧
      request.target.leaseId.isNone = request.operation.isReserve := by
  simp only [VerifiedStorageRequest.current, validate, ok_iff, not_or, not_not, ne_eq] at h
  obtain ⟨_, -, _, -, _, -, _, -, _, ⟨⟨hpos, hle⟩, hreserve⟩, -⟩ := h
  exact ⟨hpos, hle.trans (min_le_left _ _), hle.trans (min_le_right _ _), hreserve⟩

end Volparossa.PrivateStorage
