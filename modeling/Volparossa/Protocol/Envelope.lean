import Volparossa.Foundations.Protobuf.Schema
import Volparossa.Foundations.Sha256
import Volparossa.Foundations.Table
import Volparossa.Protocol.Canonical
import Volparossa.Transaction.Basic

/-!
# Signed control envelopes

Every control-plane payload travels in a signed envelope. `verifyControlMessage` is the only door
from bytes to a typed payload: it checks the encoding, the version, the validity window, the sender,
the payload digest, the message type, the signature and the payload itself, and last records the
sender and the nonce in a replay cache. `openControlMessage` is all of it but the recording; it does
not look at the cache.

A replay cache (`ReplayCache`) is bounded. It drops an entry when the envelope it stands for has
expired, and refuses a new entry when it is full of entries that have not. `checkAndInsert_spec`
says what one check does to the cache, and `verifyControlMessage_spec` what one verification does.

The cryptographic primitives are a parameter (`Crypto`).
-/

namespace Volparossa.Protocol

open Protobuf

open Transaction (Crypto ascii checkedSub)

/-! ## Envelopes -/

/-- The signed outer wrapper for every control-plane payload. -/
structure SignedEnvelope where
  protocolVersion : ℕ
  senderId : Bytes
  senderPublicKey : Bytes
  timestampMs : ℕ
  expiresAtMs : ℕ
  nonce : Bytes
  messageType : ℤ
  payload : Bytes
  payloadHash : Bytes
  signature : Bytes
  deriving DecidableEq

/-- What the signature of an envelope covers. -/
structure SignatureInput where
  protocolVersion : ℕ
  senderId : Bytes
  senderPublicKey : Bytes
  timestampMs : ℕ
  expiresAtMs : ℕ
  nonce : Bytes
  messageType : ℤ
  payloadHash : Bytes
  deriving DecidableEq

instance : Message SignedEnvelope := schema ⟨0, [], [], 0, 0, [], 0, [], [], []⟩ [
  .uint32 1 (·.protocolVersion) ({ · with protocolVersion := · }),
  .bytes 2 (·.senderId) ({ · with senderId := · }),
  .bytes 3 (·.senderPublicKey) ({ · with senderPublicKey := · }),
  .uint64 4 (·.timestampMs) ({ · with timestampMs := · }),
  .uint64 5 (·.expiresAtMs) ({ · with expiresAtMs := · }),
  .bytes 6 (·.nonce) ({ · with nonce := · }),
  .enumeration 7 (·.messageType) ({ · with messageType := · }),
  .bytes 8 (·.payload) ({ · with payload := · }),
  .bytes 9 (·.payloadHash) ({ · with payloadHash := · }),
  .bytes 10 (·.signature) ({ · with signature := · })]

instance : Message SignatureInput := schema ⟨0, [], [], 0, 0, [], 0, []⟩ [
  .uint32 1 (·.protocolVersion) ({ · with protocolVersion := · }),
  .bytes 2 (·.senderId) ({ · with senderId := · }),
  .bytes 3 (·.senderPublicKey) ({ · with senderPublicKey := · }),
  .uint64 4 (·.timestampMs) ({ · with timestampMs := · }),
  .uint64 5 (·.expiresAtMs) ({ · with expiresAtMs := · }),
  .bytes 6 (·.nonce) ({ · with nonce := · }),
  .enumeration 7 (·.messageType) ({ · with messageType := · }),
  .bytes 8 (·.payloadHash) ({ · with payloadHash := · })]

/-- A protobuf payload that can be carried in a signed control envelope: its number, its own bounds,
and how it relates to the envelope it comes in. -/
class ControlPayload (T : Type) extends Message T where
  messageType : ControlMessageType
  validate : Crypto → T → Except ProtocolError Unit
  validateEnvelope : Crypto → T → SignedEnvelope → Except ProtocolError Unit

/-! ## Time -/

/-- Time limits applied to signed, short-lived control messages. -/
structure TimePolicy where
  maximumLifetimeMs : ℕ
  maximumClockSkewMs : ℕ
  deriving DecidableEq

namespace TimePolicy

def default : TimePolicy := ⟨15 * 60 * 1000, 60 * 1000⟩

/-- A lifetime is positive and at most the maximal one. -/
def validateWindow (policy : TimePolicy) (timestampMs expiresAtMs : ℕ) :
    Except ProtocolError Unit := do
  let lifetime ← orFail (checkedSub expiresAtMs timestampMs) .invalidLifetime
  refuse (lifetime = 0 ∨ policy.maximumLifetimeMs = 0 ∨ policy.maximumLifetimeMs < lifetime)
    .invalidLifetime

/-- The window is a lifetime, began no later than the clock skew from now, and has not ended. -/
def validateAt (policy : TimePolicy) (timestampMs expiresAtMs nowMs : ℕ) :
    Except ProtocolError Unit := do
  policy.validateWindow timestampMs expiresAtMs
  refuse (timestampMs > min (nowMs + policy.maximumClockSkewMs) (2 ^ 64 - 1)) .notYetValid
  refuse (expiresAtMs ≤ nowMs) .expired

theorem lt_of_validateAt {policy : TimePolicy} {timestampMs expiresAtMs nowMs : ℕ}
    (h : policy.validateAt timestampMs expiresAtMs nowMs = .ok ()) : nowMs < expiresAtMs := by
  simp only [validateAt, ok_iff, not_le] at h
  obtain ⟨-, -, -, -, h⟩ := h
  exact h

end TimePolicy

/-! ## The replay cache -/

/-- What a replay cache recognizes a message by. -/
@[ext] structure ReplayKey where
  senderId : FixedBytes 32
  nonce : FixedBytes 32
  deriving DecidableEq

/-- An accepted message, and when its envelope expires. -/
structure ReplayEntry where
  key : ReplayKey
  expiresAtMs : ℕ
  deriving DecidableEq

/-- Bounded replay detector for accepted, still-live control messages. -/
structure ReplayCache where
  maximumEntries : ℕ
  entries : Table ReplayEntry.key
  deriving DecidableEq

namespace ReplayCache

/-- An empty cache with a non-zero entry limit. -/
def new (maximumEntries : ℕ) : Except ProtocolError ReplayCache := do
  refuse (maximumEntries = 0) (.invalidField "replay cache maximum_entries")
  pure ⟨maximumEntries, .empty⟩

/-- The entries whose envelopes have not expired. -/
def live (cache : ReplayCache) (nowMs : ℕ) : Table ReplayEntry.key :=
  cache.entries.filter fun e => decide (nowMs < e.expiresAtMs)

/-- Drop what has expired, refuse a key that is there and an entry beyond the limit, and record the
key otherwise. The first happens also when the key is refused. -/
def checkAndInsert (cache : ReplayCache) (key : ReplayKey) (expiresAtMs nowMs : ℕ) :
    Except ProtocolError Unit × ReplayCache :=
  let entries := cache.live nowMs
  if entries.lookup key ≠ none then (.error .replay, { cache with entries := entries })
  else if cache.maximumEntries ≤ entries.rows.length then
    (.error .replayCapacity, { cache with entries := entries })
  else (.ok (), { cache with entries := entries.put ⟨key, expiresAtMs⟩ })

/-- Take back one message accepted as part of an uncommitted local transaction. -/
def rollback (cache : ReplayCache) (key : ReplayKey) : Bool × ReplayCache :=
  ((cache.entries.lookup key).isSome, { cache with entries := cache.entries.erase key })

/-- What one check does: the entries that have expired are gone, and the key is new and recorded, or
it is refused and nothing is. -/
theorem checkAndInsert_spec (cache : ReplayCache) (key : ReplayKey) (expiresAtMs nowMs : ℕ) :
    (cache.checkAndInsert key expiresAtMs nowMs =
        (.ok (), { cache with entries := (cache.live nowMs).put ⟨key, expiresAtMs⟩ }) ∧
      (cache.live nowMs).lookup key = none ∧
      (cache.live nowMs).rows.length < cache.maximumEntries) ∨
    ∃ e, (e = .replay ∨ e = .replayCapacity) ∧
      cache.checkAndInsert key expiresAtMs nowMs =
        (.error e, { cache with entries := cache.live nowMs }) := by
  unfold checkAndInsert
  by_cases hkey : (cache.live nowMs).lookup key = none
  · by_cases hfull : cache.maximumEntries ≤ (cache.live nowMs).rows.length
    · exact Or.inr ⟨.replayCapacity, Or.inr rfl, by simp [hkey, hfull]⟩
    · exact Or.inl ⟨by simp [hkey, hfull], hkey, by omega⟩
  · exact Or.inr ⟨.replay, Or.inl rfl, by simp [hkey]⟩

end ReplayCache

/-! ## Verification -/

/-- A fully verified, replay-protected typed control message. -/
structure VerifiedControlMessage (T : Type) where
  message : T
  senderId : FixedBytes 32
  senderPublicKey : FixedBytes 32
  timestampMs : ℕ
  expiresAtMs : ℕ
  nonce : FixedBytes 32
  deriving DecidableEq

/-- The key under which a message was recorded. -/
abbrev VerifiedControlMessage.key {T : Type} (v : VerifiedControlMessage T) : ReplayKey :=
  ⟨v.senderId, v.nonce⟩

def signatureDomain : Bytes := ascii "volparossa/control-envelope/v4\x00"

def nodeIdDomain : Bytes := ascii "volparossa/node-id/v1\x00"

/-- A byte string of a fixed length. -/
def fixedArray (n : ℕ) (b : Bytes) (field : String) : Except ProtocolError (FixedBytes n) :=
  orFail (FixedBytes.ofBytes n b) (.invalidField field)

/-- What the signature covers: the domain, and the envelope without its payload and signature. -/
def signingBytes (envelope : SignedEnvelope) : Except ProtocolError Bytes := do
  let input : SignatureInput := ⟨envelope.protocolVersion, envelope.senderId,
    envelope.senderPublicKey, envelope.timestampMs, envelope.expiresAtMs, envelope.nonce,
    envelope.messageType, envelope.payloadHash⟩
  let encoded ← encodeCanonical input maxControlMessageSize
  pure (signatureDomain ++ encoded)

variable (crypto : Crypto)

/-- The stable node identifier of an Ed25519 public key. -/
def nodeIdFromPublicKey (publicKey : FixedBytes 32) : FixedBytes 32 :=
  crypto.sha256 (nodeIdDomain ++ publicKey.toBytes)

/-- The checks on an envelope that do not depend on the payload type: the sender, the key, the nonce
and the message type of one that passes. -/
def verifyEnvelope (envelope : SignedEnvelope) (nowMs : ℕ) (policy : TimePolicy) :
    Except ProtocolError (FixedBytes 32 × FixedBytes 32 × FixedBytes 32 × ControlMessageType) := do
  refuse (envelope.protocolVersion ≠ protocolVersion)
    (.unsupportedVersion envelope.protocolVersion)
  policy.validateAt envelope.timestampMs envelope.expiresAtMs nowMs
  refuse (envelope.payload.length > maxControlPayloadSize)
    (.oversized "control payload" maxControlPayloadSize)
  let senderId ← fixedArray 32 envelope.senderId "sender_id"
  let senderPublicKey ← fixedArray 32 envelope.senderPublicKey "sender_public_key"
  let nonce ← fixedArray 32 envelope.nonce "nonce"
  refuse (nonce = .zero 32) (.invalidField "nonce")
  let payloadHash ← fixedArray 32 envelope.payloadHash "payload_hash"
  let signature ← fixedArray 64 envelope.signature "signature"
  refuse (nodeIdFromPublicKey crypto senderPublicKey ≠ senderId) .senderKeyMismatch
  refuse (crypto.sha256 envelope.payload ≠ payloadHash) .payloadHashMismatch
  let messageType ← orFail (ControlMessageType.tryFrom envelope.messageType)
    (.unknownMessageType envelope.messageType)
  refuse (messageType = .unspecified) (.unknownMessageType envelope.messageType)
  refuse (crypto.verifyingKey senderPublicKey = false) .invalidSignature
  let signing ← signingBytes envelope
  refuse (crypto.verifyStrict senderPublicKey signing signature.toBytes = false) .invalidSignature
  pure (senderId, senderPublicKey, nonce, messageType)

variable {T : Type} [ControlPayload T]

/-- Everything that is checked of a message before the replay cache is asked. -/
def openControlMessage (encoded : Bytes) (nowMs : ℕ) (policy : TimePolicy) :
    Except ProtocolError (VerifiedControlMessage T) := do
  let envelope : SignedEnvelope ← decodeCanonical encoded maxControlMessageSize
  let (senderId, senderPublicKey, nonce, actual) ← verifyEnvelope crypto envelope nowMs policy
  refuse (actual ≠ ControlPayload.messageType T)
    (.wrongMessageType (ControlPayload.messageType T) actual)
  let payload : T ← decodeCanonical envelope.payload maxControlPayloadSize
  ControlPayload.validate crypto payload
  ControlPayload.validateEnvelope crypto payload envelope
  pure ⟨payload, senderId, senderPublicKey, envelope.timestampMs, envelope.expiresAtMs, nonce⟩

/-- **Verify a typed control message and record its sender and nonce.** -/
def verifyControlMessage (encoded : Bytes) (nowMs : ℕ) (policy : TimePolicy) (cache : ReplayCache) :
    Except ProtocolError (VerifiedControlMessage T) × ReplayCache :=
  match openControlMessage crypto encoded nowMs policy with
  | .error e => (.error e, cache)
  | .ok verified =>
    match cache.checkAndInsert verified.key verified.expiresAtMs nowMs with
    | (.error e, cache) => (.error e, cache)
    | (.ok (), cache) => (.ok verified, cache)

/-- What one verification does to the cache: the message is new and recorded among the entries that
have not expired, or the entries are as they were, up to the ones that have. -/
theorem verifyControlMessage_spec (encoded : Bytes) (nowMs : ℕ) (policy : TimePolicy)
    (cache : ReplayCache) :
    (∃ v : VerifiedControlMessage T, openControlMessage crypto encoded nowMs policy = .ok v ∧
      verifyControlMessage crypto encoded nowMs policy cache =
        (.ok v, { cache with entries := (cache.live nowMs).put ⟨v.key, v.expiresAtMs⟩ }) ∧
      (cache.live nowMs).lookup v.key = none ∧
      (cache.live nowMs).rows.length < cache.maximumEntries) ∨
    ∃ e entries, (entries = cache.entries ∨ entries = cache.live nowMs) ∧
      verifyControlMessage (T := T) crypto encoded nowMs policy cache =
        (.error e, { cache with entries := entries }) := by
  unfold verifyControlMessage
  cases hopen : openControlMessage (T := T) crypto encoded nowMs policy with
  | error e => exact Or.inr ⟨e, cache.entries, Or.inl rfl, rfl⟩
  | ok v =>
    rcases cache.checkAndInsert_spec v.key v.expiresAtMs nowMs with ⟨h, hkey, hlen⟩ | ⟨e, -, h⟩
    · exact Or.inl ⟨v, rfl, by simp only [h], hkey, hlen⟩
    · exact Or.inr ⟨e, cache.live nowMs, Or.inr rfl, by simp only [h]⟩

variable {policy : TimePolicy}

/-- What an accepted message is: an envelope that passes, of the payload's type, around a payload
that passes. -/
theorem openControlMessage_eq_ok {encoded : Bytes} {nowMs : ℕ} {v : VerifiedControlMessage T} :
    openControlMessage crypto encoded nowMs policy = .ok v ↔
      ∃ envelope : SignedEnvelope, decodeCanonical encoded maxControlMessageSize = .ok envelope ∧
        verifyEnvelope crypto envelope nowMs policy =
          .ok (v.senderId, v.senderPublicKey, v.nonce, ControlPayload.messageType T) ∧
        decodeCanonical envelope.payload maxControlPayloadSize = .ok v.message ∧
        ControlPayload.validate crypto v.message = .ok () ∧
        ControlPayload.validateEnvelope crypto v.message envelope = .ok () ∧
        v.timestampMs = envelope.timestampMs ∧ v.expiresAtMs = envelope.expiresAtMs := by
  simp only [openControlMessage, ok_iff, ne_eq, not_not]
  constructor
  · rintro ⟨envelope, hdecode, ⟨senderId, key, nonce, actual⟩, hverify, ⟨⟩, rfl, payload, hpayload,
      ⟨⟩, hvalid, ⟨⟩, henvelope, rfl⟩
    exact ⟨envelope, hdecode, hverify, hpayload, hvalid, henvelope, rfl, rfl⟩
  · rintro ⟨envelope, hdecode, hverify, hpayload, hvalid, henvelope, htimestamp, hexpires⟩
    refine ⟨envelope, hdecode, _, hverify, (), rfl, v.message, hpayload, (), hvalid, (), henvelope,
      ?_⟩
    cases v
    simp only at htimestamp hexpires
    simp only [htimestamp, hexpires]

/-- An envelope that passes has not expired. -/
theorem lt_of_verifyEnvelope {envelope : SignedEnvelope} {nowMs : ℕ}
    {fields : FixedBytes 32 × FixedBytes 32 × FixedBytes 32 × ControlMessageType}
    (h : verifyEnvelope crypto envelope nowMs policy = .ok fields) :
    nowMs < envelope.expiresAtMs := by
  simp only [verifyEnvelope, bind_eq_ok] at h
  obtain ⟨⟨⟩, -, ⟨⟩, htime, -⟩ := h
  exact TimePolicy.lt_of_validateAt htime

/-- The sender and the nonce of an envelope that passes are the ones it states. -/
theorem sender_nonce_of_verifyEnvelope {envelope : SignedEnvelope} {nowMs : ℕ}
    {senderId key nonce : FixedBytes 32} {messageType : ControlMessageType}
    (h : verifyEnvelope crypto envelope nowMs policy = .ok (senderId, key, nonce, messageType)) :
    envelope.senderId = senderId.toBytes ∧ envelope.nonce = nonce.toBytes := by
  simp only [verifyEnvelope, fixedArray, ok_iff, FixedBytes.ofBytes_eq_some, Prod.mk.injEq] at h
  obtain ⟨-, -, -, -, -, -, sender, hsender, _, -, n, hnonce, -, -, _, -, _, -, -, -, -, -, _, -, -,
    -, -, -, _, -, -, -, rfl, -, rfl, -⟩ := h
  exact ⟨hsender, hnonce⟩

/-- What is accepted has not expired. -/
theorem lt_of_openControlMessage {encoded : Bytes} {nowMs : ℕ} {v : VerifiedControlMessage T}
    (h : openControlMessage crypto encoded nowMs policy = .ok v) :
    nowMs < v.expiresAtMs := by
  obtain ⟨envelope, -, hverify, -, -, -, -, hexpires⟩ := (openControlMessage_eq_ok crypto).mp h
  rw [hexpires]
  exact lt_of_verifyEnvelope crypto hverify

/-! ## Signing -/

/-- A signing key: its public part, and the signature it makes on a message. -/
structure SigningKey where
  verifyingKey : FixedBytes 32
  sign : Bytes → FixedBytes 64

/-- Validate, canonicalize, and sign a typed control payload. The signature is verified before the
envelope is returned. -/
def signControlMessage (payload : T) (key : SigningKey) (timestampMs expiresAtMs : ℕ)
    (nonce : FixedBytes 32) (policy : TimePolicy) : Except ProtocolError Bytes := do
  policy.validateWindow timestampMs expiresAtMs
  refuse (nonce = .zero 32) (.invalidField "nonce")
  ControlPayload.validate crypto payload
  let payloadBytes ← encodeCanonical payload maxControlPayloadSize
  let envelope : SignedEnvelope := ⟨protocolVersion,
    (nodeIdFromPublicKey crypto key.verifyingKey).toBytes, key.verifyingKey.toBytes, timestampMs,
    expiresAtMs, nonce.toBytes, (ControlPayload.messageType T).number, payloadBytes,
    (crypto.sha256 payloadBytes).toBytes, []⟩
  ControlPayload.validateEnvelope crypto payload envelope
  let signing ← signingBytes envelope
  let signature := (key.sign signing).toBytes
  refuse (crypto.verifyingKey key.verifyingKey = false) .signingFailed
  refuse (crypto.verifyStrict key.verifyingKey signing signature = false) .signingFailed
  encodeCanonical { envelope with signature := signature } maxControlMessageSize

/-- Signatures that were made: the key, the digest of the message, and the signature. -/
abbrev Signatures := List (FixedBytes 32 × FixedBytes 32 × FixedBytes 64)

namespace Signatures

/-- The primitives, for the evaluation of closed runs: SHA-256, and Ed25519 as it is on the keys and
the messages of the given signatures. -/
def primitives (signatures : Signatures) : Crypto where
  sha256 := Sha256.digest
  verifyingKey key := decide (key ∈ signatures.map (·.1))
  signature b := decide (b.length = 64)
  verifyStrict key message signature := decide ((key, Sha256.digest message, signature) ∈
    signatures.map fun s => (s.1, s.2.1, s.2.2.toBytes))

/-- A key that made signatures. -/
def signingKey (signatures : Signatures) (key : FixedBytes 32) : SigningKey where
  verifyingKey := key
  sign message :=
    let digest := Sha256.digest message
    ((signatures.find? fun s => decide (s.1 = key ∧ s.2.1 = digest)).map (·.2.2)).getD (.zero 64)

end Signatures

end Volparossa.Protocol
