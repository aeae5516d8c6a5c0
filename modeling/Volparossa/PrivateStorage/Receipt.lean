import Volparossa.Foundations.Protobuf.RoundTrip
import Volparossa.PrivateStorage.Provider

/-!
# Receipts of a private storage provider

After it has executed a request, a provider signs what came of it. The owner verifies the receipt
against the request that it is for. Both sides check the result against the rules of the operation
once more (`validateReceipt`), apart from the store.

**`SignedStorageReceipt.decodeAndVerify_receiptOf`**: the owner accepts what the provider signed.
-/

namespace Volparossa.PrivateStorage

open Protobuf FixedBytes

open Protocol (SigningKey)

/-- Largest signed receipt. -/
def maxReceiptBytes : ℕ := 2048

namespace ReceiptState

/-- The number of a state in a message. -/
def code : ReceiptState → ℤ
  | .reserved => 1
  | .partialUpload => 2
  | .committed => 3
  | .renewed => 4
  | .deleted => 5

def ofCode : ℤ → Option ReceiptState
  | 1 => some .reserved
  | 2 => some .partialUpload
  | 3 => some .committed
  | 4 => some .renewed
  | 5 => some .deleted
  | _ => none

theorem ofCode_code (state : ReceiptState) : ofCode state.code = some state := by
  cases state <;> rfl

end ReceiptState

structure ReceiptPayload where
  (requestId provider capabilityId grantId archiveId leaseId : Bytes := [])
  ciphertextBytes : ℕ := 0
  sha256 : Bytes := []
  state : ℤ := 0
  (storedBytes expiresAt : ℕ := 0)
  rangeSha256 : Bytes := []
  deriving DecidableEq, Repr

instance : Message ReceiptPayload := schema {} [
  .bytes 1 (·.requestId) ({ · with requestId := · }),
  .bytes 2 (·.provider) ({ · with provider := · }),
  .bytes 3 (·.capabilityId) ({ · with capabilityId := · }),
  .bytes 4 (·.grantId) ({ · with grantId := · }),
  .bytes 5 (·.archiveId) ({ · with archiveId := · }),
  .bytes 6 (·.leaseId) ({ · with leaseId := · }),
  .uint64 7 (·.ciphertextBytes) ({ · with ciphertextBytes := · }),
  .bytes 8 (·.sha256) (fun m v => { m with sha256 := v }),
  .enumeration 9 (·.state) ({ · with state := · }),
  .uint64 10 (·.storedBytes) ({ · with storedBytes := · }),
  .uint64 11 (·.expiresAt) ({ · with expiresAt := · }),
  .bytes 12 (·.rangeSha256) (fun m v => { m with rangeSha256 := v })]

def Envelope.receiptKind : ℕ := 4

/-- Original provider-signed statement bound to one exact owner-authorized operation. -/
structure SignedStorageReceipt where
  envelope : Envelope
  result : ReceiptResult
  deriving DecidableEq

/-! ## Validation -/

/-- Digest of the entire canonical signed request. -/
def VerifiedStorageRequest.id (crypto : Ed25519) (request : VerifiedStorageRequest) :
    FixedBytes 32 :=
  crypto.sha256 (encode request.signed.envelope)

def StorageOperation.isReadRange : StorageOperation → Bool
  | .readRange _ _ => true
  | _ => false

/-- Whether a prefix of some bytes cannot be in a state. -/
def ReceiptState.contradicts (ciphertextBytes storedBytes : ℕ) : ReceiptState → Bool
  | .reserved | .deleted => storedBytes ≠ 0
  | .partialUpload => storedBytes = 0
  | .committed => storedBytes ≠ ciphertextBytes
  | .renewed => false

/-- Whether the result of an operation can be in its state. -/
def StorageOperation.compatible (result : ReceiptResult) : StorageOperation → Bool
  | .reserve _ | .progress =>
    result.state = .reserved ∨ result.state = .partialUpload ∨ result.state = .committed
  | .append offset length _ =>
    (result.state = .partialUpload ∨ result.state = .committed) ∧
      result.storedBytes ≥ offset + length
  | .finalize | .readRange _ _ => result.state = .committed
  | .renew expiresAt => result.state = .renewed ∧ result.expiresAt = expiresAt
  | .delete => result.state = .deleted

/-- Whether the deadline of a result is one that the grant allows. -/
def validateDeadline (result : ReceiptResult) (grant : VerifiedStorageGrant) (created : ℕ) :
    Except ProtocolError Unit :=
  if result.state = .deleted then refuse (result.expiresAt ≠ 0) .invalid
  else refuse (result.expiresAt ≤ created ∨ result.expiresAt > grant.validity.expires ∨
    result.expiresAt - created > grant.limits.maxRetentionSeconds) .invalid

def validateReceipt (result : ReceiptResult) (request : VerifiedStorageRequest) (created : ℕ) :
    Except ProtocolError Unit := do
  let _ ← Envelope.identifier 16 result.leaseId.toBytes
  let target := request.target
  refuse ((target.leaseId.any fun lease => decide (lease ≠ result.leaseId)) ∨
    result.storedBytes > target.ciphertextBytes ∨
    (result.storedBytes ≠ target.ciphertextBytes ∧ result.storedBytes % chunkBytes ≠ 0) ∨
    result.rangeSha256.isSome ≠ request.operation.isReadRange) .invalid
  refuse (result.state.contradicts target.ciphertextBytes result.storedBytes = true) .invalid
  validateDeadline result request.grant created
  refuse (request.operation.compatible result = false) .invalid

/-! ## Signing and verifying -/

namespace SignedStorageReceipt

variable (crypto : Ed25519)

/-- What a receipt states. -/
def payloadOf (request : VerifiedStorageRequest) (result : ReceiptResult) : ReceiptPayload where
  requestId := (request.id crypto).toBytes
  provider := request.grant.provider.toBytes
  capabilityId := request.grant.capabilityId.toBytes
  grantId := (request.grant.id crypto).toBytes
  archiveId := request.target.archiveId.toBytes
  leaseId := result.leaseId.toBytes
  ciphertextBytes := request.target.ciphertextBytes
  sha256 := request.target.sha256.toBytes
  state := result.state.code
  storedBytes := result.storedBytes
  expiresAt := result.expiresAt
  rangeSha256 := (result.rangeSha256.map toBytes).getD []

/-- Sign an actual execution result. -/
def sign (provider : SigningKey) (request : VerifiedStorageRequest) (result : ReceiptResult)
    (validity : Validity) (nonce : FixedBytes 32) : Except ProtocolError SignedStorageReceipt := do
  refuse (provider.verifyingKey ≠ request.grant.provider) .unauthorized
  request.current crypto validity.created
  Envelope.within validity request.validity
  validateReceipt result request validity.created
  let envelope ← Envelope.sign crypto provider Envelope.receiptKind
    (Protobuf.encode (payloadOf crypto request result)) validity maxAuthSeconds nonce
  pure ⟨envelope, result⟩

/-- Original signed receipt bytes. -/
def encode (receipt : SignedStorageReceipt) : Bytes := Protobuf.encode receipt.envelope

/-- The result that a payload states. -/
def resultOf (payload : ReceiptPayload) : Except ProtocolError ReceiptResult := do
  let state ← orFail (ReceiptState.ofCode payload.state) .invalid
  let leaseId ← Envelope.identifier 16 payload.leaseId
  let rangeSha256 ← if payload.rangeSha256 = [] then pure none else do
    let hash ← Envelope.fixed 32 payload.rangeSha256
    pure (some hash)
  pure ⟨state, leaseId, payload.storedBytes, payload.expiresAt, rangeSha256⟩

/-- Verify the provider and the exact original request before interpreting the result. -/
def decodeAndVerify (bytes : Bytes) (request : VerifiedStorageRequest) (now : ℕ) :
    Except ProtocolError SignedStorageReceipt := do
  let trusted := request.grant.provider
  let envelope ← Envelope.decode Envelope bytes maxReceiptBytes
  let body ← envelope.verify crypto trusted Envelope.receiptKind maxAuthSeconds now
  request.current crypto body.created
  Envelope.within (Envelope.validity body) request.validity
  let payload ← Envelope.decode ReceiptPayload body.payload maxReceiptBytes
  let target := request.target
  refuse (payload.requestId ≠ (request.id crypto).toBytes ∨ payload.provider ≠ trusted.toBytes ∨
    payload.capabilityId ≠ request.grant.capabilityId.toBytes ∨
    payload.grantId ≠ (request.grant.id crypto).toBytes ∨
    payload.archiveId ≠ target.archiveId.toBytes ∨
    payload.ciphertextBytes ≠ target.ciphertextBytes ∨
    payload.sha256 ≠ target.sha256.toBytes) .unauthorized
  let result ← resultOf payload
  validateReceipt result request body.created
  pure ⟨envelope, result⟩

end SignedStorageReceipt

/-! ## Round trips -/

instance : LawfulMessage Body := lawful
  (fun m => m.version < 2 ^ 32 ∧ m.created < 2 ^ 64 ∧ m.expires < 2 ^ 64 ∧ m.messageType < 2 ^ 32)
  (by decide)
  fun _ ⟨hversion, hcreated, hexpires, htype⟩ =>
    .cons (.uint32 hversion) <| .cons .bytes <| .cons (.uint64 hcreated) <|
    .cons (.uint64 hexpires) <| .cons .bytes <| .cons (.uint32 htype) <| .cons .bytes <|
    .cons .bytes .nil

instance : LawfulMessage Envelope := lawful
  (fun m => ∀ body, m.body = some body → Fits body ∧ (Protobuf.encode body).length < 2 ^ 64)
  (by decide)
  fun _ h => .cons (.message fun body hbody => (h body hbody).1) <| .cons .bytes .nil

instance : LawfulMessage ReceiptPayload := lawful
  (fun m => m.ciphertextBytes < 2 ^ 64 ∧ (0 ≤ m.state ∧ m.state < 2 ^ 31) ∧
    m.storedBytes < 2 ^ 64 ∧ m.expiresAt < 2 ^ 64)
  (by decide)
  fun _ ⟨hbytes, hstate, hstored, hexpires⟩ =>
    .cons .bytes <| .cons .bytes <| .cons .bytes <| .cons .bytes <| .cons .bytes <| .cons .bytes <|
    .cons (.uint64 hbytes) <| .cons .bytes <| .cons (.enumeration hstate.1 hstate.2) <|
    .cons (.uint64 hstored) <| .cons (.uint64 hexpires) <| .cons .bytes .nil

/-- The size of a body, from the size of its payload. -/
theorem length_encode_body {body : Body} {n : ℕ} (hversion : body.version < 128)
    (hsender : body.sender.length = 32) (hcreated : body.created < 2 ^ 64)
    (hexpires : body.expires < 2 ^ 64) (hnonce : body.nonce.length = 32)
    (htype : body.messageType < 128) (hhash : body.payloadHash.length = 32)
    (hpayload : body.payload.length ≤ n) (hn : n < 16384) :
    (Protobuf.encode body).length ≤ 131 + n := by
  refine (Takes.length_encode_le (.cons (.uint32 0 hversion) <| .cons (.bytes hsender.le) <|
    .cons (.uint64 hcreated) <| .cons (.uint64 hexpires) <| .cons (.bytes hnonce.le) <|
    .cons (.uint32 0 htype) <| .cons (.bytes hhash.le) <| .cons (.bytes hpayload 1 hn) .nil)).trans
    (by omega)

theorem Envelope.decode_of_encode {M : Type} [Message M] [LawfulMessage M] {m : M} {maximum : ℕ}
    (hfits : Fits m) (hne : Protobuf.encode m ≠ []) (hlength : (Protobuf.encode m).length ≤ maximum)
    (hmaximum : maximum < 2 ^ 64) : Envelope.decode M (Protobuf.encode m) maximum = .ok m := by
  have hrefuse : ¬(Protobuf.encode m = [] ∨ (Protobuf.encode m).length > maximum) := by
    rintro (h | h)
    · exact hne h
    · omega
  rw [Envelope.decode, refuse_of_not hrefuse, ok_bind,
    Protobuf.decode_encode hfits (lt_of_le_of_lt hlength hmaximum), orFail_some, ok_bind,
    refuse_of_not (by simp), ok_bind, pure_ok]

/-- A grant that was verified ends within the range of times. -/
theorem VerifiedStorageGrant.expires_le {crypto : Ed25519} {grant : VerifiedStorageGrant}
    (h : ∃ time, grant.signed.verify crypto grant.provider time = .ok grant) :
    grant.validity.expires ≤ maxInt64 := by
  obtain ⟨time, h⟩ := h
  simp only [SignedStorageGrant.verify, Envelope.verify, Envelope.checkedBody, ok_iff, not_or,
    not_lt] at h
  obtain ⟨_, ⟨body, ⟨_, -, _, -, _, -, _, ⟨-, -, -, -, -, hexpires, -⟩, rfl⟩, _, -, _, -, _, -, _,
    -, rfl⟩, _, -, _, -, _, -, hgrant⟩ := h
  rw [← hgrant]
  exact hexpires

/-! ## What is signed verifies -/

/-- The signatures of a key verify. -/
def Correct (crypto : Ed25519) (key : SigningKey) : Prop :=
  ∀ message, crypto.signature (key.sign message).toBytes = true ∧
    crypto.verifyStrict key.verifyingKey message (key.sign message).toBytes = true

namespace Envelope

variable {crypto : Ed25519} {key : SigningKey} {kind maxLifetime now : ℕ} {payload : Bytes}
  {validity : Validity} {nonce : FixedBytes 32}

/-- The body that is signed. -/
def bodyOf (crypto : Ed25519) (key : SigningKey) (kind : ℕ) (payload : Bytes) (validity : Validity)
    (nonce : FixedBytes 32) : Body :=
  ⟨1, key.verifyingKey.toBytes, validity.created, validity.expires, nonce.toBytes, kind,
    (crypto.sha256 payload).toBytes, payload⟩

/-- The envelope that is made of it. -/
def envelopeOf (crypto : Ed25519) (key : SigningKey) (kind : ℕ) (payload : Bytes)
    (validity : Validity) (nonce : FixedBytes 32) : Envelope :=
  ⟨some (bodyOf crypto key kind payload validity nonce),
    (key.sign (signingBytes (bodyOf crypto key kind payload validity nonce))).toBytes⟩

theorem identifier_toBytes {n : ℕ} {id : FixedBytes n} (h : id ≠ .zero n) :
    identifier n id.toBytes = .ok id := by
  rw [identifier, fixed, ofBytes_toBytes, orFail_some, ok_bind, refuse_of_not h, ok_bind,
    pure_ok]

theorem identifier_eq_ok {n : ℕ} {id id' : FixedBytes n} (h : identifier n id.toBytes = .ok id') :
    id ≠ .zero n ∧ id' = id := by
  simp only [identifier, fixed, ofBytes_toBytes, orFail_some, ok_bind, ok_iff] at h
  obtain ⟨-, hne, rfl⟩ := h
  exact ⟨hne, rfl⟩

/-- What a signature on an envelope needs. -/
structure Signable (crypto : Ed25519) (key : SigningKey) (validity : Validity) (maxLifetime : ℕ)
    (nonce : FixedBytes 32) : Prop where
  key : Envelope.key crypto key.verifyingKey.toBytes = .ok key.verifyingKey
  nonce : nonce ≠ .zero 32
  created : 0 < validity.created
  lifetime : validity.created < validity.expires
  expires : validity.expires ≤ maxInt64
  bounded : validity.expires ≤ validity.created + maxLifetime

variable (h : Signable crypto key validity maxLifetime nonce)

include h

theorem checkedBody_envelopeOf :
    (envelopeOf crypto key kind payload validity nonce).checkedBody crypto kind maxLifetime =
      .ok (bodyOf crypto key kind payload validity nonce) := by
  obtain ⟨hkey, hnonce, hcreated, hlifetime, hexpires, hbounded⟩ := h
  simp only [checkedBody, ok_iff]
  refine ⟨_, rfl, _, hkey, _, identifier_toBytes hnonce, (), ?_, rfl⟩
  simp only [envelopeOf, bodyOf, length_toBytes, ne_eq, not_true_eq_false, false_or,
    or_false, not_or]
  omega

theorem sign_eq : sign crypto key kind payload validity maxLifetime nonce =
    .ok (envelopeOf crypto key kind payload validity nonce) := by
  simp only [sign, ok_iff]
  exact ⟨_, identifier_toBytes h.nonce, _, checkedBody_envelopeOf h, rfl⟩

theorem verify_envelopeOf (hcorrect : Correct crypto key) (hcreated : validity.created ≤ now)
    (hexpires : now < validity.expires) :
    (envelopeOf crypto key kind payload validity nonce).verify crypto key.verifyingKey kind
      maxLifetime now = .ok (bodyOf crypto key kind payload validity nonce) := by
  obtain ⟨hsignature, hverify⟩ :=
    hcorrect (signingBytes (bodyOf crypto key kind payload validity nonce))
  simp only [verify, ok_iff, Bool.not_eq_false, not_not, not_or, not_lt, not_le]
  exact ⟨_, checkedBody_envelopeOf h, (), rfl, (), ⟨hcreated, hexpires⟩, (), hsignature, (),
    hverify, rfl⟩

/-- **The bytes of a signed envelope decode to it.** -/
theorem decode_envelopeOf {n maximum : ℕ} (hkind : kind < 128) (hpayload : payload.length ≤ n)
    (hn : n + 134 < 16384) (hmaximum : n + 200 ≤ maximum) (hmax : maximum < 2 ^ 64) :
    decode Envelope (Protobuf.encode (envelopeOf crypto key kind payload validity nonce)) maximum =
      .ok (envelopeOf crypto key kind payload validity nonce) := by
  have hexpires : validity.expires < 2 ^ 64 := lt_of_le_of_lt h.expires (by decide)
  have hcreated : validity.created < 2 ^ 64 := h.lifetime.trans hexpires
  have hbody : (Protobuf.encode (bodyOf crypto key kind payload validity nonce)).length ≤ 131 + n :=
    length_encode_body (by decide : 1 < 128) (length_toBytes _) hcreated hexpires
      (length_toBytes _) hkind (length_toBytes _) hpayload (by omega)
  have hlength : (Protobuf.encode (envelopeOf crypto key kind payload validity nonce)).length ≤
      1 + 2 + (131 + n) + (0 + 2 + 64 + 0) :=
    Takes.length_encode_le <| .cons (.message (fun body heq => by
      obtain rfl : bodyOf crypto key kind payload validity nonce = body := Option.some.inj heq
      exact hbody) 1 (by omega)) <| .cons (.bytes (by exact (length_toBytes _).le)) .nil
  refine decode_of_encode ?_ ?_ (by omega) hmax
  · intro body heq
    obtain rfl : bodyOf crypto key kind payload validity nonce = body := Option.some.inj heq
    exact ⟨⟨(by decide : 1 < 2 ^ 32), hcreated, hexpires, by simp only [bodyOf]; omega⟩, by omega⟩
  · exact encode_ne_nil (List.mem_cons_of_mem _ List.mem_cons_self)
      (FieldSpec.write_bytes_ne_nil (ne_nil _))

end Envelope

namespace SignedStorageReceipt

variable {crypto : Ed25519} {key : SigningKey} {request : VerifiedStorageRequest}
  {result : ReceiptResult} {validity : Validity} {nonce : FixedBytes 32} {now : ℕ}

theorem length_rangeSha256_le : ((result.rangeSha256.map toBytes).getD []).length ≤ 32 := by
  cases result.rangeSha256 with
  | none => exact Nat.zero_le _
  | some hash => exact (length_toBytes hash).le

theorem code_bounds (state : ReceiptState) : 0 ≤ state.code ∧ state.code < 128 := by
  cases state <;> decide

/-- The size of a payload. -/
theorem length_payloadOf (hbytes : request.target.ciphertextBytes < 2 ^ 64)
    (hstored : result.storedBytes < 2 ^ 64) (hexpires : result.expiresAt < 2 ^ 64) :
    (Protobuf.encode (payloadOf crypto request result)).length ≤ 291 := by
  obtain ⟨hpos, hcode⟩ := code_bounds result.state
  refine le_trans (Takes.length_encode_le <| .cons (.bytes (by exact (length_toBytes _).le)) <|
    .cons (.bytes (by exact (length_toBytes _).le)) <|
      .cons (.bytes (by exact (length_toBytes _).le)) <|
    .cons (.bytes (by exact (length_toBytes _).le)) <|
      .cons (.bytes (by exact (length_toBytes _).le)) <|
    .cons (.bytes (by exact (length_toBytes _).le)) <| .cons (.uint64 hbytes) <|
    .cons (.bytes (by exact (length_toBytes _).le)) <| .cons (.enumeration hpos hcode) <|
    .cons (.uint64 hstored) <| .cons (.uint64 hexpires) <|
    .cons (.bytes (by exact length_rangeSha256_le)) .nil) ?_
  decide

theorem resultOf_payloadOf (hlease : result.leaseId ≠ .zero 16) :
    resultOf (payloadOf crypto request result) = .ok result := by
  obtain ⟨state, leaseId, storedBytes, expiresAt, rangeSha256⟩ := result
  simp only [resultOf, payloadOf, ReceiptState.ofCode_code, orFail_some, ok_bind,
    Envelope.identifier_toBytes hlease]
  cases rangeSha256 with
  | none => rfl
  | some hash =>
    have hne : hash.toBytes ≠ [] := ne_nil hash
    simp only [Option.map_some, Option.getD_some, if_neg hne, Envelope.fixed,
      ofBytes_toBytes, orFail_some, ok_bind, pure_ok]

/-- What a receipt needs to be signed. -/
structure Signable (crypto : Ed25519) (key : SigningKey) (request : VerifiedStorageRequest)
    (result : ReceiptResult) (validity : Validity) (nonce : FixedBytes 32) : Prop where
  envelope : Envelope.Signable crypto key validity maxAuthSeconds nonce
  provider : key.verifyingKey = request.grant.provider
  current : request.current crypto validity.created = .ok ()
  within : Envelope.within validity request.validity = .ok ()
  valid : validateReceipt result request validity.created = .ok ()

/-- The receipt that is signed. -/
def receiptOf (crypto : Ed25519) (key : SigningKey) (request : VerifiedStorageRequest)
    (result : ReceiptResult) (validity : Validity) (nonce : FixedBytes 32) : SignedStorageReceipt :=
  ⟨Envelope.envelopeOf crypto key Envelope.receiptKind
    (Protobuf.encode (payloadOf crypto request result)) validity nonce, result⟩

theorem sign_eq (h : Signable crypto key request result validity nonce) :
    sign crypto key request result validity nonce =
      .ok (receiptOf crypto key request result validity nonce) := by
  simp only [sign, ok_iff, not_not]
  exact ⟨(), h.provider, (), h.current, (), h.within, (), h.valid, _, Envelope.sign_eq h.envelope,
    rfl⟩

/-- **The owner accepts what the provider signed.** -/
theorem decodeAndVerify_receiptOf (h : Signable crypto key request result validity nonce)
    (hcorrect : Correct crypto key) (hexpiry : result.expiresAt < 2 ^ 64)
    (hcreated : validity.created ≤ now) (hexpires : now < validity.expires) :
    decodeAndVerify crypto (receiptOf crypto key request result validity nonce).encode request now =
      .ok (receiptOf crypto key request result validity nonce) := by
  have htarget := (target_of_current h.current).2.1
  have hvalid := h.valid
  simp only [validateReceipt, ok_iff, not_or, not_lt] at hvalid
  obtain ⟨leaseId, hlease, -, ⟨-, hstored, -⟩, -⟩ := hvalid
  have hbytes : request.target.ciphertextBytes < 2 ^ 64 := lt_of_le_of_lt htarget (by decide)
  have hpayload : (Protobuf.encode (payloadOf crypto request result)).length ≤ 291 :=
    length_payloadOf hbytes (lt_of_le_of_lt hstored hbytes) hexpiry
  have hfits : Fits (payloadOf crypto request result) :=
    ⟨hbytes, ⟨(code_bounds result.state).1, (code_bounds result.state).2.trans (by decide)⟩,
      lt_of_le_of_lt hstored hbytes, hexpiry⟩
  simp only [decodeAndVerify, ok_iff, not_or, not_not]
  rw [← h.provider]
  refine ⟨_, Envelope.decode_envelopeOf h.envelope (by decide) hpayload (by decide) (by decide)
    (by decide), _, Envelope.verify_envelopeOf h.envelope hcorrect hcreated hexpires, (), h.current,
    (),
    h.within, _, Envelope.decode_of_encode hfits ?_ (hpayload.trans (by decide)) (by decide), (),
    ⟨rfl, ?_, rfl, rfl, rfl, rfl, rfl⟩, result,
    resultOf_payloadOf (Envelope.identifier_eq_ok hlease).1, (), h.valid, rfl⟩
  · exact encode_ne_nil List.mem_cons_self (FieldSpec.write_bytes_ne_nil (ne_nil _))
  · rw [h.provider]
    rfl

end SignedStorageReceipt

end Volparossa.PrivateStorage
