import Volparossa.Foundations.Protobuf.Schema
import Volparossa.Foundations.Sha256
import Volparossa.Protocol.Canonical
import Volparossa.Transaction.Basic

/-!
# Signed commands

A signed command is an envelope around a body, both canonical protobuf messages. `verifyMode` is
the only door from bytes to a command: it checks the encoding, the version of the mode, the
validity interval, the payload digest, the ledger, the signer and the signature, and the shape of
the action. It does not look at the time, nor at any account, so its answer on given bytes never
changes. `Verified.WellFormed` is what an accepted command satisfies (`verifyMode_wellFormed`), and
an accepted byte string is neither empty nor longer than `maxBytes` (`verifyMode_length`).
-/

namespace Volparossa.Transaction

open Protobuf Protocol

/-- Signature domain of a local store. -/
def domain : Bytes := ascii "volparossa/transaction/test-unit-command/v1\x00"

/-- Signature domain of an ordered store. -/
def orderedDomain : Bytes := ascii "volparossa/transaction/ordered-test-unit-command/v2\x00"

/-- Bound on the encoding of a signed command. -/
def maxBytes : ℕ := 4096

/-- Bound on the validity interval, in seconds. -/
def maxLifetime : ℕ := 3600

/-- The signed terms. -/
structure Body where
  version : ℕ
  unit : Bytes
  ledger : Bytes
  operation : Bytes
  payer : Bytes
  kind : ℕ
  target : Bytes
  units : ℕ
  deriving DecidableEq

/-- The signed terms with their validity interval, nonce and signature. -/
structure Envelope where
  version : ℕ
  sender : Bytes
  validFrom : ℕ
  expires : ℕ
  nonce : Bytes
  payload : Bytes
  payloadHash : Bytes
  signature : Bytes
  deriving DecidableEq

instance : Message Body := schema ⟨0, [], [], [], [], 0, [], 0⟩ [
  .uint32 1 (·.version) ({ · with version := · }),
  .bytes 2 (·.unit) ({ · with unit := · }),
  .bytes 3 (·.ledger) ({ · with ledger := · }),
  .bytes 4 (·.operation) ({ · with operation := · }),
  .bytes 5 (·.payer) ({ · with payer := · }),
  .uint32 6 (·.kind) ({ · with kind := · }),
  .bytes 7 (·.target) ({ · with target := · }),
  .uint64 8 (·.units) ({ · with units := · })]

instance : Message Envelope := schema ⟨0, [], 0, 0, [], [], [], []⟩ [
  .uint32 1 (·.version) ({ · with version := · }),
  .bytes 2 (·.sender) ({ · with sender := · }),
  .uint64 3 (·.validFrom) ({ · with validFrom := · }),
  .uint64 4 (·.expires) ({ · with expires := · }),
  .bytes 5 (·.nonce) ({ · with nonce := · }),
  .bytes 6 (·.payload) ({ · with payload := · }),
  .bytes 7 (·.payloadHash) ({ · with payloadHash := · }),
  .bytes 8 (·.signature) ({ · with signature := · })]

/-! ## Verification -/

/-- A command whose envelope was accepted. -/
structure Verified where
  command : Command
  nonce : FixedBytes 32
  validFrom : ℕ
  expires : ℕ
  deriving DecidableEq

/-- The version that the envelopes of a mode carry. -/
def modeVersion (mode : Mode) : ℕ := if mode = .localStore then 1 else 2

/-- What the signature covers: the domain, and the envelope without its signature. -/
def signingBytes (value : Envelope) : Except Error Bytes := do
  let unsigned := { value with signature := [] }
  let encoded ← (encodeCanonical unsigned maxBytes).mapError fun _ => Error.invalid
  pure ((if value.version = 2 then orderedDomain else domain) ++ encoded)

/-- A nonzero identifier. -/
def identifier (b : Bytes) : Except Error (FixedBytes 32) := do
  let value ← orFail (FixedBytes.ofBytes 32 b) Error.invalid
  refuse (value = FixedBytes.zero 32) Error.invalid
  pure value

/-- The action that a body of kind `kind` describes. -/
def bodyAction (body : Body) (payer target : FixedBytes 32) : Except Error Action :=
  if body.kind = 1 ∧ body.units > 0 ∧ body.units ≤ maxUnits ∧ target ≠ payer then
    .ok (.reserve target body.units)
  else if body.kind = 2 ∧ body.units = 0 then .ok (.commit target)
  else if body.kind = 3 ∧ body.units = 0 then .ok (.cancel target)
  else .error .invalid

/-- **Verification of a signed command** for a ledger and a mode. -/
def verifyMode (crypto : Crypto) (b : Bytes) (ledger : LedgerId) (mode : Mode) :
    Except Error Verified := do
  let envelope : Envelope ← (decodeCanonical b maxBytes).mapError fun _ => Error.invalid
  let body : Body ← (decodeCanonical envelope.payload maxBytes).mapError fun _ => Error.invalid
  refuse (envelope.version ≠ modeVersion mode ∨ body.version ≠ modeVersion mode ∨
    body.unit ≠ testUnit ∨
    (checkedSub envelope.expires envelope.validFrom).all (fun n => n = 0 || maxLifetime < n) ∨
    envelope.expires > maxUnits ∨
    envelope.payloadHash ≠ (crypto.sha256 envelope.payload).toBytes) Error.invalid
  let bodyLedger ← identifier body.ledger
  refuse (bodyLedger ≠ ledger) Error.wrongLedger
  let payer ← identifier body.payer
  refuse (envelope.sender ≠ payer.toBytes) Error.unauthorized
  refuse (crypto.verifyingKey payer = false) Error.unauthorized
  refuse (crypto.signature envelope.signature = false) Error.unauthorized
  let signing ← signingBytes envelope
  refuse (crypto.verifyStrict payer signing envelope.signature = false) Error.unauthorized
  let target ← identifier body.target
  let action ← bodyAction body payer target
  let operationId ← identifier body.operation
  let nonce ← identifier envelope.nonce
  pure ⟨⟨operationId, payer, action⟩, nonce, envelope.validFrom, envelope.expires⟩

/-- A signing key: its public part, and the signature it makes on a message. -/
structure SigningKey where
  verifyingKey : AccountId
  sign : Bytes → Bytes

/-- The kind, target and units of the body that describes an action. -/
def actionTerms : Action → ℕ × FixedBytes 32 × ℕ
  | .reserve recipient units => (1, recipient, units)
  | .commit reservationId => (2, reservationId, 0)
  | .cancel reservationId => (3, reservationId, 0)

/-- Sign the terms of a command for a ledger and a mode. -/
def signMode (crypto : Crypto) (ledger : LedgerId) (key : SigningKey) (command : Command)
    (validFrom expires : ℕ) (nonce : FixedBytes 32) (mode : Mode) : Except Error Bytes := do
  let (kind, target, units) := actionTerms command.action
  let body : Body := ⟨modeVersion mode, testUnit, ledger.toBytes, command.operationId.toBytes,
    command.payer.toBytes, kind, target.toBytes, units⟩
  let payload ← (encodeCanonical body maxBytes).mapError fun _ => Error.invalid
  let envelope : Envelope := ⟨modeVersion mode, key.verifyingKey.toBytes, validFrom, expires,
    nonce.toBytes, payload, (crypto.sha256 payload).toBytes, []⟩
  let signing ← signingBytes envelope
  let b ← (encodeCanonical { envelope with signature := key.sign signing } maxBytes).mapError
    fun _ => Error.invalid
  let _ ← verifyMode crypto b ledger mode
  pure b

/-- What holds of every accepted command: a reserve moves a positive amount within bounds to another
account. -/
def Verified.WellFormed (v : Verified) : Prop :=
  match v.command.action with
  | .reserve recipient units => 0 < units ∧ units ≤ maxUnits ∧ recipient ≠ v.command.payer
  | _ => True

theorem bodyAction_eq_ok {body : Body} {payer target : FixedBytes 32} {a : Action}
    (h : bodyAction body payer target = .ok a) :
    (a = .reserve target body.units ∧ 0 < body.units ∧ body.units ≤ maxUnits ∧ target ≠ payer) ∨
      a = .commit target ∨ a = .cancel target := by
  unfold bodyAction at h
  split_ifs at h with h1 h2 h3
  · obtain ⟨-, hpos, hle, hne⟩ := h1
    cases h
    exact Or.inl ⟨rfl, hpos, hle, hne⟩
  · cases h
    exact Or.inr (Or.inl rfl)
  · cases h
    exact Or.inr (Or.inr rfl)

theorem verifyMode_wellFormed {crypto : Crypto} {b : Bytes} {ledger : LedgerId} {mode : Mode}
    {v : Verified} (h : verifyMode crypto b ledger mode = .ok v) : v.WellFormed := by
  simp only [verifyMode, ok_iff] at h
  obtain ⟨envelope, -, body, -, -, -, bodyLedger, -, -, -, payer, -, -, -, -, -, -, -, signing, -,
    -, -, target, -, action, haction, operationId, -, nonce, -, rfl⟩ := h
  rcases bodyAction_eq_ok haction with ⟨rfl, hpos, hle, hne⟩ | rfl | rfl
  · exact ⟨hpos, hle, hne⟩
  · trivial
  · trivial

/-- The empty byte string is the default envelope, of version zero. -/
theorem decodeCanonical_nil : decodeCanonical ([] : Bytes) maxBytes =
    .ok (Message.default : Envelope) := by
  rfl

/-- An accepted byte string is neither empty nor oversized. -/
theorem verifyMode_length {crypto : Crypto} {b : Bytes} {ledger : LedgerId} {mode : Mode}
    {v : Verified} (h : verifyMode crypto b ledger mode = .ok v) :
    0 < b.length ∧ b.length ≤ maxBytes := by
  simp only [verifyMode, ok_iff] at h
  obtain ⟨envelope, henv, body, -, -, hguard, -⟩ := h
  refine ⟨List.length_pos_of_ne_nil ?_, (encode_of_decodeCanonical henv).2⟩
  rintro rfl
  rw [decodeCanonical_nil, Except.ok.injEq] at henv
  refine hguard (Or.inl ?_)
  rw [← henv]
  cases mode <;> decide

/-! ## Rejections -/

/-- The errors of verification. -/
def Error.IsVerification (e : Error) : Prop := e = .invalid ∨ e = .unauthorized ∨ e = .wrongLedger

theorem identifier_failsOnly (b : Bytes) : FailsOnly Error.IsVerification (identifier b) := by
  simp [identifier, failsOnly_bind, Error.IsVerification]

theorem bodyAction_failsOnly (body : Body) (payer target : FixedBytes 32) :
    FailsOnly Error.IsVerification (bodyAction body payer target) := by
  unfold bodyAction
  split_ifs <;> simp [Error.IsVerification]

theorem signingBytes_failsOnly (value : Envelope) :
    FailsOnly Error.IsVerification (signingBytes value) := by
  refine failsOnly_bind.mpr ⟨failsOnly_mapError_const (Or.inl rfl), fun _ _ => failsOnly_ok _⟩

/-- **Verification only rejects**: it has no failure of the store. -/
theorem verifyMode_failsOnly (crypto : Crypto) (b : Bytes) (ledger : LedgerId) (mode : Mode) :
    FailsOnly Error.IsVerification (verifyMode crypto b ledger mode) := by
  have hinvalid : Error.IsVerification .invalid := Or.inl rfl
  have hunauthorized : Error.IsVerification .unauthorized := Or.inr (Or.inl rfl)
  have hwrong : Error.IsVerification .wrongLedger := Or.inr (Or.inr rfl)
  unfold verifyMode
  simp only [failsOnly_bind, failsOnly_refuse, identifier_failsOnly, bodyAction_failsOnly,
    signingBytes_failsOnly, failsOnly_mapError_const hinvalid, pure_ok, failsOnly_ok, hinvalid,
    hunauthorized, hwrong, implies_true, and_self]

/-! ## Concrete commands -/

/-- The Ed25519 public key of the seed whose bytes are all `1`. -/
def samplePayer : AccountId :=
  .ofNat 32 0x8a88e3dd7409f195fd52db2d3cba5d72ca6709bf1d94121bf3748801b40f6f5c

/-- The Ed25519 public key of the seed whose bytes are all `2`. -/
def sampleRecipient : AccountId :=
  .ofNat 32 0x8139770ea87d175f56a35466c34c7ecccb8d8a91b4ee37a25df60f5b8fc9b394

/-- Two funded accounts. -/
def sampleAccounts : List GenesisAccount := [⟨samplePayer, 10⟩, ⟨sampleRecipient, 5⟩]

/-- The Ed25519 public keys of the seeds whose bytes are all `3`, `4`, `5` and `6`. -/
def sampleValidators : List (FixedBytes 32) :=
  [.ofNat 32 0xed4928c628d1c2c6eae90338905995612959273a5c63f93636c14614ac8737d1,
    .ofNat 32 0xca93ac1705187071d67b83c7ff0efe8108e8ec4530575d7726879333dbdabe7c,
    .ofNat 32 0x6e7a1cdd29b0b78fd13af4c5598feff4ef2a97166e3ca6f2e4fbfccd80505bf1,
    .ofNat 32 0x8a875fff1eb38451577acd5afee405456568dd7c89e090863a0557bc7af49f17]

/-- Signatures of the payer, each with the digest of the message it signs. -/
def sampleSignatures : List (FixedBytes 32 × FixedBytes 64) :=
  [(.ofNat 32 0x80b2e6e8718b00400e9113892e8b3ecfdfb0ae3451fcc4eb6796a9df4ca3bb92,
      .ofNat 64 (0xe45b4b0dac9c7a0248974de8d0cb1dda5fca9ca9f12d2930073228ab6320d4e3 <<< 256 +
        0x5976eaf9043a1c99cb792c33fca68fb0d330780e740018dec68b9910ec2de50c)),
    (.ofNat 32 0x7bf59c1eb76f459477f471d497bb2c9d98524d3bf0ef3943fab2a110ca4168f6,
      .ofNat 64 (0x30c5a683ec8cafb5b1ef0ac35f7f654c4361abc9d5f6f5dfd10b2c01690596ff <<< 256 +
        0x4fa3079815c49683aec881a788410f5cd7fc2bf9c219f4beb4239b69b8945c0b)),
    (.ofNat 32 0xe375578a1ec9e24b66fe722600901e88097070b5093c1e79d836d297bab6b1ff,
      .ofNat 64 (0x959d792e3866b1076cbc1a8f243c1b937c2a82fff5282a596cd73dc4ac0e461b <<< 256 +
        0xe137c7e646abdc3cf07b6a53f1866ccc57921b8bc9d8f7c2742f45c09c349903))]

/-- The primitives, for the evaluation of closed runs: SHA-256, and Ed25519 as it is on the keys and
the signatures of the samples. -/
def sampleCrypto : Crypto where
  sha256 := Sha256.digest
  verifyingKey key := decide (key ∈ samplePayer :: sampleRecipient :: sampleValidators)
  signature b := decide (b.length = 64)
  verifyStrict key message signature := decide (key = samplePayer ∧
    (Sha256.digest message, signature) ∈ sampleSignatures.map fun p => (p.1, p.2.toBytes))

/-- The key of the payer. It signs the messages of the samples. -/
def sampleSigningKey : SigningKey where
  verifyingKey := samplePayer
  sign message := ((sampleSignatures.lookup (Sha256.digest message)).map (·.toBytes)).getD []

/-- A command of the payer, valid for the seconds 100 to 199. -/
def sampleCommand (mode : Mode) (ledger : LedgerId) (operation nonce : UInt8) (action : Action) :
    Bytes :=
  let signed := signMode sampleCrypto ledger sampleSigningKey
    ⟨FixedBytes.replicate 32 operation, samplePayer, action⟩ 100 200 (FixedBytes.replicate 32 nonce)
    mode
  signed.toOption.getD []

end Volparossa.Transaction
