import Volparossa.Foundations.Protobuf.Schema
import Volparossa.Policy.Destination
import Volparossa.Protocol.Envelope

/-!
# Threshold-signed whitelist manifests

A manifest is a body of destination rules with a validity window and a list of maintainers, its
digest and signatures of maintainers. The verifier trusts none of it: trust is anchored in a
separately configured `TrustStore`, whose keys the body has to list exactly. `verifyManifest`
decodes and checks a manifest, and `verifyManifest_sound` says what an accepted one is: enough
maintainers of the local store signed exactly its body, and the body is active, lists the local
store and has rules that are normalized, bounded and strictly increasing.
-/

namespace Volparossa.Policy

open Protobuf

open Volparossa.Core (IpAddr parseIpBytes)

open Transaction (Crypto ascii)

/-- The only whitelist-manifest protobuf schema implemented by this release. -/
def manifestSchemaVersion : ℕ := 1

/-- The policy protocol version implemented by this release. -/
def policyProtocolVersion : ℕ := 2

/-- Maximum encoded size accepted for a signed manifest. -/
def maxSignedManifestBytes : ℕ := 512 * 1024

/-- Maximum encoded size accepted for the canonical signed body. -/
def maxManifestBodyBytes : ℕ := 448 * 1024

/-- Maximum number of trusted maintainer keys in a custom deployment. -/
def maxMaintainers : ℕ := 32

/-- Maximum number of signatures carried by a manifest. -/
def maxSignatures : ℕ := maxMaintainers

/-- Maximum number of destination rules in one manifest. -/
def maxDestinationRules : ℕ := 4096

/-- Maximum total protocol/port permissions in one manifest. -/
def maxTotalPermissions : ℕ := 16384

def signatureDomain : Bytes := ascii "volparossa/whitelist-manifest/signature/v1\x00"

def maintainerIdDomain : Bytes := ascii "volparossa/whitelist-maintainer/id/v1\x00"

/-! ## Maintainers -/

/-- Whether verification runs with production or local development trust roots. -/
inductive PolicyMode where
  | production
  | development
  deriving DecidableEq, Repr

/-- The environment in which a maintainer key is permitted. -/
inductive MaintainerEnvironment where
  | production
  | development
  deriving DecidableEq, Repr

namespace MaintainerEnvironment

def wireValue : MaintainerEnvironment → ℤ
  | .production => 1
  | .development => 2

def fromWire (value : ℤ) : Except PolicyError MaintainerEnvironment :=
  if value = 1 then .ok .production
  else if value = 2 then .ok .development
  else .error (.invalidField "maintainer environment")

theorem fromWire_eq_ok {value : ℤ} {e : MaintainerEnvironment} :
    fromWire value = .ok e ↔ value = e.wireValue := by
  unfold fromWire
  cases e with
  | production => split <;> [simp_all [wireValue]; split <;> simp_all [wireValue]]
  | development => split <;> [simp_all [wireValue]; split <;> simp_all [wireValue]]

end MaintainerEnvironment

/-- The identifier derived from a maintainer's public key. -/
def maintainerId (crypto : Crypto) (publicKey : FixedBytes 32) : FixedBytes 32 :=
  crypto.sha256 (maintainerIdDomain ++ publicKey.toBytes)

/-- One locally trusted Ed25519 whitelist maintainer. -/
structure TrustedMaintainer (crypto : Crypto) where
  keyId : FixedBytes 32
  verifyingKey : FixedBytes 32
  environment : MaintainerEnvironment
  keyId_eq : keyId = maintainerId crypto verifyingKey
  isKey : crypto.verifyingKey verifyingKey = true
  deriving DecidableEq

/-- A sorted local trust root for whitelist maintainers. -/
structure TrustStore (crypto : Crypto) where
  mode : PolicyMode
  maintainers : List (TrustedMaintainer crypto)
  nonempty : maintainers ≠ []
  length_le : maintainers.length ≤ maxMaintainers
  increasing : Increasing (maintainers.map TrustedMaintainer.keyId)

variable {crypto : Crypto}

namespace TrustStore

/-- Sort maintainers by their identifiers. -/
def sortMaintainers (maintainers : List (TrustedMaintainer crypto)) :
    List (TrustedMaintainer crypto) :=
  maintainers.insertionSort fun a b => compare a.keyId b.keyId ≠ .gt

theorem length_sortMaintainers (maintainers : List (TrustedMaintainer crypto)) :
    (sortMaintainers maintainers).length = maintainers.length := by
  rw [sortMaintainers, List.length_insertionSort]

/-- Build a bounded trust store; duplicate or disallowed keys are refused. -/
def new (mode : PolicyMode) (maintainers : List (TrustedMaintainer crypto)) :
    Except PolicyError (TrustStore crypto) :=
  if hne : maintainers = [] then .error (.invalidField "empty maintainer trust store")
  else if hlength : maintainers.length > maxMaintainers then
    .error (.tooManyItems "trusted maintainers" maxMaintainers)
  else if mode = .production ∧ ∃ key ∈ maintainers, key.environment = .development then
    .error .developmentKeyRejected
  else
    -- in a sorted list, a duplicate is next to its equal
    if hsorted : Increasing ((sortMaintainers maintainers).map TrustedMaintainer.keyId) then
      .ok ⟨mode, sortMaintainers maintainers, fun h => hne (by
          rw [← List.length_eq_zero_iff, ← length_sortMaintainers, h, List.length_nil]), by
          rw [length_sortMaintainers]
          omega, hsorted⟩
    else .error (.duplicateItem "trusted maintainer key")

/-- The maintainer with an identifier. The identifiers increase, so a binary search finds what a
search from the front finds. -/
def findKey (store : TrustStore crypto) (keyId : FixedBytes 32) :
    Option (TrustedMaintainer crypto) :=
  store.maintainers.find? fun key => key.keyId = keyId

theorem of_findKey {store : TrustStore crypto} {keyId : FixedBytes 32}
    {key : TrustedMaintainer crypto} (h : store.findKey keyId = some key) :
    key ∈ store.maintainers ∧ key.keyId = keyId :=
  ⟨List.mem_of_find?_eq_some h, by simpa using List.find?_some h⟩

end TrustStore

/-- Local limits and signature requirements applied during verification. -/
structure VerificationPolicy where
  minimumSignatures : ℕ
  expectedMaintainers : ℕ
  maximumLifetimeMs : ℕ
  maximumClockSkewMs : ℕ
  deriving DecidableEq

/-- Zero limits, a threshold above the expected key count, and too many keys are refused. -/
def VerificationPolicy.new (minimumSignatures expectedMaintainers maximumLifetimeMs
    maximumClockSkewMs : ℕ) : Except PolicyError VerificationPolicy := do
  refuse (minimumSignatures = 0 ∨ expectedMaintainers = 0 ∨
    minimumSignatures > expectedMaintainers ∨ expectedMaintainers > maxMaintainers ∨
    maximumLifetimeMs = 0) (.invalidField "verification policy limits")
  pure ⟨minimumSignatures, expectedMaintainers, maximumLifetimeMs, maximumClockSkewMs⟩

/-! ## Messages -/

structure MaintainerProto where
  (keyId publicKey : Bytes := [])
  environment : ℤ := 0
  deriving DecidableEq

instance : Message MaintainerProto := schema {} [
  .bytes 1 (·.keyId) ({ · with keyId := · }),
  .bytes 2 (·.publicKey) ({ · with publicKey := · }),
  .enumeration 3 (·.environment) ({ · with environment := · })]

structure ProtocolPortProto where
  protocol : ℤ := 0
  port : ℕ := 0
  deriving DecidableEq

instance : Message ProtocolPortProto := schema {} [
  .enumeration 1 (·.protocol) ({ · with protocol := · }),
  .uint32 2 (·.port) ({ · with port := · })]

/-- The destination of a rule as it travels. -/
inductive DestinationProto where
  | exactDomain (domain : Bytes)
  | wildcardDomain (pattern : Bytes)
  | exactIp (address : Bytes)
  deriving DecidableEq

structure DestinationRuleProto where
  destination : Option DestinationProto := none
  permissions : List ProtocolPortProto := []
  deriving DecidableEq

namespace DestinationRuleProto

def exactDomain? (m : DestinationRuleProto) : Option Bytes :=
  match m.destination with
  | some (.exactDomain domain) => some domain
  | _ => none

def wildcardDomain? (m : DestinationRuleProto) : Option Bytes :=
  match m.destination with
  | some (.wildcardDomain pattern) => some pattern
  | _ => none

def exactIp? (m : DestinationRuleProto) : Option Bytes :=
  match m.destination with
  | some (.exactIp address) => some address
  | _ => none

instance : Message DestinationRuleProto := schema {} [
  .alternative 1 exactDomain? (fun m b =>
    if isUtf8 b then some { m with destination := some (.exactDomain b) } else none),
  .alternative 2 wildcardDomain? (fun m b =>
    if isUtf8 b then some { m with destination := some (.wildcardDomain b) } else none),
  .alternative 3 exactIp? (fun m b => some { m with destination := some (.exactIp b) }),
  .repeatedMessage 4 (·.permissions) ({ · with permissions := · })]

end DestinationRuleProto

structure ManifestBodyProto where
  (schemaVersion manifestVersion minimumProtocolVersion issuedAtMs validFromMs expiresAtMs
    requiredSignatures : ℕ := 0)
  maintainers : List MaintainerProto := []
  rules : List DestinationRuleProto := []
  deriving DecidableEq

instance : Message ManifestBodyProto := schema {} [
  .uint32 1 (·.schemaVersion) ({ · with schemaVersion := · }),
  .uint64 2 (·.manifestVersion) ({ · with manifestVersion := · }),
  .uint32 3 (·.minimumProtocolVersion) ({ · with minimumProtocolVersion := · }),
  .uint64 4 (·.issuedAtMs) ({ · with issuedAtMs := · }),
  .uint64 5 (·.validFromMs) ({ · with validFromMs := · }),
  .uint64 6 (·.expiresAtMs) ({ · with expiresAtMs := · }),
  .uint32 7 (·.requiredSignatures) ({ · with requiredSignatures := · }),
  .repeatedMessage 8 (·.maintainers) ({ · with maintainers := · }),
  .repeatedMessage 9 (·.rules) ({ · with rules := · })]

structure ManifestSignatureProto where
  (keyId signature : Bytes := [])
  deriving DecidableEq

instance : Message ManifestSignatureProto := schema {} [
  .bytes 1 (·.keyId) ({ · with keyId := · }),
  .bytes 2 (·.signature) ({ · with signature := · })]

structure SignedManifestProto where
  body : Option ManifestBodyProto := none
  bodyHash : Bytes := []
  signatures : List ManifestSignatureProto := []
  deriving DecidableEq

instance : Message SignedManifestProto := schema {} [
  .message 1 (·.body) ({ · with body := · }),
  .bytes 2 (·.bodyHash) ({ · with bodyHash := · }),
  .repeatedMessage 3 (·.signatures) ({ · with signatures := · })]

section Canonical

variable {M : Type} [Message M]

def encodeCanonical (m : M) (maximum : ℕ) : Except PolicyError Bytes := do
  refuse ((encode m).length > maximum) (.oversized "canonical protobuf" maximum)
  pure (encode m)

def decodeCanonical (encoded : Bytes) (maximum : ℕ) : Except PolicyError M := do
  refuse (encoded = [] ∨ encoded.length > maximum) (.oversized "signed policy manifest" maximum)
  let decoded ← orFail (decode encoded) PolicyError.decode
  let canonical ← encodeCanonical decoded maximum
  refuse (canonical ≠ encoded) .nonCanonicalProtobuf
  pure decoded

theorem encodeCanonical_eq_ok {m : M} {maximum : ℕ} {b : Bytes}
    (h : encodeCanonical m maximum = .ok b) : b = encode m := by
  simp only [encodeCanonical, ok_iff] at h
  obtain ⟨-, -, rfl⟩ := h
  rfl

/-- What is accepted determines the bytes. -/
theorem encode_of_decodeCanonical {b : Bytes} {maximum : ℕ} {m : M}
    (h : decodeCanonical b maximum = .ok m) : encode m = b := by
  simp only [decodeCanonical, ok_iff, not_not] at h
  obtain ⟨-, -, m', -, c, hc, -, rfl, rfl⟩ := h
  exact (encodeCanonical_eq_ok hc).symm

end Canonical

/-! ## Verification -/

/-- What a maintainer signs. -/
def signatureInput (body : Bytes) (policyHash : FixedBytes 32) : Bytes :=
  signatureDomain ++ policyHash.toBytes ++ body

/-- A byte array of a fixed length. -/
def fixedBytes (n : ℕ) (bytes : Bytes) (field : String) : Except PolicyError (FixedBytes n) :=
  orFail (FixedBytes.ofBytes n bytes) (.invalidField field)

/-- The lifetime of a validity window. -/
def validateTimeOrder (issuedAtMs validFromMs expiresAtMs : ℕ) : Except PolicyError ℕ := do
  refuse (issuedAtMs = 0 ∨ validFromMs = 0 ∨ expiresAtMs = 0) .invalidTimeWindow
  refuse (issuedAtMs > validFromMs) .invalidTimeWindow
  refuse (expiresAtMs ≤ validFromMs) .invalidTimeWindow
  pure (expiresAtMs - validFromMs)

def validateVerificationContext (store : TrustStore crypto) (policy : VerificationPolicy) :
    Except PolicyError Unit := do
  let _ ← VerificationPolicy.new policy.minimumSignatures policy.expectedMaintainers
    policy.maximumLifetimeMs policy.maximumClockSkewMs
  refuse (store.maintainers.length ≠ policy.expectedMaintainers)
    (.maintainerCount policy.expectedMaintainers store.maintainers.length)
  refuse (store.mode = .production ∧ ∃ key ∈ store.maintainers, key.environment = .development)
    .developmentKeyRejected

def validateBodyHeader (body : ManifestBodyProto) (nowMs : ℕ) (policy : VerificationPolicy) :
    Except PolicyError Unit := do
  refuse (body.schemaVersion ≠ manifestSchemaVersion)
    (.unsupportedSchemaVersion body.schemaVersion)
  refuse (body.manifestVersion = 0 ∨ body.minimumProtocolVersion = 0)
    (.invalidField "manifest or protocol version")
  refuse (body.minimumProtocolVersion > policyProtocolVersion)
    (.unsupportedProtocolVersion body.minimumProtocolVersion policyProtocolVersion)
  let lifetime ← validateTimeOrder body.issuedAtMs body.validFromMs body.expiresAtMs
  refuse (lifetime > policy.maximumLifetimeMs) .invalidTimeWindow
  refuse (body.issuedAtMs > min (nowMs + policy.maximumClockSkewMs) (2 ^ 64 - 1) ∨
    body.validFromMs > nowMs) .notYetValid
  refuse (body.expiresAtMs ≤ nowMs) .expired

/-- One turn of the loop over the listed and the trusted maintainers; the state is the previous
identifier. -/
def checkMaintainer (mode : PolicyMode) (previousId : Option (FixedBytes 32))
    (pair : MaintainerProto × TrustedMaintainer crypto) :
    Except PolicyError (Option (FixedBytes 32)) := do
  let (embedded, trusted) := pair
  let keyId ← fixedBytes 32 embedded.keyId "maintainer key ID"
  let publicKey ← fixedBytes 32 embedded.publicKey "maintainer public key"
  let environment ← MaintainerEnvironment.fromWire embedded.environment
  refuse (∃ previous ∈ previousId, compare previous keyId ≠ .lt)
    (.nonCanonicalSemantic "maintainer ordering")
  refuse (maintainerId crypto publicKey ≠ keyId) .trustRootMismatch
  refuse (mode = .production ∧ environment = .development) .developmentKeyRejected
  refuse (keyId ≠ trusted.keyId ∨ publicKey ≠ trusted.verifyingKey ∨
    environment ≠ trusted.environment) .trustRootMismatch
  pure (some keyId)

def validateEmbeddedTrust (body : ManifestBodyProto) (store : TrustStore crypto)
    (policy : VerificationPolicy) : Except PolicyError Unit := do
  refuse (body.maintainers.length ≠ policy.expectedMaintainers)
    (.maintainerCount policy.expectedMaintainers body.maintainers.length)
  refuse (body.requiredSignatures = 0 ∨ body.requiredSignatures > body.maintainers.length)
    (.invalidField "manifest signature threshold")
  let _ ← (body.maintainers.zip store.maintainers).foldlM (checkMaintainer store.mode) none

/-- One turn of the loop over the signatures; the state is the previous identifier and the number of
valid signatures. -/
def checkSignature (store : TrustStore crypto) (input : Bytes)
    (state : Option (FixedBytes 32) × ℕ) (signed : ManifestSignatureProto) :
    Except PolicyError (Option (FixedBytes 32) × ℕ) := do
  let (previousId, valid) := state
  let keyId ← fixedBytes 32 signed.keyId "signature key ID"
  refuse (∃ previous ∈ previousId, compare previous keyId ≠ .lt)
    (.nonCanonicalSemantic "signature ordering")
  let trusted ← orFail (store.findKey keyId) .untrustedSigner
  let signature ← fixedBytes 64 signed.signature "signature"
  refuse (crypto.verifyStrict trusted.verifyingKey input signature.toBytes = false)
    .invalidSignature
  pure (some keyId, valid + 1)

def verifySignatures (signatures : List ManifestSignatureProto) (bodyBytes : Bytes)
    (policyHash : FixedBytes 32) (store : TrustStore crypto) : Except PolicyError ℕ := do
  refuse (signatures.length > maxSignatures ∨ signatures.length > store.maintainers.length)
    (.tooManyItems "manifest signatures" (min store.maintainers.length maxSignatures))
  let (_, valid) ← signatures.foldlM
    (checkSignature store (signatureInput bodyBytes policyHash)) (none, 0)
  pure valid

variable (parseHost : Bytes → Option Host)

def ipFromWire (encoded : Bytes) : Except PolicyError IpAddr :=
  orFail (parseIpBytes encoded) (.invalidField "exact IP address")

def ruleFromWire (destination : DestinationProto) (permissions : List ProtocolPort) :
    Except PolicyError DestinationRule :=
  match destination with
  | .exactDomain domain => DestinationRule.fromWireExactDomain parseHost domain permissions
  | .wildcardDomain pattern => DestinationRule.fromWireWildcardDomain parseHost pattern permissions
  | .exactIp address => do
    let address ← ipFromWire address
    DestinationRule.fromWireIp address permissions

/-- One turn of the loop over the rules; the state is the rules so far and the number of their
permissions. -/
def readRule (state : List DestinationRule × ℕ) (wireRule : DestinationRuleProto) :
    Except PolicyError (List DestinationRule × ℕ) := do
  let (rules, totalPermissions) := state
  refuse (wireRule.permissions = [] ∨
    wireRule.permissions.length > maxPermissionsPerDestination)
    (.invalidField "destination permission count")
  let totalPermissions := totalPermissions + wireRule.permissions.length
  refuse (totalPermissions > maxTotalPermissions)
    (.tooManyItems "total protocol/port permissions" maxTotalPermissions)
  let permissions ← wireRule.permissions.mapM fun permission =>
    ProtocolPort.fromWire permission.protocol permission.port
  refuse (¬Increasing permissions) (.nonCanonicalSemantic "protocol/port permission ordering")
  let destination ← orFail wireRule.destination (.invalidField "destination selector")
  let rule ← ruleFromWire parseHost destination permissions
  refuse (∃ previous ∈ rules.getLast?, compare previous.destination rule.destination ≠ .lt)
    (.nonCanonicalSemantic "destination rule ordering")
  pure (rules ++ [rule], totalPermissions)

def rulesFromBody (body : ManifestBodyProto) : Except PolicyError (List DestinationRule) := do
  refuse (body.rules.length > maxDestinationRules)
    (.tooManyItems "destination rules" maxDestinationRules)
  let (rules, _) ← body.rules.foldlM (readRule parseHost) ([], 0)
  pure rules

/-- A fully verified, active-at-load-time whitelist manifest. -/
structure VerifiedManifest where
  manifestVersion : ℕ
  minimumProtocolVersion : ℕ
  issuedAtMs : ℕ
  validFromMs : ℕ
  expiresAtMs : ℕ
  requiredSignatures : ℕ
  verifiedSignatures : ℕ
  policyHash : FixedBytes 32
  rules : List DestinationRule
  deriving DecidableEq

/-- Fail closed unless the manifest is active. -/
def VerifiedManifest.ensureActiveAt (m : VerifiedManifest) (nowMs : ℕ) :
    Except PolicyError Unit := do
  refuse (nowMs < m.validFromMs) .notYetValid
  refuse (m.expiresAtMs ≤ nowMs) .expired

/-- Decode and verify a canonical threshold-signed manifest. -/
def verifyManifest (encoded : Bytes) (nowMs : ℕ) (store : TrustStore crypto)
    (policy : VerificationPolicy) : Except PolicyError VerifiedManifest := do
  validateVerificationContext store policy
  let signed : SignedManifestProto ← decodeCanonical encoded maxSignedManifestBytes
  let body ← orFail signed.body (.invalidField "missing manifest body")
  validateBodyHeader body nowMs policy
  validateEmbeddedTrust body store policy
  let rules ← rulesFromBody parseHost body
  let bodyBytes ← encodeCanonical body maxManifestBodyBytes
  let computedHash := crypto.sha256 bodyBytes
  refuse (signed.bodyHash ≠ computedHash.toBytes) .manifestHashMismatch
  let verifiedSignatures ← verifySignatures signed.signatures bodyBytes computedHash store
  let required := max body.requiredSignatures policy.minimumSignatures
  refuse (verifiedSignatures < required) (.insufficientSignatures required verifiedSignatures)
  pure ⟨body.manifestVersion, body.minimumProtocolVersion, body.issuedAtMs, body.validFromMs,
    body.expiresAtMs, body.requiredSignatures, verifiedSignatures, computedHash, rules⟩

/-! ## What an accepted manifest is -/

/-- A maintainer as a body lists it. -/
def TrustedMaintainer.toProto (key : TrustedMaintainer crypto) : MaintainerProto :=
  ⟨key.keyId.toBytes, key.verifyingKey.toBytes, key.environment.wireValue⟩

/-- A rule as a body lists it. -/
def DestinationRule.toProto (rule : DestinationRule) : DestinationRuleProto where
  destination := some <|
    match rule.destination with
    | .exactDomain name => .exactDomain name
    | .wildcardDomain suffix => .wildcardDomain (wildcardStart ++ suffix)
    | .exactIp address => .exactIp address.toBytes
  permissions := rule.permissions.map fun p => ⟨p.protocol.wireValue, p.port⟩

theorem fixedBytes_eq_ok {n : ℕ} {b : Bytes} {field : String} {a : FixedBytes n} :
    fixedBytes n b field = .ok a ↔ b = a.toBytes := by
  rw [fixedBytes, orFail_eq_ok, FixedBytes.ofBytes_eq_some]

theorem checkMaintainer_eq_ok {mode : PolicyMode} {previousId next : Option (FixedBytes 32)}
    {embedded : MaintainerProto} {trusted : TrustedMaintainer crypto}
    (h : checkMaintainer mode previousId (embedded, trusted) = .ok next) :
    embedded = trusted.toProto := by
  simp only [checkMaintainer, ok_iff, pure_ok, fixedBytes_eq_ok,
    MaintainerEnvironment.fromWire_eq_ok, not_or, not_not] at h
  obtain ⟨keyId, hid, publicKey, hkey, environment, henv, -, -, -, -, -, -, -,
    ⟨rfl, rfl, rfl⟩, -⟩ := h
  cases embedded
  simp only at hid hkey henv
  rw [hid, hkey, henv]
  rfl

section

variable {body : ManifestBodyProto} {store : TrustStore crypto} {policy : VerificationPolicy}

/-- The listed maintainers are those of the store. -/
theorem validateEmbeddedTrust_eq_ok {u : Unit}
    (hlength : store.maintainers.length = policy.expectedMaintainers)
    (h : validateEmbeddedTrust body store policy = .ok u) :
    body.maintainers = store.maintainers.map TrustedMaintainer.toProto := by
  simp only [validateEmbeddedTrust, ok_iff, not_not] at h
  obtain ⟨-, hcount, -, -, last, hloop, -⟩ := h
  have hpairs : ∀ pair ∈ body.maintainers.zip store.maintainers, pair.1 = pair.2.toProto := by
    refine foldlM_invariant (fun past _ => ∀ pair ∈ past, pair.1 = pair.2.toProto) ?_
      (by simp) hloop
    exact fun past pair s s' ih hstep => forall_mem_concat ih (checkMaintainer_eq_ok hstep)
  have hle : body.maintainers.length = store.maintainers.length := by omega
  calc body.maintainers
      = (body.maintainers.zip store.maintainers).map Prod.fst :=
        (List.map_fst_zip hle.le).symm
    _ = (body.maintainers.zip store.maintainers).map fun pair => pair.2.toProto :=
        List.map_congr_left hpairs
    _ = ((body.maintainers.zip store.maintainers).map Prod.snd).map TrustedMaintainer.toProto := by
        rw [List.map_map]
        rfl
    _ = store.maintainers.map TrustedMaintainer.toProto := by rw [List.map_snd_zip hle.ge]

/-- What the loop over the signatures has established: the signers so far are maintainers of the
store, their identifiers increase, each signature is valid, and they are counted. -/
structure SignersFound (store : TrustStore crypto) (input : Bytes)
    (signers : List (TrustedMaintainer crypto)) (state : Option (FixedBytes 32) × ℕ) : Prop where
  trusted : ∀ signer ∈ signers, signer ∈ store.maintainers
  valid : ∀ signer ∈ signers, ∃ signature, crypto.verifyStrict signer.verifyingKey input signature =
    true
  increasing : Increasing (signers.map TrustedMaintainer.keyId)
  previous : state.1 = (signers.map TrustedMaintainer.keyId).getLast?
  count : state.2 = signers.length

theorem SignersFound.next {input : Bytes} {signers : List (TrustedMaintainer crypto)}
    {state state' : Option (FixedBytes 32) × ℕ}
    {signed : ManifestSignatureProto} (h : SignersFound store input signers state)
    (hstep : checkSignature store input state signed = .ok state') :
    ∃ signer, SignersFound store input (signers ++ [signer]) state' := by
  simp only [checkSignature, ok_iff, pure_ok, fixedBytes_eq_ok, Except.ok.injEq, not_exists,
    not_and, not_not, Bool.not_eq_false] at hstep
  obtain ⟨keyId, -, -, hprevious, signer, hfind, signature, -, -, hvalid, rfl⟩ := hstep
  obtain ⟨hmem, hid⟩ := TrustStore.of_findKey hfind
  refine ⟨signer, forall_mem_concat h.trusted hmem, forall_mem_concat h.valid ⟨_, hvalid⟩, ?_,
    by simp [hid], by simp [h.count]⟩
  · rw [List.map_append, List.map_singleton, increasing_concat, ← h.previous, hid]
    exact ⟨h.increasing, hprevious⟩

theorem verifySignatures_eq_ok {signatures : List ManifestSignatureProto} {bodyBytes : Bytes}
    {policyHash : FixedBytes 32} {valid : ℕ}
    (h : verifySignatures signatures bodyBytes policyHash store = .ok valid) :
    ∃ signers last,
      SignersFound store (signatureInput bodyBytes policyHash) signers (last, valid) := by
  simp only [verifySignatures, ok_iff] at h
  obtain ⟨-, -, ⟨last, count⟩, hloop, rfl⟩ := h
  obtain ⟨signers, hsigners⟩ := foldlM_invariant
    (fun _ state => ∃ signers,
      SignersFound store (signatureInput bodyBytes policyHash) signers state)
    (fun _ _ _ _ h hstep => by
      obtain ⟨signers, hsigners⟩ := h
      exact (hsigners.next hstep).elim fun signer hnext => ⟨_, hnext⟩)
    ⟨[], by simp, by simp, increasing_nil, rfl, rfl⟩ hloop
  exact ⟨signers, last, hsigners⟩

/-- Rules within their bounds: each is normal, and their destinations strictly increase. -/
structure RulesNormal (rules : List DestinationRule) : Prop where
  normal : ∀ rule ∈ rules, rule.Normal parseHost
  increasing : Increasing (rules.map DestinationRule.destination)
  permissions_le : (rules.map fun rule => rule.permissions.length).sum ≤ maxTotalPermissions

/-- No destination has two rules. -/
theorem RulesNormal.nodup {rules : List DestinationRule} (h : RulesNormal parseHost rules) :
    (rules.map DestinationRule.destination).Nodup :=
  h.increasing.nodup

theorem ruleFromWire_eq_ok {destination : DestinationProto} {permissions : List ProtocolPort}
    {rule : DestinationRule} (hsorted : Increasing permissions)
    (h : ruleFromWire parseHost destination permissions = .ok rule) :
    rule.toProto.destination = some destination ∧ rule.permissions = permissions ∧
      rule.Normal parseHost := by
  cases destination with
  | exactDomain domain =>
    obtain ⟨rfl, hnormal⟩ := DestinationRule.fromWireExactDomain_spec hsorted h
    exact ⟨rfl, rfl, hnormal⟩
  | wildcardDomain pattern =>
    obtain ⟨suffix, rfl, rfl, hnormal⟩ := DestinationRule.fromWireWildcardDomain_spec hsorted h
    exact ⟨rfl, rfl, hnormal⟩
  | exactIp encoded =>
    rw [ruleFromWire, bind_eq_ok] at h
    obtain ⟨address, haddress, h⟩ := h
    obtain ⟨rfl, hnormal⟩ := DestinationRule.fromWireIp_spec parseHost hsorted h
    rw [ipFromWire, orFail_eq_ok] at haddress
    obtain rfl := Core.toBytes_of_parseIpBytes haddress
    exact ⟨rfl, rfl, hnormal⟩

/-- Reading permissions inverts writing them. -/
theorem mapM_fromWire_eq_ok {wire : List ProtocolPortProto} {permissions : List ProtocolPort}
    (h : (wire.mapM fun p => ProtocolPort.fromWire p.protocol p.port) = .ok permissions) :
    wire = permissions.map fun p => ⟨p.protocol.wireValue, p.port⟩ := by
  induction wire generalizing permissions with
  | nil =>
    cases h
    rfl
  | cons p wire ih =>
    rw [List.mapM_cons, bind_eq_ok] at h
    obtain ⟨p', hp, h⟩ := h
    rw [bind_eq_ok] at h
    obtain ⟨rest, hrest, h⟩ := h
    cases h
    obtain ⟨hprotocol, hport⟩ := ProtocolPort.fromWire_eq_ok.mp hp
    rw [List.map_cons, ← ih hrest, ← hprotocol, ← hport]

/-- What the loop over the rules has established. -/
structure RulesRead (past : List DestinationRuleProto) (state : List DestinationRule × ℕ) :
    Prop where
  normal : RulesNormal parseHost state.1
  toProto : past = state.1.map DestinationRule.toProto
  total : state.2 = (state.1.map fun rule => rule.permissions.length).sum

variable {parseHost}

theorem RulesRead.next {past : List DestinationRuleProto} {state state' : List DestinationRule × ℕ}
    {wireRule : DestinationRuleProto} (h : RulesRead parseHost past state)
    (hstep : readRule parseHost state wireRule = .ok state') :
    RulesRead parseHost (past ++ [wireRule]) state' := by
  obtain ⟨rules, total⟩ := state
  simp only [readRule, ok_iff, not_exists, not_and, not_not] at hstep
  obtain ⟨-, -, -, htotal, permissions, hmap, -, hsorted, destination, hdestination, rule, hrule,
    -, hlast, rfl⟩ := hstep
  obtain ⟨hproto, hpermissions, hnormal⟩ := ruleFromWire_eq_ok parseHost hsorted hrule
  have hwire := mapM_fromWire_eq_ok hmap
  have hlength : wireRule.permissions.length = rule.permissions.length := by
    rw [hwire, hpermissions, List.length_map]
  have hsum := h.total
  simp only at hsum
  refine ⟨⟨forall_mem_concat h.normal.normal hnormal, ?_, ?_⟩, ?_, ?_⟩
  · simp only [List.map_append, List.map_singleton]
    refine increasing_concat.mpr ⟨h.normal.increasing, fun d hd => ?_⟩
    rw [List.getLast?_map] at hd
    obtain ⟨previous, hprevious, rfl⟩ := Option.mem_map.mp hd
    exact hlast previous hprevious
  · simp only [List.map_append, List.map_singleton, List.sum_append, List.sum_singleton]
    omega
  · have : wireRule = rule.toProto := by
      cases wireRule
      simp only at hdestination hwire
      rw [hdestination, ← hproto, hwire, ← hpermissions]
      rfl
    simp only [List.map_append, List.map_singleton]
    rw [← this, ← h.toProto]
  · simp only [List.map_append, List.map_singleton, List.sum_append, List.sum_singleton]
    omega

theorem rulesFromBody_eq_ok {rules : List DestinationRule}
    (h : rulesFromBody parseHost body = .ok rules) :
    body.rules = rules.map DestinationRule.toProto ∧ rules.length ≤ maxDestinationRules ∧
      RulesNormal parseHost rules := by
  simp only [rulesFromBody, ok_iff] at h
  obtain ⟨-, hcount, ⟨rules', total⟩, hloop, rfl⟩ := h
  have hread : RulesRead parseHost body.rules (rules', total) :=
    foldlM_invariant (RulesRead parseHost) (fun _ _ _ _ h hstep => h.next hstep)
      ⟨⟨by simp, by exact increasing_nil, by simp⟩, rfl, rfl⟩ hloop
  refine ⟨hread.toProto, ?_, hread.normal⟩
  have := congrArg List.length hread.toProto
  rw [List.length_map] at this
  omega

theorem validateBodyHeader_eq_ok {nowMs : ℕ} {u : Unit}
    (h : validateBodyHeader body nowMs policy = .ok u) :
    body.validFromMs ≤ nowMs ∧ nowMs < body.expiresAtMs := by
  simp only [validateBodyHeader, ok_iff, not_or] at h
  obtain ⟨-, -, -, -, -, -, -, -, -, -, -, ⟨-, hfrom⟩, hexpires⟩ := h
  omega

end

variable {parseHost}

/-- **An accepted manifest is what enough local maintainers signed.** Its bytes are the encoding of
a manifest with a body, and as many maintainers as both the body and the local policy require,
pairwise different and all of the local store, signed exactly this body. The body lists the
maintainers of the store and is active, and its rules are normalized, bounded and strictly
increasing. `signed` says which messages the holder of a key has signed; that signatures are
unforgeable is the first hypothesis. -/
theorem verifyManifest_sound (signed : FixedBytes 32 → Bytes → Prop)
    (hunforgeable : ∀ key message signature,
      crypto.verifyStrict key message signature = true → signed key message)
    {encoded : Bytes} {nowMs : ℕ} {store : TrustStore crypto} {policy : VerificationPolicy}
    {m : VerifiedManifest} (h : verifyManifest parseHost encoded nowMs store policy = .ok m) :
    ∃ (manifest : SignedManifestProto) (body : ManifestBodyProto)
      (signers : List (TrustedMaintainer crypto)),
      encode manifest = encoded ∧ manifest.body = some body ∧
      m = ⟨body.manifestVersion, body.minimumProtocolVersion, body.issuedAtMs, body.validFromMs,
        body.expiresAtMs, body.requiredSignatures, signers.length, crypto.sha256 (encode body),
        m.rules⟩ ∧
      max body.requiredSignatures policy.minimumSignatures ≤ signers.length ∧
      (signers.map TrustedMaintainer.verifyingKey).Nodup ∧
      (∀ signer ∈ signers, signer ∈ store.maintainers ∧
        signed signer.verifyingKey (signatureInput (encode body) (crypto.sha256 (encode body)))) ∧
      body.maintainers = store.maintainers.map TrustedMaintainer.toProto ∧
      (body.validFromMs ≤ nowMs ∧ nowMs < body.expiresAtMs) ∧
      body.rules = m.rules.map DestinationRule.toProto ∧
      m.rules.length ≤ maxDestinationRules ∧ RulesNormal parseHost m.rules ∧
      (m.rules.map DestinationRule.destination).Nodup := by
  simp only [verifyManifest, validateVerificationContext, ok_iff, not_not] at h
  obtain ⟨-, ⟨-, -, -, hcount, -⟩, manifest, hdecode, body, hbody, _, hheader, _, htrust, rules,
    hrules, bodyBytes, hbytes, -, -, valid, hsignatures, -, hthreshold, rfl⟩ := h
  obtain rfl := encodeCanonical_eq_ok hbytes
  obtain ⟨signers, last, hsigners⟩ := verifySignatures_eq_ok hsignatures
  obtain ⟨hproto, hlength, hnormal⟩ := rulesFromBody_eq_ok hrules
  have hvalid : valid = signers.length := hsigners.count
  refine ⟨manifest, body, signers, encode_of_decodeCanonical hdecode, hbody, ?_, by omega, ?_, ?_,
    validateEmbeddedTrust_eq_ok hcount htrust, validateBodyHeader_eq_ok hheader, hproto, hlength,
    hnormal, hnormal.nodup⟩
  · rw [hvalid]
  · -- two signers with one key would have one identifier
    refine List.Nodup.of_map (maintainerId crypto) ?_
    have : (signers.map TrustedMaintainer.verifyingKey).map (maintainerId crypto) =
        signers.map TrustedMaintainer.keyId := by
      rw [List.map_map]
      exact List.map_congr_left fun signer _ => signer.keyId_eq.symm
    rw [this]
    exact hsigners.increasing.nodup
  · intro signer hsigner
    obtain ⟨signature, hsignature⟩ := hsigners.valid signer hsigner
    exact ⟨hsigners.trusted signer hsigner, hunforgeable _ _ _ hsignature⟩

/-! ## A manifest of two maintainers -/

namespace Sample

/-- The signatures of the two maintainers on one body: the key, the digest of what was signed, and
the signature. -/
def signatures : Protocol.Signatures :=
  [(.ofNat 32 0x1398f62c6d1a457c51ba6a4b5f3dbd2f69fca93216218dc8997e416bd17d93ca,
      .ofNat 32 0x8ac3a22f0c64b284481c0dfb9c7979e2f9e6fa7601be969ac0e2bd618ee0d310,
      .ofNat 64 (0xdb69453f3422dd67dc37dca667b24e75276a0a2bdc56c039d91b60e24018e72a <<< 256 +
        0xe16320b69330b3cd994e6562d1cc208c18dcb0a85e8731fabfc47e7951aa4f0c)),
    (.ofNat 32 0xea4a6c63e29c520abef5507b132ec5f9954776aebebe7b92421eea691446d22c,
      .ofNat 32 0x8ac3a22f0c64b284481c0dfb9c7979e2f9e6fa7601be969ac0e2bd618ee0d310,
      .ofNat 64 (0x9338d856f1dce704d750d4c12868ceae8b6318e6e3fddd5f31b83da65c100f75 <<< 256 +
        0x4422f193cc4d6ecf48c6f69b88a754d77a38e6ae994f4d9ae2e30df97c887b0b))]

def primitives : Crypto := signatures.primitives

/-- Who signed what, by digest. -/
def signed (key : FixedBytes 32) (message : Bytes) : Prop :=
  (key, Sha256.digest message) ∈ signatures.map fun s => (s.1, s.2.1)

theorem signed_of_verifyStrict (key : FixedBytes 32) (message signature : Bytes)
    (h : primitives.verifyStrict key message signature = true) : signed key message := by
  obtain ⟨s, hs, heq⟩ := List.mem_map.mp (of_decide_eq_true h)
  exact List.mem_map.mpr ⟨s, hs, by simp_all⟩

def first : TrustedMaintainer primitives where
  keyId := .ofNat 32 0x93cb07ab0f7356b66f2eb288fcf29d4353ab61f9fb19232baf9380757f1d4df8
  verifyingKey := .ofNat 32 0x1398f62c6d1a457c51ba6a4b5f3dbd2f69fca93216218dc8997e416bd17d93ca
  environment := .production
  keyId_eq := by decide +kernel
  isKey := by decide +kernel

def second : TrustedMaintainer primitives where
  keyId := .ofNat 32 0xf20b737483988154676d4be9a654a9fa9b47cb71aa3f6d9c57289f66bcf0ade4
  verifyingKey := .ofNat 32 0xea4a6c63e29c520abef5507b132ec5f9954776aebebe7b92421eea691446d22c
  environment := .production
  keyId_eq := by decide +kernel
  isKey := by decide +kernel

def store : TrustStore primitives where
  mode := .production
  maintainers := [first, second]
  nonempty := by simp
  length_le := by decide
  increasing := by decide +kernel

def rules : List DestinationRule :=
  [⟨.exactDomain (ascii "example.com"),
      [⟨.tcp, 443, by decide, by decide⟩, ⟨.udp, 443, by decide, by decide⟩]⟩,
    ⟨.exactIp (.v4 192 0 2 1), [⟨.tcp, 80, by decide, by decide⟩]⟩]

def body : ManifestBodyProto where
  schemaVersion := 1
  manifestVersion := 7
  minimumProtocolVersion := 1
  issuedAtMs := 1000
  validFromMs := 1000
  expiresAtMs := 20000
  requiredSignatures := 1
  maintainers := store.maintainers.map TrustedMaintainer.toProto
  rules := rules.map DestinationRule.toProto

def manifest : SignedManifestProto where
  body := some body
  bodyHash := (primitives.sha256 (encode body)).toBytes
  signatures := [first, second].zipWith (fun key s => ⟨key.keyId.toBytes, s.2.2.toBytes⟩) signatures

/-- The URL library on the one name of the manifest. -/
def hostOf (text : Bytes) : Option Host :=
  if text = ascii "example.com" then some (.domain text) else none

/-- The body asks for one signature, the local policy for two. -/
def policy : VerificationPolicy := ⟨2, 2, 604800000, 60000⟩

end Sample

/-- A manifest that the body would allow with one signature, accepted with the two that the local
policy asks for. -/
theorem verifyManifest_sound_sample :
    ∃ m, verifyManifest Sample.hostOf (encode Sample.manifest) 2000 Sample.store Sample.policy =
        .ok m ∧
      ∃ signers : List (TrustedMaintainer Sample.primitives), 2 ≤ signers.length ∧
        (signers.map TrustedMaintainer.verifyingKey).Nodup ∧
        ∀ signer ∈ signers, signer ∈ Sample.store.maintainers := by
  obtain ⟨m, hm⟩ : ∃ m, verifyManifest Sample.hostOf (encode Sample.manifest) 2000 Sample.store
      Sample.policy = .ok m := exists_eq_ok (by decide +kernel)
  obtain ⟨-, body, signers, -, -, -, hlength, hnodup, hsigned, -⟩ :=
    verifyManifest_sound Sample.signed Sample.signed_of_verifyStrict hm
  exact ⟨m, hm, signers, le_trans (le_max_right _ _) hlength, hnodup,
    fun signer h => (hsigned signer h).1⟩

end Volparossa.Policy
