import Volparossa.PrivateStorage.Protocol

/-!
# Native content manifests

An object of native content is a sequence of chunks, each known by the digest of its bytes. Its
publisher signs a manifest: the name, the revision and the type of the object, its length and
digest, and its chunks in order, with the interval in which all of this holds. A manifest is decoded
from its one accepted encoding, and verified against a publisher that the caller trusts already.

What a signed manifest says is determined by its bytes (`SignedManifest.validate`), apart from who
is trusted.
-/

namespace Volparossa.Content

open Protobuf

open Transaction (ascii)

open PrivateStorage (Ed25519)

/-- Maximum bytes in a chunk. -/
def chunkBytes : ℕ := 256 * 1024

/-- Maximum ordered chunks in one manifest. -/
def maxChunks : ℕ := 1024

/-- Maximum encoded signed manifest length. -/
def maxManifestBytes : ℕ := 64 * 1024

/-- Maximum object length. -/
def maxObjectBytes : ℕ := 256 * 1024 * 1024

/-- Maximum manifest lifetime. -/
def maxValiditySeconds : ℕ := 31 * 24 * 60 * 60

def maxMetadataBytes : ℕ := 128

/-- The SHA-256 digest that names a chunk. -/
abbrev ChunkId := FixedBytes 32

/-- What the filesystem says of a failed call. -/
inductive IoKind where
  | notFound
  | alreadyExists
  | other
  deriving DecidableEq, Repr

inductive Error where
  | io (kind : IoKind)
  | invalidManifest
  | invalidStore
  | expired
  | wrongPublisher
  | nameRollback
  | nameConflict
  | invalidSignature
  | integrity (id : ChunkId)
  | missingChunk (id : ChunkId)
  | limit (resource : String)
  | quota
  | entropy
  deriving DecidableEq

/-! ## Metadata -/

/-- Native object metadata; the texts are their UTF-8 bytes. -/
structure Metadata where
  name : Bytes
  revision : ℕ
  contentType : Bytes
  deriving DecidableEq, Repr

/-- Whether a text, as its UTF-8 bytes, has a control character: one below U+0020, or one from
U+007F to U+009F. -/
def hasControl : Bytes → Bool
  | [] => false
  | 0xC2 :: b :: rest => (0x80 ≤ b && b ≤ 0x9F) || hasControl (b :: rest)
  | b :: rest => b < 0x20 || b = 0x7F || hasControl rest

def validateName (name : Bytes) : Except Error Unit :=
  refuse (name = [] ∨ name.length > maxMetadataBytes ∨ hasControl name = true) .invalidManifest

/-- Printable ASCII other than the space. -/
def isAsciiGraphic (b : UInt8) : Bool := 0x21 ≤ b && b ≤ 0x7E

def Metadata.validate (metadata : Metadata) : Except Error Unit := do
  validateName metadata.name
  refuse (metadata.revision = 0 ∨ metadata.contentType = [] ∨
    metadata.contentType.length > maxMetadataBytes ∨
    metadata.contentType.all isAsciiGraphic = false) .invalidManifest

/-- Signed validity in Unix seconds; the end is exclusive. -/
structure Validity where
  created : ℕ
  expires : ℕ
  deriving DecidableEq, Repr

namespace Validity

def validate (validity : Validity) : Except Error Unit :=
  refuse (validity.created = 0 ∨ validity.expires ≤ validity.created ∨
    validity.expires - validity.created > maxValiditySeconds) .invalidManifest

def checkTime (validity : Validity) (now : ℕ) : Except Error Unit :=
  refuse (now < validity.created ∨ now ≥ validity.expires) .expired

end Validity

/-- One ordered, authenticated chunk reference. -/
structure Chunk where
  id : ChunkId
  length : ℕ
  deriving DecidableEq

/-! ## Messages -/

structure WireChunk where
  hash : Bytes := []
  length : ℕ := 0
  deriving DecidableEq, Repr

instance : Message WireChunk := schema {} [
  .bytes 1 (·.hash) ({ · with hash := · }),
  .uint32 2 (·.length) ({ · with length := · })]

structure Payload where
  name : Bytes := []
  revision : ℕ := 0
  contentType : Bytes := []
  length : ℕ := 0
  chunks : List WireChunk := []
  wholeHash : Bytes := []
  deriving DecidableEq, Repr

instance : Message Payload := schema {} [
  .text 1 (·.name) ({ · with name := · }),
  .uint64 2 (·.revision) ({ · with revision := · }),
  .text 3 (·.contentType) ({ · with contentType := · }),
  .uint64 4 (·.length) ({ · with length := · }),
  .repeatedMessage 5 (·.chunks) ({ · with chunks := · }),
  .bytes 6 (·.wholeHash) ({ · with wholeHash := · })]

structure Body where
  version : ℕ := 0
  publisher : Bytes := []
  (created expires : ℕ := 0)
  nonce : Bytes := []
  messageType : ℕ := 0
  (payloadHash payload : Bytes := [])
  deriving DecidableEq, Repr

instance : Message Body := schema {} [
  .uint32 1 (·.version) ({ · with version := · }),
  .bytes 2 (·.publisher) ({ · with publisher := · }),
  .uint64 3 (·.created) ({ · with created := · }),
  .uint64 4 (·.expires) ({ · with expires := · }),
  .bytes 5 (·.nonce) ({ · with nonce := · }),
  .uint32 6 (·.messageType) ({ · with messageType := · }),
  .bytes 7 (·.payloadHash) ({ · with payloadHash := · }),
  .bytes 8 (·.payload) ({ · with payload := · })]

structure Envelope where
  body : Option Body := none
  signature : Bytes := []
  deriving DecidableEq, Repr

instance : Message Envelope := schema {} [
  .message 1 (·.body) ({ · with body := · }),
  .bytes 2 (·.signature) ({ · with signature := · })]

/-! ## Manifests -/

/-- The exact manifest verified against the expected publisher. -/
structure VerifiedManifest where
  manifestId : FixedBytes 32
  publisher : FixedBytes 32
  metadata : Metadata
  length : ℕ
  validity : Validity
  chunks : List Chunk
  wholeHash : FixedBytes 32
  deriving DecidableEq

def VerifiedManifest.checkTime (manifest : VerifiedManifest) (now : ℕ) : Except Error Unit :=
  manifest.validity.checkTime now

/-- Canonical, bounded signed bytes. -/
structure SignedManifest where
  body : Body
  signature : FixedBytes 64
  deriving DecidableEq

namespace SignedManifest

def version : ℕ := 1

def nativeManifestType : ℕ := 1

def signingDomain : Bytes := ascii "VOLPAROSSA/native-content-manifest/v1\x00"

def signingBytes (body : Body) : Bytes := signingDomain ++ Protobuf.encode body

def encode (signed : SignedManifest) : Bytes :=
  Protobuf.encode (⟨some signed.body, signed.signature.toBytes⟩ : Envelope)

/-- The chunks of a payload, in order; every chunk but the last is full. -/
def readChunks : List WireChunk → Except Error (List Chunk)
  | [] => pure []
  | chunk :: rest => do
    refuse (chunk.length = 0 ∨ chunk.length > chunkBytes ∨
      (rest ≠ [] ∧ chunk.length ≠ chunkBytes)) .invalidManifest
    let id ← orFail (FixedBytes.ofBytes 32 chunk.hash) .invalidManifest
    let chunks ← readChunks rest
    pure (⟨id, chunk.length⟩ :: chunks)

variable (crypto : Ed25519)

/-- What a signed manifest says, within its bounds. -/
def validate (signed : SignedManifest) : Except Error VerifiedManifest := do
  let body := signed.body
  refuse (body.version ≠ version ∨ body.messageType ≠ nativeManifestType ∨
    body.publisher.length ≠ 32 ∨ body.nonce.length ≠ 32 ∨
    body.payloadHash ≠ (crypto.sha256 body.payload).toBytes) .invalidManifest
  let validity : Validity := ⟨body.created, body.expires⟩
  validity.validate
  let payload : Payload ← orFail (Protobuf.decode body.payload) .invalidManifest
  refuse (Protobuf.encode payload ≠ body.payload ∨ payload.chunks.length > maxChunks ∨
    payload.length > maxObjectBytes) .invalidManifest
  let metadata : Metadata := ⟨payload.name, payload.revision, payload.contentType⟩
  metadata.validate
  let chunks ← readChunks payload.chunks
  let total := (chunks.map Chunk.length).sum
  refuse (total ≠ payload.length) .invalidManifest
  let publisher ← orFail (FixedBytes.ofBytes 32 body.publisher) .invalidManifest
  let wholeHash ← orFail (FixedBytes.ofBytes 32 payload.wholeHash) .invalidManifest
  pure ⟨crypto.sha256 signed.encode, publisher, metadata, total, validity, chunks, wholeHash⟩

/-- Decode the one accepted encoding; this establishes no trust in the publisher. -/
def decode (bytes : Bytes) : Except Error SignedManifest := do
  refuse (bytes.length > maxManifestBytes) (.limit "manifest length")
  let envelope : Envelope ← orFail (Protobuf.decode bytes) .invalidManifest
  refuse (Protobuf.encode envelope ≠ bytes) .invalidManifest
  let body ← orFail envelope.body .invalidManifest
  let signature ← orFail (FixedBytes.ofBytes 64 envelope.signature) .invalidManifest
  let signed : SignedManifest := ⟨body, signature⟩
  let _ ← signed.validate crypto
  pure signed

/-- Authenticate the exact manifest against a publisher that the caller trusts already. -/
def verify (signed : SignedManifest) (expectedPublisher : FixedBytes 32) (now : ℕ) :
    Except Error VerifiedManifest := do
  refuse (signed.body.publisher ≠ expectedPublisher.toBytes) .wrongPublisher
  refuse (crypto.verifyStrict expectedPublisher (signingBytes signed.body)
    signed.signature.toBytes = false) .invalidSignature
  let result ← signed.validate crypto
  result.checkTime now
  pure result

end SignedManifest

end Volparossa.Content
