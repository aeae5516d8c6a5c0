import Volparossa.Content.Store
import Volparossa.Foundations.OrdMap

/-!
# Revision pins

A cache remembers, for each publisher and name, the highest revision of a named publication that was
observed, with the identity of the manifest it came in, and whether another manifest was observed
with that revision. What is remembered is a floor: a lower revision is refused, and so is the same
revision once two manifests have it. At most 64 floors are kept, in a file of their own.

The file also bounds what may be remembered of the manifests themselves, which is read here only to
check it when the cache is opened.
-/

namespace Volparossa.Content

open Protobuf

open Transaction (ascii)

open PrivateStorage (Ed25519)

def maxPins : ℕ := 64

/-- A publisher and a name. -/
structure NameKey where
  publisher : FixedBytes 32
  name : Bytes
  deriving DecidableEq

namespace NameKey

/-- Keys are ordered by the publisher, then by the bytes of the name. -/
instance : Ord NameKey := ⟨compareLex (compareOn publisher) (compareOn name)⟩

instance : Std.TransOrd NameKey :=
  inferInstanceAs (Std.TransCmp (compareLex (compareOn publisher) (compareOn name)))

instance : Std.LawfulEqOrd NameKey where
  eq_of_compare {a b} h := by
    obtain ⟨hp, hn⟩ := compareLex_eq_eq.mp h
    cases a
    cases b
    exact congrArg₂ mk (Std.LawfulEqOrd.eq_of_compare hp) (Std.LawfulEqOrd.eq_of_compare hn)

end NameKey

/-- A local high-water observation. -/
structure RevisionPin where
  revision : ℕ
  manifestId : FixedBytes 32
  conflicted : Bool
  deriving DecidableEq

abbrev PinMap := OrdMap NameKey RevisionPin

/-! ## The file of pins -/

structure PinRecord where
  (publisher name : Bytes := [])
  revision : ℕ := 0
  manifestId : Bytes := []
  conflicted : Bool := false
  deriving DecidableEq, Repr

instance : Message PinRecord := schema {} [
  .bytes 1 (·.publisher) ({ · with publisher := · }),
  .text 2 (·.name) ({ · with name := · }),
  .uint64 3 (·.revision) ({ · with revision := · }),
  .bytes 4 (·.manifestId) ({ · with manifestId := · }),
  .bool 5 (·.conflicted) ({ · with conflicted := · })]

namespace Pins

def magic : Bytes := ascii "VPNR0001"

def maxRecordBytes : ℕ := 256

def headerBytes : ℕ := 44

def maxBytes : ℕ := headerBytes + maxPins * (4 + maxRecordBytes) + checksumBytes

def recordOf (row : NameKey × RevisionPin) : PinRecord :=
  ⟨row.1.publisher.toBytes, row.1.name, row.2.revision, row.2.manifestId.toBytes, row.2.conflicted⟩

/-- A pin in the file, behind its length. -/
def encodePin (row : NameKey × RevisionPin) : Except Error Bytes := do
  let record := encode (recordOf row)
  refuse (record.length > maxRecordBytes) .invalidStore
  pure (littleEndian 4 record.length ++ record)

def encodePins (crypto : Ed25519) (pins : PinMap) (cacheId : FixedBytes 32) :
    Except Error Bytes := do
  refuse (pins.rows.length > maxPins) .invalidStore
  let records ← pins.rows.mapM encodePin
  pure (sealed crypto magic cacheId (littleEndian 4 pins.rows.length ++ records.flatten))

/-- The next pin in the file, and what is behind it. -/
def decodePin (remaining : Bytes) : Except Error ((NameKey × RevisionPin) × Bytes) := do
  refuse (remaining.length < 4) .invalidStore
  let length := ofLittleEndian (remaining.take 4)
  refuse (length = 0 ∨ length > maxRecordBytes) .invalidStore
  refuse (remaining.length < 4 + length) .invalidStore
  let encoded := (remaining.drop 4).take length
  let record : PinRecord ← orFail (decode encoded) .invalidStore
  refuse (encode record ≠ encoded) .invalidStore
  (validateName record.name).mapError fun _ => Error.invalidStore
  let publisher ← orFail (FixedBytes.ofBytes 32 record.publisher) .invalidStore
  let manifestId ← orFail (FixedBytes.ofBytes 32 record.manifestId) .invalidStore
  pure ((⟨publisher, record.name⟩, ⟨record.revision, manifestId, record.conflicted⟩),
    remaining.drop (4 + length))

/-- Read so many pins; their keys increase. -/
def decodeRows : ℕ → Bytes → PinMap → Except Error (PinMap × Bytes)
  | 0, remaining, pins => pure (pins, remaining)
  | count + 1, remaining, pins => do
    let (row, remaining) ← decodePin remaining
    refuse (row.2.revision = 0 ∨
      (pins.rows.getLast?.any fun previous => compare previous.1 row.1 ≠ .lt) = true) .invalidStore
    decodeRows count remaining (pins.insert row.1 row.2)

def decodePins (crypto : Ed25519) (bytes : Bytes) (cacheId : FixedBytes 32) :
    Except Error PinMap := do
  refuse (bytes.length < headerBytes + checksumBytes ∨ bytes.length > maxBytes) .invalidStore
  let payload ← unsealed crypto magic cacheId bytes
  let count := ofLittleEndian (payload.take 4)
  refuse (count > maxPins) .invalidStore
  let (pins, remaining) ← decodeRows count (payload.drop 4) .empty
  refuse (remaining ≠ []) .invalidStore
  pure pins

end Pins

/-! ## The file of manifests -/

/-- A manifest that is remembered, and when it was created. -/
structure Saved where
  signed : SignedManifest
  created : ℕ
  deriving DecidableEq

structure SavedRecord where
  signed : Bytes := []
  created : ℕ := 0
  deriving DecidableEq, Repr

instance : Message SavedRecord := schema {} [
  .bytes 1 (·.signed) ({ · with signed := · }),
  .uint64 2 (·.created) ({ · with created := · })]

/-- The content type of private messages. -/
def privateMessageContentType : Bytes := ascii "application/vnd.volparossa.private-message.v1"

namespace SavedManifests

def magic : Bytes := ascii "VPNM0001"

def maxRecord : ℕ := maxManifestBytes + 16

def maxBytes : ℕ := Pins.headerBytes + maxPins * (4 + maxRecord) + checksumBytes

variable (crypto : Ed25519)

/-- A manifest that is not that of a private message. -/
def publicManifest (signed : SignedManifest) (key : FixedBytes 32) (at' : ℕ) :
    Except Error VerifiedManifest := do
  let checked ← signed.verify crypto key at'
  refuse (checked.metadata.contentType = privateMessageContentType) .invalidManifest
  pure checked

/-- The next manifest in the file, and what is behind it. -/
def decodeSaved (remaining : Bytes) : Except Error ((NameKey × Saved) × Bytes) := do
  refuse (remaining.length < 4) .invalidStore
  let length := ofLittleEndian (remaining.take 4)
  let remaining := remaining.drop 4
  refuse (length = 0 ∨ length > maxRecord) .invalidStore
  refuse (remaining.length < length) .invalidStore
  let encoded := remaining.take length
  let record : SavedRecord ← orFail (decode encoded) .invalidStore
  refuse (encode record ≠ encoded) .invalidStore
  let signed ← SignedManifest.decode crypto record.signed
  let key ← orFail (FixedBytes.ofBytes 32 signed.body.publisher) .invalidStore
  refuse (crypto.verifyingKey key = false) .invalidStore
  let checked ← publicManifest crypto signed key record.created
  refuse (checked.validity.created ≠ record.created) .invalidStore
  pure ((⟨checked.publisher, checked.metadata.name⟩, ⟨signed, record.created⟩),
    remaining.drop length)

/-- Read so many manifests; their keys increase. -/
def decodeRows : ℕ → Bytes → OrdMap NameKey Saved → Except Error (OrdMap NameKey Saved × Bytes)
  | 0, remaining, saved => pure (saved, remaining)
  | count + 1, remaining, saved => do
    let (row, remaining) ← decodeSaved crypto remaining
    refuse ((saved.rows.getLast?.any fun previous => compare previous.1 row.1 ≠ .lt) = true)
      .invalidStore
    decodeRows count remaining (saved.insert row.1 row.2)

def decodeManifests (bytes : Bytes) (cacheId : FixedBytes 32) :
    Except Error (OrdMap NameKey Saved) := do
  refuse (bytes.length < Pins.headerBytes + checksumBytes ∨ bytes.length > maxBytes) .invalidStore
  let payload ← unsealed crypto magic cacheId bytes
  let count := ofLittleEndian (payload.take 4)
  refuse (count > maxPins) .invalidStore
  let (saved, remaining) ← decodeRows crypto count (payload.drop 4) .empty
  refuse (remaining ≠ []) .invalidStore
  pure saved

end SavedManifests

/-! ## Operations -/

namespace ChunkStore

variable (crypto : Ed25519) (host : Host)

/-- The content of a file of the store, if it is there, once the file that is written first is
not. -/
def readSettled (stage file : FileName) (maximum : ℕ) :
    Procedure ChunkStore Error (Option Bytes) := do
  ensureHealthy
  onDisk (Disk.ensureAbsent host stage)
  match ← (onDisk (Disk.openPrivateFile host file maximum)).attempt with
  | .error (.io .notFound) => pure none
  | .error e => .fail e
  | .ok content =>
    let bytes ← onDisk (Disk.readToEnd host content)
    pure (some bytes)

def readNamePins : Procedure ChunkStore Error PinMap := do
  match ← readSettled host .pinStage .pins Pins.maxBytes with
  | none => pure .empty
  | some bytes => Pins.decodePins crypto bytes (← .state).cacheId

def persistNamePins (pins : PinMap) : Procedure ChunkStore Error Unit := do
  ensureHealthy
  onDisk (Disk.ensureAbsent host .pinStage)
  let bytes ← Pins.encodePins crypto pins (← .state).cacheId
  checkFreeSpace host bytes.length
  setHealthy false
  onDisk (Disk.replaceFile host .pinStage .pins bytes)
  setHealthy true

/-- Observe a manifest that its publisher authorized. A conflict is recorded before it is
reported. -/
def observeNameRevision (manifest : VerifiedManifest) (now : ℕ) :
    Procedure ChunkStore Error RevisionPin := do
  manifest.checkTime now
  let pins ← readNamePins crypto host
  let key : NameKey := ⟨manifest.publisher, manifest.metadata.name⟩
  let candidate : RevisionPin := ⟨manifest.metadata.revision, manifest.manifestId, false⟩
  match pins.lookup key with
  | some previous =>
    .refuse (candidate.revision < previous.revision) .nameRollback
    if candidate.revision = previous.revision then
      .refuse (previous.conflicted = true) .nameConflict
      if candidate.manifestId = previous.manifestId then pure previous
      else
        persistNamePins crypto host (pins.insert key { previous with conflicted := true })
        .fail .nameConflict
    else
      persistNamePins crypto host (pins.insert key candidate)
      pure candidate
  | none =>
    .refuse (pins.rows.length ≥ maxPins) (.limit "named publication revision pins")
    persistNamePins crypto host (pins.insert key candidate)
    pure candidate

def readNamedManifests : Procedure ChunkStore Error (OrdMap NameKey Saved) := do
  match ← readSettled host .manifestStage .manifests SavedManifests.maxBytes with
  | none => pure .empty
  | some bytes =>
    (SavedManifests.decodeManifests crypto bytes (← .state).cacheId).mapError
      fun _ => Error.invalidStore

def checkCachedNameMetadata : Procedure ChunkStore Error Unit := do
  let pins ← readNamePins crypto host
  let saved ← readNamedManifests crypto host
  .refuse ((saved.rows.any fun row => (pins.lookup row.1).isNone) = true) .invalidStore

def checkNameMetadata : Procedure ChunkStore Error Unit := do
  let _ ← readNamePins crypto host
  checkCachedNameMetadata crypto host

end ChunkStore

end Volparossa.Content
