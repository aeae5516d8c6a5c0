import Volparossa.Content.Names
import Volparossa.Foundations.Machine

/-!
# Creating, opening and using a cache

A cache is created in a fresh directory, and opened again later: by the record of its owner, with
none of the files around that are written first and renamed, and with every chunk of its index in a
file of the length that the index has. What an interrupted operation leaves behind is not repaired;
a directory in which an operation was cut off at the wrong moment does not open.

A `Cache` is the directory with a process that has it open or without one; `Cache.machine` takes any
sequence of operations, observations of names, closings and openings, each on a host of its own that
may fail any call or die at one.
-/

namespace Volparossa.Content

open Transaction (ascii)

open PrivateStorage (Ed25519)

def ownerMagic : Bytes := ascii "VPCC0001"

def ownerBytes : ℕ := 60

/-- The record of the owner of a directory. -/
def ownerRecord (host : Host) (cacheId : FixedBytes 32) : Bytes :=
  ownerMagic ++ cacheId.toBytes ++ littleEndian 8 host.device ++ littleEndian 8 host.inode ++
    littleEndian 4 host.uid

def validateLimits (limits : CacheLimits) : Except Error Unit :=
  refuse (limits.maxBytes = 0 ∨ limits.maxEntries = 0 ∨ limits.maxEntries > maxCacheEntries)
    (.limit "cache configuration")

namespace ChunkStore

variable (crypto : Ed25519) (host : Host)

/-- The store before its index is known. -/
def blank (cacheId : FixedBytes 32) (limits : CacheLimits) (healthy : Bool) (disk : Disk) :
    ChunkStore :=
  ⟨disk, cacheId, limits, .empty, [], 0, healthy⟩

/-- Create a cache in a fresh directory. -/
def create (limits : CacheLimits) (entropy : Option (FixedBytes 32)) :
    Procedure Disk Error ChunkStore := do
  validateLimits limits
  -- the directory is made and opened
  Disk.call host
  Disk.call host
  Disk.createFile host .owner
  -- the owner is locked
  Disk.call host
  let cacheId ← .orFail entropy .entropy
  Disk.writeAll host .owner (ownerRecord host cacheId)
  Disk.syncAll host
  Procedure.build (blank cacheId limits false) disk do
    persistIndex crypto host
    setHealthy true

/-- Take over an index that was loaded. -/
def load (loaded : Loaded) (store : ChunkStore) : ChunkStore :=
  { store with entries := loaded.entries, lru := loaded.lru, bytes := loaded.bytes }

/-- A chunk of the index has a file of its length. -/
def checkChunk (entry : Entry) : Procedure ChunkStore Error Unit := do
  let content ← onDisk (Disk.openPrivateFile host (.chunk entry.id) chunkBytes)
  .refuse (content.length ≠ entry.length) (.integrity entry.id)

/-- Open a cache that was created before. -/
def openCache (limits : CacheLimits) : Procedure Disk Error ChunkStore := do
  validateLimits limits
  Disk.call host
  let file ← Disk.openPrivateFile host .owner ownerBytes
  Disk.call host
  let owner ← Disk.readToEnd host file
  .refuse (owner.length ≠ ownerBytes ∨ owner.take 8 ≠ ownerMagic) .invalidStore
  let cacheId ← .orFail (FixedBytes.ofBytes 32 ((owner.drop 8).take 32)) .invalidStore
  .refuse (owner ≠ ownerRecord host cacheId) .invalidStore
  Disk.ensureAbsent host .indexStage
  Disk.ensureAbsent host .chunkStage
  Disk.ensureAbsent host .replicaStage
  Disk.ensureAbsent host .mailboxStage
  let file ← Disk.openPrivateFile host .index maxIndexBytes
  let index ← Disk.readToEnd host file
  Procedure.build (blank cacheId limits true) disk do
    let loaded ← loadIndex crypto cacheId limits index
    .update (load loaded)
    checkNameMetadata crypto host
    checkFreeSpace host 0
    let entries := (← .state).entries
    Procedure.forEach (checkChunk host) (entries.orderBy Entry.id fun a b => compare a b ≠ .gt)

end ChunkStore

/-! ## Runs -/

/-- What a process does with an open cache. -/
inductive Operation where
  | put (bytes : Bytes)
  | putVerified (expected : ChunkId) (bytes : Bytes)
  | putVerifiedIfSpace (expected : ChunkId) (bytes : Bytes)
  | get (id : ChunkId)
  | remove (id : ChunkId)
  | evict

/-- What an operation returns. -/
inductive Answer where
  | unit
  | id (id : ChunkId)
  | inserted (new : Bool)
  | content (bytes : Option Bytes)

namespace Operation

variable (crypto : Ed25519) (host : Host)

def perform : Operation → Procedure ChunkStore Error Answer
  | put bytes => do pure (.id (← ChunkStore.put crypto host bytes))
  | putVerified expected bytes => do
    ChunkStore.putVerified crypto host expected bytes
    pure .unit
  | putVerifiedIfSpace expected bytes => do
    pure (.inserted (← ChunkStore.putVerifiedIfSpace crypto host expected bytes))
  | get id => do pure (.content (← ChunkStore.get crypto host id))
  | remove id => do
    ChunkStore.removeOwnedChunk crypto host id
    pure .unit
  -- the store evicts only in operations that have found it healthy
  | evict => do
    ChunkStore.ensureHealthy
    ChunkStore.evictOldest crypto host
    pure .unit

end Operation

/-- A manifest that was verified; the fields of one cannot be forged. -/
def VerifiedManifest.Genuine (crypto : Ed25519) (manifest : VerifiedManifest) : Prop :=
  ∃ (signed : SignedManifest) (key : FixedBytes 32) (now : ℕ),
    signed.verify crypto key now = .ok manifest

/-- What happens to a cache. -/
inductive Action (crypto : Ed25519) where
  | reopen (limits : CacheLimits)
  | close
  | perform (op : Operation)
  | observe (manifest : VerifiedManifest) (genuine : manifest.Genuine crypto) (now : ℕ)

/-- An action and the host that it meets. -/
structure Request (crypto : Ed25519) where
  host : Host
  action : Action crypto

inductive Outcome where
  | opened
  | closed
  | answer (answer : Answer)
  | pin (pin : RevisionPin)

/-- A directory, with a process that has it open or without one. -/
inductive Cache where
  | closed (disk : Disk)
  | opened (store : ChunkStore)

namespace Cache

variable (crypto : Ed25519)

def disk : Cache → Disk
  | closed disk => disk
  | opened store => store.disk

/-- A cache once its creation ended, well or not. -/
def created (host : Host) (limits : CacheLimits) (entropy : Option (FixedBytes 32)) : Cache :=
  match ChunkStore.create crypto host limits entropy ⟨fun _ => none, 0⟩ with
  | (.ok store, _) => opened store
  | (.error _, disk) => closed disk

/-- What an action does; nothing when the cache is not open for it, or open already. -/
def step : Cache → Request crypto → Option (Except Error Outcome) × Cache
  | closed disk, ⟨host, .reopen limits⟩ =>
    match ChunkStore.openCache crypto host limits disk with
    | (.ok store, _) => (some (.ok .opened), opened store)
    | (.error e, disk) => (some (.error e), closed disk)
  | opened store, ⟨_, .close⟩ => (some (.ok .closed), closed store.disk)
  | opened store, ⟨host, .perform op⟩ =>
    let (result, store) := op.perform crypto host store
    (some (result.map .answer), opened store)
  | opened store, ⟨host, .observe manifest _ now⟩ =>
    let (result, store) := ChunkStore.observeNameRevision crypto host manifest now store
    (some (result.map .pin), opened store)
  | cache, _ => (none, cache)

def machine : Machine Cache (Request crypto) (Option (Except Error Outcome)) := ⟨step crypto⟩

end Cache

end Volparossa.Content
