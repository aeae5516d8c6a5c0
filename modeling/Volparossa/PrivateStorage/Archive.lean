import Volparossa.Foundations.Machine
import Volparossa.PrivateStorage.Store

/-!
# Whole archives in the private store

The operations of the local owner of a store: besides the resumable upload of
`PrivateStorage.Store`, an archive is reserved, streamed into its reservation as a whole, restored,
and deleted. `Store.machine` is the store in the hands of its owner over time.
-/

namespace Volparossa.PrivateStorage.Store

open Transaction (Crypto)

/-- What a reader gives: some bytes, and then the end or a failure. -/
structure Source where
  content : Bytes
  broken : Bool
  deriving DecidableEq

/-- A new store. -/
def fresh (limits : StorageLimits) (provider : FixedBytes 32) : Database :=
  ⟨limits, limits.capacityBytes, provider, .empty, .empty, .empty, .empty⟩

section Operations

variable (crypto : Crypto) (db : Database)

/-- Durably reserve the complete ciphertext length before any payload write. -/
def reserve (env : Env) (reservation : Database.Reservation) :
    Except StorageError (FixedBytes 16) × Database :=
  transaction db env.commits .database (db.reserveInTransaction env reservation)

/-- Read an archive chunk by chunk and insert the chunks. Every turn takes at least one byte off
`remaining`, which bounds their number. -/
def writeChunks (available : ℕ → Option ℕ) (id : FixedBytes 16) :
    ℕ → ℕ → ℕ → Bytes → Database → Except StorageError (Bytes × Database)
  | 0, _, _, content, db => pure (content, db)
  | fuel + 1, remaining, ordinal, content, db =>
    if remaining = 0 then pure (content, db)
    else do
      let length := min remaining chunkBytes
      refuse (content.length < length) .io
      checkSpace (available ordinal) (length + 64 * 1024) db.limits.minFreeBytes
      let bytes := content.take length
      let db ← db.insertChunk ⟨id, ordinal, crypto.sha256 bytes, bytes⟩
      writeChunks available id fuel (remaining - length) (ordinal + 1) (content.drop length) db

/-- What streaming an archive into its reservation makes of the tables. -/
def writeBody (available : ℕ → Option ℕ) (id : FixedBytes 16) (source : Source) (now : ℕ) :
    Except StorageError (StoredArchive × Database) := do
  let archive ← db.load id
  refuse (archive.committed = true) .alreadyCommitted
  refuse (archive.expiresAtUnix ≤ now) .expired
  refuse (db.chunksOf id ≠ []) .invalidStore
  let (rest, db) ← writeChunks crypto available id archive.ciphertextBytes archive.ciphertextBytes 0
    source.content db
  refuse (rest = [] ∧ source.broken = true) .io
  refuse (rest ≠ [] ∨
    crypto.sha256 (source.content.take archive.ciphertextBytes) ≠ archive.sha256) .integrity
  pure ({ archive with committed := true },
    db.modifyLease id (fun row => { row with committed := true }) Database.leaseId_commit)

/-- Stream an already encrypted archive into its existing durable reservation. -/
def writeReserved (available : ℕ → Option ℕ) (commits : Bool) (id : FixedBytes 16) (source : Source)
    (now : ℕ) : Except StorageError StoredArchive × Database :=
  transaction db commits .database (writeBody crypto db available id source now)

/-- One chunk of a restored archive: what remains after it, the next number, and the bytes so
far. -/
def restoreChunk (chunk : Chunk) : ℕ × ℕ × Bytes → Except StorageError (ℕ × ℕ × Bytes)
  | (remaining, ordinal, whole) => do
    let length := min remaining chunkBytes
    refuse (chunk.ordinal ≠ ordinal ∨ length = 0 ∨ chunk.payload.length ≠ length ∨
      chunk.sha256 ≠ crypto.sha256 chunk.payload) .integrity
    pure (remaining - length, ordinal + 1, whole ++ chunk.payload)

/-- The unchanged ciphertext of a current committed lease. -/
def restore (id : FixedBytes 16) (now : ℕ) : Except StorageError (StoredArchive × Bytes) := do
  let archive ← db.load id
  refuse (archive.committed = false) .notCommitted
  refuse (archive.expiresAtUnix ≤ now) .expired
  let (remaining, _, whole) ← (db.chunksOf id).foldlM (fun s chunk => restoreChunk crypto chunk s)
    (archive.ciphertextBytes, 0, [])
  refuse (remaining ≠ 0 ∨ crypto.sha256 whole ≠ archive.sha256) .integrity
  pure (archive, whole)

/-- Delete only this exact copy and release its accounted capacity. -/
def delete (commits : Bool) (id : FixedBytes 16) : Except StorageError Bool × Database :=
  transaction db commits .database
    (.ok (decide (db.leases.lookup id ≠ none), db.deleteLease id))

end Operations

/-! ## The store over time -/

/-- A use of the store. -/
inductive Call where
  | reserve (reservation : Database.Reservation) (env : Env)
  | appendChunk (id : FixedBytes 16) (ordinal : ℕ) (expectedSha256 : FixedBytes 32) (bytes : Bytes)
      (now : ℕ) (env : Env)
  | uploadProgress (id : FixedBytes 16) (now : ℕ)
  | finalize (id : FixedBytes 16) (now : ℕ) (env : Env)
  | writeReserved (id : FixedBytes 16) (source : Source) (now : ℕ) (available : ℕ → Option ℕ)
      (commits : Bool)
  | readRange (id : FixedBytes 16) (firstChunk chunkCount now : ℕ)
  | restore (id : FixedBytes 16) (now : ℕ)
  | renew (id : FixedBytes 16) (newExpiry now : ℕ) (env : Env)
  | delete (id : FixedBytes 16) (commits : Bool)

/-- What a use returns. -/
inductive Output where
  | reserved (result : Except StorageError (FixedBytes 16))
  | progress (result : Except StorageError UploadProgress)
  | archive (result : Except StorageError StoredArchive)
  | range (result : Except StorageError (ArchiveRange × Bytes))
  | restored (result : Except StorageError (StoredArchive × Bytes))
  | deleted (result : Except StorageError Bool)

/-- The store as a machine. -/
def machine (crypto : Crypto) : Machine Database Call Output where
  step db
    | .reserve reservation env =>
      let (result, db) := reserve db env reservation
      (.reserved result, db)
    | .appendChunk id ordinal expectedSha256 bytes now env =>
      let (result, db) := db.appendChunk crypto env id ordinal expectedSha256 bytes now
      (.progress result, db)
    | .uploadProgress id now => (.progress (db.uploadProgress id now), db)
    | .finalize id now env =>
      let (result, db) := db.finalize crypto env id now
      (.archive result, db)
    | .writeReserved id source now available commits =>
      let (result, db) := writeReserved crypto db available commits id source now
      (.archive result, db)
    | .readRange id firstChunk chunkCount now =>
      (.range (db.readRange crypto id firstChunk chunkCount now), db)
    | .restore id now => (.restored (restore crypto db id now), db)
    | .renew id newExpiry now env =>
      let (result, db) := db.renew env id newExpiry now
      (.archive result, db)
    | .delete id commits =>
      let (result, db) := delete db commits id
      (.deleted result, db)

end Volparossa.PrivateStorage.Store
