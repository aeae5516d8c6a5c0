import Volparossa.PrivateStorage.Protocol

/-!
# The private ciphertext store

The tables of the store and the operations on one lease: reserve, append a chunk, inspect the
upload, finalize, read a range, renew. A lease reserves the complete length of an archive before any
payload is written, and its chunks are an upload prefix until the archive is committed.

An operation is a function of the tables and of what the machine around them does (`Env`): the free
space it reports, the identifier it draws, and whether the journal commits. A failure leaves the
tables as they were, since every change is made in a transaction (`transaction`).
-/

namespace Volparossa.PrivateStorage

open Transaction (Crypto checkedAdd)

/-- Private local custody failure. -/
inductive StorageError where
  | io
  | database
  | invalidStore
  | invalidInput
  | busy
  | quota
  | expired
  | notFound
  | notCommitted
  | alreadyCommitted
  | integrity
  | entropy
  deriving DecidableEq, Repr

/-- Explicit, persisted local contribution limits. -/
structure StorageLimits where
  capacityBytes : ℕ
  minFreeBytes : ℕ
  deriving DecidableEq, Repr

/-- Exact retained payload accounting. -/
structure StorageUsage where
  reservedBytes : ℕ
  committedBytes : ℕ
  leases : ℕ
  deriving DecidableEq, Repr

/-- Local immutable archive identity with its separately mutable retention lease: a row of the
leases. -/
structure StoredArchive where
  leaseId : FixedBytes 16
  ciphertextBytes : ℕ
  sha256 : FixedBytes 32
  expiresAtUnix : ℕ
  committed : Bool
  deriving DecidableEq

/-- A stored chunk of an archive. -/
structure Chunk where
  leaseId : FixedBytes 16
  ordinal : ℕ
  sha256 : FixedBytes 32
  payload : Bytes
  deriving DecidableEq

/-- The primary key of the chunks. -/
def Chunk.key (chunk : Chunk) : FixedBytes 16 × ℕ := (chunk.leaseId, chunk.ordinal)

/-- A registered grant. -/
structure GrantRecord where
  grantId : FixedBytes 32
  capabilityId : FixedBytes 32
  owner : FixedBytes 32
  signedGrant : Bytes
  deriving DecidableEq

/-- The durable binding of an owner's archive to a grant and a lease. -/
structure Binding where
  owner : FixedBytes 32
  archiveId : FixedBytes 32
  grantId : FixedBytes 32
  leaseId : FixedBytes 16
  ciphertextBytes : ℕ
  sha256 : FixedBytes 32
  deleted : Bool
  deriving DecidableEq

/-- The primary key of the bindings. -/
def Binding.key (binding : Binding) : FixedBytes 32 × FixedBytes 32 :=
  (binding.owner, binding.archiveId)

namespace Binding

/-- What the deletion of a lease makes of a binding: a tombstone, when it is bound to the lease. -/
def bury (id : FixedBytes 16) (binding : Binding) : Binding :=
  if binding.leaseId = id then { binding with deleted := true } else binding

variable (id : FixedBytes 16) (binding : Binding)

theorem bury_eq : ∃ deleted, binding.bury id = { binding with deleted := deleted } := by
  unfold bury
  split
  · exact ⟨true, rfl⟩
  · exact ⟨binding.deleted, rfl⟩

@[simp] theorem key_bury : (binding.bury id).key = binding.key := by
  obtain ⟨deleted, h⟩ := binding.bury_eq id
  rw [h]
  rfl

@[simp] theorem grantId_bury : (binding.bury id).grantId = binding.grantId := by
  obtain ⟨deleted, h⟩ := binding.bury_eq id
  rw [h]

@[simp] theorem leaseId_bury : (binding.bury id).leaseId = binding.leaseId := by
  obtain ⟨deleted, h⟩ := binding.bury_eq id
  rw [h]

@[simp] theorem ciphertextBytes_bury :
    (binding.bury id).ciphertextBytes = binding.ciphertextBytes := by
  obtain ⟨deleted, h⟩ := binding.bury_eq id
  rw [h]

variable {id binding}

theorem bury_of_ne (h : binding.leaseId ≠ id) : binding.bury id = binding := if_neg h

theorem ne_of_bury_deleted (h : (binding.bury id).deleted = false) : binding.leaseId ≠ id := by
  intro heq
  rw [bury, if_pos heq] at h
  cases h

end Binding

/-- The database of a store: its limits and admission target, the pinned provider, and its
tables. -/
structure Database where
  limits : StorageLimits
  admissionTargetBytes : ℕ
  provider : FixedBytes 32
  leases : Table StoredArchive.leaseId
  chunks : Table Chunk.key
  grants : Table GrantRecord.grantId
  bindings : Table Binding.key

/-- What the machine around the store does during one operation. -/
structure Env where
  /-- The free bytes of the filesystem, when it reports them. -/
  available : Option ℕ
  /-- The lease identifier that is drawn, when there is entropy. -/
  leaseId : Option (FixedBytes 16)
  /-- Whether the journal commits. -/
  commits : Bool
  deriving DecidableEq

def validLimits (limits : StorageLimits) : Except StorageError Unit :=
  refuse (¬(1 ≤ limits.capacityBytes ∧ limits.capacityBytes ≤ maxCapacityBytes) ∨
    limits.minFreeBytes > maxCapacityBytes) .invalidInput

def validExpiry (expires now : ℕ) : Except StorageError Unit :=
  refuse (now = 0 ∨ expires ≤ now ∨ expires - now > maxLeaseSeconds ∨ expires > maxInt64)
    .invalidInput

/-- The sum of two unsigned 64-bit integers, or the largest one. -/
def saturatingAdd (a b : ℕ) : ℕ := min (a + b) (2 ^ 64 - 1)

def checkSpace (available : Option ℕ) (bytes floor : ℕ) : Except StorageError Unit := do
  let available ← orFail available .io
  refuse (available < bytes + floor) .quota

/-- Commit what `body` makes of the tables, or leave them as they were. -/
def transaction {ε α : Type} (db : Database) (commits : Bool) (database : ε)
    (body : Except ε (α × Database)) : Except ε α × Database :=
  match body with
  | .error e => (.error e, db)
  | .ok (a, db') => if commits then (.ok a, db') else (.error database, db)

theorem transaction_cases {ε α : Type} (db : Database) (commits : Bool) (database : ε)
    (body : Except ε (α × Database)) :
    (∃ e, transaction db commits database body = (.error e, db)) ∨
      ∃ a db', body = .ok (a, db') ∧ transaction db commits database body = (.ok a, db') := by
  unfold transaction
  rcases body with e | ⟨a, db'⟩
  · exact .inl ⟨e, rfl⟩
  · cases commits with
    | false => exact .inl ⟨database, rfl⟩
    | true => exact .inr ⟨a, db', rfl, rfl⟩

namespace Database

variable (db : Database)

/-! ## Leases -/

def load (id : FixedBytes 16) : Except StorageError StoredArchive := do
  let archive ← orFail (db.leases.lookup id) .notFound
  refuse (archive.ciphertextBytes > maxArchiveBytes ∨ archive.expiresAtUnix = 0) .invalidStore
  pure archive

/-- The payload of the pending leases, or of the committed ones. -/
def leasedBytes (committed : Bool) : ℕ :=
  db.leases.sumWhere (fun archive => archive.committed == committed) StoredArchive.ciphertextBytes

/-- Accounting of the leases, refused when it is beyond the limits. -/
def usage : Except StorageError StorageUsage := do
  let usage : StorageUsage := ⟨db.leasedBytes false, db.leasedBytes true, db.leases.rows.length⟩
  refuse (usage.leases > maxLeases ∨
    (checkedAdd usage.reservedBytes usage.committedBytes).all
      fun bytes => decide (bytes > db.limits.capacityBytes)) .invalidStore
  pure usage

/-- The admission target. -/
def target : Except StorageError ℕ := do
  refuse (db.admissionTargetBytes > db.limits.capacityBytes) .invalidStore
  pure db.admissionTargetBytes

/-- Insert a lease; its identifier has to be new. -/
def insertLease (archive : StoredArchive) : Except StorageError Database := do
  refuse (archive.expiresAtUnix = 0) .database
  let leases ← orFail (db.leases.insert archive) .database
  pure { db with leases := leases }

/-- What a lease is requested for. -/
structure Reservation where
  ciphertextBytes : ℕ
  expectedSha256 : FixedBytes 32
  expiresAtUnix : ℕ
  now : ℕ

/-- Insert a lease of the complete length, when the admission target and the free space allow it. -/
def reserveInTransaction (env : Env) (reservation : Reservation) :
    Except StorageError (FixedBytes 16 × Database) := do
  validExpiry reservation.expiresAtUnix reservation.now
  refuse (reservation.ciphertextBytes > maxArchiveBytes) .invalidInput
  let usage ← db.usage
  let targetBytes ← db.target
  refuse (usage.leases ≥ maxLeases ∨ targetBytes = 0 ∨
    usage.reservedBytes + usage.committedBytes ≥ targetBytes ∨
    ((checkedAdd usage.reservedBytes usage.committedBytes).bind
        fun bytes => checkedAdd bytes reservation.ciphertextBytes).all
      fun bytes => decide (bytes > targetBytes)) .quota
  checkSpace env.available
    (saturatingAdd (saturatingAdd usage.reservedBytes reservation.ciphertextBytes) (64 * 1024))
    db.limits.minFreeBytes
  let id ← orFail env.leaseId .entropy
  let db ← db.insertLease ⟨id, reservation.ciphertextBytes, reservation.expectedSha256,
    reservation.expiresAtUnix, false⟩
  pure (id, db)

/-- The tables after a lease has gone: its chunks go with it, and its binding becomes a
tombstone. -/
def deleteLease (id : FixedBytes 16) : Database :=
  { db with
    leases := db.leases.erase id
    chunks := db.chunks.filter fun chunk => decide (chunk.leaseId ≠ id)
    bindings := db.bindings.map (Binding.bury id) (Binding.key_bury id) }

/-! ## Chunks -/

/-- A lease that has not expired. -/
def currentArchive (id : FixedBytes 16) (now : ℕ) : Except StorageError StoredArchive := do
  refuse (now = 0) .invalidInput
  let archive ← db.load id
  refuse (archive.expiresAtUnix ≤ now) .expired
  pure archive

/-- The chunks of a lease, in the order of their numbers. -/
def chunksOf (id : FixedBytes 16) : List Chunk :=
  (db.chunks.filter fun chunk => decide (chunk.leaseId = id)).orderBy Chunk.ordinal (· ≤ ·)

end Database

/-- Durable upload position. -/
structure UploadProgress where
  archive : StoredArchive
  nextChunk : ℕ
  receivedBytes : ℕ
  deriving DecidableEq

/-- Exact successfully emitted range. -/
structure ArchiveRange where
  archive : StoredArchive
  firstChunk : ℕ
  chunkCount : ℕ
  ciphertextBytes : ℕ
  deriving DecidableEq

namespace StoredArchive

variable (archive : StoredArchive)

def totalChunks : ℕ := (archive.ciphertextBytes + chunkBytes - 1) / chunkBytes

def chunkLength (ordinal : ℕ) : Except StorageError ℕ := do
  refuse (ordinal ≥ archive.totalChunks) .invalidInput
  pure (min (archive.ciphertextBytes - ordinal * chunkBytes) chunkBytes)

end StoredArchive

/-- The upload position of an archive with the given chunks. -/
def progressOf (archive : StoredArchive) (chunks : List Chunk) :
    Except StorageError UploadProgress := do
  let ordinals := chunks.map Chunk.ordinal
  let count := ordinals.length
  refuse (count > archive.totalChunks ∨
    (count = 0 ∧ (ordinals.min?.isSome ∨ ordinals.max?.isSome)) ∨
    (count > 0 ∧ (ordinals.min? ≠ some 0 ∨ ordinals.max? ≠ some (count - 1))) ∨
    (archive.committed ∧ count ≠ archive.totalChunks)) .integrity
  let receivedBytes ← if count = 0 then pure 0 else do
    let last ← orFail (chunks.find? fun chunk => decide (chunk.ordinal = count - 1)) .database
    let length ← archive.chunkLength (count - 1)
    refuse (last.payload.length ≠ length) .integrity
    pure ((count - 1) * chunkBytes + last.payload.length)
  pure ⟨archive, count, receivedBytes⟩

/-- A retry has to be the chunk that is stored. -/
def verifyRetry (chunks : List Chunk) (ordinal : ℕ) (hash : FixedBytes 32) (bytes : Bytes) :
    Except StorageError Unit := do
  let chunk ← orFail (chunks.find? fun chunk => decide (chunk.ordinal = ordinal)) .integrity
  refuse (chunk.sha256 ≠ hash ∨ chunk.payload ≠ bytes) .integrity

section Reading

variable (crypto : Crypto)

/-- The bytes of a chunk that has the expected number, its length and its hash. -/
def checkedChunk (archive : StoredArchive) (expectedOrdinal : ℕ) (chunk : Chunk) :
    Except StorageError Bytes := do
  refuse (chunk.ordinal ≠ expectedOrdinal) .integrity
  let length ← (archive.chunkLength chunk.ordinal).mapError fun _ => .integrity
  refuse (chunk.payload.length ≠ length ∨ chunk.sha256 ≠ crypto.sha256 chunk.payload) .integrity
  pure chunk.payload

/-- Check chunks one after the other: the number after the last, and their bytes. -/
def readChunks (archive : StoredArchive) (first : ℕ) (chunks : List Chunk) :
    Except StorageError (ℕ × Bytes) :=
  chunks.foldlM (fun (next, payload) chunk => do
    let bytes ← checkedChunk crypto archive next chunk
    pure (next + 1, payload ++ bytes)) (first, [])

def verifyArchive (archive : StoredArchive) (chunks : List Chunk) : Except StorageError Unit := do
  let (next, whole) ← readChunks crypto archive 0 chunks
  refuse (next ≠ archive.totalChunks ∨ crypto.sha256 whole ≠ archive.sha256) .integrity

end Reading

namespace Database

variable (crypto : Crypto) (db : Database)

/-- Read the durable contiguous prefix position without rehashing the whole archive. -/
def uploadProgress (id : FixedBytes 16) (now : ℕ) : Except StorageError UploadProgress := do
  let archive ← db.currentArchive id now
  progressOf archive (db.chunksOf id)

/-- Insert a chunk; its number has to be new for its lease, and its length within bounds. -/
def insertChunk (chunk : Chunk) : Except StorageError Database := do
  refuse (db.leases.lookup chunk.leaseId = none ∨
    ¬(1 ≤ chunk.payload.length ∧ chunk.payload.length ≤ 262144)) .database
  let chunks ← orFail (db.chunks.insert chunk) .database
  pure { db with chunks := chunks }

/-- What appending a chunk makes of the tables. -/
def appendBody (env : Env) (id : FixedBytes 16) (ordinal : ℕ) (expectedSha256 : FixedBytes 32)
    (bytes : Bytes) (now : ℕ) : Except StorageError (UploadProgress × Database) := do
  let archive ← db.currentArchive id now
  let length ← archive.chunkLength ordinal
  refuse (bytes.length ≠ length) .invalidInput
  refuse (crypto.sha256 bytes ≠ expectedSha256) .integrity
  let progress ← progressOf archive (db.chunksOf id)
  if ordinal < progress.nextChunk then
    verifyRetry (db.chunksOf id) ordinal expectedSha256 bytes
    pure (progress, db)
  else
    refuse (ordinal ≠ progress.nextChunk) .invalidInput
    refuse (archive.committed = true) .alreadyCommitted
    checkSpace env.available (bytes.length + 64 * 1024) db.limits.minFreeBytes
    let db ← db.insertChunk ⟨id, ordinal, expectedSha256, bytes⟩
    pure (⟨archive, progress.nextChunk + 1, progress.receivedBytes + bytes.length⟩, db)

/-- Append one exact chunk or accept an identical retry without writing another copy. -/
def appendChunk (env : Env) (id : FixedBytes 16) (ordinal : ℕ) (expectedSha256 : FixedBytes 32)
    (bytes : Bytes) (now : ℕ) : Except StorageError UploadProgress × Database :=
  transaction db env.commits .database
    (db.appendBody crypto env id ordinal expectedSha256 bytes now)

/-- Change the lease with an identifier. -/
def modifyLease (id : FixedBytes 16) (f : StoredArchive → StoredArchive)
    (hf : ∀ archive, (f archive).leaseId = archive.leaseId) : Database :=
  { db with leases := db.leases.modify id f hf }

theorem leaseId_commit (row : StoredArchive) :
    { row with committed := true }.leaseId = row.leaseId :=
  rfl

/-- What finalizing an archive makes of the tables. -/
def finalizeBody (id : FixedBytes 16) (now : ℕ) :
    Except StorageError (StoredArchive × Database) := do
  let archive ← db.currentArchive id now
  verifyArchive crypto archive (db.chunksOf id)
  pure ({ archive with committed := true },
    db.modifyLease id (fun row => { row with committed := true }) leaseId_commit)

/-- Verify every ordered chunk and the complete original hash, then durably commit. -/
def finalize (env : Env) (id : FixedBytes 16) (now : ℕ) :
    Except StorageError StoredArchive × Database :=
  transaction db env.commits .database (db.finalizeBody crypto id now)

/-- The bytes of an exact range of 1–64 chunks from a committed archive. -/
def readRange (id : FixedBytes 16) (firstChunk chunkCount now : ℕ) :
    Except StorageError (ArchiveRange × Bytes) := do
  let archive ← db.currentArchive id now
  refuse (archive.committed = false) .notCommitted
  let stop ← orFail ((checkedAdd firstChunk chunkCount).filter
    fun stop => decide (stop ≤ archive.totalChunks)) .invalidInput
  refuse (¬(1 ≤ chunkCount ∧ chunkCount ≤ maxRangeChunks)) .invalidInput
  let (next, payload) ← readChunks crypto archive firstChunk ((db.chunksOf id).filter
    fun chunk => decide (firstChunk ≤ chunk.ordinal ∧ chunk.ordinal < stop))
  refuse (next ≠ stop) .integrity
  pure (⟨archive, firstChunk, chunkCount, payload.length⟩, payload)

/-- What renewing a lease makes of the tables. -/
def renewBody (id : FixedBytes 16) (newExpiry now : ℕ) :
    Except StorageError (StoredArchive × Database) := do
  validExpiry newExpiry now
  let archive ← db.load id
  refuse (newExpiry < archive.expiresAtUnix) .invalidInput
  pure ({ archive with expiresAtUnix := newExpiry },
    db.modifyLease id (fun row => { row with expiresAtUnix := newExpiry }) fun _ => rfl)

/-- Renew a retained copy without changing its ciphertext. -/
def renew (env : Env) (id : FixedBytes 16) (newExpiry now : ℕ) :
    Except StorageError StoredArchive × Database :=
  transaction db env.commits .database (db.renewBody id newExpiry now)

/-! ## Admission -/

/-- Local ciphertext obligations and the target for admitting additional reservations. -/
structure StorageAdmissionStatus where
  capacityBytes : ℕ
  targetBytes : ℕ
  reservedBytes : ℕ
  committedBytes : ℕ
  leases : ℕ
  retainedPayloadBytes : ℕ
  pendingDrainBytes : ℕ
  availableForNewReservationsBytes : ℕ
  deriving DecidableEq, Repr

/-- Read the durable admission target and actual retained payload obligations. -/
def admissionStatus : Except StorageError StorageAdmissionStatus := do
  let usage ← db.usage
  let targetBytes ← db.target
  let retained := usage.reservedBytes + usage.committedBytes
  pure ⟨db.limits.capacityBytes, targetBytes, usage.reservedBytes, usage.committedBytes,
    usage.leases, retained, retained - targetBytes, targetBytes - retained⟩

/-- What a change of the target makes of the tables. -/
def targetBody (targetBytes : ℕ) : Except StorageError (StorageAdmissionStatus × Database) := do
  refuse (targetBytes > db.limits.capacityBytes) .invalidInput
  let _ ← db.admissionStatus
  let db := { db with admissionTargetBytes := targetBytes }
  let status ← db.admissionStatus
  pure (status, db)

/-- Set the local owner's target without deleting, shortening or changing any lease. -/
def setAdmissionTarget (commits : Bool) (targetBytes : ℕ) :
    Except StorageError StorageAdmissionStatus × Database :=
  transaction db commits .database (db.targetBody targetBytes)

/-! ## Chunks of a lease -/

variable {db : Database} {id : FixedBytes 16}

/-- Only the rows of a lease matter for its chunks. -/
theorem chunksOf_congr {db' : Database}
    (h : db'.chunks.rows.filter (fun chunk => decide (chunk.leaseId = id)) =
      db.chunks.rows.filter fun chunk => decide (chunk.leaseId = id)) :
    db'.chunksOf id = db.chunksOf id := by
  unfold chunksOf Table.orderBy Table.filter
  simp only [h]

theorem chunksOf_insert {chunk : Chunk} {chunks : Table Chunk.key}
    (h : db.chunks.insert chunk = some chunks) (hne : chunk.leaseId ≠ id) :
    chunksOf { db with chunks := chunks } id = db.chunksOf id := by
  apply chunksOf_congr
  rw [Table.rows_insert h, List.filter_append, List.filter_singleton, decide_eq_false hne]
  simp

theorem chunksOf_deleteLease {id' : FixedBytes 16} (hne : id ≠ id') :
    (db.deleteLease id).chunksOf id' = db.chunksOf id' := by
  apply chunksOf_congr
  change (db.chunks.rows.filter _).filter _ = _
  rw [List.filter_filter]
  apply List.filter_congr
  intro chunk _
  by_cases h : chunk.leaseId = id' <;> simp [h, hne.symm]

/-- Rows with increasing numbers are the chunks of their lease, in whatever order they were
inserted. -/
theorem chunksOf_eq {chunks : List Chunk}
    (hperm : chunks.Perm (db.chunks.rows.filter fun chunk => decide (chunk.leaseId = id)))
    (hsorted : chunks.Pairwise fun chunk chunk' => chunk.ordinal < chunk'.ordinal) :
    db.chunksOf id = chunks := by
  have : Std.Total fun chunk chunk' : Chunk => chunk.ordinal ≤ chunk'.ordinal :=
    ⟨fun _ _ => Nat.le_total _ _⟩
  have : IsTrans Chunk fun chunk chunk' => chunk.ordinal ≤ chunk'.ordinal :=
    ⟨fun _ _ _ => Nat.le_trans⟩
  have hnodup : (chunks.map Chunk.ordinal).Nodup :=
    List.pairwise_map.mpr (hsorted.imp fun h => Nat.ne_of_lt h)
  have hchunks : (db.chunksOf id).Perm chunks :=
    (List.perm_insertionSort _ _).trans hperm.symm
  refine hchunks.eq_of_pairwise ?_ (List.pairwise_insertionSort _ _) (hsorted.imp Nat.le_of_lt)
  intro chunk chunk' hchunk hchunk' hle hle'
  exact List.inj_on_of_nodup_map hnodup (hchunks.mem_iff.mp hchunk) hchunk'
    (Nat.le_antisymm hle hle')

theorem mem_chunksOf {chunk : Chunk} :
    chunk ∈ db.chunksOf id ↔ chunk ∈ db.chunks.rows ∧ chunk.leaseId = id := by
  rw [chunksOf, (Table.orderBy_perm _ _ _).mem_iff, Table.mem_filter, decide_eq_true_eq]

end Database

end Volparossa.PrivateStorage
