import Volparossa.Content.Disk

/-!
# The chunk store

A cache keeps chunks in files named by their digests. It knows its chunks from an index that it
holds in memory and in a file, in the order of their last use, so that the chunk used least recently
is the one that makes room for another. Everything that changes the directory first marks the store
as unhealthy, and marks it healthy when all of it is done; an unhealthy store refuses every
operation.

The index file is replaced as a whole. A chunk enters the index before its file is written, and its
file is deleted before it leaves the index.

Memory and file have the same index when the store is healthy: `ChunkStore.Tidy` is what holds of
the index in memory, `ChunkStore.indexBytes_of_tidy` that the file written for it lists it in order,
and `loadIndex_indexFile` that the list is read back from the file.
-/

namespace Volparossa.Content

open Transaction (ascii)
open Table

open PrivateStorage (Ed25519)

def maxCacheEntries : ℕ := 65536

def indexMagic : Bytes := ascii "VPCI0001"

def indexHeaderBytes : ℕ := 44

def indexEntryBytes : ℕ := 36

def checksumBytes : ℕ := 32

def maxIndexBytes : ℕ := indexHeaderBytes + maxCacheEntries * indexEntryBytes + checksumBytes

/-- Explicit local-owner limits. -/
structure CacheLimits where
  maxBytes : ℕ
  maxEntries : ℕ
  minFreeBytes : ℕ
  deriving DecidableEq, Repr

/-- A chunk in the index, with its length. -/
structure Entry where
  id : ChunkId
  length : ℕ
  deriving DecidableEq

/-- A private local chunk cache with least-recently-used eviction. -/
structure ChunkStore where
  disk : Disk
  cacheId : FixedBytes 32
  limits : CacheLimits
  entries : Table Entry.id
  lru : List ChunkId
  bytes : ℕ
  healthy : Bool

/-- Bytes of a cache behind a mark and the identity of the cache, with a checksum of all of it. -/
def sealed (crypto : Ed25519) (magic : Bytes) (cacheId : FixedBytes 32) (payload : Bytes) : Bytes :=
  magic ++ cacheId.toBytes ++ payload ++
    (crypto.sha256 (magic ++ cacheId.toBytes ++ payload)).toBytes

/-- A chunk in the index file. -/
def Entry.record (entry : Entry) : Bytes := entry.id.toBytes ++ littleEndian 4 entry.length

/-- The index file of some chunks, the least recently used first. -/
def indexFile (crypto : Ed25519) (cacheId : FixedBytes 32) (entries : List Entry) : Bytes :=
  sealed crypto indexMagic cacheId (littleEndian 4 entries.length ++ entries.flatMap Entry.record)

namespace ChunkStore

variable (crypto : Ed25519) (host : Host)

/-- Run a procedure on the directory of the store. -/
def onDisk {α : Type} (m : Procedure Disk Error α) : Procedure ChunkStore Error α :=
  m.within disk fun store disk => { store with disk := disk }

def ensureHealthy : Procedure ChunkStore Error Unit := do
  .refuse ((← .state).healthy = false) .invalidStore

def setHealthy (healthy : Bool) : Procedure ChunkStore Error Unit :=
  .update fun store => { store with healthy := healthy }

/-- The chunk becomes the one used last. -/
def touch (id : ChunkId) (store : ChunkStore) : ChunkStore :=
  { store with lru := store.lru.filter (· ≠ id) ++ [id] }

/-- The chunk enters the index, as the one used last. -/
def insertEntry (id : ChunkId) (length : ℕ) (store : ChunkStore) : ChunkStore :=
  touch id { store with bytes := store.bytes + length, entries := store.entries.put ⟨id, length⟩ }

/-- The chunk leaves the index. -/
def forget (id : ChunkId) (store : ChunkStore) : ChunkStore :=
  { store with
    entries := store.entries.erase id
    bytes := store.bytes - ((store.entries.lookup id).map Entry.length).getD 0
    lru := store.lru.filter (· ≠ id) }

def checkFreeSpace (additional : ℕ) : Procedure ChunkStore Error Unit := do
  let store ← .state
  let required := store.limits.minFreeBytes + additional
  .refuse (required ≥ 2 ^ 64) .quota
  let available ← onDisk (Disk.freeBytes host)
  let available ← .orFail available .quota
  .refuse (available < required) .quota

/-- A chunk of the store in its index file. -/
def recordOf (store : ChunkStore) (id : ChunkId) : Except Error Bytes := do
  let entry ← orFail (store.entries.lookup id) .invalidStore
  refuse (entry.length ≥ 2 ^ 32) .invalidStore
  pure (id.toBytes ++ littleEndian 4 entry.length)

/-- The index file of the store. -/
def indexBytes (store : ChunkStore) : Except Error Bytes := do
  refuse (store.entries.rows.length ≥ 2 ^ 32) .invalidStore
  let listed ← store.lru.mapM store.recordOf
  pure (sealed crypto indexMagic store.cacheId
    (littleEndian 4 store.entries.rows.length ++ listed.flatten))

def persistIndex : Procedure ChunkStore Error Unit := do
  let store ← .state
  let bytes ← store.indexBytes crypto
  checkFreeSpace host bytes.length
  onDisk (Disk.replaceFile host .indexStage .index bytes)

/-- Load one chunk and verify its length and digest. -/
def get (id : ChunkId) : Procedure ChunkStore Error (Option Bytes) := do
  ensureHealthy
  match (← .state).entries.lookup id with
  | none => pure none
  | some entry =>
    match ← (onDisk (Disk.openPrivateFile host (.chunk id) chunkBytes)).attempt with
    | .error (.io .notFound) =>
      setHealthy false
      .update (forget id)
      persistIndex crypto host
      setHealthy true
      pure none
    | .error e => .fail e
    | .ok content =>
      .refuse (content.length ≠ entry.length) (.integrity id)
      let bytes ← onDisk (Disk.readToEnd host content)
      .refuse (bytes.length ≠ entry.length ∨ crypto.sha256 bytes ≠ id) (.integrity id)
      .update (touch id)
      pure (some bytes)

/-- Delete the chunk used least recently. -/
def evictOldest : Procedure ChunkStore Error Unit := do
  let id ← .orFail (← .state).lru.head? .quota
  setHealthy false
  match ← (onDisk (Disk.unlink host (.chunk id))).attempt with
  | .ok () | .error (.io .notFound) => pure ()
  | .error e => .fail e
  .update (forget id)
  persistIndex crypto host
  setHealthy true

/-- Whether another chunk of some length does not fit. -/
def full (store : ChunkStore) (length : ℕ) : Prop :=
  store.entries.rows.length ≥ store.limits.maxEntries ∨ store.bytes > store.limits.maxBytes - length

instance (store : ChunkStore) (length : ℕ) : Decidable (store.full length) :=
  inferInstanceAs (Decidable (_ ∨ _))

/-- Evict until a chunk of some length fits. Each eviction takes one chunk, so that the loop ends
after as many rounds as there are chunks. -/
def makeRoom (length : ℕ) : ℕ → Procedure ChunkStore Error Unit
  | 0 => pure ()
  | rounds + 1 => do
    if (← .state).full length then
      evictOldest crypto host
      makeRoom length rounds

/-- Insert a chunk that is not in the index, behind what it may evict. The index lists the chunk
before its file is written. -/
def insertNew (expected : ChunkId) (bytes : Bytes) : Procedure ChunkStore Error Unit := do
  let store ← .state
  let length := bytes.length
  .refuse (length > store.limits.maxBytes) .quota
  makeRoom crypto host length (store.lru.length + 1)
  onDisk (Disk.ensureAbsent host (.chunk expected))
  let store ← .state
  let indexBytes :=
    indexHeaderBytes + (store.entries.rows.length + 1) * indexEntryBytes + checksumBytes
  .refuse (length + indexBytes ≥ 2 ^ 64) .quota
  checkFreeSpace host (length + indexBytes)
  setHealthy false
  .update (insertEntry expected length)
  persistIndex crypto host
  onDisk (Disk.createFile host .chunkStage)
  onDisk (Disk.writeAll host .chunkStage bytes)
  onDisk (Disk.syncAll host)
  onDisk (Disk.renameNoReplace host .chunkStage (.chunk expected))
  onDisk (Disk.syncAll host)
  setHealthy true

/-- Insert bytes only if their digest is the expected one. -/
def putVerified (expected : ChunkId) (bytes : Bytes) : Procedure ChunkStore Error Unit := do
  ensureHealthy
  .refuse (bytes = [] ∨ bytes.length > chunkBytes) (.limit "chunk length")
  .refuse (crypto.sha256 bytes ≠ expected) (.integrity expected)
  if (← .state).entries.lookup expected ≠ none then
    if (← get crypto host expected).isSome then pure () else insertNew crypto host expected bytes
  else insertNew crypto host expected bytes

/-- Insert a chunk under its digest. -/
def put (bytes : Bytes) : Procedure ChunkStore Error ChunkId := do
  .refuse (bytes = [] ∨ bytes.length > chunkBytes) (.limit "chunk length")
  let id := crypto.sha256 bytes
  putVerified crypto host id bytes
  pure id

/-- Insert a chunk without evicting another; whether it was inserted. -/
def putVerifiedIfSpace (expected : ChunkId) (bytes : Bytes) : Procedure ChunkStore Error Bool := do
  ensureHealthy
  .refuse (bytes = [] ∨ bytes.length > chunkBytes) (.limit "chunk length")
  if (← get crypto host expected).isSome then
    putVerified crypto host expected bytes
    pure false
  else
    let store ← .state
    .refuse (store.entries.rows.length ≥ store.limits.maxEntries ∨
      store.bytes + bytes.length ≥ 2 ^ 64 ∨ store.bytes + bytes.length > store.limits.maxBytes)
        .quota
    putVerified crypto host expected bytes
    pure true

/-- Remove one chunk of the index. -/
def removeOwnedChunk (id : ChunkId) : Procedure ChunkStore Error Unit := do
  if (← get crypto host id).isNone then pure ()
  else
    setHealthy false
    onDisk (Disk.unlink host (.chunk id))
    .update (forget id)
    persistIndex crypto host
    onDisk (Disk.syncAll host)
    setHealthy true

end ChunkStore

/-! ## Files behind a mark -/

/-- The payload of a file with a mark, the identity of a cache and a checksum. -/
def unsealed (crypto : Ed25519) (magic : Bytes) (cacheId : FixedBytes 32) (bytes : Bytes) :
    Except Error Bytes := do
  let payloadEnd := bytes.length - checksumBytes
  refuse (bytes.take 8 ≠ magic ∨ (bytes.drop 8).take 32 ≠ cacheId.toBytes) .invalidStore
  refuse ((crypto.sha256 (bytes.take payloadEnd)).toBytes ≠ bytes.drop payloadEnd) .invalidStore
  pure ((bytes.take payloadEnd).drop 40)

/-! ## Reading the index file -/

/-- The chunks read so far. -/
structure Loaded where
  entries : Table Entry.id
  lru : List ChunkId
  bytes : ℕ

namespace Loaded

def empty : Loaded := ⟨.empty, [], 0⟩

/-- One more chunk, with its bytes counted. -/
def add (limits : CacheLimits) (loaded : Loaded) (entry : Entry) : Except Error Loaded := do
  refuse (entry.length = 0 ∨ entry.length > chunkBytes ∨ loaded.entries.lookup entry.id ≠ none)
    .invalidStore
  refuse (loaded.bytes + entry.length ≥ 2 ^ 64) .quota
  refuse (loaded.bytes + entry.length > limits.maxBytes) .quota
  pure ⟨loaded.entries.put entry, loaded.lru ++ [entry.id], loaded.bytes + entry.length⟩

end Loaded

/-- Read so many chunks of the index file. -/
def loadEntries (limits : CacheLimits) : ℕ → Bytes → Loaded → Except Error Loaded
  | 0, _, loaded => pure loaded
  | count + 1, bytes, loaded => do
    let id ← orFail (FixedBytes.ofBytes 32 (bytes.take 32)) .invalidStore
    let length := ofLittleEndian ((bytes.drop 32).take 4)
    let loaded ← loaded.add limits ⟨id, length⟩
    loadEntries limits count (bytes.drop indexEntryBytes) loaded

def loadIndex (crypto : Ed25519) (cacheId : FixedBytes 32) (limits : CacheLimits) (bytes : Bytes) :
    Except Error Loaded := do
  refuse (bytes.length < indexHeaderBytes + checksumBytes ∨ bytes.length > maxIndexBytes ∨
    bytes.take 8 ≠ indexMagic ∨ (bytes.drop 8).take 32 ≠ cacheId.toBytes) .invalidStore
  let count := ofLittleEndian ((bytes.drop 40).take 4)
  refuse (count > maxCacheEntries ∨
    bytes.length ≠ indexHeaderBytes + count * indexEntryBytes + checksumBytes) .invalidStore
  let payloadEnd := bytes.length - checksumBytes
  refuse ((crypto.sha256 (bytes.take payloadEnd)).toBytes ≠ bytes.drop payloadEnd) .invalidStore
  refuse (count > limits.maxEntries) .quota
  loadEntries limits count ((bytes.take payloadEnd).drop indexHeaderBytes) .empty

/-! ## The index in memory -/

namespace ChunkStore

/-- The chunks of the store, the least recently used first. -/
def index (store : ChunkStore) : List Entry := store.lru.filterMap store.entries.lookup

@[simp] theorem disk_touch (id : ChunkId) (store : ChunkStore) :
    (store.touch id).disk = store.disk :=
  rfl

@[simp] theorem disk_forget (id : ChunkId) (store : ChunkStore) :
    (store.forget id).disk = store.disk := rfl

@[simp] theorem disk_insertEntry (id : ChunkId) (length : ℕ) (store : ChunkStore) :
    (store.insertEntry id length).disk = store.disk := rfl

@[simp] theorem cacheId_forget (id : ChunkId) (store : ChunkStore) :
    (store.forget id).cacheId = store.cacheId := rfl

@[simp] theorem cacheId_insertEntry (id : ChunkId) (length : ℕ) (store : ChunkStore) :
    (store.insertEntry id length).cacheId = store.cacheId := rfl

/-- What holds of the index in memory. -/
structure Tidy (store : ChunkStore) : Prop where
  perm : store.lru.Perm (store.entries.rows.map Entry.id)
  bytes_eq : store.bytes = store.entries.sum Entry.length
  length : ∀ entry ∈ store.entries.rows, 0 < entry.length ∧ entry.length ≤ chunkBytes
  count : store.entries.rows.length ≤ store.limits.maxEntries
  total : store.bytes ≤ store.limits.maxBytes
  capacity : store.limits.maxEntries ≤ maxCacheEntries
  capacity_pos : 0 < store.limits.maxEntries

section Index

variable {store : ChunkStore} {id : ChunkId}

theorem mem_index {entry : Entry} :
    entry ∈ store.index ↔ entry.id ∈ store.lru ∧ store.entries.lookup entry.id = some entry := by
  simp only [index, List.mem_filterMap]
  constructor
  · rintro ⟨id, hid, h⟩
    obtain rfl := key_of_lookup h
    exact ⟨hid, h⟩
  · rintro ⟨hid, h⟩
    exact ⟨entry.id, hid, h⟩

/-- Only the index and the limits count. -/
theorem Tidy.congr {store' : ChunkStore} (h : store.Tidy)
    (hentries : store'.entries = store.entries)
    (hlru : store'.lru = store.lru) (hbytes : store'.bytes = store.bytes)
    (hlimits : store'.limits = store.limits) : store'.Tidy := by
  constructor
  · rw [hlru, hentries]
    exact h.perm
  · rw [hbytes, hentries]
    exact h.bytes_eq
  · rw [hentries]
    exact h.length
  · rw [hentries, hlimits]
    exact h.count
  · rw [hbytes, hlimits]
    exact h.total
  · rw [hlimits]
    exact h.capacity
  · rw [hlimits]
    exact h.capacity_pos

section

variable (h : store.Tidy)

include h

theorem Tidy.mem_lru : id ∈ store.lru ↔ store.entries.lookup id ≠ none := by
  rw [lookup_ne_none, h.perm.mem_iff]

theorem Tidy.mem_index_iff {entry : Entry} : entry ∈ store.index ↔ entry ∈ store.entries.rows := by
  rw [mem_index, h.mem_lru]
  constructor
  · rintro ⟨-, h⟩
    exact mem_of_lookup h
  · intro hrow
    have hlookup := store.entries.lookup_key hrow
    exact ⟨by simp [hlookup], hlookup⟩

theorem Tidy.map_id_index : store.index.map Entry.id = store.lru := by
  have key : ∀ l : List ChunkId, (∀ id ∈ l, store.entries.lookup id ≠ none) →
      (l.filterMap store.entries.lookup).map Entry.id = l := by
    intro l
    induction l with
    | nil => intro _; rfl
    | cons id l ih =>
      intro hl
      obtain ⟨entry, hentry⟩ := Option.ne_none_iff_exists'.mp (hl id (by simp))
      rw [List.filterMap_cons_some hentry, List.map_cons, ih fun id' h' => hl id' (by simp [h']),
        key_of_lookup hentry]
  exact key _ fun id hid => h.mem_lru.mp hid

theorem Tidy.nodup_lru : store.lru.Nodup :=
  h.perm.nodup_iff.mpr store.entries.nodup

theorem Tidy.nodup_index : store.index.Nodup := by
  refine List.Nodup.of_map Entry.id ?_
  rw [h.map_id_index]
  exact h.nodup_lru

theorem Tidy.index_perm : store.index.Perm store.entries.rows :=
  (List.perm_ext_iff_of_nodup h.nodup_index (store.entries.nodup.of_map Entry.id)).mpr
    fun _ => h.mem_index_iff

theorem Tidy.length_index : store.index.length = store.entries.rows.length :=
  h.index_perm.length_eq

theorem Tidy.sum_index : (store.index.map Entry.length).sum = store.bytes := by
  rw [h.bytes_eq]
  exact (h.index_perm.map Entry.length).sum_nat

end

/-- A chunk that is forgotten leaves the list. -/
theorem index_forget : (store.forget id).index = store.index.filter (·.id ≠ id) := by
  simp only [index, forget, List.filterMap_filter, List.filter_filterMap]
  congr 1
  funext id'
  rw [lookup_erase]
  by_cases hid : id' = id
  · subst hid
    cases hlookup : store.entries.lookup id' with
    | none => simp
    | some entry => simp [Option.filter, key_of_lookup hlookup]
  · cases hlookup : store.entries.lookup id' with
    | none => simp [hid]
    | some entry => simp [Option.filter, key_of_lookup hlookup, hid]

/-- A chunk that is touched moves to the end of the list. -/
theorem index_touch {entry : Entry} (h : store.entries.lookup id = some entry) :
    (store.touch id).index = store.index.filter (·.id ≠ id) ++ [entry] := by
  simp only [index, touch, List.filterMap_append, List.filterMap_filter, List.filter_filterMap]
  congr 1
  · congr 1
    funext id'
    cases hlookup : store.entries.lookup id' with
    | none => simp
    | some entry' =>
      by_cases hid : id' = id <;> simp [Option.filter, key_of_lookup hlookup, hid]
  · rw [List.filterMap_cons_some h, List.filterMap_nil]

section

variable (h : store.Tidy) (hid : store.entries.lookup id ≠ none)

include h hid

theorem Tidy.perm_touch : (store.touch id).lru.Perm store.lru := by
  have hfilter : store.lru.filter (· ≠ id) = store.lru.erase id := by
    rw [h.nodup_lru.erase_eq_filter]
    simp only [bne, ne_eq, decide_not, beq_eq_decide]
  rw [ChunkStore.touch, hfilter]
  exact (List.perm_append_singleton _ _).trans (List.perm_cons_erase (h.mem_lru.mpr hid)).symm

theorem Tidy.index_touch_perm : (store.touch id).index.Perm store.index :=
  (h.perm_touch hid).filterMap _

theorem Tidy.touch : (store.touch id).Tidy where
  perm := (h.perm_touch hid).trans h.perm
  bytes_eq := h.bytes_eq
  length := h.length
  count := h.count
  total := h.total
  capacity := h.capacity
  capacity_pos := h.capacity_pos

end

theorem Tidy.forget (h : store.Tidy) : (store.forget id).Tidy where
  perm := by
    have hrows : (store.entries.erase id).rows.map Entry.id =
        (store.entries.rows.map Entry.id).filter (· ≠ id) := by
      rw [List.filter_map]
      rfl
    rw [ChunkStore.forget, hrows]
    exact h.perm.filter _
  bytes_eq := by
    simp only [ChunkStore.forget]
    cases hlookup : store.entries.lookup id with
    | none => simp [erase_of_lookup_eq_none hlookup, h.bytes_eq]
    | some entry =>
      have := sum_erase hlookup Entry.length
      simp only [Option.map_some, Option.getD_some, h.bytes_eq]
      omega
  length entry hentry := h.length entry (mem_erase.mp hentry).1
  count := (List.length_filter_le _ _).trans h.count
  total := (Nat.sub_le _ _).trans h.total
  capacity := h.capacity
  capacity_pos := h.capacity_pos

section

variable (h : store.Tidy) (hid : store.entries.lookup id = none)

include h hid

theorem Tidy.filter_lru : store.lru.filter (· ≠ id) = store.lru := by
  refine List.filter_eq_self.mpr fun id' hid' => decide_eq_true fun heq => ?_
  exact h.mem_lru.mp hid' (heq ▸ hid)

/-- A new chunk is the last of the list. -/
theorem Tidy.index_insertEntry (length : ℕ) :
    (store.insertEntry id length).index = store.index ++ [⟨id, length⟩] := by
  simp only [index, ChunkStore.insertEntry, ChunkStore.touch, h.filter_lru hid,
    List.filterMap_append]
  congr 1
  · refine List.filterMap_congr fun id' hid' => ?_
    rw [lookup_put, if_neg]
    exact fun heq => h.mem_lru.mp hid' (heq ▸ hid)
  · simp [lookup_put]

theorem Tidy.insertEntry {length : ℕ} (hpos : 0 < length) (hlength : length ≤ chunkBytes)
    (hmax : length ≤ store.limits.maxBytes) (hfull : ¬store.full length) :
    (store.insertEntry id length).Tidy := by
  have hrows : (store.entries.put ⟨id, length⟩).rows = store.entries.rows ++ [⟨id, length⟩] :=
    rows_put hid
  simp only [full, not_or] at hfull
  refine ⟨?_, ?_, fun entry hentry => ?_, ?_, ?_, h.capacity, h.capacity_pos⟩
  · simp only [ChunkStore.insertEntry, ChunkStore.touch, h.filter_lru hid, hrows, List.map_append]
    exact h.perm.append_right _
  · simp only [ChunkStore.insertEntry, ChunkStore.touch]
    rw [sum_put hid, h.bytes_eq]
  · rcases mem_put.mp hentry with rfl | ⟨hentry, -⟩
    · exact ⟨hpos, hlength⟩
    · exact h.length entry hentry
  · simp only [ChunkStore.insertEntry, ChunkStore.touch, hrows, List.length_append,
      List.length_singleton]
    omega
  · simp only [ChunkStore.insertEntry, ChunkStore.touch]
    omega

end

end Index

end ChunkStore

/-! ## Codecs -/

section Codec

/-- The file written for an index lists it in order. -/
theorem ChunkStore.indexBytes_of_tidy {store : ChunkStore} (crypto : Ed25519) (h : store.Tidy) :
    store.indexBytes crypto = .ok (indexFile crypto store.cacheId store.index) := by
  have hcount : store.entries.rows.length < 2 ^ 32 := by
    have := h.count.trans h.capacity
    simp only [maxCacheEntries] at this
    omega
  have hlisted : store.lru.mapM store.recordOf = .ok (store.index.map Entry.record) := by
    rw [← h.map_id_index, List.mapM_map]
    refine mapM_eq_ok fun entry hentry => ?_
    obtain ⟨-, hlookup⟩ := mem_index.mp hentry
    have hlength := (h.length entry (mem_of_lookup hlookup)).2
    simp only [chunkBytes] at hlength
    rw [Function.comp_apply, recordOf, hlookup, orFail_some, ok_bind, refuse_of_not (by omega),
      ok_bind]
    rfl
  rw [indexBytes, refuse_of_not (not_le.mpr hcount), ok_bind, hlisted, ok_bind, pure_ok, indexFile,
    h.length_index, List.flatMap_def]

variable {crypto : Ed25519} {magic payload : Bytes} {cacheId : FixedBytes 32}

theorem length_sealed :
    (sealed crypto magic cacheId payload).length = magic.length + payload.length + 64 := by
  simp only [sealed, List.length_append, FixedBytes.length_toBytes]
  omega

theorem take_magic_sealed (hmagic : magic.length = 8) :
    (sealed crypto magic cacheId payload).take 8 = magic := by
  rw [sealed, List.append_assoc, List.append_assoc, List.take_left' hmagic]

theorem take_cacheId_sealed (hmagic : magic.length = 8) :
    ((sealed crypto magic cacheId payload).drop 8).take 32 = cacheId.toBytes := by
  rw [sealed, List.append_assoc, List.append_assoc, List.drop_left' hmagic,
    List.take_left' cacheId.length_toBytes]

theorem take_payload_sealed :
    (sealed crypto magic cacheId payload).take
      ((sealed crypto magic cacheId payload).length - checksumBytes) =
      magic ++ cacheId.toBytes ++ payload := by
  rw [length_sealed, sealed, List.take_left']
  simp only [List.length_append, FixedBytes.length_toBytes, checksumBytes]
  omega

theorem drop_payload_sealed :
    (sealed crypto magic cacheId payload).drop
      ((sealed crypto magic cacheId payload).length - checksumBytes) =
      (crypto.sha256 (magic ++ cacheId.toBytes ++ payload)).toBytes := by
  rw [length_sealed, sealed, List.drop_left']
  simp only [List.length_append, FixedBytes.length_toBytes, checksumBytes]
  omega

theorem drop_header (hmagic : magic.length = 8) :
    (magic ++ cacheId.toBytes ++ payload).drop 40 = payload :=
  List.drop_left' (by simp [hmagic])

/-- What was sealed is read back. -/
theorem unsealed_sealed (hmagic : magic.length = 8) :
    unsealed crypto magic cacheId (sealed crypto magic cacheId payload) = .ok payload := by
  simp only [unsealed, take_magic_sealed hmagic, take_cacheId_sealed hmagic, take_payload_sealed,
    drop_payload_sealed, drop_header hmagic]
  rw [refuse_of_not (by simp), ok_bind, refuse_of_not (by simp), ok_bind, pure_ok]

/-- Chunks are read one after the other. -/
theorem loadEntries_records (limits : CacheLimits) {l : List Entry}
    (hl : ∀ entry ∈ l, entry.length < 2 ^ 32) (loaded : Loaded) :
    loadEntries limits l.length (l.flatMap Entry.record) loaded =
      l.foldlM (Loaded.add limits) loaded := by
  induction l generalizing loaded with
  | nil => rfl
  | cons entry l ih =>
    have hrecord : entry.record.length = 36 := by simp [Entry.record]
    have htake : ((entry.record ++ l.flatMap Entry.record).drop 32).take 4 =
        littleEndian 4 entry.length := by
      rw [Entry.record, List.append_assoc, List.drop_left' (by simp), List.take_left' (by simp)]
    rw [List.flatMap_cons, List.length_cons, loadEntries, htake,
      ofLittleEndian_littleEndian (by simpa using hl entry (by simp)),
      indexEntryBytes, List.drop_left' hrecord, List.foldlM_cons]
    have hid : (entry.record ++ l.flatMap Entry.record).take 32 = entry.id.toBytes := by
      rw [Entry.record, List.append_assoc, List.take_left' (by simp)]
    rw [hid, FixedBytes.ofBytes_toBytes, orFail_some, ok_bind]
    simp only [ih fun e he => hl e (by simp [he])]

theorem length_flatMap_record (l : List Entry) :
    (l.flatMap Entry.record).length = l.length * indexEntryBytes := by
  induction l with
  | nil => rfl
  | cons entry l ih =>
    rw [List.flatMap_cons, List.length_append, ih, List.length_cons]
    simp only [Entry.record, List.length_append, FixedBytes.length_toBytes, length_littleEndian,
      indexEntryBytes]
    omega

theorem length_indexFile (l : List Entry) : (indexFile crypto cacheId l).length =
    indexHeaderBytes + l.length * indexEntryBytes + checksumBytes := by
  rw [indexFile, length_sealed, List.length_append, length_flatMap_record]
  simp only [length_littleEndian, indexHeaderBytes, checksumBytes, indexMagic]
  have : (ascii "VPCI0001").length = 8 := by decide
  omega

/-- What was loaded is the list that was read, within the limits. -/
structure Loaded.Lists (limits : CacheLimits) (l : List Entry) (loaded : Loaded) : Prop where
  rows : loaded.entries.rows = l
  lru : loaded.lru = l.map Entry.id
  bytes : loaded.bytes = (l.map Entry.length).sum
  length : ∀ entry ∈ l, 0 < entry.length ∧ entry.length ≤ chunkBytes
  total : loaded.bytes ≤ limits.maxBytes

theorem Loaded.lists_of_foldlM {limits : CacheLimits} {l : List Entry} {loaded : Loaded}
    (h : l.foldlM (Loaded.add limits) .empty = .ok loaded) : loaded.Lists limits l := by
  refine foldlM_invariant (fun past loaded => loaded.Lists limits past) ?_
    ⟨rfl, rfl, rfl, by simp, Nat.zero_le _⟩ h
  intro past entry loaded loaded' hpast h
  simp only [Loaded.add, ok_iff, not_or, not_not, not_le, not_lt, exists_const] at h
  obtain ⟨⟨hpos, hlength, habsent⟩, -, htotal, rfl⟩ := h
  refine ⟨?_, ?_, ?_, forall_mem_concat hpast.length ⟨Nat.pos_of_ne_zero hpos, hlength⟩, htotal⟩
  · rw [rows_put habsent, hpast.rows]
  · rw [hpast.lru, List.map_append, List.map_singleton]
  · rw [hpast.bytes, List.map_append, List.sum_append, List.map_singleton, List.sum_singleton]

/-- **The index file is read back as the chunks that it was written for.** -/
theorem loadIndex_indexFile (limits : CacheLimits) {l : List Entry}
    (hl : ∀ entry ∈ l, entry.length < 2 ^ 32) (hcount : l.length ≤ maxCacheEntries) :
    loadIndex crypto cacheId limits (indexFile crypto cacheId l) = (do
      refuse (l.length > limits.maxEntries) .quota
      l.foldlM (Loaded.add limits) .empty) := by
  have hmagic : indexMagic.length = 8 := by decide
  have hread : ofLittleEndian (((indexFile crypto cacheId l).drop 40).take 4) = l.length := by
    rw [indexFile, sealed, List.append_assoc, List.drop_left' (by simp [hmagic]), List.append_assoc,
      List.take_left' (by simp), ofLittleEndian_littleEndian]
    simp only [maxCacheEntries] at hcount
    omega
  have hpayload : ((indexFile crypto cacheId l).take
      ((indexFile crypto cacheId l).length - checksumBytes)).drop indexHeaderBytes =
      l.flatMap Entry.record := by
    rw [indexFile, take_payload_sealed, indexHeaderBytes, ← List.append_assoc,
      List.drop_left' (by simp [hmagic])]
  have hsum : (crypto.sha256 ((indexFile crypto cacheId l).take
      ((indexFile crypto cacheId l).length - checksumBytes))).toBytes =
      (indexFile crypto cacheId l).drop
        ((indexFile crypto cacheId l).length - checksumBytes) := by
    rw [indexFile, take_payload_sealed, drop_payload_sealed]
  have hlen := @length_indexFile crypto cacheId l
  have hmax : (indexFile crypto cacheId l).length ≤ maxIndexBytes := by
    rw [hlen, maxIndexBytes]
    have := Nat.mul_le_mul_right indexEntryBytes hcount
    omega
  simp only [loadIndex, hread, hpayload, hsum, loadEntries_records limits hl]
  rw [refuse_of_not, ok_bind, refuse_of_not, ok_bind, refuse_of_not, ok_bind]
  · exact fun h => h rfl
  · exact fun h => h.elim (fun h => absurd h (not_lt.mpr hcount)) fun h => h hlen
  · rintro (h | h | h | h)
    · rw [hlen] at h
      omega
    · omega
    · exact h (take_magic_sealed hmagic)
    · exact h (take_cacheId_sealed hmagic)

end Codec

end Volparossa.Content
