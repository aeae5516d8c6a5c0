import Volparossa.Content.Cache

/-!
# What a chunk store keeps

`ChunkStore.Sound` is the invariant of a healthy store: the index file lists the chunks of the index
in memory, each chunk of the index has a file of its length with the bytes that its name is the
digest of, and the directory has no other chunks and none of the files that are written first. The
order in the file may be an older one, since reading a chunk does not write the index.

An operation on a sound store ends in a sound store, or in an unhealthy one whose directory it left
in one of these ways (`ChunkStore.Left`): with a file that was to be renamed; with a chunk in the
index file that has no file; or as if it had stopped after one of its parts. There is one theorem
for each operation, which says how it ends (`ChunkStore.Ends`), whatever calls to the filesystem
fail.
-/

namespace Volparossa.Content

open PrivateStorage (Ed25519)
open Procedure
open Disk
open ChunkStore
open Function

namespace ChunkStore

variable {crypto : Ed25519} {host : Host}

/-- The chunks of a list, and no others, are in the directory. -/
structure Stored (crypto : Ed25519) (l : List Entry) (files : Files) : Prop where
  present : ∀ entry ∈ l, ∃ bytes, files (.chunk entry.id) = some bytes ∧ bytes.length = entry.length
  owned : ∀ id bytes, files (.chunk id) = some bytes →
    crypto.sha256 bytes = id ∧ ∃ entry ∈ l, entry.id = id

/-- What holds of a healthy store. -/
structure Sound (crypto : Ed25519) (store : ChunkStore) : Prop where
  tidy : store.Tidy
  stored : Stored crypto store.index store.disk.files
  listed : ∃ p, p.Perm store.index ∧
    store.disk.files .index = some (indexFile crypto store.cacheId p)
  indexStage : store.disk.files .indexStage = none
  chunkStage : store.disk.files .chunkStage = none

/-- A list that an index file may hold. -/
structure Listable (l : List Entry) : Prop where
  nodup : (l.map Entry.id).Nodup
  length : ∀ entry ∈ l, 0 < entry.length ∧ entry.length ≤ chunkBytes
  count : l.length ≤ maxCacheEntries

theorem Listable.of_perm {l l' : List Entry} (h : Listable l) (hperm : l'.Perm l) :
    Listable l' where
  nodup := (hperm.map Entry.id).nodup_iff.mpr h.nodup
  length entry hentry := h.length entry (hperm.mem_iff.mp hentry)
  count := hperm.length_eq ▸ h.count

theorem Tidy.listable {store : ChunkStore} (h : store.Tidy) : Listable store.index where
  nodup := by
    rw [h.map_id_index]
    exact h.nodup_lru
  length entry hentry := h.length entry (h.mem_index_iff.mp hentry)
  count := by
    rw [h.length_index]
    exact h.count.trans h.capacity

/-- What an operation that did not end well left in the directory. `P` says which lists of chunks
it may have left, if it left them complete. -/
inductive Left (crypto : Ed25519) (cacheId : FixedBytes 32) (P : List Entry → Prop)
    (files : Files) : Prop
  /-- A file that was to be renamed. -/
  | staged (h : files .indexStage ≠ none ∨ files .chunkStage ≠ none)
  /-- No index file. -/
  | unlisted (h : files .index = none)
  /-- A chunk of the index file without a file. -/
  | missing (p : List Entry) (entry : Entry) (hp : Listable p)
    (hindex : files .index = some (indexFile crypto cacheId p)) (hentry : entry ∈ p)
    (hfile : files (.chunk entry.id) = none)
  /-- The chunks of one list. -/
  | settled (p : List Entry) (hp : Listable p)
    (hindex : files .index = some (indexFile crypto cacheId p))
    (hindexStage : files .indexStage = none) (hchunkStage : files .chunkStage = none)
    (hstored : Stored crypto p files) (h : P p)

theorem Left.mono {cacheId : FixedBytes 32} {P P' : List Entry → Prop} {files : Files}
    (h : Left crypto cacheId P files) (hP : ∀ p, P p → P' p) : Left crypto cacheId P' files := by
  cases h with
  | staged h => exact .staged h
  | unlisted h => exact .unlisted h
  | missing p entry hp hindex hentry hfile => exact .missing p entry hp hindex hentry hfile
  | settled p hp hindex hi hc hstored h => exact .settled p hp hindex hi hc hstored (hP p h)

/-- The same chunks as one of some lists, in any order. -/
def Among (ls : List (List Entry)) (p : List Entry) : Prop := ∃ l ∈ ls, p.Perm l

theorem Among.mono {ls ls' : List (List Entry)} {p : List Entry} (h : Among ls p)
    (hls : ∀ l ∈ ls, l ∈ ls') : Among ls' p := by
  obtain ⟨l, hl, hp⟩ := h
  exact ⟨l, hls l hl, hp⟩

/-- How an operation ended: in a sound store, or with a directory that it left. `P` says which lists
of chunks are possible. -/
def Ended (crypto : Ed25519) (P : List Entry → Prop) (store : ChunkStore) : Prop :=
  (store.healthy = true ∧ store.Sound crypto ∧ P store.index) ∨
    (store.healthy = false ∧ Left crypto store.cacheId P store.disk.files)

theorem Ended.mono {P P' : List Entry → Prop} {store : ChunkStore} (h : store.Ended crypto P)
    (hP : ∀ p, P p → P' p) : store.Ended crypto P' :=
  h.imp (fun ⟨hh, hs, h⟩ => ⟨hh, hs, hP _ h⟩) fun ⟨hh, h⟩ => ⟨hh, h.mono hP⟩

/-- The files that the operations on chunks write. -/
def Writes : FileName → Prop
  | .index | .indexStage | .chunkStage | .chunk _ => True
  | _ => False

theorem ne_of_not_writes {name name' : FileName} (h : ¬Writes name) (h' : Writes name') :
    name ≠ name' :=
  fun heq => h (heq ▸ h')

/-- What no operation on chunks changes. -/
structure Same (store store' : ChunkStore) : Prop where
  cacheId : store'.cacheId = store.cacheId
  limits : store'.limits = store.limits
  files : ∀ name, ¬Writes name → store'.disk.files name = store.disk.files name

theorem Same.of_files {store store' : ChunkStore} (hcacheId : store'.cacheId = store.cacheId)
    (hlimits : store'.limits = store.limits) (hfiles : store'.disk.files = store.disk.files) :
    Same store store' :=
  ⟨hcacheId, hlimits, fun name _ => congrFun hfiles name⟩

theorem Same.trans {store store' store'' : ChunkStore} (h : Same store store')
    (h' : Same store' store'') : Same store store'' :=
  ⟨h'.cacheId.trans h.cacheId, h'.limits.trans h.limits,
    fun name hname => (h'.files name hname).trans (h.files name hname)⟩

/-- An operation led from one store to another that is sound. -/
structure Reached (crypto : Ed25519) (store store' : ChunkStore) : Prop extends
    Same store store' where
  healthy : store'.healthy = true
  sound : store'.Sound crypto

/-- An operation on a store ended with the chunks of one of some lists. -/
structure Ends (crypto : Ed25519) (store : ChunkStore) (ls : List (List Entry))
    (store' : ChunkStore) : Prop extends Same store store' where
  ended : store'.Ended crypto (Among ls)

section Ends

variable {s s' s'' : ChunkStore} {ls ls' : List (List Entry)}

theorem Reached.ends (h : Reached crypto s s') {l : List Entry} (hl : l ∈ ls)
    (hindex : s'.index.Perm l) : Ends crypto s ls s' :=
  ⟨h.toSame, .inl ⟨h.healthy, h.sound, l, hl, hindex⟩⟩

theorem Ends.after (h : Ends crypto s' ls s'') (hsame : Same s s')
    (hls : ∀ l ∈ ls, Among ls' l) : Ends crypto s ls' s'' :=
  ⟨hsame.trans h.toSame, h.ended.mono fun _ ⟨l, hl, hp⟩ =>
    (hls l hl).imp fun _ ⟨hl', hp'⟩ => ⟨hl', hp.trans hp'⟩⟩

theorem Ends.mono (h : Ends crypto s ls s') (hls : ∀ l ∈ ls, l ∈ ls') : Ends crypto s ls' s' :=
  ⟨h.toSame, h.ended.mono fun _ hp => hp.mono hls⟩

end Ends

/-! ## Parts of the operations -/

section Rules

variable {s : ChunkStore} {E : Error → ChunkStore → Prop} {Q : Unit → ChunkStore → Prop}

theorem ensures_ensureHealthy (hE : s.healthy = false → E .invalidStore s)
    (hQ : s.healthy = true → Q () s) :
    ensureHealthy.Ensures s Q E := by
  simp only [ensureHealthy, ensures_bind, ensures_state,
    ensures_refuse, Bool.not_eq_false]
  exact ⟨hE, hQ⟩

variable {files : Files}

theorem ensures_checkFreeSpace {additional : ℕ} (hs : s.disk.files = files)
    (hE : ∀ e d, d.files = files → E e { s with disk := d })
    (hQ : ∀ d, d.files = files → Q () { s with disk := d }) :
    (checkFreeSpace host additional).Ensures s Q E := by
  simp only [checkFreeSpace, onDisk, ensures_bind, ensures_state,
    ensures_refuse, ensures_within, ensures_orFail]
  exact ⟨fun _ => hE _ s.disk hs, fun _ => ensures_freeBytes hs hE fun _ d hd =>
    ⟨fun _ => hE _ d hd, fun _ _ => ⟨fun _ => hE _ d hd, fun _ => hQ d hd⟩⟩⟩

theorem ensures_persistIndex (h : s.Tidy)
    (hE : ∀ e d, Disk.Interrupted s.disk.files .indexStage .index
      (indexFile crypto s.cacheId s.index) d.files → E e { s with disk := d })
    (hQ : ∀ d, d.files = replaced s.disk.files .indexStage .index
      (indexFile crypto s.cacheId s.index) → Q () { s with disk := d }) :
    (persistIndex crypto host).Ensures s Q E := by
  simp only [persistIndex, ensures_bind, ensures_state, ensures_lift,
    indexBytes_of_tidy crypto h, Except.ok.injEq, forall_eq', reduceCtorEq, false_implies,
    implies_true, and_true]
  refine ensures_checkFreeSpace rfl (fun e d hd => hE e d (hd ▸ .untouched)) fun d hd => ?_
  simp only [onDisk, ensures_within]
  exact ensures_replaceFile hd hE hQ

/-- Without one of the chunks, the others are still in the directory. -/
theorem Stored.erase {l : List Entry} (h : Stored crypto l files) (id : ChunkId) :
    Stored crypto (l.filter (·.id ≠ id)) (update files (.chunk id) none) where
  present entry hentry := by
    obtain ⟨hmem, hid⟩ := List.mem_filter.mp hentry
    rw [update_of_ne (by simpa using hid)]
    exact h.present entry hmem
  owned id' bytes hfile := by
    rw [update_apply] at hfile
    split at hfile
    · cases hfile
    · next hne =>
      obtain ⟨hdigest, entry, hentry, rfl⟩ := h.owned id' bytes hfile
      exact ⟨hdigest, entry, List.mem_filter.mpr ⟨hentry, by simpa using hne⟩, rfl⟩

theorem Stored.congr {l : List Entry} {files' : Files} (h : Stored crypto l files)
    (hfiles : ∀ id, files' (.chunk id) = files (.chunk id)) : Stored crypto l files' where
  present entry hentry := by
    rw [hfiles]
    exact h.present entry hentry
  owned id bytes hfile := h.owned id bytes (hfiles id ▸ hfile)

theorem Stored.of_perm {l l' : List Entry} (h : Stored crypto l files)
    (hperm : l'.Perm l) : Stored crypto l' files where
  present entry hentry := h.present entry (hperm.mem_iff.mp hentry)
  owned id bytes hfile := by
    obtain ⟨hdigest, entry, hentry, hid⟩ := h.owned id bytes hfile
    exact ⟨hdigest, entry, hperm.mem_iff.mpr hentry, hid⟩

variable {entry : Entry}

theorem Sound.congr {s' : ChunkStore} (h : s.Sound crypto) (htidy : s'.Tidy)
    (hindex : s'.index.Perm s.index) (hcache : s'.cacheId = s.cacheId)
    (hfiles : ∀ name, Writes name → s'.disk.files name = s.disk.files name) : s'.Sound crypto := by
  obtain ⟨p, hperm, hp⟩ := h.listed
  refine ⟨htidy, ?_, ⟨p, hperm.trans hindex.symm, ?_⟩, ?_, ?_⟩
  · exact (h.stored.congr fun id => hfiles _ trivial).of_perm hindex
  · rw [hfiles .index trivial, hcache]
    exact hp
  · rw [hfiles .indexStage trivial]
    exact h.indexStage
  · rw [hfiles .chunkStage trivial]
    exact h.chunkStage

/-- Calls that change no file leave the store sound. -/
theorem Sound.withDisk (h : s.Sound crypto) {d : Disk} (hd : d.files = s.disk.files) (b : Bool) :
    Sound crypto { s with disk := d, healthy := b } :=
  h.congr (h.tidy.congr rfl rfl rfl rfl) (.refl _) rfl fun name _ => congrFun hd name

/-- A directory that was not changed is that of the chunks before. -/
theorem Sound.left (h : s.Sound crypto) {P : List Entry → Prop} (hP : ∀ p, p.Perm s.index → P p)
    (hfiles : files = s.disk.files) : Left crypto s.cacheId P files := by
  subst hfiles
  obtain ⟨p, hperm, hp⟩ := h.listed
  exact .settled p (h.tidy.listable.of_perm hperm) hp h.indexStage h.chunkStage
    (h.stored.of_perm hperm) (hP p hperm)

/-- The index of a store is written when the directory has its chunks. -/
theorem ensures_persistIndex_stored {ls : List (List Entry)} (h : s.Tidy)
    (hstored : Stored crypto s.index s.disk.files) (hchunkStage : s.disk.files .chunkStage = none)
    (hleft : Left crypto s.cacheId (Among ls) s.disk.files) (hls : s.index ∈ ls)
    (hE : ∀ e d, Same s { s with disk := d } → Left crypto s.cacheId (Among ls) d.files →
      E e { s with disk := d })
    (hQ : ∀ d, Same s { s with disk := d } → Sound crypto { s with disk := d } →
      Q () { s with disk := d }) :
    (persistIndex crypto host).Ensures s Q E := by
  have hsound : ∀ d : Disk, d.files = replaced s.disk.files .indexStage .index
      (indexFile crypto s.cacheId s.index) → Sound crypto { s with disk := d } := fun d hd =>
    ⟨h.congr rfl rfl rfl rfl, hstored.congr fun id => by simp [hd, replaced],
      ⟨s.index, .refl _, hd ▸ replaced_target⟩, hd ▸ replaced_stage (by decide),
      by simpa [hd, replaced] using hchunkStage⟩
  have hsame : ∀ d : Disk, Disk.Interrupted s.disk.files .indexStage .index
      (indexFile crypto s.cacheId s.index) d.files → Same s { s with disk := d } := fun d hint =>
    ⟨rfl, rfl, fun name hname =>
      hint.of_ne (ne_of_not_writes hname trivial) (ne_of_not_writes hname trivial)⟩
  refine ensures_persistIndex h (fun e d hint => hE e d (hsame d hint) ?_)
    fun d hd => hQ d (hsame d (hd ▸ .done)) (hsound d hd)
  rcases hint.eq with hd | ⟨b, hd⟩ | hd
  · exact hd ▸ hleft
  · exact .staged (.inl (by simp [hd]))
  · exact (hsound d hd).left (fun p hp => ⟨s.index, hls, hp⟩) rfl

variable {id : ChunkId}

/-- The index is written again once the file of a chunk is gone. -/
theorem ensures_persist_forget (h : s.Sound crypto) (hentry : entry ∈ s.index) {d : Disk}
    (hd : d.files = update s.disk.files (.chunk entry.id) none) {l : List Entry}
    (hl : s.index.filter (·.id ≠ entry.id) = l) (hE : ∀ e s', Ends crypto s [l] s' → E e s')
    (hQ : ∀ s', Same s s' → s'.healthy = false → s'.Sound crypto → s'.index = l → Q () s') :
    (persistIndex crypto host).Ensures (forget entry.id { s with disk := d, healthy := false })
      Q E := by
  have hindex : (forget entry.id { s with disk := d, healthy := false }).index = l :=
    index_forget.trans hl
  have hsame : Same s (forget entry.id { s with disk := d, healthy := false }) :=
    ⟨rfl, rfl, fun name hname => by
      rw [disk_forget, hd, update_of_ne]
      exact ne_of_not_writes hname trivial⟩
  obtain ⟨p, hperm, hp⟩ := h.listed
  refine ensures_persistIndex_stored (Tidy.forget (h.tidy.congr rfl rfl rfl rfl)) ?_ ?_ ?_
    (show _ ∈ [l] by simp [hindex])
    (fun e d' hsame' hleft => hE e _ ⟨hsame.trans hsame', .inr ⟨rfl, hleft⟩⟩)
    fun d' hsame' hsound => hQ _ (hsame.trans hsame') rfl hsound hindex
  · rw [hindex, ← hl, disk_forget, hd]
    exact h.stored.erase entry.id
  · simpa [hd] using h.chunkStage
  -- the index file still lists the chunk
  · refine .missing p entry (h.tidy.listable.of_perm hperm) ?_ (hperm.mem_iff.mpr hentry) ?_
    · simp [hd, hp]
    · simp [hd]

/-! ## Operations -/

theorem Sound.touch (h : s.Sound crypto) (hid : s.entries.lookup id ≠ none) :
    (s.touch id).Sound crypto :=
  h.congr (h.tidy.touch hid) (h.tidy.index_touch_perm hid) rfl fun _ _ => rfl

/-- Calls that change no file lead to the same store. -/
theorem Sound.reached (h : s.Sound crypto) (hs : s.healthy = true) {d : Disk}
    (hd : d.files = s.disk.files) : Reached crypto s { s with disk := d } :=
  ⟨.of_files rfl rfl hd, hs, h.withDisk hd s.healthy⟩

theorem Sound.exists_file (h : s.Sound crypto) (hid : s.entries.lookup id = some entry) :
    ∃ bytes, s.disk.files (.chunk id) = some bytes ∧ bytes.length = entry.length ∧
      crypto.sha256 bytes = id := by
  have hmem : entry ∈ s.index := h.tidy.mem_index_iff.mpr (Table.mem_of_lookup hid)
  obtain ⟨bytes, hfile, hlength⟩ := h.stored.present entry hmem
  rw [Table.key_of_lookup hid] at hfile
  exact ⟨bytes, hfile, hlength, (h.stored.owned id bytes hfile).1⟩

theorem lookup_eq_none_iff (h : s.Tidy) :
    s.entries.lookup id = none ↔ id ∉ s.index.map Entry.id := by
  rw [h.map_id_index, h.mem_lru, not_not]

theorem filter_touch (h : s.entries.lookup id = some entry) :
    (s.touch id).index.filter (·.id ≠ id) = s.index.filter (·.id ≠ id) := by
  rw [index_touch h, List.filter_append, List.filter_filter,
    List.filter_cons_of_neg (by simp [Table.key_of_lookup h]), List.filter_nil, List.append_nil]
  simp only [Bool.and_self]

/-- A chunk of the index is read as its file has it, and is then the one used last. -/
theorem ensures_get (h : s.Sound crypto) (hs : s.healthy = true)
    {Q : Option Bytes → ChunkStore → Prop} (hE : ∀ e s', Ends crypto s [s.index] s' → E e s')
    (hnone : s.entries.lookup id = none → Q none s)
    (hsome : ∀ bytes s', s.entries.lookup id ≠ none → Reached crypto s s' →
      s'.index.Perm s.index → s'.index.filter (·.id ≠ id) = s.index.filter (·.id ≠ id) →
      Q (some bytes) s') :
    (get crypto host id).Ensures s Q E := by
  have hfails : ∀ e d, d.files = s.disk.files → E e { s with disk := d } := fun e d hd =>
    hE e _ ((h.reached hs hd).ends (List.mem_singleton_self _) (.refl _))
  simp only [get, ensures_bind]
  refine ensures_ensureHealthy (fun _ => hfails _ s.disk rfl) fun _ => ?_
  rw [ensures_state]
  cases hlookup : s.entries.lookup id with
  | none => exact hnone hlookup
  | some entry =>
    obtain ⟨bytes, hfile, -⟩ := h.exists_file hlookup
    simp only [onDisk, ensures_bind, ensures_attempt, ensures_within]
    refine ensures_openPrivateFile rfl (fun e d he hd => ?_) fun bytes' d _ hd => ?_
    · split
      · next heq =>
        cases heq
        simp [hfile] at he
      · next heq =>
        cases heq
        exact hfails _ d hd
      · next heq => cases heq
    · simp only [ensures_refuse, ensures_update, ensures_pure]
      refine ⟨fun _ => hfails _ d hd, fun _ => ensures_readToEnd hd hfails fun d' hd' =>
        ⟨fun _ => hfails _ d' hd', fun _ => ?_⟩⟩
      have h' := h.withDisk hd' s.healthy
      have hid : s.entries.lookup id ≠ none := by simp [hlookup]
      exact hsome _ _ hid ⟨.of_files rfl rfl hd', hs, h'.touch hid⟩
        (h'.tidy.index_touch_perm hid) (filter_touch hlookup)

theorem filter_head {rest : List Entry} (h : ((entry :: rest).map Entry.id).Nodup) :
    (entry :: rest).filter (·.id ≠ entry.id) = rest := by
  rw [List.filter_cons_of_neg (by simp), List.filter_eq_self]
  intro entry' hentry'
  rw [List.map_cons, List.nodup_cons] at h
  exact decide_eq_true fun heq => h.1 (heq ▸ List.mem_map_of_mem hentry')

/-- An eviction takes the first chunk of the list. -/
theorem ensures_evictOldest (h : s.Sound crypto) (hs : s.healthy = true)
    (hE : ∀ e s', Ends crypto s [s.index, s.index.tail] s' → E e s')
    (hQ : ∀ s' entry, Reached crypto s s' → s.index = entry :: s'.index → Q () s') :
    (evictOldest crypto host).Ensures s Q E := by
  simp only [evictOldest, setHealthy, ensures_bind, ensures_state,
    ensures_orFail, ensures_update]
  refine ⟨fun _ => hE _ _ ((h.reached hs rfl).ends List.mem_cons_self (.refl _)), fun id hid => ?_⟩
  obtain ⟨entry, rest, hindex, rfl⟩ : ∃ entry rest, s.index = entry :: rest ∧ entry.id = id := by
    rw [← h.tidy.map_id_index, List.head?_map, Option.map_eq_some_iff] at hid
    obtain ⟨entry, hentry, rfl⟩ := hid
    obtain ⟨rest, hrest⟩ := List.head?_eq_some_iff.mp hentry
    exact ⟨entry, rest, hrest, rfl⟩
  have hrest : s.index.filter (·.id ≠ entry.id) = rest := by
    have := h.tidy.listable.nodup
    rw [hindex] at this ⊢
    exact filter_head this
  obtain ⟨bytes, hfile, -⟩ := h.stored.present entry (by simp [hindex])
  simp only [onDisk, ensures_attempt, ensures_within]
  refine ensures_unlink rfl (fun e d he hd => ?_) fun d hd => ?_
  · split
    · next heq => cases heq
    · next heq =>
      cases heq
      simp [hfile] at he
    · refine hE _ _ ⟨.of_files rfl rfl hd, .inr ⟨rfl, ?_⟩⟩
      exact h.left (fun p hp => ⟨s.index, by simp, hp⟩) hd
  · simp only [ensures_bind, ensures_update]
    refine ensures_persist_forget h (by simp [hindex]) hd hrest
      (fun e s' hends => hE e s' (hends.mono (by simp [hindex])))
      fun s' hsame _ hsound hindex' => hQ _ entry ?_ (hindex.trans (hindex' ▸ rfl))
    exact ⟨hsame.trans (.of_files rfl rfl rfl), rfl, hsound.withDisk rfl true⟩

theorem ensures_removeOwnedChunk (h : s.Sound crypto) (hs : s.healthy = true) :
    (removeOwnedChunk crypto host id).Ensures s
      (fun _ => Ends crypto s [s.index, s.index.filter (·.id ≠ id)])
      fun _ => Ends crypto s [s.index, s.index.filter (·.id ≠ id)] := by
  simp only [removeOwnedChunk, ensures_bind]
  refine ensures_get h hs (fun _ _ hends => hends.mono (by simp)) (fun _ => ?_)
    fun bytes s₁ hid h₁ hperm hfilter => ?_
  · exact (h.reached hs rfl).ends List.mem_cons_self (.refl _)
  · obtain ⟨entry, hentry, rfl⟩ : ∃ entry ∈ s₁.index, entry.id = id := by
      rw [Ne, lookup_eq_none_iff h.tidy, not_not, List.mem_map] at hid
      exact hid.imp fun _ hid => ⟨hperm.mem_iff.mpr hid.1, hid.2⟩
    obtain ⟨content, hfile, -⟩ := h₁.sound.stored.present entry hentry
    simp only [Option.isNone_some, Bool.false_eq_true, reduceIte, setHealthy, onDisk,
      ensures_bind, ensures_update, ensures_within]
    refine ensures_unlink rfl (fun e d _ hd => ?_) fun d hd => ?_
    · exact ⟨h₁.trans (.of_files rfl rfl hd), .inr ⟨rfl, h₁.cacheId ▸
        h₁.sound.left (fun p hp => ⟨s.index, by simp, hp.trans hperm⟩) hd⟩⟩
    · refine ensures_persist_forget h₁.sound hentry hd hfilter
        (fun e s' hends => hends.after h₁.toSame fun l hl =>
          ⟨l, List.mem_cons_of_mem _ hl, .refl _⟩)
        fun s' hsame' hhealthy hsound' hindex' => ?_
      have hsame := h₁.trans hsame'
      refine ensures_call rfl (fun d' hd' => ?_) fun d' hd' => ?_
      · exact ⟨hsame.trans (.of_files rfl rfl hd'), .inr ⟨hhealthy,
          hsound'.left (fun p hp => ⟨_, by simp, hindex' ▸ hp⟩) hd'⟩⟩
      · exact Reached.ends ⟨hsame.trans (.of_files rfl rfl hd'), rfl, hsound'.withDisk hd' true⟩
          (l := s'.index) (by simp [hindex']) (.refl _)

end Rules

/-! ## Insertions -/

/-- Whether another chunk of some length does not fit with the chunks of a list. -/
def Overfull (limits : CacheLimits) (length : ℕ) (l : List Entry) : Prop :=
  l.length ≥ limits.maxEntries ∨ (l.map Entry.length).sum > limits.maxBytes - length

instance (limits : CacheLimits) (length : ℕ) (l : List Entry) :
    Decidable (Overfull limits length l) :=
  inferInstanceAs (Decidable (_ ∨ _))

/-- The lists after each eviction that makes room for a chunk of some length. -/
def evictions (limits : CacheLimits) (length : ℕ) : List Entry → List (List Entry)
  | [] => []
  | entry :: rest =>
    if Overfull limits length (entry :: rest) then rest :: evictions limits length rest else []

/-- What is left when a chunk of some length fits. -/
def room (limits : CacheLimits) (length : ℕ) : List Entry → List Entry
  | [] => []
  | entry :: rest =>
    if Overfull limits length (entry :: rest) then room limits length rest else entry :: rest

theorem room_suffix (limits : CacheLimits) (length : ℕ) (l : List Entry) :
    room limits length l <:+ l := by
  induction l with
  | nil => exact List.suffix_refl _
  | cons entry rest ih =>
    rw [room]
    split
    · exact ih.trans (List.suffix_cons _ _)
    · exact List.suffix_refl _

theorem room_mem (limits : CacheLimits) (length : ℕ) (l : List Entry) :
    room limits length l ∈ l :: evictions limits length l := by
  induction l with
  | nil => simp [room]
  | cons entry rest ih =>
    rw [room, evictions]
    split
    · exact List.mem_cons_of_mem _ ih
    · exact List.mem_cons_self

theorem Tidy.full_iff {s : ChunkStore} (h : s.Tidy) {length : ℕ} :
    s.full length ↔ Overfull s.limits length s.index := by
  rw [full, Overfull, h.length_index, h.sum_index]

section Insertion

variable {s : ChunkStore} {E : Error → ChunkStore → Prop} {length : ℕ}

variable {Q : Unit → ChunkStore → Prop}

theorem evictions_of_not_overfull {limits : CacheLimits} {l : List Entry}
    (h : ¬Overfull limits length l) : evictions limits length l = [] := by
  cases l with
  | nil => rfl
  | cons entry rest => rw [evictions, if_neg h]

theorem room_of_not_overfull {limits : CacheLimits} {l : List Entry}
    (h : ¬Overfull limits length l) : room limits length l = l := by
  cases l with
  | nil => rfl
  | cons entry rest => rw [room, if_neg h]

/-- Chunks are evicted one by one until there is room. -/
theorem ensures_makeRoom (h : s.Sound crypto) (hs : s.healthy = true) {rounds : ℕ}
    (hrounds : s.index.length < rounds)
    (hE : ∀ e s', Ends crypto s (s.index :: evictions s.limits length s.index) s' → E e s')
    (hQ : ∀ s', Reached crypto s s' → s'.index = room s.limits length s.index →
      ¬s'.full length → Q () s') :
    (makeRoom crypto host length rounds).Ensures s Q E := by
  induction rounds generalizing s with
  | zero => omega
  | succ rounds ih =>
    simp only [makeRoom, ensures_bind, ensures_state, ensures_ite,
      ensures_pure]
    refine ⟨fun hfull => ?_, fun hfull => ?_⟩
    · rw [h.tidy.full_iff] at hfull
      refine ensures_evictOldest h hs (fun e s' hends => hE e s' (hends.mono fun l hl => ?_))
        fun s₁ entry h₁ hindex => ?_
      · cases hindex : s.index with
        | nil => simp_all
        | cons entry rest =>
          rw [hindex] at hl hfull
          rw [evictions, if_pos hfull]
          simp only [List.tail_cons, List.mem_cons, List.not_mem_nil, or_false] at hl ⊢
          exact hl.imp_right .inl
      · rw [hindex] at hfull hrounds hE hQ
        rw [evictions, if_pos hfull] at hE
        rw [room, if_pos hfull] at hQ
        rw [List.length_cons] at hrounds
        refine ih h₁.sound h₁.healthy (by omega) (fun e s' hends => hE e s' ?_)
          fun s' h' hindex' hfull' => hQ s' ⟨h₁.trans h'.toSame, h'.healthy, h'.sound⟩ ?_ hfull'
        · exact hends.after h₁.toSame fun l hl =>
            ⟨l, h₁.limits ▸ List.mem_cons_of_mem _ hl, .refl _⟩
        · exact h₁.limits ▸ hindex'
    · refine hQ s (h.reached hs rfl) (room_of_not_overfull ?_).symm hfull
      rwa [← h.tidy.full_iff]

/-- The lists that the insertion of a new chunk passes: after each eviction, and with the chunk. -/
def insertions (limits : CacheLimits) (entry : Entry) (l : List Entry) : List (List Entry) :=
  evictions limits entry.length l ++ [room limits entry.length l ++ [entry]]

variable {id : ChunkId} {bytes : Bytes}

/-- With the file of a new chunk, the chunks of the list and the new one are in the directory. -/
theorem Stored.insert {l : List Entry} {files files' : Files} (h : Stored crypto l files)
    (hdigest : crypto.sha256 bytes = id)
    (hnew : files' (.chunk id) = some bytes)
    (hold : ∀ id', id' ≠ id → files' (.chunk id') = files (.chunk id'))
    (hid : ∀ entry ∈ l, entry.id ≠ id) : Stored crypto (l ++ [⟨id, bytes.length⟩]) files' where
  present := forall_mem_concat
    (fun entry hentry => hold _ (hid entry hentry) ▸ h.present entry hentry) ⟨bytes, hnew, rfl⟩
  owned id' bytes' hfile := by
    by_cases hne : id' = id
    · subst hne
      obtain rfl := Option.mem_unique hnew hfile
      exact ⟨hdigest, _, List.mem_append_right _ (List.mem_singleton_self _), rfl⟩
    · rw [hold id' hne] at hfile
      obtain ⟨hdigest', entry, hentry, rfl⟩ := h.owned id' bytes' hfile
      exact ⟨hdigest', entry, List.mem_append_left _ hentry, rfl⟩

/-- A chunk that is not in the index has no file. -/
theorem Sound.file_eq_none (h : s.Sound crypto) (hid : s.entries.lookup id = none) :
    s.disk.files (.chunk id) = none := by
  rw [Option.eq_none_iff_forall_ne_some]
  intro bytes hfile
  obtain ⟨-, entry, hentry, rfl⟩ := h.stored.owned id bytes hfile
  simp [(mem_index.mp hentry).2] at hid

/-- The directory once the index lists a new chunk and its file is written. -/
theorem Sound.insert (h : s.Sound crypto) (hid : s.entries.lookup id = none)
    (hdigest : crypto.sha256 bytes = id) {s' : ChunkStore}
    (htidy : s'.Tidy) (hindex : s'.index = s.index ++ [⟨id, bytes.length⟩])
    (hcacheId : s'.cacheId = s.cacheId)
    (hfiles : s'.disk.files = update (replaced s.disk.files .indexStage .index
      (indexFile crypto s.cacheId (s.index ++ [⟨id, bytes.length⟩]))) (.chunk id) (some bytes)) :
    s'.Sound crypto := by
  refine ⟨htidy, ?_, ⟨s'.index, .refl _, ?_⟩, ?_, ?_⟩
  · rw [hindex]
    refine h.stored.insert hdigest ?_ (fun id' hne => ?_) fun entry hentry heq => ?_
    · rw [hfiles, update_self]
    · rw [hfiles, update_of_ne (by simpa using hne)]
      exact replaced_of_ne (by simp) (by simp)
    · simp [← heq, (mem_index.mp hentry).2] at hid
  · rw [hfiles, hindex, hcacheId, update_of_ne (by simp)]
    exact replaced_target
  · rw [hfiles, update_of_ne (by simp)]
    exact replaced_stage (by decide)
  · rw [hfiles, update_of_ne (by simp), replaced_of_ne (by decide) (by decide)]
    exact h.chunkStage

/-- A chunk for which there is room is written. The index lists it before its file is there, so that
what is left in between does not open. -/
theorem ensures_write (host : Host) (h : s.Sound crypto) (hid : s.entries.lookup id = none)
    (hdigest : crypto.sha256 bytes = id) {t : ChunkStore} (htidy : t.Tidy)
    (hindex : t.index = s.index ++ [⟨id, bytes.length⟩]) (hcacheId : t.cacheId = s.cacheId)
    (hlimits : t.limits = s.limits) (hfiles : t.disk.files = s.disk.files)
    (hhealthy : t.healthy = false) :
    (do
      persistIndex crypto host
      onDisk (createFile host .chunkStage)
      onDisk (writeAll host .chunkStage bytes)
      onDisk (syncAll host)
      onDisk (renameNoReplace host .chunkStage (.chunk id))
      onDisk (syncAll host)
      setHealthy true : Procedure ChunkStore Error Unit).Ensures t
      (fun _ => Ends crypto s [s.index, s.index ++ [⟨id, bytes.length⟩]])
      fun _ => Ends crypto s [s.index, s.index ++ [⟨id, bytes.length⟩]] := by
  set entry : Entry := ⟨id, bytes.length⟩ with hentry
  set listed := replaced s.disk.files .indexStage .index
    (indexFile crypto s.cacheId (s.index ++ [entry])) with hlisted
  have hframe : ∀ name, ¬Writes name → listed name = s.disk.files name := fun name hname =>
    replaced_of_ne (ne_of_not_writes hname trivial) (ne_of_not_writes hname trivial)
  have hstage : listed .chunkStage = none := by simpa [hlisted, replaced] using h.chunkStage
  have hends : ∀ d : Disk, (∀ name, ¬Writes name → d.files name = s.disk.files name) →
      Left crypto s.cacheId (Among [s.index, s.index ++ [entry]]) d.files →
      Ends crypto s [s.index, s.index ++ [entry]] { t with disk := d } := fun d hd hleft =>
    ⟨⟨hcacheId, hlimits, hd⟩, .inr ⟨hhealthy, hcacheId ▸ hleft⟩⟩
  -- the index lists the chunk until its file is there
  have hmissing : ∀ (d : Disk) (stage : Option Bytes), d.files = update listed .chunkStage stage →
      Ends crypto s [s.index, s.index ++ [entry]] { t with disk := d } := by
    refine fun d stage hd => hends d (fun name hname => ?_)
      (.missing _ entry (hindex ▸ htidy.listable) ?_ (by simp) ?_)
    · rw [hd, update_of_ne, hframe name hname]
      exact ne_of_not_writes hname trivial
    · rw [hd, update_of_ne (by decide)]
      exact replaced_target
    · rw [hd, update_of_ne (by simp), hlisted, replaced_of_ne (by simp) (by simp)]
      exact h.file_eq_none hid
  have hcreated : ∀ d : Disk, d.files = listed →
      Ends crypto s [s.index, s.index ++ [entry]] { t with disk := d } := fun d hd =>
    hmissing d none (by rw [hd, ← hstage, update_eq_self])
  simp only [ensures_bind]
  refine ensures_persistIndex htidy (fun e d hint => ?_) fun d₁ hd₁ => ?_
  · rw [hindex, hcacheId, hfiles] at hint
    rcases hint.eq with hd | ⟨b, hd⟩ | hd
    · exact hends d (fun name _ => congrFun hd name) (h.left (fun p hp => ⟨_, by simp, hp⟩) hd)
    · refine hends d (fun name hname => ?_) (.staged (.inl (by simp [hd])))
      rw [hd, update_of_ne]
      exact ne_of_not_writes hname trivial
    · exact hcreated d hd
  · rw [hindex, hcacheId, hfiles] at hd₁
    simp only [onDisk, syncAll, setHealthy, ensures_within, ensures_update]
    refine ensures_createFile hd₁ (fun _ => hcreated) fun d₂ hd₂ => ?_
    refine ensures_writeAll hd₂ (fun _ d hd => hmissing d _ hd) fun d₃ hd₃ => ?_
    rw [update_idem] at hd₃
    refine ensures_call hd₃ (fun d hd => hmissing d _ hd) fun d₄ hd₄ => ?_
    refine ensures_renameNoReplace hd₄ (fun _ d hd => hmissing d _ hd) fun b d₅ hb hd₅ => ?_
    rw [update_self, Option.some.injEq] at hb
    rw [← hb, update_idem, ← hstage, update_eq_self] at hd₅
    have hsound : ∀ d : Disk, d.files = update listed (.chunk id) (some bytes) →
        Sound crypto { t with disk := d } := fun d hd =>
      h.insert hid hdigest (htidy.congr rfl rfl rfl rfl) hindex hcacheId hd
    have hafter : ∀ d : Disk, d.files = update listed (.chunk id) (some bytes) →
        ∀ name, ¬Writes name → d.files name = s.disk.files name := fun d hd name hname => by
      rw [hd, update_of_ne, hframe name hname]
      exact ne_of_not_writes hname trivial
    refine ensures_call hd₅ (fun d hd => hends d (hafter d hd) ?_) fun d hd => ?_
    · exact hcacheId ▸ (hsound d hd).left (fun p hp => ⟨_, by simp, hindex ▸ hp⟩) rfl
    · exact Reached.ends ⟨⟨hcacheId, hlimits, hafter d hd⟩, rfl, (hsound d hd).withDisk rfl true⟩
        (l := s.index ++ [entry]) (by simp) (.of_eq hindex)

/-- An insertion makes room and writes the chunk. -/
theorem ensures_insertNew (h : s.Sound crypto) (hs : s.healthy = true)
    (hid : s.entries.lookup id = none) (hne : bytes ≠ []) (hlength : bytes.length ≤ chunkBytes)
    (hdigest : crypto.sha256 bytes = id) (hmax : bytes.length ≤ s.limits.maxBytes) :
    (insertNew crypto host id bytes).Ensures s
      (fun _ => Ends crypto s (s.index :: insertions s.limits ⟨id, bytes.length⟩ s.index))
      fun _ => Ends crypto s (s.index :: insertions s.limits ⟨id, bytes.length⟩ s.index) := by
  simp only [insertNew, ensures_bind, ensures_state, ensures_refuse]
  refine ⟨fun hcon => absurd hmax (not_le.mpr hcon), fun _ => ?_⟩
  have hrounds : s.index.length < s.lru.length + 1 := by
    rw [← h.tidy.map_id_index, List.length_map]
    exact Nat.lt_succ_self _
  refine ensures_makeRoom h hs hrounds (fun _ _ hends => hends.mono fun l hl => ?_)
    fun s₁ h₁ hindex₁ hfull₁ => ?_
  · rw [insertions, ← List.cons_append]
    exact List.mem_append_left _ hl
  · have hid₁ : s₁.entries.lookup id = none := by
      rw [lookup_eq_none_iff h₁.sound.tidy, hindex₁]
      rw [lookup_eq_none_iff h.tidy] at hid
      exact fun hcon => hid (((room_suffix _ _ _).map _).subset hcon)
    have hcases : ∀ l ∈ [s₁.index, s₁.index ++ [⟨id, bytes.length⟩]],
        Among (s.index :: insertions s.limits ⟨id, bytes.length⟩ s.index) l := by
      simp only [hindex₁, insertions, List.mem_cons, List.not_mem_nil, or_false]
      rintro l (rfl | rfl)
      · exact ⟨_, List.mem_append_left [_] (room_mem _ _ _), .refl _⟩
      · exact ⟨_, by simp, .refl _⟩
    -- a failure before the store is marked leaves it as it is
    have hkept : ∀ d : Disk, d.files = s₁.disk.files →
        Ends crypto s (s.index :: insertions s.limits ⟨id, bytes.length⟩ s.index)
          { s₁ with disk := d } := fun d hd =>
      ((h₁.sound.reached h₁.healthy hd).ends List.mem_cons_self (.refl _)).after h₁.toSame hcases
    simp only [onDisk, ensures_within]
    refine ensures_ensureAbsent rfl (fun _ => hkept) fun d _ hd =>
      ⟨fun _ => hkept d hd, fun _ => ?_⟩
    refine ensures_checkFreeSpace hd (fun _ => hkept) fun d' hd' => ?_
    have hbase : Tidy { s₁ with disk := d', healthy := false } :=
      h₁.sound.tidy.congr rfl rfl rfl rfl
    have hwrite := ensures_write host h₁.sound hid₁ hdigest
      (hbase.insertEntry hid₁ (List.length_pos_iff.mpr hne) hlength (h₁.limits ▸ hmax) hfull₁)
      (hbase.index_insertEntry hid₁ _) rfl rfl hd' rfl
    replace hwrite := hwrite.mono (fun _ _ hends => hends.after h₁.toSame hcases)
      fun _ _ hends => hends.after h₁.toSame hcases
    simpa only [onDisk, setHealthy, ensures_bind, ensures_update, ensures_within] using hwrite

/-- What makes an insertion fail on every host. -/
def Refuses (crypto : Ed25519) (limits : CacheLimits) (id : ChunkId) (bytes : Bytes) : Prop :=
  bytes = [] ∨ chunkBytes < bytes.length ∨ crypto.sha256 bytes ≠ id ∨ limits.maxBytes < bytes.length

instance (crypto : Ed25519) (limits : CacheLimits) (id : ChunkId) (bytes : Bytes) :
    Decidable (Refuses crypto limits id bytes) :=
  inferInstanceAs (Decidable (_ ∨ _))

/-- The lists that the insertion of some bytes passes. -/
def stages (crypto : Ed25519) (limits : CacheLimits) (id : ChunkId) (bytes : Bytes)
    (l : List Entry) : List (List Entry) :=
  if id ∈ l.map Entry.id ∨ Refuses crypto limits id bytes then []
  else insertions limits ⟨id, bytes.length⟩ l

/-- Whether another chunk of some length fits without an eviction. -/
def Spare (limits : CacheLimits) (length : ℕ) (l : List Entry) : Prop :=
  l.length < limits.maxEntries ∧ (l.map Entry.length).sum + length < 2 ^ 64 ∧
    (l.map Entry.length).sum + length ≤ limits.maxBytes

instance (limits : CacheLimits) (length : ℕ) (l : List Entry) : Decidable (Spare limits length l) :=
  inferInstanceAs (Decidable (_ ∧ _))

/-- The list that the insertion of some bytes ends in, if they fit without an eviction. -/
def spareStages (crypto : Ed25519) (limits : CacheLimits) (id : ChunkId) (bytes : Bytes)
    (l : List Entry) : List (List Entry) :=
  if id ∈ l.map Entry.id ∨ Refuses crypto limits id bytes ∨ ¬Spare limits bytes.length l then []
  else [l ++ [⟨id, bytes.length⟩]]

theorem stages_of_lookup_eq_none (h : s.Tidy) (hid : s.entries.lookup id = none)
    (hr : ¬Refuses crypto s.limits id bytes) :
    stages crypto s.limits id bytes s.index = insertions s.limits ⟨id, bytes.length⟩ s.index :=
  if_neg (not_or.mpr ⟨(lookup_eq_none_iff h).mp hid, hr⟩)

/-- A chunk of the index is only touched, another is inserted. -/
theorem ensures_putVerified (h : s.Sound crypto) (hs : s.healthy = true) :
    (putVerified crypto host id bytes).Ensures s
      (fun _ => Ends crypto s (s.index :: stages crypto s.limits id bytes s.index))
      fun _ => Ends crypto s (s.index :: stages crypto s.limits id bytes s.index) := by
  have hkept : Ends crypto s (s.index :: stages crypto s.limits id bytes s.index) s :=
    (h.reached hs rfl).ends List.mem_cons_self (.refl _)
  simp only [putVerified, ensures_bind]
  refine ensures_ensureHealthy (fun _ => hkept) fun _ => ?_
  simp only [ensures_refuse, ensures_bind, ensures_state,
    ensures_ite]
  refine ⟨fun _ => hkept, fun hbytes => ⟨fun _ => hkept, fun hdigest => ⟨fun hid => ?_,
    fun hid => ?_⟩⟩⟩
  · refine ensures_get h hs (fun _ _ hends => hends.mono (by simp)) (fun hcon => absurd hcon hid)
      fun _ s' _ h' hperm _ => ⟨fun _ => ?_, fun hcon => by simp at hcon⟩
    exact h'.ends List.mem_cons_self hperm
  · obtain ⟨hne, hlength⟩ := not_or.mp hbytes
    rw [not_not] at hdigest hid
    by_cases hmax : s.limits.maxBytes < bytes.length
    · simp only [insertNew, ensures_bind, ensures_state,
        ensures_refuse]
      exact ⟨fun _ => hkept, fun hcon => absurd hmax hcon⟩
    · rw [stages_of_lookup_eq_none h.tidy hid (by simp [Refuses, *])]
      exact ensures_insertNew h hs hid hne (not_lt.mp hlength) hdigest (not_lt.mp hmax)

/-- Nothing is evicted for a chunk that fits. -/
theorem Spare.not_overfull {limits : CacheLimits} {l : List Entry} (h : Spare limits length l) :
    ¬Overfull limits length l := by
  obtain ⟨hcount, -, hbytes⟩ := h
  rw [Overfull]
  omega

theorem Tidy.spare_iff (h : s.Tidy) : Spare s.limits length s.index ↔
    ¬(s.entries.rows.length ≥ s.limits.maxEntries ∨ s.bytes + length ≥ 2 ^ 64 ∨
      s.bytes + length > s.limits.maxBytes) := by
  rw [Spare, h.length_index, h.sum_index]
  omega

/-- A chunk of the index is only touched, another is inserted when it fits. -/
theorem ensures_putVerifiedIfSpace (h : s.Sound crypto) (hs : s.healthy = true) :
    (putVerifiedIfSpace crypto host id bytes).Ensures s
      (fun _ => Ends crypto s (s.index :: spareStages crypto s.limits id bytes s.index))
      fun _ => Ends crypto s (s.index :: spareStages crypto s.limits id bytes s.index) := by
  have hkept : Ends crypto s (s.index :: spareStages crypto s.limits id bytes s.index) s :=
    (h.reached hs rfl).ends List.mem_cons_self (.refl _)
  simp only [putVerifiedIfSpace, ensures_bind]
  refine ensures_ensureHealthy (fun _ => hkept) fun _ => ?_
  simp only [ensures_refuse]
  refine ⟨fun _ => hkept, fun _ => ?_⟩
  refine ensures_get h hs (fun _ _ hends => hends.mono (by simp)) (fun hid => ?_)
    fun _ s₁ hid h₁ hperm _ => ?_
  · simp only [Option.isSome_none, Bool.false_eq_true, reduceIte, ensures_bind,
      ensures_state, ensures_refuse, ensures_pure]
    rw [← not_not (a := _ ∨ _), ← h.tidy.spare_iff, not_not]
    refine ⟨fun _ => hkept, fun hspare => ?_⟩
    have hstages : stages crypto s.limits id bytes s.index =
        spareStages crypto s.limits id bytes s.index := by
      simp only [stages, spareStages, insertions, hspare, not_true_eq_false, or_false,
        evictions_of_not_overfull hspare.not_overfull, room_of_not_overfull hspare.not_overfull,
        List.nil_append]
    rw [← hstages]
    exact ensures_putVerified h hs
  · have hstages : stages crypto s₁.limits id bytes s₁.index = [] := by
      refine if_pos (.inl (by_contra fun hcon => hid ((lookup_eq_none_iff h.tidy).mpr ?_)))
      exact fun hmem => hcon ((hperm.map _).mem_iff.mpr hmem)
    have hput : (putVerified crypto host id bytes).Ensures s₁ _ _ :=
      ensures_putVerified h₁.sound h₁.healthy
    rw [hstages] at hput
    simp only [Option.isSome_some, reduceIte, ensures_bind, ensures_pure]
    have hafter : ∀ s', Ends crypto s₁ [s₁.index] s' →
        Ends crypto s (s.index :: spareStages crypto s.limits id bytes s.index) s' :=
      fun s' hends => hends.after h₁.toSame fun l hl =>
        ⟨s.index, by simp, List.mem_singleton.mp hl ▸ hperm⟩
    exact hput.mono (fun _ => hafter) fun _ => hafter

end Insertion

end ChunkStore

end Volparossa.Content
