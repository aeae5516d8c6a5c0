import Volparossa.Foundations.Pieces
import Volparossa.PrivateStorage.Archive
import Volparossa.PrivateStorage.Provider

/-!
# Integrity of the stored archives

The chunks of a lease are the first pieces of a byte string of the reserved length, each with its
hash (`Numbered`), and those of a committed lease make up a string with the reserved hash
(`Stored`). `Effect` sums up what an operation on a store can make of the leases and chunks, whether
it comes from the local owner or through a provider, and `Intact` is what every operation keeps.

`Effect.lease` says what becomes of a lease in one operation, and `operation_next` that the uses of
a store are operations.
-/

namespace Volparossa.PrivateStorage

open Transaction (Crypto checkedAdd checkedAdd_eq_some)
open Database
open Table

variable {crypto : Crypto} {archive : StoredArchive} {chunks : List Chunk} {chunk : Chunk}

theorem chunkBytes_pos : 0 < chunkBytes := by decide

theorem StoredArchive.totalChunks_eq (archive : StoredArchive) :
    archive.totalChunks = pieceCount chunkBytes archive.ciphertextBytes := rfl

theorem StoredArchive.lt_totalChunks (archive : StoredArchive) {ordinal : ℕ} :
    ordinal < archive.totalChunks ↔ ordinal * chunkBytes < archive.ciphertextBytes := by
  rw [archive.totalChunks_eq, lt_pieceCount chunkBytes_pos]

/-- The bytes of some chunks. -/
def content (chunks : List Chunk) : Bytes := (chunks.map Chunk.payload).flatten

theorem content_append (chunks chunks' : List Chunk) :
    content (chunks ++ chunks') = content chunks ++ content chunks' := by
  simp [content]

/-! ## Numbered chunks -/

theorem chunkLength_eq_ok {ordinal length : ℕ} :
    archive.chunkLength ordinal = .ok length ↔
      ordinal < archive.totalChunks ∧
        length = min (archive.ciphertextBytes - ordinal * chunkBytes) chunkBytes := by
  simp only [StoredArchive.chunkLength, ok_iff, exists_const, ge_iff_le, not_le]
  constructor
  · rintro ⟨h, rfl⟩
    exact ⟨h, rfl⟩
  · rintro ⟨h, rfl⟩
    exact ⟨h, rfl⟩

/-- What the check of a chunk establishes. -/
theorem checkedChunk_eq_ok {ordinal : ℕ} {bytes : Bytes} :
    checkedChunk crypto archive ordinal chunk = .ok bytes ↔
      bytes = chunk.payload ∧ chunk.ordinal = ordinal ∧ ordinal < archive.totalChunks ∧
        chunk.payload.length = min (archive.ciphertextBytes - ordinal * chunkBytes) chunkBytes ∧
        chunk.sha256 = crypto.sha256 chunk.payload := by
  simp only [checkedChunk, ok_iff, chunkLength_eq_ok, not_or, not_not, exists_const]
  constructor
  · rintro ⟨rfl, length, ⟨hordinal, rfl⟩, ⟨hlength, hsha256⟩, rfl⟩
    exact ⟨rfl, rfl, hordinal, hlength, hsha256⟩
  · rintro ⟨rfl, rfl, hordinal, hlength, hsha256⟩
    exact ⟨rfl, _, ⟨hordinal, rfl⟩, ⟨hlength, hsha256⟩, rfl⟩

/-- Chunks that pass their checks, numbered from `first` on. -/
def Numbered (crypto : Crypto) (archive : StoredArchive) : ℕ → List Chunk → Prop
  | _, [] => True
  | first, chunk :: chunks =>
    checkedChunk crypto archive first chunk = .ok chunk.payload ∧
      Numbered crypto archive (first + 1) chunks

/-- Reading chunks is checking each of them. -/
theorem readChunks_eq_ok {first : ℕ} {result : ℕ × Bytes} :
    readChunks crypto archive first chunks = .ok result ↔
      Numbered crypto archive first chunks ∧ result = (first + chunks.length, content chunks) := by
  rw [readChunks, ← List.nil_append (content chunks)]
  generalize ([] : Bytes) = bytes
  induction chunks generalizing first bytes with
  | nil => simp [Numbered, content, eq_comm]
  | cons chunk chunks ih =>
    simp only [List.foldlM_cons, ok_iff, Numbered]
    constructor
    · rintro ⟨_, ⟨payload, hcheck, rfl⟩, hrest⟩
      obtain ⟨hnumbered, rfl⟩ := (ih _).mp hrest
      obtain rfl := (checkedChunk_eq_ok.mp hcheck).1
      refine ⟨⟨hcheck, hnumbered⟩, ?_⟩
      rw [List.length_cons, List.append_assoc, Nat.add_assoc, Nat.add_comm 1]
      rfl
    · rintro ⟨⟨hcheck, hnumbered⟩, rfl⟩
      refine ⟨_, ⟨chunk.payload, hcheck, rfl⟩, (ih _).mpr ⟨hnumbered, ?_⟩⟩
      rw [List.length_cons, List.append_assoc, Nat.add_assoc, Nat.add_comm 1]
      rfl

namespace Numbered

theorem append {first : ℕ} {chunks' : List Chunk} :
    Numbered crypto archive first (chunks ++ chunks') ↔
      Numbered crypto archive first chunks ∧
        Numbered crypto archive (first + chunks.length) chunks' := by
  induction chunks generalizing first with
  | nil => simp [Numbered]
  | cons chunk chunks ih =>
    rw [List.cons_append, Numbered, Numbered, ih, and_assoc, List.length_cons, Nat.add_assoc,
      Nat.add_comm 1]

section

variable {first : ℕ} (h : Numbered crypto archive first chunks)

include h

theorem ordinals : chunks.map Chunk.ordinal = List.range' first chunks.length := by
  induction chunks generalizing first with
  | nil => rfl
  | cons chunk chunks ih =>
    rw [List.map_cons, List.length_cons, List.range'_succ, ih h.2, (checkedChunk_eq_ok.mp h.1).2.1]

theorem sized :
    Sized chunkBytes (archive.ciphertextBytes - first * chunkBytes) (chunks.map Chunk.payload) := by
  induction chunks generalizing first with
  | nil => trivial
  | cons chunk chunks ih =>
    refine ⟨(checkedChunk_eq_ok.mp h.1).2.2.2.1, ?_⟩
    rw [Nat.sub_sub, ← Nat.succ_mul]
    exact ih h.2

theorem length_le : chunks = [] ∨ first + chunks.length ≤ archive.totalChunks := by
  induction chunks generalizing first with
  | nil => exact .inl rfl
  | cons chunk chunks ih =>
    right
    have hfirst := (checkedChunk_eq_ok.mp h.1).2.2.1
    rw [List.length_cons]
    rcases ih h.2 with rfl | hle
    · exact hfirst
    · omega

/-- The checks look at the length of the archive only. -/
theorem congr {archive' : StoredArchive}
    (hbytes : archive'.ciphertextBytes = archive.ciphertextBytes) :
    Numbered crypto archive' first chunks := by
  induction chunks generalizing first with
  | nil => trivial
  | cons chunk chunks ih =>
    refine ⟨?_, ih h.2⟩
    have hcheck := h.1
    rw [checkedChunk_eq_ok, StoredArchive.totalChunks] at hcheck ⊢
    rwa [hbytes]

end

/-- **The chunks of an archive are the first pieces of every string that they start.** -/
theorem payloads {w : Bytes} (h : Numbered crypto archive 0 chunks)
    (hlength : w.length = archive.ciphertextBytes) (hstart : content chunks <+: w) :
    chunks.map Chunk.payload = (pieces chunkBytes w).take chunks.length := by
  have hsized := h.sized
  rw [Nat.zero_mul, Nat.sub_zero, ← hlength] at hsized
  have hle : chunks.length ≤ pieceCount chunkBytes w.length := by
    rcases h.length_le with rfl | hle
    · exact Nat.zero_le _
    · rwa [Nat.zero_add, archive.totalChunks_eq, ← hlength] at hle
  have heq := hsized.eq_take_pieces chunkBytes_pos (by rwa [List.length_map]) hstart
  rwa [List.length_map] at heq

theorem length_content (h : Numbered crypto archive 0 chunks) :
    (content chunks).length = min archive.ciphertextBytes (chunks.length * chunkBytes) := by
  have hsized := h.sized.length_flatten
  rwa [Nat.zero_mul, Nat.sub_zero, List.length_map] at hsized

end Numbered

/-- What the chunks of a lease are: the first pieces of the archive, and when the lease is committed
all of them, with the hash of the whole. -/
structure Stored (crypto : Crypto) (archive : StoredArchive) (chunks : List Chunk) : Prop where
  numbered : Numbered crypto archive 0 chunks
  committed : archive.committed = true →
    chunks.length = archive.totalChunks ∧ crypto.sha256 (content chunks) = archive.sha256

/-- An upload position is that of the stored chunks. -/
theorem progressOf_eq_ok {progress : UploadProgress}
    (h : progressOf archive chunks = .ok progress) :
    progress.archive = archive ∧ progress.nextChunk = chunks.length := by
  simp only [progressOf, bind_eq_ok, List.length_map] at h
  obtain ⟨-, -, h⟩ := h
  split at h
  · simp only [ok_iff] at h
    obtain ⟨-, -, rfl⟩ := h
    exact ⟨rfl, rfl⟩
  · simp only [ok_iff] at h
    obtain ⟨-, -, -, -, -, -, -, -, rfl⟩ := h
    exact ⟨rfl, rfl⟩

namespace Stored

section

variable (h : Stored crypto archive chunks)

include h

theorem length_le : chunks.length ≤ archive.totalChunks := by
  rcases h.numbered.length_le with rfl | hle
  · exact Nat.zero_le _
  · rwa [Nat.zero_add] at hle

/-- The chunks of a committed lease are all of it. -/
theorem length_content (hcommitted : archive.committed = true) :
    (content chunks).length = archive.ciphertextBytes := by
  rw [h.numbered.length_content, (h.committed hcommitted).1]
  exact Nat.min_eq_left (Nat.le_of_not_lt fun hlt => lt_irrefl _ (archive.lt_totalChunks.mpr hlt))

/-- The numbers of stored chunks have no gap. -/
theorem not_gap : ¬(chunks.length > archive.totalChunks ∨
      (chunks.length = 0 ∧ ((chunks.map Chunk.ordinal).min?.isSome ∨
        (chunks.map Chunk.ordinal).max?.isSome)) ∨
      (chunks.length > 0 ∧ ((chunks.map Chunk.ordinal).min? ≠ some 0 ∨
        (chunks.map Chunk.ordinal).max? ≠ some (chunks.length - 1))) ∨
      (archive.committed ∧ chunks.length ≠ archive.totalChunks)) := by
  rintro (hgt | ⟨hzero, hsome⟩ | ⟨hpos, hne⟩ | ⟨hcommitted, hne⟩)
  · have := h.length_le
    omega
  · rw [List.eq_nil_of_length_eq_zero hzero] at hsome
    simp at hsome
  · rw [h.numbered.ordinals, ← List.range_eq_range'] at hne
    rcases hne with hmin | hmax
    · refine hmin (List.min?_eq_some_iff.mpr ⟨?_, fun _ _ => Nat.zero_le _⟩)
      simpa using hpos
    · refine hmax (List.max?_eq_some_iff.mpr ⟨?_, fun i hi => ?_⟩)
      · simpa using hpos
      · have := List.mem_range.mp hi
        omega
  · exact hne (h.committed hcommitted).1

/-- **The upload position of stored chunks.** -/
theorem progress :
    progressOf archive chunks = .ok ⟨archive, chunks.length, (content chunks).length⟩ := by
  simp only [progressOf, List.length_map, refuse_of_not h.not_gap, ok_bind]
  rcases List.eq_nil_or_concat' chunks with rfl | ⟨init, last, rfl⟩
  · rfl
  · obtain ⟨hinit, hcheck, -⟩ := Numbered.append.mp h.numbered
    obtain ⟨-, hordinal, hlt, hlength, -⟩ := checkedChunk_eq_ok.mp hcheck
    rw [Nat.zero_add] at hordinal hlt hlength
    have hcount : (init ++ [last]).length - 1 = init.length := by simp
    have hfind : (init ++ [last]).find? (fun chunk => decide (chunk.ordinal = init.length)) =
        some last := by
      rw [List.find?_append, List.find?_eq_none.mpr]
      · simp [hordinal]
      · intro chunk hchunk
        have hmem := List.mem_map_of_mem (f := Chunk.ordinal) hchunk
        rw [hinit.ordinals, ← List.range_eq_range', List.mem_range] at hmem
        simpa using hmem.ne
    have hlast : archive.chunkLength init.length = .ok last.payload.length :=
      chunkLength_eq_ok.mpr ⟨hlt, hlength⟩
    rw [if_neg (by simp), hcount, hfind, orFail_some, ok_bind, hlast, ok_bind,
      refuse_of_not (by simp), ok_bind]
    have hcontent := h.numbered.length_content
    rw [archive.lt_totalChunks] at hlt
    rw [hcontent, hlength, List.length_append, List.length_singleton, Nat.add_mul]
    simp only [pure_ok, ok_bind, Except.ok.injEq, UploadProgress.mk.injEq, true_and]
    omega

end

end Stored

/-! ## What an operation can make of leases and chunks -/

/-- The same lease later on: its identity is as it was, it expires no earlier, and it stays
committed. -/
structure Continues (archive archive' : StoredArchive) : Prop where
  leaseId : archive'.leaseId = archive.leaseId
  ciphertextBytes : archive'.ciphertextBytes = archive.ciphertextBytes
  sha256 : archive'.sha256 = archive.sha256
  expiresAtUnix : archive.expiresAtUnix ≤ archive'.expiresAtUnix
  committed : archive.committed = true → archive'.committed = true

theorem Continues.refl (archive : StoredArchive) : Continues archive archive :=
  ⟨rfl, rfl, rfl, le_rfl, id⟩

theorem Continues.trans {archive₁ archive₂ archive₃ : StoredArchive}
    (h : Continues archive₁ archive₂)
    (h' : Continues archive₂ archive₃) : Continues archive₁ archive₃ :=
  ⟨h'.leaseId.trans h.leaseId, h'.ciphertextBytes.trans h.ciphertextBytes, h'.sha256.trans h.sha256,
    h.expiresAtUnix.trans h'.expiresAtUnix, h'.committed ∘ h.committed⟩

/-- What an operation does to leases and chunks. -/
inductive Kind where
  | same
  | reserved
  | appended (chunk : Chunk)
  | changed
  | written (id : FixedBytes 16) (chunks : List Chunk)
  | deleted (id : FixedBytes 16)

/-- The effect of an operation on the leases and chunks. -/
inductive Effect (crypto : Crypto) (db db' : Database) : Kind → Prop where
  | same (hleases : db'.leases = db.leases) (hchunks : db'.chunks = db.chunks) :
      Effect crypto db db' .same
  | reserved {archive : StoredArchive} (hinsert : db.leases.insert archive = some db'.leases)
      (hopen : archive.committed = false) (hbytes : archive.ciphertextBytes ≤ maxArchiveBytes)
      (hexpires : archive.expiresAtUnix ≠ 0) (hchunks : db'.chunks = db.chunks) :
      Effect crypto db db' .reserved
  | appended {archive : StoredArchive} {chunk : Chunk}
      (hlookup : db.leases.lookup chunk.leaseId = some archive) (hopen : archive.committed = false)
      (hcheck : checkedChunk crypto archive (db.chunksOf chunk.leaseId).length chunk =
        .ok chunk.payload)
      (hinsert : db.chunks.insert chunk = some db'.chunks) (hleases : db'.leases = db.leases) :
      Effect crypto db db' (.appended chunk)
  | changed {id : FixedBytes 16} {archive : StoredArchive} (f : StoredArchive → StoredArchive)
      (hf : ∀ row, (f row).leaseId = row.leaseId) (hlookup : db.leases.lookup id = some archive)
      (hcontinues : Continues archive (f archive))
      (hstored : Stored crypto archive (db.chunksOf id) →
        Stored crypto (f archive) (db.chunksOf id))
      (hleases : db'.leases = db.leases.modify id f hf) (hchunks : db'.chunks = db.chunks) :
      Effect crypto db db' .changed
  | written {id : FixedBytes 16} {archive : StoredArchive} {chunks : List Chunk}
      (hlookup : db.leases.lookup id = some archive) (hopen : archive.committed = false)
      (hempty : db.chunksOf id = []) (hrows : db'.chunks.rows = db.chunks.rows ++ chunks)
      (hlease : ∀ chunk ∈ chunks, chunk.leaseId = id)
      (hstored : Stored crypto { archive with committed := true } chunks)
      (hleases : db'.leases = db.leases.modify id (fun row => { row with committed := true })
        fun _ => rfl) :
      Effect crypto db db' (.written id chunks)
  | deleted {id : FixedBytes 16} (hleases : db'.leases = db.leases.erase id)
      (hchunks : db'.chunks = db.chunks.filter fun chunk => decide (chunk.leaseId ≠ id)) :
      Effect crypto db db' (.deleted id)

/-- What holds of the leases and chunks of a store: every chunk has its lease, every lease is valid,
and its chunks are stored as they should be. -/
structure Intact (crypto : Crypto) (db : Database) : Prop where
  owned : ∀ chunk ∈ db.chunks.rows, db.leases.lookup chunk.leaseId ≠ none
  valid : ∀ archive ∈ db.leases.rows,
    archive.ciphertextBytes ≤ maxArchiveBytes ∧ archive.expiresAtUnix ≠ 0
  stored : ∀ archive ∈ db.leases.rows, Stored crypto archive (db.chunksOf archive.leaseId)

theorem Numbered.pairwise {first : ℕ} (h : Numbered crypto archive first chunks) :
    chunks.Pairwise fun chunk chunk' => chunk.ordinal < chunk'.ordinal := by
  have hordinals : (chunks.map Chunk.ordinal).Pairwise (· < ·) := by
    rw [h.ordinals]
    exact List.pairwise_lt_range'
  exact List.pairwise_map.mp hordinals

variable {db db' : Database} {id : FixedBytes 16}

theorem chunksOf_of_chunks_eq (h : db'.chunks = db.chunks) (id : FixedBytes 16) :
    db'.chunksOf id = db.chunksOf id := by
  unfold chunksOf
  rw [h]

/-- An inserted chunk with the next number comes last. -/
theorem chunksOf_insert_next {archive : StoredArchive}
    (hnumbered : Numbered crypto archive 0 (db.chunksOf chunk.leaseId))
    (hcheck : checkedChunk crypto archive (db.chunksOf chunk.leaseId).length chunk =
      .ok chunk.payload)
    (hinsert : db.chunks.insert chunk = some db'.chunks) :
    db'.chunksOf chunk.leaseId = db.chunksOf chunk.leaseId ++ [chunk] := by
  apply chunksOf_eq
  · rw [rows_insert hinsert, List.filter_append, List.filter_singleton, decide_eq_true rfl]
    exact List.Perm.append_right _ (List.perm_insertionSort _ _)
  · have happend : Numbered crypto archive 0 (db.chunksOf chunk.leaseId ++ [chunk]) :=
      Numbered.append.mpr ⟨hnumbered, by rwa [Nat.zero_add], trivial⟩
    exact happend.pairwise

/-- The chunks of a lease that had none. -/
theorem chunksOf_written (hempty : db.chunksOf id = [])
    (hrows : db'.chunks.rows = db.chunks.rows ++ chunks)
    (hlease : ∀ chunk ∈ chunks, chunk.leaseId = id)
    (hnumbered : Numbered crypto archive 0 chunks) : db'.chunksOf id = chunks := by
  apply chunksOf_eq
  · have hnone : db.chunks.rows.filter (fun chunk => decide (chunk.leaseId = id)) = [] := by
      rw [List.filter_eq_nil_iff]
      intro chunk hchunk hid
      have hmem := mem_chunksOf.mpr ⟨hchunk, of_decide_eq_true hid⟩
      rw [hempty] at hmem
      cases hmem
    have hall : chunks.filter (fun chunk => decide (chunk.leaseId = id)) = chunks :=
      List.filter_eq_self.mpr fun chunk hchunk => decide_eq_true (hlease chunk hchunk)
    rw [hrows, List.filter_append, hnone, hall, List.nil_append]
  · exact hnumbered.pairwise

/-- The chunks of a lease are not touched by what is done to another one. -/
theorem chunksOf_written_of_ne {id' : FixedBytes 16}
    (hrows : db'.chunks.rows = db.chunks.rows ++ chunks)
    (hlease : ∀ chunk ∈ chunks, chunk.leaseId = id) (hne : id' ≠ id) :
    db'.chunksOf id' = db.chunksOf id' := by
  apply chunksOf_congr
  have hnone : chunks.filter (fun chunk => decide (chunk.leaseId = id')) = [] := by
    rw [List.filter_eq_nil_iff]
    intro chunk hchunk hid
    exact hne ((of_decide_eq_true hid).symm.trans (hlease chunk hchunk))
  rw [hrows, List.filter_append, hnone, List.append_nil]

namespace Intact

theorem lookup (h : Intact crypto db) (hlookup : db.leases.lookup id = some archive) :
    archive.ciphertextBytes ≤ maxArchiveBytes ∧ archive.expiresAtUnix ≠ 0 ∧
      Stored crypto archive (db.chunksOf id) := by
  have hstored := h.stored archive (mem_of_lookup hlookup)
  rw [key_of_lookup hlookup] at hstored
  obtain ⟨hbytes, hexpires⟩ := h.valid archive (mem_of_lookup hlookup)
  exact ⟨hbytes, hexpires, hstored⟩

/-- There are no chunks without a lease. -/
theorem chunksOf_eq_nil (h : Intact crypto db) (hlookup : db.leases.lookup id = none) :
    db.chunksOf id = [] := by
  rw [List.eq_nil_iff_forall_not_mem]
  intro chunk hchunk
  obtain ⟨hmem, rfl⟩ := mem_chunksOf.mp hchunk
  exact h.owned chunk hmem hlookup

end Intact

/-- What has become of a lease: it is valid and its chunks are stored as they should be; and if it
was there before, it is the same lease, and its chunks come after those it had. -/
structure Evolved (crypto : Crypto) (db db' : Database) (id : FixedBytes 16)
    (archive' : StoredArchive) : Prop where
  valid : archive'.ciphertextBytes ≤ maxArchiveBytes ∧ archive'.expiresAtUnix ≠ 0 ∧
    Stored crypto archive' (db'.chunksOf id)
  kept : ∀ archive, db.leases.lookup id = some archive →
    Continues archive archive' ∧ db.chunksOf id <+: db'.chunksOf id

namespace Effect

variable {kind : Kind}

section

variable (h : Effect crypto db db' kind)

include h

/-- **What becomes of a lease in one operation.** -/
theorem lease (hdb : Intact crypto db) {archive' : StoredArchive}
    (hlookup' : db'.leases.lookup id = some archive') : Evolved crypto db db' id archive' := by
  have hsame (hlookup : db.leases.lookup id = some archive')
      (hchunks : db'.chunksOf id = db.chunksOf id) : Evolved crypto db db' id archive' := by
    refine ⟨hchunks ▸ hdb.lookup hlookup, fun archive harchive => ?_⟩
    obtain rfl := Option.mem_unique hlookup harchive
    exact ⟨.refl _, hchunks ▸ List.prefix_rfl⟩
  cases h with
  | same hleases hchunks =>
    rw [hleases] at hlookup'
    exact hsame hlookup' (chunksOf_of_chunks_eq hchunks id)
  | @reserved archive hinsert hopen hbytes hexpires hchunks =>
    rw [lookup_insert hinsert] at hlookup'
    split at hlookup'
    · next hid =>
      obtain rfl := Option.some.inj hlookup'
      have hnone : db.leases.lookup id = none := hid ▸ (insert_eq_some.mp hinsert).1
      refine ⟨⟨hbytes, hexpires, ?_⟩, fun archive harchive => absurd harchive (by simp [hnone])⟩
      rw [chunksOf_of_chunks_eq hchunks, hdb.chunksOf_eq_nil hnone]
      exact ⟨trivial, fun hcommitted => absurd hcommitted (by simp [hopen])⟩
    · exact hsame hlookup' (chunksOf_of_chunks_eq hchunks id)
  | @appended archive chunk hlookup hopen hcheck hinsert hleases =>
    rw [hleases] at hlookup'
    by_cases hid : chunk.leaseId = id
    · subst hid
      obtain rfl := Option.mem_unique hlookup hlookup'
      obtain ⟨hbytes, hexpires, hstored⟩ := hdb.lookup hlookup
      have hnext := chunksOf_insert_next hstored.numbered hcheck hinsert
      refine ⟨⟨hbytes, hexpires, ?_⟩, fun archive' harchive' => ?_⟩
      · rw [hnext]
        exact ⟨Numbered.append.mpr ⟨hstored.numbered, by rwa [Nat.zero_add], trivial⟩,
          fun hcommitted => absurd hcommitted (by simp [hopen])⟩
      · obtain rfl := Option.mem_unique hlookup harchive'
        exact ⟨.refl _, hnext ▸ List.prefix_append _ _⟩
    · refine hsame hlookup' ?_
      rw [← chunksOf_insert hinsert hid]
      exact chunksOf_of_chunks_eq rfl id
  | @changed changedId archive f hf hlookup hcontinues hstored hleases hchunks =>
    rw [hleases] at hlookup'
    have heq := chunksOf_of_chunks_eq hchunks id
    by_cases hid : id = changedId
    · subst hid
      rw [lookup_modify_self hlookup] at hlookup'
      obtain rfl := Option.some.inj hlookup'
      obtain ⟨hbytes, hexpires, hbefore⟩ := hdb.lookup hlookup
      refine ⟨⟨hcontinues.ciphertextBytes ▸ hbytes, ?_, heq ▸ hstored hbefore⟩,
        fun archive' harchive' => ?_⟩
      · have := hcontinues.expiresAtUnix
        omega
      · obtain rfl := Option.mem_unique hlookup harchive'
        exact ⟨hcontinues, heq ▸ List.prefix_rfl⟩
    · rw [lookup_modify_of_ne hid] at hlookup'
      exact hsame hlookup' heq
  | @written writtenId archive chunks hlookup hopen hempty hrows hlease hstored hleases =>
    rw [hleases] at hlookup'
    by_cases hid : id = writtenId
    · subst hid
      rw [lookup_modify_self hlookup] at hlookup'
      obtain rfl := Option.some.inj hlookup'
      obtain ⟨hbytes, hexpires, -⟩ := hdb.lookup hlookup
      refine ⟨⟨hbytes, hexpires, ?_⟩, fun archive' harchive' => ?_⟩
      · rwa [chunksOf_written hempty hrows hlease hstored.numbered]
      · obtain rfl := Option.mem_unique hlookup harchive'
        exact ⟨⟨rfl, rfl, rfl, le_rfl, fun _ => rfl⟩, hempty ▸ List.nil_prefix⟩
    · rw [lookup_modify_of_ne hid] at hlookup'
      exact hsame hlookup' (chunksOf_written_of_ne hrows hlease hid)
  | @deleted deletedId hleases hchunks =>
    rw [hleases, lookup_erase] at hlookup'
    split at hlookup'
    · cases hlookup'
    · next hid =>
      have hdelete : db'.chunksOf id = (db.deleteLease deletedId).chunksOf id :=
        chunksOf_of_chunks_eq hchunks id
      exact hsame hlookup' (hdelete.trans (chunksOf_deleteLease (Ne.symm hid)))

/-- Only a deletion takes a lease away. -/
theorem lookup_ne_none (hkind : kind ≠ .deleted id) (hlookup : db.leases.lookup id ≠ none) :
    db'.leases.lookup id ≠ none := by
  cases h with
  | same hleases | appended _ _ _ _ hleases => rwa [hleases]
  | reserved hinsert =>
    rw [lookup_insert hinsert]
    split
    · exact Option.some_ne_none _
    · exact hlookup
  | changed _ _ _ _ _ hleases | written _ _ _ _ _ _ hleases =>
    rwa [hleases, lookup_ne_none, map_key_modify, ← lookup_ne_none]
  | deleted hleases =>
    rw [hleases, lookup_erase, if_neg]
    · exact hlookup
    · rintro rfl
      exact hkind rfl

/-- The lease of a chunk was there before, and is not deleted. -/
theorem mem_chunks (hdb : Intact crypto db) (hchunk : chunk ∈ db'.chunks.rows) :
    kind ≠ .deleted chunk.leaseId ∧ db.leases.lookup chunk.leaseId ≠ none := by
  cases h with
  | same _ hchunks | reserved _ _ _ _ hchunks | changed _ _ _ _ _ _ hchunks =>
    rw [hchunks] at hchunk
    exact ⟨by simp, hdb.owned chunk hchunk⟩
  | appended hlookup hopen hcheck hinsert =>
    rw [rows_insert hinsert, List.mem_append, List.mem_singleton] at hchunk
    rcases hchunk with hchunk | rfl
    · exact ⟨by simp, hdb.owned chunk hchunk⟩
    · exact ⟨by simp, by simp [hlookup]⟩
  | written hlookup hopen hempty hrows hlease =>
    rw [hrows, List.mem_append] at hchunk
    rcases hchunk with hchunk | hchunk
    · exact ⟨by simp, hdb.owned chunk hchunk⟩
    · exact ⟨by simp, by simp [hlease chunk hchunk, hlookup]⟩
  | deleted hleases hchunks =>
    rw [hchunks, mem_filter, decide_eq_true_eq] at hchunk
    exact ⟨fun heq => hchunk.2 (Kind.deleted.inj heq).symm, hdb.owned chunk hchunk.1⟩

/-- **An operation keeps the leases and chunks intact.** -/
theorem intact (hdb : Intact crypto db) : Intact crypto db' := by
  refine ⟨fun chunk hchunk => ?_, fun archive harchive => ?_, fun archive harchive => ?_⟩
  · obtain ⟨hkind, hlookup⟩ := h.mem_chunks hdb hchunk
    exact h.lookup_ne_none hkind hlookup
  · obtain ⟨hbytes, hexpires, -⟩ := (h.lease hdb (lookup_key _ harchive)).valid
    exact ⟨hbytes, hexpires⟩
  · exact (h.lease hdb (lookup_key _ harchive)).valid.2.2

end

end Effect

/-! ## The operations -/

section Operations

variable {env : Env} {now : ℕ}

theorem load_eq_ok (h : db.load id = .ok archive) : db.leases.lookup id = some archive := by
  simp only [load, ok_iff] at h
  obtain ⟨_, hlookup, -, -, rfl⟩ := h
  exact hlookup

theorem currentArchive_eq_ok (h : db.currentArchive id now = .ok archive) :
    db.leases.lookup id = some archive ∧ now < archive.expiresAtUnix := by
  simp only [currentArchive, ok_iff] at h
  obtain ⟨-, -, _, hload, -, hexpires, rfl⟩ := h
  exact ⟨load_eq_ok hload, Nat.lt_of_not_le hexpires⟩

theorem currentArchive_of_lookup (hdb : Intact crypto db)
    (hlookup : db.leases.lookup id = some archive) (hpos : 0 < now)
    (hnow : now < archive.expiresAtUnix) : db.currentArchive id now = .ok archive := by
  obtain ⟨hbytes, hexpires, -⟩ := hdb.lookup hlookup
  simp only [currentArchive, load, hlookup, orFail_some, ok_bind, pure_ok]
  rw [refuse_of_not (by omega), ok_bind, refuse_of_not (by omega), ok_bind, ok_bind,
    refuse_of_not (by omega), ok_bind]

/-- What an operation of the store does: it has an effect of one of some kinds, and the limits
stay. -/
structure Operation (crypto : Crypto) (kinds : Kind → Prop) (db db' : Database) : Prop where
  limits : db'.limits = db.limits
  effect : ∃ kind, kinds kind ∧ Effect crypto db db' kind

/-- A transaction is an operation if its body is. -/
theorem operation_transaction {ε α : Type} {commits : Bool} {e : ε} {body : Except ε (α × Database)}
    {kinds : Kind → Prop} (hsame : kinds .same)
    (h : ∀ a db', body = .ok (a, db') → Operation crypto kinds db db') :
    Operation crypto kinds db (transaction db commits e body).2 := by
  rcases transaction_cases db commits e body with ⟨e', heq⟩ | ⟨a, db', hbody, heq⟩
  · rw [heq]
    exact ⟨rfl, .same, hsame, .same rfl rfl⟩
  · rw [heq]
    exact h a db' hbody

theorem operation_reserveInTransaction {reservation : Database.Reservation} {result : FixedBytes 16}
    (h : db.reserveInTransaction env reservation = .ok (result, db')) :
    Operation crypto (fun kind => kind = .same ∨ kind = .reserved) db db' := by
  simp only [reserveInTransaction, insertLease, ok_iff, Prod.mk.injEq] at h
  obtain ⟨-, -, -, hbytes, -, -, -, -, -, -, -, -, id', -, _, ⟨-, hexpires, leases, hinsert, rfl⟩,
    rfl, rfl⟩ := h
  exact ⟨rfl, .reserved, .inr rfl, .reserved hinsert rfl (Nat.le_of_not_lt hbytes) hexpires rfl⟩

theorem operation_appendBody {ordinal : ℕ} {sha256 : FixedBytes 32} {bytes : Bytes}
    {progress : UploadProgress}
    (h : db.appendBody crypto env id ordinal sha256 bytes now = .ok (progress, db')) :
    Operation crypto (fun kind => kind = .same ∨ kind = .appended ⟨id, ordinal, sha256, bytes⟩) db
      db' := by
  simp only [appendBody, ok_iff, not_not] at h
  obtain ⟨archive, hcurrent, length, hlength, -, rfl, -, hhash, progress', hprogress, h⟩ := h
  obtain ⟨-, hnext⟩ := progressOf_eq_ok hprogress
  split at h
  · simp only [ok_iff, Prod.mk.injEq] at h
    obtain ⟨-, -, -, rfl⟩ := h
    exact ⟨rfl, .same, .inl rfl, .same rfl rfl⟩
  · simp only [insertChunk, ok_iff, Prod.mk.injEq, not_not] at h
    obtain ⟨-, rfl, -, hopen, -, -, _, ⟨-, -, chunks, hinsert, rfl⟩, -, rfl⟩ := h
    obtain ⟨hlt, hlen⟩ := chunkLength_eq_ok.mp hlength
    have hcheck : checkedChunk crypto archive (db.chunksOf id).length
        ⟨id, progress'.nextChunk, sha256, bytes⟩ = .ok bytes := by
      rw [hnext] at hlt hlen ⊢
      exact checkedChunk_eq_ok.mpr ⟨rfl, rfl, hlt, hlen, hhash.symm⟩
    exact ⟨rfl, _, .inr rfl, .appended (currentArchive_eq_ok hcurrent).1
      (Bool.not_eq_true _ ▸ hopen) hcheck hinsert rfl⟩

theorem operation_finalizeBody {committed : StoredArchive}
    (h : db.finalizeBody crypto id now = .ok (committed, db')) :
    Operation crypto (fun kind => kind = .same ∨ kind = .changed) db db' := by
  obtain ⟨archive, hcurrent, hverify, -, rfl⟩ := finalizeBody_eq_ok h
  simp only [verifyArchive, ok_iff, readChunks_eq_ok, not_or, not_not] at hverify
  obtain ⟨_, ⟨hnumbered, rfl⟩, hlength, hhash⟩ := hverify
  refine ⟨rfl, .changed, .inr rfl,
    .changed (fun row => { row with committed := true }) (fun _ => rfl)
    (currentArchive_eq_ok hcurrent).1 ⟨rfl, rfl, rfl, le_rfl, fun _ => rfl⟩ ?_ rfl rfl⟩
  intro hstored
  rw [Nat.zero_add] at hlength
  exact ⟨hnumbered.congr rfl, fun _ => ⟨hlength, hhash⟩⟩

theorem operation_renewBody {newExpiry : ℕ} {renewed : StoredArchive}
    (h : db.renewBody id newExpiry now = .ok (renewed, db')) :
    Operation crypto (fun kind => kind = .same ∨ kind = .changed) db db' := by
  obtain ⟨archive, hload, hexpiry, rfl⟩ := renewBody_eq_ok h
  refine ⟨rfl, .changed, .inr rfl, .changed (fun row => { row with expiresAtUnix := newExpiry })
    (fun _ => rfl) (load_eq_ok hload) ⟨rfl, rfl, rfl, hexpiry, fun h => h⟩ ?_ rfl rfl⟩
  intro hstored
  exact ⟨hstored.numbered.congr rfl, hstored.committed⟩

/-- What the loop over an archive does: it inserts the pieces that it takes from the reader. -/
theorem writeChunks_eq_ok {available : ℕ → Option ℕ} {fuel remaining ordinal : ℕ}
    {bytes rest : Bytes} (hfuel : remaining ≤ fuel)
    (hremaining : remaining = archive.ciphertextBytes - ordinal * chunkBytes)
    (h : Store.writeChunks crypto available id fuel remaining ordinal bytes db = .ok (rest, db')) :
    ∃ chunks, db'.chunks.rows = db.chunks.rows ++ chunks ∧ db'.leases = db.leases ∧
      db'.limits = db.limits ∧
      (∀ chunk ∈ chunks, chunk.leaseId = id) ∧ Numbered crypto archive ordinal chunks ∧
      ordinal + chunks.length = max ordinal archive.totalChunks ∧
      bytes = content chunks ++ rest := by
  have hdone (hzero : remaining = 0) : ordinal + 0 = max ordinal archive.totalChunks := by
    have hnot : ¬ordinal < archive.totalChunks := by
      rw [archive.lt_totalChunks]
      omega
    omega
  induction fuel generalizing remaining ordinal bytes db with
  | zero =>
    obtain ⟨rfl, rfl⟩ := Prod.mk.inj (Except.ok.inj h)
    exact ⟨[], by simp, rfl, rfl, by simp, trivial, hdone (by omega), by simp [content]⟩
  | succ fuel ih =>
    unfold Store.writeChunks at h
    split at h
    · next hzero =>
      obtain ⟨rfl, rfl⟩ := Prod.mk.inj (Except.ok.inj h)
      exact ⟨[], by simp, rfl, rfl, by simp, trivial, hdone hzero, by simp [content]⟩
    · next hpos =>
      simp only [insertChunk, ok_iff, Nat.not_lt] at h
      obtain ⟨-, hlength, -, -, _, ⟨-, -, table, hinsert, rfl⟩, h⟩ := h
      have hlt : ordinal < archive.totalChunks := by
        rw [archive.lt_totalChunks]
        omega
      have hnext : remaining - min remaining chunkBytes =
          archive.ciphertextBytes - (ordinal + 1) * chunkBytes := by
        rw [Nat.add_mul]
        omega
      obtain ⟨chunks, hrows, hleases, hlimits, hlease, hnumbered, hcount, hcontent⟩ :=
        ih (by have := chunkBytes_pos; omega) hnext h (fun hzero => by
          have hnot : ¬ordinal + 1 < archive.totalChunks := by
            rw [archive.lt_totalChunks]
            omega
          omega)
      refine ⟨⟨id, ordinal, crypto.sha256 (bytes.take (min remaining chunkBytes)),
        bytes.take (min remaining chunkBytes)⟩ :: chunks, ?_, hleases, hlimits, ?_,
        ⟨checkedChunk_eq_ok.mpr ⟨rfl, rfl, hlt, ?_, rfl⟩, hnumbered⟩, ?_, ?_⟩
      · rw [hrows, rows_insert hinsert, List.append_assoc]
        rfl
      · intro chunk hchunk
        rcases List.mem_cons.mp hchunk with rfl | hchunk
        · rfl
        · exact hlease chunk hchunk
      · rw [List.length_take, ← hremaining]
        omega
      · rw [max_eq_right hlt] at hcount
        rw [List.length_cons, max_eq_right hlt.le, ← hcount, Nat.add_assoc, Nat.add_comm 1]
      · have hsplit := List.take_append_drop (min remaining chunkBytes) bytes
        rw [hcontent] at hsplit
        rw [content, List.map_cons, List.flatten_cons, List.append_assoc]
        exact hsplit.symm

theorem operation_writeReserved {available : ℕ → Option ℕ} {commits : Bool}
    {source : Store.Source} :
    Operation crypto (fun kind => kind = .same ∨
        ∃ chunks, kind = .written id chunks ∧ content chunks = source.content) db
      (Store.writeReserved crypto db available commits id source now).2 := by
  refine operation_transaction (.inl rfl) fun written db' h => ?_
  simp only [Store.writeBody, ok_iff, Prod.mk.injEq, not_or, not_not, Prod.exists] at h
  obtain ⟨archive, hload, -, hopen, -, -, -, hempty, rest, db₁, hwrite, -, -, -, ⟨rfl, hhash⟩, -,
    rfl⟩ := h
  have hremaining : archive.ciphertextBytes = archive.ciphertextBytes - 0 * chunkBytes := by
    rw [Nat.zero_mul, Nat.sub_zero]
  obtain ⟨chunks, hrows, hleases, hlimits, hlease, hnumbered, hcount, hcontent⟩ :=
    writeChunks_eq_ok le_rfl hremaining hwrite
  rw [List.append_nil] at hcontent
  rw [Nat.zero_add, Nat.zero_max] at hcount
  have hlength : source.content.length ≤ archive.ciphertextBytes := by
    rw [hcontent, hnumbered.length_content]
    exact Nat.min_le_left _ _
  rw [List.take_of_length_le hlength, hcontent] at hhash
  exact ⟨hlimits, _, .inr ⟨chunks, rfl, hcontent.symm⟩,
    .written (load_eq_ok hload) (Bool.not_eq_true _ ▸ hopen) hempty hrows hlease
    ⟨hnumbered.congr rfl, fun _ => ⟨hcount, hhash⟩⟩ (by simp only [modifyLease, hleases])⟩

/-- Delete a lease. -/
theorem operation_deleteLease (db : Database) (id : FixedBytes 16) :
    Operation crypto (fun kind => kind = .same ∨ kind = .deleted id) db (db.deleteLease id) :=
  ⟨rfl, _, .inr rfl, .deleted rfl rfl⟩

/-- The kinds of effects that a use of the store can have. -/
def Store.Call.Allows : Store.Call → Kind → Prop
  | .reserve _ _ => fun kind => kind = .same ∨ kind = .reserved
  | .appendChunk id ordinal sha256 bytes _ _ => fun kind =>
    kind = .same ∨ kind = .appended ⟨id, ordinal, sha256, bytes⟩
  | .finalize _ _ _ | .renew _ _ _ _ => fun kind => kind = .same ∨ kind = .changed
  | .writeReserved id source _ _ _ => fun kind => kind = .same ∨
    ∃ chunks, kind = .written id chunks ∧ content chunks = source.content
  | .delete id _ => fun kind => kind = .same ∨ kind = .deleted id
  | .uploadProgress _ _ | .readRange _ _ _ _ | .restore _ _ => fun kind => kind = .same

/-- **Every use by the local owner is an operation.** -/
theorem operation_next (db : Database) (call : Store.Call) :
    Operation crypto call.Allows db ((Store.machine crypto).next db call) := by
  cases call with
  | reserve reservation env =>
    exact operation_transaction (.inl rfl) fun _ _ h => operation_reserveInTransaction h
  | appendChunk => exact operation_transaction (.inl rfl) fun _ _ h => operation_appendBody h
  | finalize => exact operation_transaction (.inl rfl) fun _ _ h => operation_finalizeBody h
  | writeReserved => exact operation_writeReserved
  | renew => exact operation_transaction (.inl rfl) fun _ _ h => operation_renewBody h
  | delete id commits =>
    change Operation crypto _ db (Store.delete db commits id).2
    refine operation_transaction (.inl rfl) fun deleted db' h => ?_
    obtain ⟨-, rfl⟩ := Prod.mk.inj (Except.ok.inj h)
    exact operation_deleteLease db id
  | uploadProgress | readRange | restore => exact ⟨rfl, .same, rfl, .same rfl rfl⟩

end Operations

end Volparossa.PrivateStorage
