import Volparossa.PrivateStorage.Integrity

/-!
# The content of a store over time

**`content_integrity`** is about every run of a store in the hands of its owner. The chunks of a
lease are the first pieces of a string of the reserved length; once stored they are never changed; a
lease is committed only with the reserved length and hash, and what is read of it is the string that
it was committed with. Whoever appends the pieces of a string with the reserved length and hash in
order, with retries in between, can finalize it before it expires.
-/

namespace Volparossa.PrivateStorage.Store

open Transaction (Crypto)

variable {crypto : Crypto} {db : Database} {id : FixedBytes 16} {archive : StoredArchive}

/-! ## Runs -/

theorem intact_fresh (limits : StorageLimits) (provider : FixedBytes 32) :
    Intact crypto (fresh limits provider) := by
  refine ⟨?_, ?_, ?_⟩ <;> intro row hrow <;> cases hrow

theorem intact_run (hdb : Intact crypto db) (calls : List Call) :
    Intact crypto ((machine crypto).run db calls) :=
  (machine crypto).run_invariant (fun db call h =>
    let ⟨_, _, heffect⟩ := (operation_next db call).effect
    heffect.intact h) hdb calls

/-- A lease that is there after every step of a run is one and the same lease, and its chunks are
only added to. -/
theorem lease_run (hdb : Intact crypto db) (hlookup : db.leases.lookup id = some archive)
    (calls : List Call)
    (hkept : ∀ e ∈ (machine crypto).events db calls, e.after.leases.lookup id ≠ none) :
    ∃ archive', ((machine crypto).run db calls).leases.lookup id = some archive' ∧
      Continues archive archive' ∧
      db.chunksOf id <+: ((machine crypto).run db calls).chunksOf id := by
  induction calls generalizing db archive with
  | nil => exact ⟨archive, hlookup, .refl archive, List.prefix_rfl⟩
  | cons call calls ih =>
    rw [Machine.events_cons] at hkept
    obtain ⟨archive₁, hlookup₁⟩ := Option.ne_none_iff_exists'.mp
      (hkept _ (List.mem_cons_self ..))
    obtain ⟨kind, -, heffect⟩ := (@operation_next crypto db call).effect
    obtain ⟨hcontinues, hprefix⟩ := (heffect.lease hdb hlookup₁).2 archive hlookup
    obtain ⟨archive₂, hlookup₂, hcontinues₂, hprefix₂⟩ :=
      ih (heffect.intact hdb) hlookup₁ fun e he => hkept e (List.mem_cons_of_mem _ he)
    exact ⟨archive₂, hlookup₂, hcontinues.trans hcontinues₂, hprefix.trans hprefix₂⟩

/-! ## Reading -/

/-- Some consecutive chunks, taken by their numbers. -/
theorem filter_ordinals {chunks : List Chunk} {first : ℕ} (h : Numbered crypto archive first chunks)
    (lower upper : ℕ) :
    chunks.filter (fun chunk => decide (lower ≤ chunk.ordinal ∧ chunk.ordinal < upper)) =
      (chunks.drop (lower - first)).take (upper - max lower first) := by
  induction chunks generalizing first with
  | nil => simp
  | cons chunk chunks ih =>
    have hordinal := (checkedChunk_eq_ok.mp h.1).2.1
    rw [List.filter_cons, hordinal, ih h.2]
    rcases Nat.lt_or_ge first lower with hlt | hge
    · rw [if_neg (by simpa using fun hle => by omega), show lower - first =
        lower - (first + 1) + 1 by
        omega, List.drop_succ_cons, Nat.max_eq_left hlt, Nat.max_eq_left (Nat.le_of_lt hlt)]
    · rw [Nat.sub_eq_zero_of_le hge, Nat.sub_eq_zero_of_le (Nat.le_succ_of_le hge), List.drop_zero,
        List.drop_zero, Nat.max_eq_right hge, Nat.max_eq_right (Nat.le_succ_of_le hge)]
      rcases Nat.lt_or_ge first upper with hlt | hle
      · rw [if_pos (by simpa using ⟨hge, hlt⟩), show upper - first =
          upper - (first + 1) + 1 by omega, List.take_succ_cons]
      · rw [if_neg (by simpa using fun _ => hle), Nat.sub_eq_zero_of_le hle,
          Nat.sub_eq_zero_of_le (Nat.le_succ_of_le hle), List.take_zero, List.take_zero]

/-- The chunks of a committed lease are all pieces of their content. -/
theorem payloads_of_committed {chunks : List Chunk} (h : Stored crypto archive chunks)
    (hcommitted : archive.committed = true) :
    chunks.map Chunk.payload = pieces chunkBytes (content chunks) := by
  have hlength := h.length_content hcommitted
  rw [h.numbered.payloads hlength List.prefix_rfl, List.take_of_length_le]
  rw [length_pieces, hlength, (h.committed hcommitted).1]
  exact le_rfl

/-- **A range that is read is that part of the content.** -/
theorem readRange_eq_ok (hdb : Intact crypto db) {firstChunk chunkCount now : ℕ}
    {range : ArchiveRange}
    {payload : Bytes}
    (h : db.readRange crypto id firstChunk chunkCount now = .ok (range, payload)) :
    payload = ((content (db.chunksOf id)).drop (firstChunk * chunkBytes)).take
      (chunkCount * chunkBytes) := by
  simp only [Database.readRange, ok_iff, Prod.mk.injEq, Prod.exists, readChunks_eq_ok,
    Option.filter_eq_some_iff, decide_eq_true_eq, Transaction.checkedAdd_eq_some] at h
  obtain ⟨archive, hcurrent, -, hcommitted, stop, ⟨⟨hsum, hstop⟩, hle⟩, -, -, _, _, ⟨-, -, rfl⟩, -,
    -, -, rfl⟩ := h
  have hstored := (hdb.lookup (currentArchive_eq_ok hcurrent).1).2.2
  have hpayloads := payloads_of_committed hstored (by simpa using hcommitted)
  rw [filter_ordinals hstored.numbered, Nat.sub_zero, Nat.max_zero, content, List.map_take,
    List.map_drop, hpayloads, flatten_pieces chunkBytes_pos]
  congr 2
  omega

theorem foldlM_restoreChunk {chunks : List Chunk} {s s' : ℕ × ℕ × Bytes}
    (h : chunks.foldlM (fun s chunk => restoreChunk crypto chunk s) s = .ok s') :
    s'.2.2 = s.2.2 ++ content chunks := by
  refine foldlM_invariant (fun past s' => s'.2.2 = s.2.2 ++ content past)
    (fun past chunk s₁ s₂ hs h => ?_) (by simp [content]) h
  simp only [restoreChunk, ok_iff] at h
  obtain ⟨-, -, rfl⟩ := h
  simp [content, hs]

/-- **An archive that is restored is the content.** -/
theorem restore_eq_ok {now : ℕ} {whole : Bytes}
    (h : restore crypto db id now = .ok (archive, whole)) :
    whole = content (db.chunksOf id) := by
  simp only [restore, ok_iff, Prod.mk.injEq, Prod.exists] at h
  obtain ⟨_, -, -, -, -, -, _, _, _, hfold, -, -, -, rfl⟩ := h
  exact foldlM_restoreChunk hfold

/-! ## Uploading -/

/-- The machine has room for a chunk, and commits. -/
def Serves (limits : StorageLimits) (env : Env) (length : ℕ) : Prop :=
  env.commits = true ∧ ∃ available, env.available = some available ∧
    length + 64 * 1024 + limits.minFreeBytes ≤ available

section Steps

variable {db' : Database} {kind : Kind} {env : Env} {now : ℕ}

/-- What an operation makes of the chunks of a lease that it does not delete. -/
theorem chunksOf_of_effect (hdb : Intact crypto db) (h : Effect crypto db db' kind)
    (hkind : kind ≠ .deleted id) :
    db'.chunksOf id = db.chunksOf id ∨
      (∃ chunk archive, kind = .appended chunk ∧ chunk.leaseId = id ∧
        db.leases.lookup id = some archive ∧
        checkedChunk crypto archive (db.chunksOf id).length chunk = .ok chunk.payload ∧
        db'.chunksOf id = db.chunksOf id ++ [chunk]) ∨
      ∃ chunks archive, kind = .written id chunks ∧ db.leases.lookup id = some archive ∧
        Stored crypto { archive with committed := true } chunks ∧ db'.chunksOf id = chunks := by
  cases h with
  | same _ hchunks | reserved _ _ _ _ hchunks | changed _ _ _ _ _ _ hchunks =>
    exact .inl (chunksOf_of_chunks_eq hchunks id)
  | @appended archive chunk hlookup hopen hcheck hinsert hleases =>
    by_cases hid : chunk.leaseId = id
    · subst hid
      exact .inr (.inl ⟨chunk, archive, rfl, rfl, hlookup, hcheck,
        chunksOf_insert_next (hdb.lookup hlookup).2.2.numbered hcheck hinsert⟩)
    · left
      rw [← Database.chunksOf_insert hinsert hid]
      exact chunksOf_of_chunks_eq rfl id
  | @written writtenId archive chunks hlookup hopen hempty hrows hlease hstored hleases =>
    by_cases hid : id = writtenId
    · subst hid
      exact .inr (.inr ⟨chunks, archive, rfl, hlookup, hstored,
        chunksOf_written hempty hrows hlease hstored.numbered⟩)
    · exact .inl (chunksOf_written_of_ne hrows hlease hid)
  | @deleted deletedId hleases hchunks =>
    left
    have hdelete : db'.chunksOf id = (db.deleteLease deletedId).chunksOf id :=
      chunksOf_of_chunks_eq hchunks id
    refine hdelete.trans (Database.chunksOf_deleteLease ?_)
    rintro rfl
    exact hkind rfl

section

variable (hdb : Intact crypto db) (hlookup : db.leases.lookup id = some archive) (hpos : 0 < now)
  (hnow : now < archive.expiresAtUnix)

include hdb hlookup hpos hnow

/-- **The next chunk of an upload is taken** by a machine that has room for it. -/
theorem chunksOf_appendChunk {bytes : Bytes} (hlt : (db.chunksOf id).length < archive.totalChunks)
    (hbytes : bytes.length =
      min (archive.ciphertextBytes - (db.chunksOf id).length * chunkBytes) chunkBytes)
    (hserves : Serves db.limits env bytes.length) :
    (db.appendChunk crypto env id (db.chunksOf id).length (crypto.sha256 bytes) bytes
      now).2.chunksOf
      id = db.chunksOf id ++ [⟨id, (db.chunksOf id).length, crypto.sha256 bytes, bytes⟩] := by
  obtain ⟨hcommits, available, havailable, hroom⟩ := hserves
  have hstored := (hdb.lookup hlookup).2.2
  have hopen : ¬archive.committed = true := fun h =>
    absurd hlt (hstored.committed h).1.not_lt
  have hnew : db.chunks.lookup
      (Chunk.key ⟨id, (db.chunksOf id).length, crypto.sha256 bytes, bytes⟩) = none := by
    rw [Table.lookup_eq_none]
    intro chunk hchunk hkey
    obtain ⟨hid, hordinal⟩ : chunk.leaseId = id ∧ chunk.ordinal = (db.chunksOf id).length :=
      Prod.mk.inj hkey
    have hmem := List.mem_map_of_mem (f := Chunk.ordinal)
      (Database.mem_chunksOf.mpr ⟨hchunk, hid⟩)
    rw [hstored.numbered.ordinals, ← List.range_eq_range', List.mem_range] at hmem
    exact hmem.ne hordinal
  obtain ⟨table, hinsert, -⟩ := Table.exists_insert hnew
  have hsize : 1 ≤ bytes.length ∧ bytes.length ≤ 262144 := by
    rw [archive.lt_totalChunks] at hlt
    rw [hbytes]
    exact ⟨lt_min (Nat.sub_pos_of_lt hlt) chunkBytes_pos, min_le_right _ _⟩
  have hbody : db.appendBody crypto env id (db.chunksOf id).length (crypto.sha256 bytes) bytes now =
      .ok (⟨archive, (db.chunksOf id).length + 1,
        (content (db.chunksOf id)).length + bytes.length⟩, { db with chunks := table }) := by
    rw [Database.appendBody, currentArchive_of_lookup hdb hlookup hpos hnow, ok_bind,
      chunkLength_eq_ok.mpr ⟨hlt, hbytes⟩, ok_bind, hstored.progress]
    simp only [ok_bind]
    rw [refuse_of_not (by simp), ok_bind, refuse_of_not (by simp), ok_bind, if_neg (lt_irrefl _),
      refuse_of_not (by simp), ok_bind, refuse_of_not hopen, ok_bind]
    simp only [checkSpace, havailable, orFail_some, ok_bind, Database.insertChunk, hlookup, hinsert,
      pure_ok]
    rw [refuse_of_not (Nat.not_lt.mpr hroom), ok_bind, refuse_of_not (by simp [hsize]), ok_bind,
      ok_bind]
  have hcheck : checkedChunk crypto archive (db.chunksOf id).length
      ⟨id, (db.chunksOf id).length, crypto.sha256 bytes, bytes⟩ = .ok bytes :=
    checkedChunk_eq_ok.mpr ⟨rfl, rfl, hlt, hbytes, rfl⟩
  rw [Database.appendChunk, hbody, hcommits]
  exact chunksOf_insert_next hstored.numbered hcheck hinsert

/-- **A complete upload is finalized.** -/
theorem finalize_of_complete (hcount : (db.chunksOf id).length = archive.totalChunks)
    (hhash : crypto.sha256 (content (db.chunksOf id)) = archive.sha256)
    (hcommits : env.commits = true) :
    (db.finalize crypto env id now).1 = .ok { archive with committed := true } := by
  have hread : readChunks crypto archive 0 (db.chunksOf id) =
      .ok (0 + (db.chunksOf id).length, content (db.chunksOf id)) :=
    readChunks_eq_ok.mpr ⟨(hdb.lookup hlookup).2.2.numbered, rfl⟩
  simp only [Database.finalize, Database.finalizeBody,
    currentArchive_of_lookup hdb hlookup hpos hnow, ok_bind, verifyArchive, hread]
  rw [refuse_of_not (by simp [hcount, hhash]), ok_bind, pure_ok, hcommits]
  rfl

end

end Steps

/-- What may happen to a store while `w` is uploaded into a lease: anything but a deletion of the
lease, an append of something that is not a piece of `w`, and a write of something else with the
same hash. -/
def Harmless (crypto : Crypto) (id : FixedBytes 16) (w : Bytes) : Call → Prop
  | .appendChunk id' ordinal _ bytes _ _ => id' = id → bytes = piece chunkBytes w ordinal
  | .writeReserved id' source _ _ _ =>
    id' = id → crypto.sha256 source.content = crypto.sha256 w → source.content = w
  | .delete id' _ => id' ≠ id
  | _ => True

/-- What a harmless call can do to the chunks. -/
theorem Harmless.kind {w : Bytes} {call : Call} (h : Harmless crypto id w call) {kind : Kind}
    (hallows : call.Allows kind) :
    kind ≠ .deleted id ∧
    (∀ chunk, kind = .appended chunk → chunk.leaseId = id →
      chunk.payload = piece chunkBytes w chunk.ordinal) ∧
    ∀ chunks, kind = .written id chunks →
      crypto.sha256 (content chunks) = crypto.sha256 w → content chunks = w := by
  cases call with
  | uploadProgress | readRange | restore =>
    subst hallows
    exact ⟨nofun, nofun, nofun⟩
  | appendChunk =>
    rcases hallows with rfl | rfl
    · exact ⟨nofun, nofun, nofun⟩
    · exact ⟨nofun, fun _ heq => Kind.appended.inj heq ▸ h, nofun⟩
  | delete =>
    rcases hallows with rfl | rfl
    · exact ⟨nofun, nofun, nofun⟩
    · exact ⟨fun heq => h (Kind.deleted.inj heq), nofun, nofun⟩
  | writeReserved =>
    rcases hallows with rfl | ⟨written, rfl, hcontent⟩
    · exact ⟨nofun, nofun, nofun⟩
    · refine ⟨nofun, nofun, fun chunks heq => ?_⟩
      obtain ⟨rfl, rfl⟩ := Kind.written.inj heq
      rw [hcontent]
      exact h rfl
  | _ => rcases hallows with rfl | rfl <;> exact ⟨nofun, nofun, nofun⟩

/-- An upload of `w` into a lease before a deadline, from a number of pieces on: the next piece is
appended, or something harmless happens, such as a failed attempt or a retry. -/
inductive Uploads (crypto : Crypto) (limits : StorageLimits) (id : FixedBytes 16) (w : Bytes)
    (deadline : ℕ) : ℕ → List Call → Prop where
  | done : Uploads crypto limits id w deadline (pieceCount chunkBytes w.length) []
  | next {count : ℕ} {calls : List Call} (now : ℕ) (env : Env) (hpos : 0 < now)
      (hnow : now < deadline) (hserves : Serves limits env (piece chunkBytes w count).length)
      (hrest : Uploads crypto limits id w deadline (count + 1) calls) :
      Uploads crypto limits id w deadline count
        (.appendChunk id count (crypto.sha256 (piece chunkBytes w count)) (piece chunkBytes w count)
          now env :: calls)
  | other {count : ℕ} {call : Call} {calls : List Call} (hcall : Harmless crypto id w call)
      (hrest : Uploads crypto limits id w deadline count calls) :
      Uploads crypto limits id w deadline count (call :: calls)

/-- The state of an upload: the lease is reserved for `w`, and at least so many of its pieces are
stored. -/
structure Uploading (crypto : Crypto) (limits : StorageLimits) (id : FixedBytes 16) (w : Bytes)
    (deadline count : ℕ) (db : Database) : Prop where
  intact : Intact crypto db
  limits : db.limits = limits
  lease : ∃ archive, db.leases.lookup id = some archive ∧ archive.ciphertextBytes = w.length ∧
    archive.sha256 = crypto.sha256 w ∧ deadline ≤ archive.expiresAtUnix
  count : count ≤ (db.chunksOf id).length
  payloads : (db.chunksOf id).map Chunk.payload = (pieces chunkBytes w).take (db.chunksOf id).length

namespace Uploading

variable {limits : StorageLimits} {w : Bytes} {deadline count : ℕ}

section

variable (h : Uploading crypto limits id w deadline count db)

include h

/-- A harmless call does not set an upload back. -/
theorem harmless {call : Call} (hcall : Harmless crypto id w call) :
    Uploading crypto limits id w deadline count ((machine crypto).next db call) := by
  have hoperation := @operation_next crypto db call
  obtain ⟨kind, hallows, heffect⟩ := hoperation.effect
  obtain ⟨archive, hlookup, hbytes, hsha256, hdeadline⟩ := h.lease
  obtain ⟨hkind, happended, hwrites⟩ := hcall.kind hallows
  obtain ⟨archive', hlookup'⟩ := Option.ne_none_iff_exists'.mp
    (heffect.lookup_ne_none hkind (by rw [hlookup]; exact Option.some_ne_none _))
  obtain ⟨hcontinues, hprefix⟩ := (heffect.lease h.intact hlookup').2 archive hlookup
  refine ⟨heffect.intact h.intact, hoperation.limits.trans h.limits,
    ⟨archive', hlookup', hcontinues.ciphertextBytes.trans hbytes, hcontinues.sha256.trans hsha256,
      hdeadline.trans hcontinues.expiresAtUnix⟩, h.count.trans hprefix.length_le, ?_⟩
  rcases chunksOf_of_effect h.intact heffect hkind with
    hsame | ⟨chunk, archive₁, rfl, hid, hlookup₁, hcheck, happend⟩ |
    ⟨chunks, archive₁, rfl, hlookup₁, hstored, hwritten⟩
  · rw [hsame]
    exact h.payloads
  · obtain rfl := Option.mem_unique hlookup hlookup₁
    obtain ⟨-, hordinal, hlt, -⟩ := checkedChunk_eq_ok.mp hcheck
    rw [happend, List.map_append, h.payloads, List.length_append, List.length_singleton,
      take_succ_pieces (by rwa [archive.totalChunks_eq, hbytes] at hlt), List.map_singleton,
      happended chunk rfl hid, hordinal]
  · obtain rfl := Option.mem_unique hlookup hlookup₁
    obtain ⟨hcount, hhash⟩ := hstored.committed rfl
    rw [hwritten, payloads_of_committed hstored rfl, hwrites chunks rfl (hhash.trans hsha256),
      List.take_of_length_le]
    rw [length_pieces, ← hbytes]
    exact hcount.ge

/-- The next piece of an upload is stored. -/
theorem next {now : ℕ} {env : Env} (hpos : 0 < now) (hnow : now < deadline)
    (hlt : count < pieceCount chunkBytes w.length)
    (hserves : Serves limits env (piece chunkBytes w count).length) :
    Uploading crypto limits id w deadline (count + 1) ((machine crypto).next db
      (.appendChunk id count (crypto.sha256 (piece chunkBytes w count)) (piece chunkBytes w count)
        now env)) := by
  have hkept :=
    @harmless _ _ _ _ _ _ _ h (.appendChunk id count (crypto.sha256 (piece chunkBytes w count))
    (piece chunkBytes w count) now env) fun _ => rfl
  refine { hkept with count := ?_ }
  obtain ⟨archive, hlookup, hbytes, -, hdeadline⟩ := h.lease
  rcases Nat.lt_or_ge count (db.chunksOf id).length with hretry | hge
  · obtain ⟨kind, hallows, heffect⟩ := (operation_next db _).effect
    obtain ⟨archive', hlookup', -⟩ := hkept.lease
    exact hretry.trans_le ((heffect.lease h.intact hlookup').2 archive hlookup).2.length_le
  · obtain rfl : count = (db.chunksOf id).length := le_antisymm h.count hge
    have happend : ((machine crypto).next db (.appendChunk id (db.chunksOf id).length
        (crypto.sha256 (piece chunkBytes w (db.chunksOf id).length))
        (piece chunkBytes w (db.chunksOf id).length) now env)).chunksOf id = _ :=
      chunksOf_appendChunk h.intact hlookup hpos (hnow.trans_le hdeadline)
        (by rwa [archive.totalChunks_eq, hbytes]) (by rw [length_piece, hbytes])
        (h.limits ▸ hserves)
    rw [happend, List.length_append, List.length_singleton]

theorem run {calls : List Call} (hcalls : Uploads crypto limits id w deadline count calls) :
    Uploading crypto limits id w deadline (pieceCount chunkBytes w.length)
      ((machine crypto).run db calls) := by
  induction hcalls generalizing db with
  | done => exact h
  | @next count calls now env hpos hnow hserves hrest ih =>
    have hle : ∀ {k : ℕ} {calls : List Call}, Uploads crypto limits id w deadline k calls →
        k ≤ pieceCount chunkBytes w.length := by
      intro k calls hcalls
      induction hcalls with
      | done => exact le_rfl
      | next _ _ _ _ _ _ ih => exact (Nat.le_succ _).trans ih
      | other _ _ ih => exact ih
    exact ih (h.next hpos hnow (hle hrest) hserves)
  | other hcall _ ih => exact ih (h.harmless hcall)

end

/-- **A complete upload ends in a successful finalization.** -/
theorem finalize (h : Uploading crypto limits id w deadline (pieceCount chunkBytes w.length) db)
    {now : ℕ} {env : Env} (hpos : 0 < now) (hnow : now < deadline) (hcommits : env.commits = true) :
    ∃ archive, (db.finalize crypto env id now).1 = .ok archive ∧ archive.committed = true := by
  obtain ⟨archive, hlookup, hbytes, hsha256, hdeadline⟩ := h.lease
  have hcount : (db.chunksOf id).length = archive.totalChunks := by
    refine le_antisymm (h.intact.lookup hlookup).2.2.length_le ?_
    rw [archive.totalChunks_eq, hbytes]
    exact h.count
  have hcontent : content (db.chunksOf id) = w := by
    rw [content, h.payloads, List.take_of_length_le (by rw [length_pieces]; exact h.count)]
    have hflatten := flatten_pieces (w := w) chunkBytes_pos 0 (pieceCount chunkBytes w.length)
    rw [List.drop_zero, List.take_of_length_le (by rw [length_pieces]), Nat.zero_mul,
      List.drop_zero, List.take_of_length_le] at hflatten
    · exact hflatten
    · have hnot : ¬pieceCount chunkBytes w.length * chunkBytes < w.length := fun hlt =>
        lt_irrefl _ ((lt_pieceCount chunkBytes_pos).mpr hlt)
      omega
  exact ⟨_, finalize_of_complete h.intact hlookup hpos (hnow.trans_le hdeadline) hcount
    (by rw [hcontent, hsha256]) hcommits, rfl⟩

end Uploading

/-! ## Content integrity -/

theorem limits_run (db : Database) (calls : List Call) :
    ((machine crypto).run db calls).limits = db.limits :=
  (machine crypto).run_invariant (P := fun db' => db'.limits = db.limits)
    (fun db' call h => (operation_next db' call).limits.trans h) rfl calls

/-- The chunks of a lease start some string of the reserved length. -/
theorem exists_string {chunks : List Chunk} (h : Stored crypto archive chunks) :
    ∃ w : Bytes, w.length = archive.ciphertextBytes ∧
      chunks.map Chunk.payload <+: pieces chunkBytes w := by
  have hle : (content chunks).length ≤ archive.ciphertextBytes := by
    rw [h.numbered.length_content]
    exact Nat.min_le_left _ _
  -- what has not been uploaded may be anything
  have hlength : (content chunks ++
      List.replicate (archive.ciphertextBytes - (content chunks).length) 0).length =
        archive.ciphertextBytes := by
    rw [List.length_append, List.length_replicate]
    omega
  refine ⟨_, hlength, ?_⟩
  rw [h.numbered.payloads hlength (List.prefix_append _ _)]
  exact List.take_prefix _ _

/-- **Content integrity.** In every run of a store, the chunks of a lease are numbered without a gap
and start a string of the reserved length whose pieces, but for the last, are full; a committed
lease has the reserved length and hash; as long as the lease is not deleted, its chunks stay as they
are, and what is read of a committed lease is what was stored; and an upload of the pieces of a
string with the reserved length and hash, in order and with retries in between, is finalized before
it expires. -/
theorem content_integrity (crypto : Crypto) (limits : StorageLimits) (provider : FixedBytes 32)
    (calls : List Call) {db : Database}
    (hdb : (machine crypto).run (fresh limits provider) calls = db) (id : FixedBytes 16)
    {archive : StoredArchive} (hlookup : db.leases.lookup id = some archive) :
    ((db.chunksOf id).map Chunk.ordinal = List.range (db.chunksOf id).length ∧
      ∃ w : Bytes, w.length = archive.ciphertextBytes ∧
        (db.chunksOf id).map Chunk.payload <+: pieces chunkBytes w) ∧
    (archive.committed = true →
      (content (db.chunksOf id)).length = archive.ciphertextBytes ∧
        crypto.sha256 (content (db.chunksOf id)) = archive.sha256) ∧
    (∀ later : List Call,
      (∀ e ∈ (machine crypto).events db later, e.after.leases.lookup id ≠ none) →
      db.chunksOf id <+: ((machine crypto).run db later).chunksOf id ∧
      (archive.committed = true →
        (∀ firstChunk chunkCount now range payload,
          ((machine crypto).run db later).readRange crypto id firstChunk chunkCount now =
            .ok (range, payload) →
          payload = ((content (db.chunksOf id)).drop (firstChunk * chunkBytes)).take
            (chunkCount * chunkBytes)) ∧
        ∀ now archive' whole,
          restore crypto ((machine crypto).run db later) id now = .ok (archive', whole) →
          whole = content (db.chunksOf id))) ∧
    ∀ w : Bytes, w.length = archive.ciphertextBytes → crypto.sha256 w = archive.sha256 →
      (db.chunksOf id).map Chunk.payload <+: pieces chunkBytes w →
      ∀ later : List Call,
        Uploads crypto limits id w archive.expiresAtUnix (db.chunksOf id).length later →
        ∀ now env, 0 < now → now < archive.expiresAtUnix → env.commits = true →
        ∃ archive', (((machine crypto).run db later).finalize crypto env id now).1 = .ok archive' ∧
          archive'.committed = true := by
  have hintact : Intact crypto db := hdb ▸ intact_run (intact_fresh limits provider) calls
  have hlimits : db.limits = limits := hdb ▸ limits_run (fresh limits provider) calls
  have hstored := (hintact.lookup hlookup).2.2
  refine ⟨⟨?_, exists_string hstored⟩, fun hcommitted => ⟨hstored.length_content hcommitted,
    (hstored.committed hcommitted).2⟩, fun later hkept => ?_, fun w hlength hsha256 hpayloads later
    hlater now env hpos hnow hcommits => ?_⟩
  · rw [hstored.numbered.ordinals, List.range_eq_range']
  · obtain ⟨archive', hlookup', hcontinues, hprefix⟩ := lease_run hintact hlookup later hkept
    refine ⟨ hprefix, fun hcommitted => ?_⟩
    -- a committed lease has all of its chunks, so that none can be added
    have hintact' := intact_run hintact later
    have heq : db.chunksOf id = ((machine crypto).run db later).chunksOf id := by
      refine hprefix.eq_of_length_le ?_
      rw [(hstored.committed hcommitted).1]
      have hle := (hintact'.lookup hlookup').2.2.length_le
      rwa [archive'.totalChunks_eq, hcontinues.ciphertextBytes] at hle
    rw [heq]
    exact ⟨fun _ _ _ _ _ h => readRange_eq_ok hintact' h, fun _ _ _ h => restore_eq_ok h⟩
  · have hupload : Uploading crypto limits id w archive.expiresAtUnix (db.chunksOf id).length db :=
      ⟨hintact, hlimits, ⟨archive, hlookup, hlength.symm, hsha256.symm, le_rfl⟩, le_rfl, by
        rw [← List.length_map (f := Chunk.payload)]
        exact List.prefix_iff_eq_take.mp hpayloads⟩
    exact (hupload.run hlater).finalize hpos hnow hcommits

namespace Sample

def primitives : Crypto := Protocol.Signatures.primitives []

def hello : Bytes := Transaction.ascii "hello"

def leaseId : FixedBytes 16 := .replicate 16 7

def env : Env := ⟨some 1000000, some leaseId, true⟩

def limits : StorageLimits := ⟨1000, 0⟩

def reserved : StoredArchive :=
  ⟨leaseId, 5, .ofNat 32 0x2cf24dba5fb0a30e26e83b2ac5b9e29e1b161e5c1fa7425e73043362938b9824, 2000,
    false⟩

/-- A reservation of five bytes. -/
def calls : List Call := [.reserve ⟨5, reserved.sha256, 2000, 1000⟩ env]

theorem lookup_run : ((machine primitives).run (fresh limits (.zero 32)) calls).leases.lookup
    leaseId =
      some reserved ∧
    ((machine primitives).run (fresh limits (.zero 32)) calls).chunksOf leaseId = [] := by
  decide +kernel

theorem sha256_hello : primitives.sha256 hello = reserved.sha256 := by decide +kernel

/-- The upload of the one piece, which is retried. -/
def upload : List Call :=
  [.appendChunk leaseId 0 (primitives.sha256 (piece chunkBytes hello 0)) (piece chunkBytes hello 0)
    1001 env,
    .appendChunk leaseId 0 (primitives.sha256 (piece chunkBytes hello 0)) (piece chunkBytes hello 0)
      1002 env]

theorem uploads_upload : Uploads primitives limits leaseId hello 2000 0 upload := by
  have hdone : Uploads primitives limits leaseId hello 2000 (0 + 1) [] := by
    rw [show 0 + 1 = pieceCount chunkBytes hello.length by decide]
    exact .done
  exact .next 1001 env (by decide) (by decide) ⟨rfl, 1000000, rfl, by decide⟩
    (.other (fun _ => rfl) hdone)

end Sample

/-- Five bytes are reserved and uploaded, and the upload is finalized. -/
theorem content_integrity_hello :
    ∃ archive, (((machine Sample.primitives).run ((machine Sample.primitives).run
        (fresh Sample.limits (.zero 32)) Sample.calls) Sample.upload).finalize Sample.primitives
          Sample.env Sample.leaseId 1500).1 = .ok archive ∧ archive.committed = true :=
  (content_integrity Sample.primitives Sample.limits (.zero 32) Sample.calls rfl Sample.leaseId
    Sample.lookup_run.1).2.2.2 Sample.hello (by decide) Sample.sha256_hello
    (by rw [Sample.lookup_run.2]; exact List.nil_prefix) Sample.upload
    (by rw [Sample.lookup_run.2]; exact Sample.uploads_upload) 1500 Sample.env (by decide)
    (by decide) rfl

end Volparossa.PrivateStorage.Store
