import Volparossa.Content.Pins

/-!
# Reopening a cache after a crash

A cache that was left by an operation which did not finish, because a call failed or the process
died, does not open, or opens with the chunks that the operation had at one of its steps: those
before it, those after one of its evictions, or those with the chunk that it inserted. Every chunk
of the index that was opened is in its file in full length, the limits hold, and the directory has
no other chunks (`crash_consistent`).

The invariant of a run says this of the directory as it is (`Kept`): a healthy store is sound, and
what an unhealthy store or a closed cache left is what the last operation that a healthy store took
may leave.
-/

namespace Volparossa.Content

open PrivateStorage (Ed25519)
open Procedure
open ChunkStore
open Disk

namespace Operation

/-- The chunks after each step of an operation on a store with the chunks `l`. -/
def stages (crypto : Ed25519) (limits : CacheLimits) (l : List Entry) :
    Operation → List (List Entry)
  | put bytes => ChunkStore.stages crypto limits (crypto.sha256 bytes) bytes l
  | putVerified expected bytes => ChunkStore.stages crypto limits expected bytes l
  | putVerifiedIfSpace expected bytes => ChunkStore.spareStages crypto limits expected bytes l
  | get _ => []
  | remove id => [l.filter (·.id ≠ id)]
  | evict => [l.tail]

variable {crypto : Ed25519} {host : Host} {s : ChunkStore}

/-- An unhealthy store refuses every operation and does nothing. -/
theorem ensures_unhealthy (hs : s.healthy = false) (op : Operation) :
    (op.perform crypto host).Ensures s (fun _ _ => False) fun _ s' => s' = s := by
  have hrefused : ∀ {Q : Unit → ChunkStore → Prop},
      ensureHealthy.Ensures s Q fun _ s' => s' = s := fun {Q} =>
    ensures_ensureHealthy (fun _ => rfl) fun h => by simp [hs] at h
  cases op with
  | put bytes =>
    simp only [perform, ChunkStore.put, ChunkStore.putVerified, ensures_bind,
      ensures_refuse]
    exact ⟨fun _ => trivial, fun _ => hrefused⟩
  | putVerified expected bytes =>
    simp only [perform, ChunkStore.putVerified, ensures_bind]
    exact hrefused
  | putVerifiedIfSpace expected bytes =>
    simp only [perform, ChunkStore.putVerifiedIfSpace, ensures_bind]
    exact hrefused
  | get id =>
    simp only [perform, ChunkStore.get, ensures_bind]
    exact hrefused
  | remove id =>
    simp only [perform, ChunkStore.removeOwnedChunk, ChunkStore.get, ensures_bind]
    exact hrefused
  | evict =>
    simp only [perform, ensures_bind]
    exact hrefused

/-- **An operation on a healthy store ends with the chunks of one of its steps**, whatever calls
fail. -/
theorem ensures_perform (h : s.Sound crypto) (hs : s.healthy = true) (op : Operation) :
    (op.perform crypto host).Ensures s
      (fun _ => Ends crypto s (s.index :: op.stages crypto s.limits s.index))
      fun _ => Ends crypto s (s.index :: op.stages crypto s.limits s.index) := by
  have hkept : ∀ {ls}, Ends crypto s (s.index :: ls) s :=
    (h.reached hs rfl).ends List.mem_cons_self (.refl _)
  cases op with
  | put bytes =>
    simp only [perform, ChunkStore.put, ensures_bind, ensures_refuse,
      ensures_pure]
    exact ⟨fun _ => hkept, fun _ => ensures_putVerified h hs⟩
  | putVerified expected bytes =>
    simp only [perform, ensures_bind, ensures_pure]
    exact ensures_putVerified h hs
  | putVerifiedIfSpace expected bytes =>
    simp only [perform, ensures_bind, ensures_pure]
    exact ensures_putVerifiedIfSpace h hs
  | get id =>
    simp only [perform, ensures_bind, ensures_pure]
    exact ensures_get h hs (fun _ _ hends => hends) (fun _ => hkept)
      fun _ _ _ h' hperm _ => h'.ends List.mem_cons_self hperm
  | remove id =>
    simp only [perform, ensures_bind, ensures_pure]
    exact ensures_removeOwnedChunk h hs
  | evict =>
    simp only [perform, ensures_bind, ensures_pure]
    refine ensures_ensureHealthy (fun _ => hkept) fun _ => ?_
    refine ensures_evictOldest h hs (fun _ _ hends => hends) fun s' entry h' hindex => ?_
    exact h'.ends (l := s'.index) (by simp [stages, hindex]) (.refl _)

end Operation

/-! ## Opening -/

namespace ChunkStore

variable {crypto : Ed25519} {host : Host} {cacheId : FixedBytes 32} {limits : CacheLimits}

/-- An index file that is loaded is one of this cache, and its list is within the limits. -/
theorem lists_of_loadIndex {id : FixedBytes 32} {p : List Entry} {loaded : Loaded}
    (hp : Listable p)
    (h : loadIndex crypto id limits (indexFile crypto cacheId p) = .ok loaded) :
    id = cacheId ∧ p.length ≤ limits.maxEntries ∧ loaded.Lists limits p := by
  have hid : id = cacheId := by
    have hcheck := h
    simp only [loadIndex, ok_iff, not_or, not_not] at hcheck
    obtain ⟨-, ⟨-, -, -, hid⟩, -⟩ := hcheck
    rw [indexFile, take_cacheId_sealed (by decide)] at hid
    exact FixedBytes.toBytes_injective hid.symm
  subst hid
  rw [loadIndex_indexFile limits (fun entry hentry => ?_) hp.count] at h
  · simp only [ok_iff, not_lt] at h
    obtain ⟨-, hcount, hload⟩ := h
    exact ⟨rfl, hcount, Loaded.lists_of_foldlM hload⟩
  · have := (hp.length entry hentry).2
    simp only [chunkBytes] at this
    omega

/-- The index that was loaded is the list that was read. -/
theorem tidy_load {p : List Entry} {loaded : Loaded}
    (hcount : p.length ≤ limits.maxEntries) (h : loaded.Lists limits p)
    (hlimits : validateLimits limits = .ok ()) {store : ChunkStore}
    (hstore : store.limits = limits) :
    (store.load loaded).Tidy ∧ (store.load loaded).index = p := by
  simp only [validateLimits, refuse_eq_ok, not_or, not_lt] at hlimits
  refine ⟨⟨?_, ?_, ?_, ?_, ?_, ?_, ?_⟩, ?_⟩
  · simp only [load, h.lru, h.rows]
    exact .refl _
  · simp only [load, h.bytes, Table.sum, h.rows]
  · simp only [load, h.rows]
    exact h.length
  · simp only [load, h.rows, hstore]
    exact hcount
  · simp only [load, hstore]
    exact h.total
  · simp only [load, hstore]
    exact hlimits.2.2
  · simp only [load, hstore]
    exact Nat.pos_of_ne_zero hlimits.2.1
  · simp only [index, load, h.lru, List.filterMap_map]
    refine (List.filterMap_congr fun entry hentry => ?_).trans List.filterMap_some
    exact Table.lookup_key _ (h.rows ▸ hentry)

theorem ensures_checkNameMetadata {s : ChunkStore} {Q : Unit → ChunkStore → Prop}
    {E : Error → ChunkStore → Prop} {files : Files} (hd : s.disk.files = files)
    (hE : ∀ e d, d.files = files → E e { s with disk := d })
    (hQ : ∀ d, d.files = files → Q () { s with disk := d }) :
    (checkNameMetadata crypto host).Ensures s Q E := by
  simp only [checkNameMetadata, checkCachedNameMetadata, readNamedManifests, ensures_bind]
  refine ensures_readNamePins hd hE fun _ d _ _ _ hd => ?_
  refine ensures_readNamePins (s := { s with disk := d }) hd hE fun pins d _ _ _ hd => ?_
  refine ensures_readSettled (s := { s with disk := d }) hd hE fun d _ _ hd => ?_
  have hlast : ∀ saved : OrdMap NameKey Saved, (Procedure.refuse
      ((saved.rows.any fun row => (pins.lookup row.1).isNone) = true) Error.invalidStore).Ensures
      { s with disk := d } Q E := fun saved => by
    simp only [Procedure.ensures_refuse]
    exact ⟨fun _ => hE _ d hd, fun _ => hQ d hd⟩
  cases files .manifests with
  | none =>
    simp only [ensures_pure]
    exact hlast _
  | some bytes =>
    simp only [ensures_bind, ensures_state, ensures_lift]
    exact ⟨fun saved _ => hlast saved, fun e _ => hE e d hd⟩

theorem ensures_checkChunk {s : ChunkStore} {entry : Entry} {Q : Unit → ChunkStore → Prop}
    {E : Error → ChunkStore → Prop} {files : Files} (hd : s.disk.files = files)
    (hE : ∀ e d, d.files = files → E e { s with disk := d })
    (hQ : ∀ bytes d, files (.chunk entry.id) = some bytes → bytes.length = entry.length →
      d.files = files → Q () { s with disk := d }) :
    (checkChunk host entry).Ensures s Q E := by
  simp only [checkChunk, onDisk, ensures_bind, ensures_within,
    ensures_refuse]
  refine ensures_openPrivateFile hd (fun e d _ => hE e d) fun bytes d hbytes hd => ?_
  exact ⟨fun _ => hE _ d hd, fun hlength => hQ bytes d hbytes (not_not.mp hlength) hd⟩

/-- A store that was opened with the chunks that the directory had. -/
structure Opened (crypto : Ed25519) (cacheId : FixedBytes 32) (limits : CacheLimits)
    (P : List Entry → Prop) (files : Files) (store : ChunkStore) : Prop where
  cacheId : store.cacheId = cacheId
  limits : store.limits = limits
  healthy : store.healthy = true
  files : store.disk.files = files
  sound : store.Sound crypto
  listed : P store.index

/-- **What a cache finds when it is opened**: opening changes no file, and it fails unless the
directory has the chunks of one list. -/
theorem ensures_openCache {P : List Entry → Prop} {d : Disk} (h : Left crypto cacheId P d.files) :
    (openCache crypto host limits).Ensures d
      (fun r d' => r.disk = d' ∧ Opened crypto cacheId limits P d.files r)
      fun _ d' => d'.files = d.files := by
  simp only [openCache, ensures_bind, ensures_lift, ensures_refuse,
    ensures_orFail]
  refine ⟨fun _ hlimits => ?_, fun _ _ => trivial⟩
  have hE : ∀ (e : Error) (d' : Disk), d'.files = d.files → d'.files = d.files := fun _ _ hd => hd
  refine ensures_call rfl (fun _ hd => hd) fun d₁ hd => ?_
  refine ensures_openPrivateFile hd (fun _ _ _ hd => hd) fun file d₂ _ hd => ?_
  refine ensures_call hd (fun _ hd => hd) fun d₃ hd => ?_
  refine ensures_readToEnd hd hE fun d₄ hd => ?_
  refine ⟨fun _ => hd, fun _ => ⟨fun _ => hd, fun id _ => ⟨fun _ => hd, fun _ => ?_⟩⟩⟩
  refine ensures_ensureAbsent hd hE fun d₅ hindexStage hd => ?_
  refine ensures_ensureAbsent hd hE fun d₆ hchunkStage hd => ?_
  refine ensures_ensureAbsent hd hE fun d₇ _ hd => ?_
  refine ensures_ensureAbsent hd hE fun d₈ _ hd => ?_
  refine ensures_openPrivateFile hd (fun _ _ _ hd => hd) fun bytes d₉ hindex hd => ?_
  refine ensures_readToEnd hd hE fun d' hd => ?_
  simp only [ensures_build, ensures_bind, ensures_lift,
    ensures_update, ensures_state]
  refine ⟨fun loaded hload => ?_, fun _ _ => hd⟩
  obtain ⟨p, hp, rfl, hleft⟩ : ∃ p, Listable p ∧ indexFile crypto cacheId p = bytes ∧
      ((∃ entry ∈ p, d.files (.chunk entry.id) = none) ∨ Stored crypto p d.files ∧ P p) := by
    cases h with
    | staged hstage => exact absurd hstage (by simp [hindexStage, hchunkStage])
    | unlisted hnone => simp [hnone] at hindex
    | missing p entry hp hlisted hentry hfile =>
      exact ⟨p, hp, Option.mem_unique hlisted hindex, .inl ⟨entry, hentry, hfile⟩⟩
    | settled p hp hlisted _ _ hstored hP =>
      exact ⟨p, hp, Option.mem_unique hlisted hindex, .inr ⟨hstored, hP⟩⟩
  obtain ⟨rfl, hcount, hlists⟩ := lists_of_loadIndex hp hload
  have htidy : ∀ d'' : Disk, (load loaded (blank id limits true d'')).Tidy ∧
      (load loaded (blank id limits true d'')).index = p :=
    fun d'' => tidy_load hcount hlists hlimits rfl
  refine ensures_checkNameMetadata hd hE fun e₁ he₁ => ?_
  refine ensures_checkFreeSpace he₁ hE fun e₂ he₂ => ?_
  refine (ensures_forEach (I := fun s' => ∃ d'' : Disk, d''.files = d.files ∧
      s' = load loaded (blank id limits true d'')) (G := fun entry => ∃ bytes,
      d.files (.chunk entry.id) = some bytes ∧ bytes.length = entry.length)
    ⟨e₂, he₂, rfl⟩ ?_).mono ?_ fun _ _ he => he
  · rintro entry - _ ⟨d'', hd'', rfl⟩
    exact ensures_checkChunk hd'' hE fun bytes f hbytes hlength hf =>
      ⟨⟨f, hf, rfl⟩, bytes, hbytes, hlength⟩
  · rintro - _ ⟨⟨d'', hd'', rfl⟩, hall⟩
    have hmem : ∀ entry ∈ p, ∃ bytes,
        d.files (.chunk entry.id) = some bytes ∧ bytes.length = entry.length := by
      intro entry hentry
      refine hall entry ((Table.orderBy_perm _ _ _).mem_iff.mpr ?_)
      exact hlists.rows.symm ▸ hentry
    rcases hleft with ⟨entry, hentry, hfile⟩ | ⟨hstored, hP⟩
    · obtain ⟨bytes, hbytes, -⟩ := hmem entry hentry
      simp [hfile] at hbytes
    · obtain ⟨htidy', hindex'⟩ := htidy d''
      refine ⟨trivial, rfl, rfl, rfl, hd'', ⟨htidy', ?_, ⟨p, hindex' ▸ .refl _, ?_⟩, ?_, ?_⟩, ?_⟩
      · rw [hindex']
        exact hd'' ▸ hstored
      · exact hd'' ▸ hindex
      · exact hd'' ▸ hindexStage
      · exact hd'' ▸ hchunkStage
      · exact hindex'.symm ▸ hP

theorem tidy_blank (hlimits : validateLimits limits = .ok ()) (healthy : Bool) (disk : Disk) :
    (blank cacheId limits healthy disk).Tidy := by
  simp only [validateLimits, refuse_eq_ok, not_or, not_lt] at hlimits
  exact ⟨.refl _, rfl, by simp [blank], Nat.zero_le _, Nat.zero_le _, hlimits.2.2,
    Nat.pos_of_ne_zero hlimits.2.1⟩

/-- A creation ends with an empty store, or leaves a directory that does not open or opens empty. It
writes no pins. -/
theorem ensures_create {entropy : Option (FixedBytes 32)}
    (hid : ∀ id, entropy = some id → id = cacheId) :
    (create crypto host limits entropy).Ensures ⟨fun _ => none, 0⟩
      (fun r _ => (r.cacheId = cacheId ∧ r.healthy = true ∧ r.Sound crypto ∧ r.index = []) ∧
        r.disk.files .pins = none)
      fun _ d => Left crypto cacheId (Among [[]]) d.files ∧ d.files .pins = none := by
  simp only [create, syncAll, ensures_bind, ensures_lift,
    ensures_orFail]
  -- until the index is written there is at most the file of the owner
  have hunlisted : ∀ {d : Disk} {content : Option Bytes},
      d.files = Function.update (fun _ => none) .owner content →
      Left crypto cacheId (Among [[]]) d.files ∧ d.files .pins = none :=
    fun hd => ⟨.unlisted (by simp [hd]), by simp [hd]⟩
  refine ⟨fun _ hlimits => ?_, fun _ _ => ⟨.unlisted rfl, trivial⟩⟩
  have hnone : ∀ {d : Disk}, d.files = (fun _ => none) →
      d.files = Function.update (fun _ => none) .owner none := fun hd =>
    hd.trans (Function.update_eq_self FileName.owner _).symm
  refine ensures_call rfl (fun _ hd => hunlisted (hnone hd)) fun d₁ hd => ?_
  refine ensures_call hd (fun _ hd => hunlisted (hnone hd)) fun d₂ hd => ?_
  refine ensures_createFile hd (fun _ _ hd => hunlisted (hnone hd)) fun d₃ hd => ?_
  refine ensures_call hd (fun _ => hunlisted) fun d₄ hd => ?_
  refine ⟨fun _ => hunlisted hd, fun id hentropy => ?_⟩
  obtain rfl := hid id hentropy
  refine ensures_writeAll hd (fun _ _ => hunlisted) fun d₅ hd => ?_
  rw [Function.update_idem] at hd
  refine ensures_call hd (fun _ => hunlisted) fun d₆ hd => ?_
  simp only [ensures_build, ensures_bind, setHealthy, ensures_update]
  have hfree : ∀ name, name ≠ .owner → d₆.files name = none := fun name hname => by
    rw [hd, Function.update_of_ne hname]
  have hpins : ∀ {d : Disk}, ChunkStore.Same (blank id limits false d₆)
      { blank id limits false d₆ with disk := d } → d.files .pins = none := fun hsame =>
    (hsame.files .pins (by simp [Writes])).trans (hfree _ (by decide))
  refine ensures_persistIndex_stored (tidy_blank hlimits false d₆)
    ⟨by simp [index, blank], fun id' bytes hfile => ?_⟩ (hfree _ (by decide)) (hunlisted hd).1
    (show _ ∈ [[]] by simp [index, blank]) (fun _ d hsame hleft => ⟨hleft, hpins hsame⟩)
    fun d hsame hsound => ⟨⟨rfl, trivial, hsound.withDisk rfl true, rfl⟩, hpins hsame⟩
  simp [blank, hfree] at hfile

/-! ## Runs -/

theorem Left.congr {P : List Entry → Prop} {files files' : Files} (h : Left crypto cacheId P files)
    (hfiles : ∀ name, Writes name → files' name = files name) : Left crypto cacheId P files' := by
  cases h with
  | staged h =>
    refine .staged (h.imp (fun h => ?_) fun h => ?_)
    · rwa [hfiles .indexStage trivial]
    · rwa [hfiles .chunkStage trivial]
  | unlisted h => exact .unlisted ((hfiles .index trivial).trans h)
  | missing p entry hp hindex hentry hfile =>
    exact .missing p entry hp ((hfiles .index trivial).trans hindex) hentry
      ((hfiles (.chunk entry.id) trivial).trans hfile)
  | settled p hp hindex hindexStage hchunkStage hstored hP =>
    exact .settled p hp ((hfiles .index trivial).trans hindex)
      ((hfiles .indexStage trivial).trans hindexStage)
      ((hfiles .chunkStage trivial).trans hchunkStage) (hstored.congr fun _ => hfiles _ trivial) hP

variable {ls : List (List Entry)} {s : ChunkStore}

theorem Ended.left (h : s.Ended crypto (Among ls)) :
    Left crypto s.cacheId (Among ls) s.disk.files := by
  rcases h with ⟨-, hsound, l, hl, hperm⟩ | ⟨-, hleft⟩
  · exact hsound.left (fun p hp => ⟨l, hl, hp.trans hperm⟩) rfl
  · exact hleft

/-- What does not touch the files of the chunks leaves a store as it ended. -/
theorem Ended.withDisk (h : s.Ended crypto (Among ls)) {d : Disk}
    (hd : ∀ name, Writes name → d.files name = s.disk.files name) {b : Bool}
    (hb : b = true → s.healthy = true) :
    Ended crypto (Among ls) { s with disk := d, healthy := b } := by
  cases b with
  | false => exact .inr ⟨rfl, h.left.congr hd⟩
  | true =>
    rcases h with ⟨-, hsound, hindex⟩ | ⟨hhealthy, -⟩
    · exact .inl ⟨rfl, hsound.congr (hsound.tidy.congr rfl rfl rfl rfl) (.refl _) rfl hd, hindex⟩
    · simp [hb rfl] at hhealthy

/-- An observation changes no chunks. -/
theorem ensures_observe_ended {manifest : VerifiedManifest} {now : ℕ}
    {Q : ChunkStore → Prop}
    (hQ : ∀ d b, (∀ name, Writes name → d.files name = s.disk.files name) →
      (b = true → s.healthy = true) → Q { s with disk := d, healthy := b }) :
    (observeNameRevision crypto host manifest now).Ensures s (fun _ => Q) fun _ => Q := by
  have hreplaced : ∀ {d : Disk} {bytes : Bytes},
      d.files = replaced s.disk.files .pinStage .pins bytes →
      ∀ name, Writes name → d.files name = s.disk.files name := by
    intro d bytes hd name hname
    rw [hd, replaced_of_ne] <;> rintro rfl <;> exact hname
  refine ensures_observeNameRevision (fun _ d hd _ => ?_)
    (fun _ _ _ _ d _ _ hint => ?_) (fun _ _ _ d _ _ hd => ?_)
    (fun _ d _ _ hd => ?_) fun _ _ d _ _ hd => ?_
  · exact hQ d s.healthy (fun name _ => congrFun hd name) id
  · refine hQ d false (fun name hname => hint.of_ne ?_ ?_) (by simp) <;> rintro rfl <;> exact hname
  · exact hQ d s.healthy (hreplaced hd) id
  · exact hQ d s.healthy (fun name _ => congrFun hd name) id
  · exact hQ d s.healthy (hreplaced hd) id

end ChunkStore

namespace Cache

variable {crypto : Ed25519} {cacheId : FixedBytes 32} {ls : List (List Entry)}

/-- What holds of a cache: the chunks that it has, or that its directory was left with, are those of
one of some lists. -/
def Kept (crypto : Ed25519) (cacheId : FixedBytes 32) (ls : List (List Entry)) : Cache → Prop
  | closed disk => ChunkStore.Left crypto cacheId (ChunkStore.Among ls) disk.files
  | opened store => store.cacheId = cacheId ∧ store.Ended crypto (ChunkStore.Among ls)

/-- The store and the operation, when an operation meets a healthy store. -/
def working (cache : Cache) (request : Request crypto) : Option (ChunkStore × Operation) :=
  match cache, request.action with
  | opened store, .perform op => if store.healthy then some (store, op) else none
  | _, _ => none

section

variable {cache : Cache} (h : cache.Kept crypto cacheId ls) {request : Request crypto}

include h

/-- An operation on a healthy store leaves the chunks of one of its steps. -/
theorem Kept.next_of_working {store : ChunkStore} {op : Operation}
    (hw : cache.working request = some (store, op)) :
    ((machine crypto).next cache request).Kept crypto cacheId
        (store.index :: op.stages crypto store.limits store.index) ∧
      ∀ name, ¬ChunkStore.Writes name →
        ((machine crypto).next cache request).disk.files name = cache.disk.files name := by
  obtain ⟨host, action⟩ := request
  cases cache with
  | closed disk => cases hw
  | opened s =>
    cases action with
    | perform op' =>
      simp only [working, Option.ite_none_right_eq_some, Option.some.injEq, Prod.mk.injEq] at hw
      obtain ⟨hs, rfl, rfl⟩ := hw
      obtain ⟨hid, ⟨-, hsound, -⟩ | ⟨hcon, -⟩⟩ := h
      · have hperform : (op'.perform crypto host).Ensures s _ _ := op'.ensures_perform hsound hs
        have hends := hperform.always
        exact ⟨⟨hends.cacheId.trans hid, hends.ended⟩, hends.files⟩
      · simp [hs] at hcon
    | _ => cases hw

/-- Without an operation on a healthy store or an observation no file changes. -/
theorem Kept.next_of_quiet (hw : cache.working request = none)
    (ho : ∀ manifest genuine now, request.action ≠ .observe manifest genuine now) :
    ((machine crypto).next cache request).Kept crypto cacheId ls ∧
      ((machine crypto).next cache request).disk.files = cache.disk.files := by
  obtain ⟨host, action⟩ := request
  cases cache with
  | closed disk =>
    cases action with
    | reopen limits =>
      have hopen : (openCache crypto host limits).Ensures disk _ _ :=
        ensures_openCache h
      simp only [Machine.next, machine, step]
      revert hopen
      unfold Procedure.Ensures
      rcases openCache crypto host limits disk with ⟨e | store, disk'⟩
      · intro hfiles
        simp only at hfiles
        exact ⟨h.congr fun name _ => congrFun hfiles name, hfiles⟩
      · rintro ⟨-, hopened⟩
        exact ⟨⟨hopened.cacheId, .inl ⟨hopened.healthy, hopened.sound, hopened.listed⟩⟩,
          hopened.files⟩
    | _ => exact ⟨h, rfl⟩
  | opened s =>
    cases action with
    | reopen limits => exact ⟨h, rfl⟩
    | close => exact ⟨h.1 ▸ h.2.left, rfl⟩
    | perform op =>
      have hs : s.healthy = false := by simpa [working] using hw
      have hsame : (op.perform crypto host s).2 = s :=
        ((op.ensures_unhealthy hs).mono (fun _ _ h => h.elim) fun _ _ h => h).always
      have hnext : (machine crypto).next (opened s) ⟨host, .perform op⟩ = opened s := by
        simp only [Machine.next, machine, step, hsame]
      rw [hnext]
      exact ⟨h, rfl⟩
    | observe manifest genuine now => exact absurd rfl (ho manifest genuine now)

/-- Nothing but an operation on a healthy store changes the chunks. -/
theorem Kept.next_of_idle (hw : cache.working request = none) :
    ((machine crypto).next cache request).Kept crypto cacheId ls ∧
      ∀ name, ChunkStore.Writes name →
        ((machine crypto).next cache request).disk.files name = cache.disk.files name := by
  by_cases ho : ∃ manifest genuine now, request.action = .observe manifest genuine now
  · obtain ⟨host, action⟩ := request
    obtain ⟨manifest, genuine, now, rfl⟩ := ho
    cases cache with
    | closed disk => exact ⟨h, fun _ _ => rfl⟩
    | opened s =>
      have hobserve : (observeNameRevision crypto host manifest now).Ensures s
          (fun _ s' => (opened s').Kept crypto cacheId ls ∧
            ∀ name, ChunkStore.Writes name → s'.disk.files name = s.disk.files name) _ :=
        ensures_observe_ended fun d b hd hb => ⟨⟨h.1, h.2.withDisk hd hb⟩, hd⟩
      exact hobserve.always
  · push Not at ho
    obtain ⟨hkept, hfiles⟩ := h.next_of_quiet hw ho
    exact ⟨hkept, fun name _ => congrFun hfiles name⟩

end

theorem Kept.next {cache : Cache} (h : cache.Kept crypto cacheId ls) (request : Request crypto) :
    ∃ ls, ((machine crypto).next cache request).Kept crypto cacheId ls := by
  rcases hw : cache.working request with _ | ⟨store, op⟩
  · exact ⟨ls, (h.next_of_idle hw).1⟩
  · exact ⟨_, (h.next_of_working hw).1⟩

theorem created_kept {host : Host} {limits : CacheLimits} {entropy : Option (FixedBytes 32)}
    (hid : ∀ id, entropy = some id → id = cacheId) :
    (created crypto host limits entropy).Kept crypto cacheId [[]] ∧
      (created crypto host limits entropy).disk.files .pins = none := by
  have hcreate : (create crypto host limits entropy).Ensures ⟨fun _ => none, 0⟩ _ _ :=
    ensures_create hid
  unfold created
  revert hcreate
  unfold Procedure.Ensures
  rcases create crypto host limits entropy ⟨fun _ => none, 0⟩ with ⟨e | store, disk⟩
  · exact fun h => h
  · rintro ⟨⟨hcache, hs, h, hindex⟩, hpins⟩
    exact ⟨⟨hcache, .inl ⟨hs, h, [], by simp, hindex ▸ .refl _⟩⟩, hpins⟩

/-- The steps of a run of a cache. -/
abbrev Event (crypto : Ed25519) :=
  Machine.Event Cache (Request crypto) (Option (Except Error Outcome))

/-- The chunks that the last operation on a healthy store had at its steps, or none at all when
there was no such operation. -/
inductive LastWork (crypto : Ed25519) : List (Event crypto) → List (List Entry) → Prop
  | idle (events : List (Event crypto)) (h : ∀ e ∈ events, e.before.working e.input = none) :
    LastWork crypto events [[]]
  | work (past later : List (Event crypto)) (e : Event crypto) (store : ChunkStore) (op : Operation)
    (h : e.before.working e.input = some (store, op))
    (hlater : ∀ e' ∈ later, e'.before.working e'.input = none) :
    LastWork crypto (past ++ e :: later)
      (store.index :: op.stages crypto store.limits store.index)

theorem LastWork.append_idle {events : List (Event crypto)} (h : LastWork crypto events ls)
    {e : Event crypto} (he : e.before.working e.input = none) :
    LastWork crypto (events ++ [e]) ls := by
  cases h with
  | idle _ h => exact .idle _ (forall_mem_concat h he)
  | work past later e₀ store op h hlater =>
    rw [List.append_assoc, List.cons_append]
    exact .work past (later ++ [e]) e₀ store op h (forall_mem_concat hlater he)

section

variable {start : Cache} (h : start.Kept crypto cacheId [[]]) (requests : List (Request crypto))

include h requests

/-- After every run, the chunks are those of a step of the last operation. -/
theorem kept_run : ∃ ls, LastWork crypto ((machine crypto).events start requests) ls ∧
      ((machine crypto).run start requests).Kept crypto cacheId ls := by
  refine Machine.history_invariant (P := fun past cache => ∃ ls, LastWork crypto past ls ∧
    cache.Kept crypto cacheId ls) ⟨[[]], .idle [] (by simp), h⟩ ?_ requests
  rintro past cache request ⟨ls, hlast, hkept⟩
  rcases hw : cache.working request with _ | ⟨store, op⟩
  · exact ⟨ls, hlast.append_idle hw, (hkept.next_of_idle hw).1⟩
  · exact ⟨_, .work past [] _ store op hw (by simp), (hkept.next_of_working hw).1⟩

/-- The other steps of a run leave the files of the chunks and of the index as they are. -/
theorem files_of_idle :
    ∀ e ∈ (machine crypto).events start requests, e.before.working e.input = none →
      ∀ name, ChunkStore.Writes name → e.after.disk.files name = e.before.disk.files name := by
  intro e he hw
  obtain ⟨⟨ls, hkept⟩, heq⟩ :=
    Machine.events_invariant (P := fun cache => ∃ ls, Kept crypto cacheId ls cache)
    (fun _ request ⟨_, hkept⟩ => hkept.next request) ⟨[[]], h⟩ requests e he
  rw [heq]
  exact (hkept.next_of_idle hw).2

end

/-- **A cache that opens after a crash has the chunks of one step.** After any run on a new cache,
with calls that fail as they like and the last operation cut off at any call, the directory does not
open, or it opens with an index that is, up to the order, the one before the last operation on a
healthy store or the one after one of its steps. Every chunk of the index has a file of its length,
the limits hold, and the directory has no other chunks. The steps after that operation changed
nothing: they were refused, or they opened or closed the cache or observed a name. -/
theorem crash_consistent (host₀ : Host) (limits₀ : CacheLimits) (entropy : Option (FixedBytes 32))
    (requests : List (Request crypto)) (op : Operation) (host : Host) (n : ℕ) (host' : Host)
    (limits' : CacheLimits) {store : ChunkStore}
    (hopen : (openCache crypto host' limits'
      ((machine crypto).run (created crypto host₀ limits₀ entropy)
        (requests ++ [⟨host.crashAt n, .perform op⟩])).disk).1 = .ok store) :
    (∃ ls, LastWork crypto ((machine crypto).events (created crypto host₀ limits₀ entropy)
        (requests ++ [⟨host.crashAt n, .perform op⟩])) ls ∧ ∃ l ∈ ls, store.index.Perm l) ∧
      (∀ e ∈ (machine crypto).events (created crypto host₀ limits₀ entropy)
          (requests ++ [⟨host.crashAt n, .perform op⟩]), e.before.working e.input = none →
        ∀ name, ChunkStore.Writes name → e.after.disk.files name = e.before.disk.files name) ∧
      (∀ entry ∈ store.index, ∃ bytes, store.disk.files (.chunk entry.id) = some bytes ∧
        bytes.length = entry.length) ∧
      (∀ id, store.disk.files (.chunk id) ≠ none → id ∈ store.index.map Entry.id) ∧
      store.index.length ≤ limits'.maxEntries ∧
      (store.index.map Entry.length).sum ≤ limits'.maxBytes := by
  set start := created crypto host₀ limits₀ entropy with hstart
  obtain ⟨cacheId, hid⟩ : ∃ cacheId, ∀ id, entropy = some id → id = cacheId := by
    cases entropy with
    | none => exact ⟨crypto.sha256 [], by simp⟩
    | some cacheId => exact ⟨cacheId, fun id h => (Option.some.inj h).symm⟩
  have hkept : start.Kept crypto cacheId [[]] := (created_kept hid).1
  obtain ⟨ls, hlast, hrun⟩ := kept_run hkept (requests ++ [⟨host.crashAt n, .perform op⟩])
  have hleft : ChunkStore.Left crypto cacheId (ChunkStore.Among ls)
      ((machine crypto).run start (requests ++ [⟨host.crashAt n, .perform op⟩])).disk.files := by
    generalize (machine crypto).run start (requests ++ [⟨host.crashAt n, .perform op⟩]) = cache
      at hrun
    cases cache with
    | closed disk => exact hrun
    | opened s => exact hrun.1 ▸ hrun.2.left
  obtain ⟨-, hopened⟩ := (ensures_openCache hleft).of_ok hopen
  refine ⟨⟨ls, hlast, hopened.listed⟩, files_of_idle hkept _, hopened.sound.stored.present,
    fun id hfile => ?_, ?_, ?_⟩
  · obtain ⟨bytes, hbytes⟩ := Option.ne_none_iff_exists'.mp hfile
    obtain ⟨-, entry, hentry, rfl⟩ := hopened.sound.stored.owned id bytes hbytes
    exact List.mem_map_of_mem hentry
  · have htidy := hopened.sound.tidy
    rw [htidy.length_index, ← hopened.limits]
    exact htidy.count
  · have htidy := hopened.sound.tidy
    rw [htidy.sum_index, ← hopened.limits]
    exact htidy.total

namespace Sample

def primitives : Ed25519 := .ofSignatures []

def host : Host := ⟨fun _ => false, fun _ => some (2 ^ 40), 1, 2, 1000⟩

def limits : CacheLimits := ⟨100, 2, 1000⟩

def start : Cache := created primitives host limits (some (.ofNat 32 7))

def requests : List (Request primitives) := [⟨host, .perform (.put [1])⟩]

end Sample

/-- A second insertion, cut off before its last call: the cache opens with both chunks. -/
theorem crash_consistent_second_put : ∃ store,
    (openCache Sample.primitives Sample.host Sample.limits
      ((machine Sample.primitives).run Sample.start
        (Sample.requests ++ [⟨Sample.host.crashAt 37, .perform (.put [2])⟩])).disk).1 = .ok store ∧
      store.index.length = 2 ∧ (store.index.map Entry.length).sum ≤ Sample.limits.maxBytes := by
  have hopens : ∀ result : Except Error ChunkStore,
      (result.map fun store => store.index.length) = .ok 2 →
      ∃ store, result = .ok store ∧ store.index.length = 2 := by
    rintro (e | store) h
    · cases h
    · exact ⟨store, rfl, Except.ok.inj h⟩
  obtain ⟨store, hopen, hlength⟩ := hopens (openCache Sample.primitives Sample.host
    Sample.limits ((machine Sample.primitives).run Sample.start (Sample.requests ++
      [⟨Sample.host.crashAt 37, .perform (.put [2])⟩])).disk).1 (by decide +kernel)
  exact ⟨store, hopen, hlength, (crash_consistent Sample.host Sample.limits (some (.ofNat 32 7))
    Sample.requests _ Sample.host 37 Sample.host Sample.limits hopen).2.2.2.2.2⟩

end Cache

end Volparossa.Content
