import Volparossa.PrivateStorage.Outcome

/-!
# Deletion is final

A deletion of an archive leaves a tombstone with which the request that made it is still authorized
(`Buried`), and every use of the provider keeps it. **`deletion_final`** draws the consequences:
nothing of the archive is left or comes back, repeated deletions return the same receipt, and what
the deletion released is exactly the lease. Readings and refused requests change nothing, and a
renewal shortens no lease.
-/

namespace Volparossa.PrivateStorage

section Tombstones

variable {crypto : Ed25519} {request : VerifiedStorageRequest} {db db' : Database} {env : Env}
  {binding : Binding} {appendPayload : Bytes} {now : ℕ}

/-- A request is authorized for a binding that has become a tombstone. -/
structure Buried (crypto : Ed25519) (request : VerifiedStorageRequest) (binding : Binding)
    (db : Database) : Prop where
  authorized : db.authorize crypto request = .ok binding
  deleted : binding.deleted = true

/-- Who is authorized depends on the grant and the target of a request. -/
theorem Buried.of_eq {other : VerifiedStorageRequest} (h : Buried crypto request binding db)
    (hgrant : other.grant = request.grant) (htarget : other.target = request.target) :
    Buried crypto other binding db := by
  refine ⟨?_, h.deleted⟩
  rw [← h.authorized]
  simp only [Database.authorize, Database.authorizedBinding, Database.checkBinding, hgrant, htarget]

theorem authorize_congr
    (hgrants : db'.grants.lookup (request.grant.id crypto) =
      db.grants.lookup (request.grant.id crypto))
    (hbindings : db'.bindings.lookup request.pair = db.bindings.lookup request.pair) :
    db'.authorize crypto request = db.authorize crypto request := by
  have hfind : db'.findBinding request.grant request.target =
      db.findBinding request.grant request.target := hbindings
  simp only [Database.authorize, Database.checkGrant, Database.authorizedBinding, hgrants, hfind]

/-- The tables of a provider in use. -/
structure Sound (crypto : Ed25519) (provider : FixedBytes 32) (db : Database) : Prop where
  accounted : Accounted crypto db
  intact : Intact crypto.toCrypto db
  provider : db.provider = provider

theorem Sound.next {provider : FixedBytes 32} (h : Sound crypto provider db) (call : Call crypto) :
    Sound crypto provider ((machine crypto).next db call) :=
  ⟨h.accounted.next call, h.intact.next call, (framed_next db call).provider.trans h.provider⟩

namespace Buried

/-- A request keeps the tombstones. -/
theorem confined (h : Buried crypto request binding db) {other : VerifiedStorageRequest}
    (hconfined : Confined crypto other db db') : Buried crypto request binding db' := by
  have huses := uses_of_authorize h.authorized
  obtain ⟨deleted, hmem, hdeleted⟩ :=
    hconfined.identity binding (Table.mem_of_lookup huses.lookup)
  have hbinding : { binding with deleted := deleted } = binding := by
    rw [hdeleted h.deleted, ← h.deleted]
  rw [hbinding] at hmem
  have hkey : db'.bindings.lookup binding.key = some binding := Table.lookup_key _ hmem
  rw [Table.key_of_lookup huses.lookup] at hkey
  obtain ⟨record, hlookup, -⟩ := huses.registered
  refine ⟨?_, h.deleted⟩
  rw [authorize_congr (by rw [hlookup, lookup_grants hconfined hlookup])
    (by rw [hkey, huses.lookup]), h.authorized]

/-- **Every use of the provider keeps the tombstones.** -/
theorem next (hdb : Accounted crypto db) (h : Buried crypto request binding db)
    (call : Call crypto) :
    Buried crypto request binding ((machine crypto).next db call) :=
  next_cases call (fun _ _ _ _ _ => h.confined ((committed_apply ..).change.confined hdb))
    fun _ _ => ⟨h.authorized, h.deleted⟩

theorem run {provider : FixedBytes 32} (hdb : Sound crypto provider db)
    (h : Buried crypto request binding db) (later : List (Call crypto)) :
    Sound crypto provider ((machine crypto).run db later) ∧
      Buried crypto request binding ((machine crypto).run db later) :=
  Machine.run_invariant
    (P := fun db => Sound crypto provider db ∧ Buried crypto request binding db)
    (fun _ call h => ⟨h.1.next call, h.2.next h.1.accounted call⟩) ⟨hdb, h⟩ later

/-- There is no lease of a tombstone. -/
theorem lookup_eq_none (hdb : Accounted crypto db) (h : Buried crypto request binding db) :
    db.leases.lookup binding.leaseId = none := by
  rw [Table.lookup_eq_none]
  intro archive harchive hid
  obtain ⟨binding', hmem', hlive, hid'⟩ := hdb.owned archive harchive
  have hmem := Table.mem_of_lookup (uses_of_authorize h.authorized).lookup
  obtain rfl := List.inj_on_of_nodup_map hdb.distinct hmem' hmem (hid'.trans hid)
  rw [h.deleted] at hlive
  cases hlive

/-- **Only deletions succeed on a tombstone**, and they return its receipt. -/
theorem eq_of_apply (hdb : Accounted crypto db) (hintact : Intact crypto.toCrypto db)
    (h : Buried crypto request binding db) {other : VerifiedStorageRequest}
    (hpair : other.pair = request.pair) {result : ProviderResult}
    (hresult : (db.apply crypto env other appendPayload now).1 = .ok result) :
    other.operation = .delete ∧ result = ⟨⟨.deleted, binding.leaseId, 0, 0, none⟩, []⟩ := by
  have huses := uses_of_authorize h.authorized
  have hafter :=
    h.confined ((committed_apply crypto db env other appendPayload now).change.confined hdb)
  have hanswer : Answer crypto other now db (db.apply crypto env other appendPayload now) :=
    answer_apply hintact
  generalize db.apply crypto env other appendPayload now = answer at hresult hafter hanswer
  cases hanswer with
  | refused e => cases hresult
  | @deleted binding' hoperation hbinding =>
    have hlookup := (uses_of_authorize hbinding).lookup
    rw [hpair, huses.lookup, Option.some.injEq] at hlookup
    rw [← Except.ok.inj hresult, hlookup]
    exact ⟨hoperation, rfl⟩
  | @served binding' archive result' db' huses' hlive hserving =>
    have hlookup := huses'.lookup
    rw [hpair, (uses_of_authorize hafter.authorized).lookup, Option.some.injEq] at hlookup
    rw [← hlookup, h.deleted] at hlive
    cases hlive

/-- **A deletion can be repeated** for as long as the request is current. -/
theorem apply_eq (h : Buried crypto request binding db) (hoperation : request.operation = .delete)
    (hprovider : request.grant.provider = db.provider)
    (hcurrent : request.current crypto now = .ok ()) (hcommits : env.commits = true) :
    db.apply crypto env request [] now =
      (.ok ⟨⟨.deleted, binding.leaseId, 0, 0, none⟩, []⟩, db) := by
  have hentry : db.checkEntry crypto request [] now = .ok () := by
    simp only [Database.checkEntry, Database.checkPayload, hcurrent, hoperation]
    rw [refuse_of_not (by simp [hprovider]), refuse_of_not (by simp)]
    rfl
  have hdelete : db.deleteBody binding = .ok ((), db) := by
    rw [Database.deleteBody, if_pos h.deleted]
    rfl
  simp only [Database.apply, hentry, hoperation, h.authorized, if_true, Database.delete, hdelete,
    transaction, hcommits]

end Buried

/-- What a deletion leaves is a tombstone. -/
theorem buried_deleteLease (h : db.authorize crypto request = .ok binding) :
    Buried crypto request { binding with deleted := true }
      (if binding.deleted then db else db.deleteLease binding.leaseId) := by
  split
  · next hdeleted =>
    have hbinding : { binding with deleted := true } = binding := by rw [← hdeleted]
    rw [hbinding]
    exact ⟨h, hdeleted⟩
  · simp only [Database.authorize, Database.authorizedBinding, ok_iff] at h
    obtain ⟨⟨⟩, hgrant, binding', hfind, ⟨⟩, hcheck, rfl⟩ := h
    have hfind' : (db.deleteLease binding'.leaseId).findBinding request.grant request.target =
        some { binding' with deleted := true } := by
      have hlookup : db.bindings.lookup (request.grant.owner, request.target.archiveId) =
        some binding' := hfind
      simp only [Database.findBinding, Database.deleteLease, Table.lookup_map, hlookup,
        Option.map_some, Binding.bury, if_true]
    have hgrant' : (db.deleteLease binding'.leaseId).checkGrant crypto request.grant = .ok () :=
      hgrant
    have hcheck' : Database.checkBinding crypto { binding' with deleted := true } request =
        .ok () :=
      hcheck
    refine ⟨?_, rfl⟩
    simp only [Database.authorize, Database.authorizedBinding, hgrant', hfind', orFail_some,
      ok_bind, hcheck', pure_ok]

/-! ## What a deletion releases -/

/-- The lease of a binding is released, and nothing else. -/
structure Released (binding : Binding) (archive : StoredArchive) (db db' : Database) : Prop where
  leases : db'.leases = db.leases.erase binding.leaseId
  totalBytes : db'.totalBytes + archive.ciphertextBytes = db.totalBytes
  slots : db'.leases.rows.length + 1 = db.leases.rows.length
  chargedBytes : db'.chargedBytes binding.grantId + archive.ciphertextBytes =
    db.chargedBytes binding.grantId
  chargedLeases : db'.chargedLeases binding.grantId + 1 = db.chargedLeases binding.grantId
  others : ∀ grantId, grantId ≠ binding.grantId →
    db'.chargedBytes grantId = db.chargedBytes grantId ∧
      db'.chargedLeases grantId = db.chargedLeases grantId

/-- A total over the bindings loses what the buried binding contributed. -/
theorem sum_bury (hdb : Accounted crypto db) (hmem : binding ∈ db.bindings.rows) (g : Binding → ℕ)
    (hg : g { binding with deleted := true } = 0) :
    (db.deleteLease binding.leaseId).bindings.sum g + g binding = db.bindings.sum g := by
  have hsum := Table.sum_map_modify hdb.distinct hmem rfl
    (fun row => { row with deleted := true }) g
  rw [hg, Nat.add_zero] at hsum
  exact hsum

theorem released_deleteLease (hdb : Accounted crypto db) (hmem : binding ∈ db.bindings.rows)
    (hlive : binding.deleted = false) {archive : StoredArchive}
    (hlookup : db.leases.lookup binding.leaseId = some archive) :
    Released binding archive db (db.deleteLease binding.leaseId) := by
  obtain ⟨archive', hlookup', hbytes, -⟩ := hdb.bound binding hmem hlive
  obtain rfl := Option.mem_unique hlookup hlookup'
  have hcharges : Database.charges binding.grantId binding = true := by
    simp [Database.charges, hlive]
  have hbury : ∀ grantId, Database.charges grantId { binding with deleted := true } = false := by
    simp [Database.charges]
  refine ⟨rfl, Table.sum_erase hlookup _, Table.length_erase hlookup, ?_, ?_, fun grantId hne => ?_⟩
  · have hsum := sum_bury hdb hmem (fun row => if Database.charges binding.grantId row then
      row.ciphertextBytes else 0) (by simp [hbury])
    rw [if_pos hcharges] at hsum
    rw [Database.chargedBytes, Database.chargedBytes, Table.sumWhere_eq_sum, Table.sumWhere_eq_sum,
      hbytes, hsum]
  · have hsum :=
      sum_bury hdb hmem (fun row => if Database.charges binding.grantId row then 1 else 0)
      (by simp [hbury])
    rw [if_pos hcharges] at hsum
    rw [Database.chargedLeases, Database.chargedLeases, Table.count_eq_sum, Table.count_eq_sum,
      hsum]
  · refine Database.charged_deleteLease_eq fun binding' hmem' hid => ?_
    obtain rfl := List.inj_on_of_nodup_map hdb.distinct hmem' hmem hid
    exact hne.symm

/-- A deletion releases the lease of its binding, unless it is a tombstone already. -/
theorem released_of_authorize (hdb : Accounted crypto db)
    (h : db.authorize crypto request = .ok binding) :
    let db' := if binding.deleted then db else db.deleteLease binding.leaseId
    db.leases.lookup binding.leaseId = none ∧ db' = db ∨
      ∃ archive, db.leases.lookup binding.leaseId = some archive ∧
        Released binding archive db db' := by
  dsimp only
  split
  · next hdeleted => exact .inl ⟨Buried.lookup_eq_none hdb ⟨h, hdeleted⟩, rfl⟩
  · next hdeleted =>
    have hmem := Table.mem_of_lookup (uses_of_authorize h).lookup
    have hlive := Bool.eq_false_of_not_eq_true hdeleted
    obtain ⟨archive, hlookup, -⟩ := hdb.bound binding hmem hlive
    exact .inr ⟨archive, hlookup, released_deleteLease hdb hmem hlive hlookup⟩

/-! ## The theorem -/

/-- An operation that only reads. -/
def StorageOperation.Reads : StorageOperation → Prop
  | .progress | .readRange _ _ => True
  | _ => False

/-- A request that only reads leaves the tables. -/
theorem apply_eq_self (h : request.operation.Reads) :
    (db.apply crypto env request appendPayload now).2 = db := by
  have hexecute : ∀ id, (db.execute crypto env id request.operation appendPayload now).2 = db := by
    intro id
    cases hoperation : request.operation with
    | progress | readRange => rfl
    | reserve | append | finalize | renew | delete => rw [hoperation] at h; cases h
  unfold Database.apply
  split
  · rfl
  · split
    · next hoperation => rw [hoperation] at h; cases h
    · split
      · rfl
      · split
        · next hoperation => rw [hoperation] at h; cases h
        · split
          · rfl
          · exact hexecute _

/-- A request that reads, or that is refused, changes nothing; and only a deletion takes a lease
away or shortens one. -/
theorem apply_frame (hintact : Intact crypto.toCrypto db) :
    let answer := db.apply crypto env request appendPayload now
    (request.operation.Reads ∨ (∃ e, answer.1 = .error e) → answer.2 = db) ∧
    (request.operation ≠ .delete → ∀ id archive, db.leases.lookup id = some archive →
      ∃ archive', answer.2.leases.lookup id = some archive' ∧
        archive.expiresAtUnix ≤ archive'.expiresAtUnix) := by
  intro answer
  refine ⟨?_, fun hoperation id archive hlookup => ?_⟩
  · rintro (hreads | ⟨e, he⟩)
    · exact apply_eq_self hreads
    · have hanswer : Answer crypto request now db answer := answer_apply hintact
      exact hanswer.eq_of_error he
  · obtain ⟨-, kind, hkind, heffect⟩ :=
      (committed_apply crypto db env request appendPayload now).operation
    have hkept : answer.2.leases.lookup id ≠ none := by
      refine heffect.lookup_ne_none (fun hdeleted => hoperation (hkind id hdeleted)) ?_
      rw [hlookup]
      exact Option.some_ne_none _
    obtain ⟨archive', hlookup'⟩ := Option.ne_none_iff_exists'.mp hkept
    exact ⟨archive', hlookup', ((heffect.lease hintact hlookup').2 archive hlookup).1.expiresAtUnix⟩

/-- **Deletion is final.** After a deletion has succeeded, whatever happens later, there is a
tombstone for the owner and archive: no lease and no chunk of it is left and it is charged to no
grant, a request for the owner and archive succeeds only if it is a deletion, with the same receipt,
and every deletion of the same target under the same grant, signed anew or not, does succeed while
it is current. What the deletion released is exactly the lease. A request that reads or that is
refused never changes anything, and without a deletion every lease stays and expires no earlier than
before. -/
theorem deletion_final {limits : StorageLimits} {provider : FixedBytes 32} {db₀ : Database}
    (hcreate : Database.create crypto limits provider = .ok db₀) (calls : List (Call crypto)) :
    let db := (machine crypto).run db₀ calls
    (∀ (request : OwnerRequest crypto) (appendPayload : Bytes) (env : Env) (now : ℕ)
        (result : ProviderResult) (db₁ : Database), request.1.operation = .delete →
        db.apply crypto env request.1 appendPayload now = (.ok result, db₁) →
      ∃ binding : Binding, binding.deleted = true ∧
        result = ⟨⟨.deleted, binding.leaseId, 0, 0, none⟩, []⟩ ∧
        (db.leases.lookup binding.leaseId = none ∧ db₁ = db ∨
          ∃ archive, db.leases.lookup binding.leaseId = some archive ∧
            Released binding archive db db₁) ∧
        ∀ later, let db₂ := (machine crypto).run db₁ later
          db₂.bindings.lookup request.1.pair = some binding ∧
          db₂.leases.lookup binding.leaseId = none ∧ db₂.chunksOf binding.leaseId = [] ∧
          (∀ grantId, Database.charges grantId binding = false) ∧
          (∀ (other : OwnerRequest crypto) (appendPayload' : Bytes) (env' : Env) (now' : ℕ)
              (result' : ProviderResult), other.1.pair = request.1.pair →
            (db₂.apply crypto env' other.1 appendPayload' now').1 = .ok result' →
              other.1.operation = .delete ∧ result' = result) ∧
          ∀ (other : OwnerRequest crypto) (env' : Env) (now' : ℕ), other.1.operation = .delete →
            other.1.grant = request.1.grant → other.1.target = request.1.target →
            env'.commits = true → other.1.current crypto now' = .ok () →
            db₂.apply crypto env' other.1 [] now' = (.ok result, db₂)) ∧
      ∀ (request : OwnerRequest crypto) (appendPayload : Bytes) (env : Env) (now : ℕ),
        let answer := db.apply crypto env request.1 appendPayload now
        (request.1.operation.Reads ∨ (∃ e, answer.1 = .error e) → answer.2 = db) ∧
        (request.1.operation ≠ .delete → ∀ id archive, db.leases.lookup id = some archive →
          ∃ archive', answer.2.leases.lookup id = some archive' ∧
            archive.expiresAtUnix ≤ archive'.expiresAtUnix) := by
  intro db
  have hdb : Sound crypto db₀.provider db :=
    Machine.run_invariant (P := Sound crypto db₀.provider) (fun _ call h => h.next call)
      ⟨(Accounted.create hcreate).1, Intact.create hcreate, rfl⟩ calls
  refine ⟨fun request appendPayload env now result db₁ hoperation happly => ?_,
    fun request appendPayload env now => ?_⟩
  · have hdb₁ : Sound crypto db₀.provider db₁ := by
      have hnext := hdb.next (.apply request appendPayload env now)
      simpa only [Machine.next, machine, happly] using hnext
    have hprovider : request.1.grant.provider = db₀.provider :=
      (entry_of_apply (by rw [happly])).2.trans hdb.provider
    have hanswer :
        Answer crypto request.1 now db (db.apply crypto env request.1 appendPayload now) :=
      answer_apply hdb.intact
    rw [happly] at hanswer
    cases hanswer with
    | served huses hlive hserving =>
      have hreports := hserving.reports
      rw [hoperation] at hreports
      cases hreports
    | @deleted binding _ hbinding =>
      refine ⟨{ binding with deleted := true }, rfl, rfl, ?_, fun later => ?_⟩
      · obtain hgone | ⟨archive, hlookup, hreleased⟩ :=
          released_of_authorize hdb.accounted hbinding
        · exact .inl hgone
        · exact .inr ⟨archive, hlookup, { hreleased with }⟩
      · intro db₂
        obtain ⟨hdb₂, hburied⟩ := (buried_deleteLease hbinding).run hdb₁ later
        have hnone := hburied.lookup_eq_none hdb₂.accounted
        refine ⟨(uses_of_authorize hburied.authorized).lookup, hnone,
          hdb₂.intact.chunksOf_eq_nil hnone, fun grantId => by simp [Database.charges], ?_, ?_⟩
        · intro other appendPayload' env' now' result' hpair hresult
          exact hburied.eq_of_apply hdb₂.accounted hdb₂.intact hpair hresult
        · intro other env' now' hother hgrant htarget hcommits hcurrent
          exact (hburied.of_eq hgrant htarget).apply_eq hother
            (by rw [hgrant, hprovider, hdb₂.provider]) hcurrent hcommits
  · exact apply_frame hdb.intact

end Tombstones

/-! ## An archive that is reserved and deleted -/

namespace Deletion

open Sample

/-- The deletion of the lease that the first reservation got. -/
def removal (nonce : UInt8) (signed : Signed) : VerifiedStorageRequest where
  signed := ⟨envelope owner (now + 30) nonce 3 (Protobuf.encode { first.payload with
    leaseId := List.replicate 16 7, command := some (.ofOperation .delete) }) signed⟩
  grant := grant₁.verified
  challengeId := grant₁.challengeId
  target := ⟨.replicate 32 1, some (.replicate 16 7), 12, Requested.sha256⟩
  operation := .delete
  validity := ⟨now, now + 30⟩

/-- The deletion. -/
def deletion : OwnerRequest primitives :=
  ⟨removal 40 removed, request₁.2.1, grant₁.storageChallenge, now, by decide +kernel⟩

/-- The deletion, signed once more. -/
def retry : OwnerRequest primitives :=
  ⟨removal 41 removedAgain, request₁.2.1, grant₁.storageChallenge, now, by decide +kernel⟩

def reserved : Database := (machine primitives).run start [.apply request₁ [] (env 7) now]

theorem apply_deletion : (reserved.apply primitives (env 8) deletion.1 [] now).1 =
    .ok ⟨⟨.deleted, .replicate 16 7, 0, 0, none⟩, []⟩ := by decide +kernel

/-- The tables after the deletion. -/
def after : Database := (reserved.apply primitives (env 8) deletion.1 [] now).2

theorem apply_eq_after : reserved.apply primitives (env 8) deletion.1 [] now =
    (.ok ⟨⟨.deleted, .replicate 16 7, 0, 0, none⟩, []⟩, after) := by
  rw [← apply_deletion, after]

end Deletion

/-- A lease of twelve bytes is deleted. Its archive cannot be reserved again, and a deletion that is
signed anew gets the same receipt. -/
theorem deletion_final_sample :
    Deletion.reserved.leases.rows.length = 1 ∧
      (∃ archive, Deletion.reserved.leases.lookup (.replicate 16 7) = some archive ∧
        archive.ciphertextBytes = 12) ∧
      (¬∃ result, (Deletion.after.apply Sample.primitives (Sample.env 9) Sample.request₁.1 []
        Sample.now).1 = .ok result) ∧
      Deletion.retry.1.signed ≠ Deletion.deletion.1.signed ∧
      Deletion.after.apply Sample.primitives (Sample.env 9) Deletion.retry.1 [] (Sample.now + 1) =
        (.ok ⟨⟨.deleted, .replicate 16 7, 0, 0, none⟩, []⟩, Deletion.after) := by
  obtain ⟨binding, -, -, -, hlater⟩ := (deletion_final Sample.create_start
    [.apply Sample.request₁ [] (Sample.env 7) Sample.now]).1 Deletion.deletion []
    (Sample.env 8) Sample.now _ _ rfl Deletion.apply_eq_after
  obtain ⟨-, -, -, -, hothers, hrepeated⟩ := hlater []
  refine ⟨by decide +kernel, ?_, ?_, by decide +kernel, ?_⟩
  · exact ⟨⟨.replicate 16 7, 12, Sample.Requested.sha256, Sample.now + 600,
      false⟩, by decide +kernel, rfl⟩
  · rintro ⟨result, hresult⟩
    have hpair : Sample.request₁.1.pair = Deletion.deletion.1.pair := rfl
    cases (hothers Sample.request₁ [] (Sample.env 9) Sample.now result hpair hresult).1
  · exact hrepeated Deletion.retry (Sample.env 9) (Sample.now + 1) rfl rfl rfl rfl
      (by decide +kernel)

end Volparossa.PrivateStorage
