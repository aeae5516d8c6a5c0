import Volparossa.PrivateStorage.Accounting

/-!
# Isolation of the owners of a private storage provider

A request works on one pair of an owner and an archive. `Confined` says what it leaves alone: the
bindings of all other pairs with their leases and chunks, the records of other grants, and the
identity of every binding. `SameView` says what of the tables a request looks at, apart from the
capacity that all share: the binding of its pair with its lease and chunks, and the record and the
charges of its grant. Two states with the same view give a request the same result, unless what all
share has no room for it in one of them (`similar_apply`); the limits of its own grant refuse it in
both or in none.

The main result is **`isolation`**: requests are confined, and requests under other grants for other
archives make no difference to a request but for exhaustion. The archive has to be another one also
when the owner is the same: an archive belongs to the grant that it was first reserved under
(`isolation_same_archive`).
-/

namespace Volparossa.PrivateStorage

open Transaction (checkedAdd)
open Sample
open Table

variable {crypto : Ed25519}

/-- The owner and the archive of a request. -/
def VerifiedStorageRequest.pair (request : VerifiedStorageRequest) :
    FixedBytes 32 × FixedBytes 32 :=
  (request.grant.owner, request.target.archiveId)

/-! ## What a request changes -/

/-- A request changes at most the binding of its pair with its lease and chunks, under the grant
that the binding was made under, and adds at most the record of its grant. -/
structure Confined (crypto : Ed25519) (request : VerifiedStorageRequest) (db db' : Database) :
    Prop where
  limits : db'.limits = db.limits
  provider : db'.provider = db.provider
  target : db'.admissionTargetBytes = db.admissionTargetBytes
  /-- The bindings of other pairs stay. -/
  bindings : ∀ pair, pair ≠ request.pair → db'.bindings.lookup pair = db.bindings.lookup pair
  /-- Nothing changes when the binding belongs to another grant. -/
  grant : ∀ binding, db.bindings.lookup request.pair = some binding →
    binding.grantId ≠ request.grant.id crypto → db' = db
  /-- The leases and chunks of other bindings stay. -/
  leases : ∀ id, (∀ binding, db'.bindings.lookup request.pair = some binding →
      binding.leaseId ≠ id) →
    db'.leases.lookup id = db.leases.lookup id ∧ db'.chunksOf id = db.chunksOf id
  /-- Only the record of the request's own grant is added. -/
  grants : db'.grants = db.grants ∨ db.grantOfCapability request.grant.capabilityId = none ∧
    db.grants.insert (Database.recordOf crypto request.grant) = some db'.grants
  /-- A binding keeps its grant, its lease and its identity, and a tombstone stays one. -/
  identity : ∀ binding ∈ db.bindings.rows, ∃ deleted,
    { binding with deleted := deleted } ∈ db'.bindings.rows ∧
    (binding.deleted = true → deleted = true)

namespace Database

variable {db : Database}

/-- A lease that is deleted takes one binding with it. -/
theorem bury_eq_self (h : Accounted crypto db) {binding : Binding}
    (hbinding : binding ∈ db.bindings.rows)
    {binding' : Binding} (hbinding' : binding' ∈ db.bindings.rows) (hne : binding' ≠ binding) :
    binding'.bury binding.leaseId = binding' :=
  Binding.bury_of_ne fun heq =>
    hne (List.inj_on_of_nodup_map h.distinct hbinding' hbinding heq)

end Database

namespace Confined

variable {db db' : Database} {request : VerifiedStorageRequest}

theorem refl (crypto : Ed25519) (request : VerifiedStorageRequest) (db : Database) :
    Confined crypto request db db where
  limits := rfl
  provider := rfl
  target := rfl
  bindings _ _ := rfl
  grant _ _ _ := rfl
  leases _ _ := ⟨rfl, rfl⟩
  grants := .inl rfl
  identity binding h := ⟨binding.deleted, h, fun hd => hd⟩

end Confined

/-- A request that is authorized works on a binding under its own grant. -/
theorem Database.grantId_of_authorize {db : Database} {request : VerifiedStorageRequest}
    {binding binding' : Binding} (h : db.authorize crypto request = .ok binding)
    (hlookup : db.bindings.lookup request.pair = some binding') :
    binding'.grantId = request.grant.id crypto := by
  obtain ⟨hlookup', hid⟩ := Database.authorize_eq_ok h
  obtain rfl := Option.mem_unique hlookup' hlookup
  exact hid

/-- **A request is confined to its pair and its grant.** -/
theorem Change.confined {db db' : Database} {request : VerifiedStorageRequest}
    (h : Accounted crypto db) (hchange : Change crypto request db db') :
    Confined crypto request db db' := by
  cases hchange with
  | unchanged => exact .refl crypto request db
  | registered hprovider hgrant hfind hcheck =>
    -- the grant of a binding is registered, so there was nothing to add
    obtain ⟨grants, rfl, ⟨rfl, -⟩ | ⟨-, hinsert⟩⟩ := Database.registerGrant_spec hgrant
    · exact .refl crypto request db
    · simp only [Database.checkBinding, ok_iff, not_or, not_not] at hcheck
      obtain ⟨-, ⟨hid, -⟩, -⟩ := hcheck
      have hregistered := h.registered _ (mem_of_lookup hfind)
      rw [hid] at hregistered
      exact absurd (insert_eq_some.mp hinsert).1 hregistered
  | created hcurrent hprovider hgrant hfind hcreate =>
    obtain ⟨grants, rfl, hgrants⟩ := Database.registerGrant_spec hgrant
    obtain ⟨leases, bindings, hlease, hbinding, rfl, -⟩ := Database.createBinding_spec hcreate
    refine ⟨rfl, rfl, rfl, ?_, ?_, ?_, hgrants.imp_left And.left, ?_⟩
    · intro pair hne
      change bindings.lookup pair = db.bindings.lookup pair
      rw [lookup_insert hbinding]
      exact if_neg (Ne.symm hne)
    · intro binding hlookup
      change db.bindings.lookup request.pair = none at hfind
      rw [hfind] at hlookup
      cases hlookup
    · intro id hid
      refine ⟨?_, rfl⟩
      have hnew := lookup_insert_self hbinding
      change leases.lookup id = db.leases.lookup id
      rw [lookup_insert hlease]
      exact if_neg (hid _ hnew)
    · intro binding hmem
      refine ⟨binding.deleted, ?_, fun hd => hd⟩
      change binding ∈ bindings.rows
      rw [rows_insert hbinding]
      exact List.mem_append_left _ hmem
  | @appended binding chunk chunks hbinding hlease hexists hinsert =>
    obtain ⟨hlookup, -⟩ := Database.authorize_eq_ok hbinding
    exact { Confined.refl crypto request db with
      grant := fun _ hlookup' hne => absurd (Database.grantId_of_authorize hbinding hlookup') hne
      leases := fun id hne =>
        ⟨rfl, Database.chunksOf_insert hinsert (hlease ▸ hne binding hlookup)⟩ }
  | @modified binding f hf hbinding hbytes hsha256 =>
    obtain ⟨hlookup, -⟩ := Database.authorize_eq_ok hbinding
    exact { Confined.refl crypto request db with
      grant := fun _ hlookup' hne => absurd (Database.grantId_of_authorize hbinding hlookup') hne
      leases := fun id hne =>
        ⟨@lookup_modify_of_ne _ _ _ _ _ _ f hf _ (hne binding hlookup).symm, rfl⟩ }
  | @deleted binding hbinding hlive =>
    obtain ⟨hlookup, -⟩ := Database.authorize_eq_ok hbinding
    have hmem := mem_of_lookup hlookup
    have hbindings : ∀ pair, (db.deleteLease binding.leaseId).bindings.lookup pair =
        (db.bindings.lookup pair).map (Binding.bury binding.leaseId) :=
      @lookup_map _ _ _ _ _ _ (Binding.key_bury _)
    refine ⟨rfl, rfl, rfl, ?_, ?_, ?_, .inl rfl, ?_⟩
    · intro pair hne
      rw [hbindings]
      cases hlookup' : db.bindings.lookup pair with
      | none => rfl
      | some binding' =>
        rw [Option.map_some, Database.bury_eq_self h hmem (mem_of_lookup hlookup')]
        rintro rfl
        exact hne ((key_of_lookup hlookup').symm.trans (key_of_lookup hlookup))
    · exact fun _ hlookup' hne => absurd (Database.grantId_of_authorize hbinding hlookup') hne
    · intro id hne
      have hne := hne (binding.bury binding.leaseId) (by
        rw [hbindings]
        exact congrArg _ hlookup)
      rw [Binding.leaseId_bury] at hne
      refine ⟨?_, Database.chunksOf_deleteLease hne⟩
      change (db.leases.erase binding.leaseId).lookup id = db.leases.lookup id
      rw [lookup_erase, if_neg hne.symm]
    · intro binding' hmem'
      obtain ⟨deleted, hdeleted⟩ := binding'.bury_eq binding.leaseId
      refine ⟨deleted, List.mem_map.mpr ⟨binding', hmem', hdeleted⟩, fun hd => ?_⟩
      have hflag := congrArg Binding.deleted hdeleted
      rw [Binding.bury] at hflag
      split at hflag
      · exact hflag.symm
      · exact hflag.symm.trans hd

/-! ## What a request looks at -/

/-- A lease and its chunks are the same in two states. -/
structure SameLease (id : FixedBytes 16) (db db' : Database) : Prop where
  limits : db'.limits = db.limits
  lease : db'.leases.lookup id = db.leases.lookup id
  chunks : db'.chunksOf id = db.chunksOf id

/-- A transaction returns the same when its bodies do, and leaves states that are related as those
before and those that the bodies leave. -/
theorem transaction_agrees {ε α : Type} {R : Database → Database → Prop} {db db' : Database}
    {commits : Bool} {database : ε} {body body' : Except ε (α × Database)}
    (h : Agrees (fun a b => a.1 = b.1 ∧ R b.2 a.2) body' body) (hR : R db db') :
    (transaction db' commits database body').1 = (transaction db commits database body).1 ∧
      R (transaction db commits database body).2 (transaction db' commits database body').2 := by
  unfold transaction
  rcases body with e | ⟨a, db₁⟩ <;> rcases body' with e' | ⟨a', db₁'⟩
  · obtain rfl : e' = e := h
    exact ⟨rfl, hR⟩
  · exact h.elim
  · exact h.elim
  · obtain ⟨rfl, h⟩ : a' = a ∧ R db₁ db₁' := h
    cases commits with
    | false => exact ⟨rfl, hR⟩
    | true => exact ⟨rfl, h⟩

namespace SameLease

variable {id : FixedBytes 16} {db db' : Database} (h : SameLease id db db')

include h

theorem load : db'.load id = db.load id := by
  simp only [Database.load, h.lease]

theorem currentArchive (now : ℕ) : db'.currentArchive id now = db.currentArchive id now := by
  simp only [Database.currentArchive, h.load]

theorem uploadProgress (now : ℕ) : db'.uploadProgress id now = db.uploadProgress id now := by
  simp only [Database.uploadProgress, h.currentArchive, h.chunks]

theorem readResult (offset length now : ℕ) :
    db'.readResult crypto id offset length now = db.readResult crypto id offset length now := by
  simp only [Database.readResult, Database.readRange, h.currentArchive, h.chunks]

/-- A chunk can be inserted in both states, or in none. -/
theorem insertChunk {chunk : Chunk} (hchunk : chunk.leaseId = id) :
    Agrees (fun _ _ => True) (db'.insertChunk chunk) (db.insertChunk chunk) := by
  have hmem : ∀ (db : Database), db.chunks.lookup chunk.key = none ↔
      ∀ c ∈ db.chunksOf id, c.ordinal ≠ chunk.ordinal := by
    intro db
    simp only [lookup_eq_none, Database.chunksOf, (orderBy_perm _ _ _).mem_iff,
      mem_filter, decide_eq_true_eq]
    constructor
    · rintro hnone c ⟨hc, hid⟩ hordinal
      exact hnone c hc (Prod.ext (hid.trans hchunk.symm) hordinal)
    · intro hnone c hc hkey
      exact hnone c ⟨hc, (congrArg Prod.fst hkey).trans hchunk⟩ (congrArg Prod.snd hkey)
  have hlookup : db'.chunks.lookup chunk.key = none ↔ db.chunks.lookup chunk.key = none := by
    rw [hmem, hmem, h.chunks]
  simp only [Database.insertChunk, hchunk, h.lease]
  refine .bind_eq rfl fun _ => ?_
  by_cases hnone : db.chunks.lookup chunk.key = none
  · obtain ⟨chunks, hinsert, -⟩ := exists_insert hnone
    obtain ⟨chunks', hinsert', -⟩ := exists_insert (hlookup.mpr hnone)
    rw [hinsert, hinsert']
    trivial
  · rw [insert_eq_none hnone, insert_eq_none (hlookup.not.mpr hnone)]
    rfl

theorem appendChunk (env : Env) (ordinal : ℕ) (sha256 : FixedBytes 32) (bytes : Bytes) (now : ℕ) :
    (db'.appendChunk crypto.toCrypto env id ordinal sha256 bytes now).1 =
      (db.appendChunk crypto.toCrypto env id ordinal sha256 bytes now).1 := by
  refine (transaction_agrees (R := fun _ _ => True) ?_ trivial).1
  unfold Database.appendBody
  refine .bind_eq (h.currentArchive now) fun archive => .bind_eq rfl fun length =>
    .bind_eq rfl fun _ => .bind_eq rfl fun _ => .bind_eq (by rw [h.chunks]) fun progress => ?_
  split
  · exact .bind_eq (by rw [h.chunks]) fun _ => ⟨rfl, trivial⟩
  · exact .bind_eq rfl fun _ => .bind_eq rfl fun _ => .bind_eq (by rw [h.limits]) fun _ =>
      (h.insertChunk rfl).bind fun _ _ _ => ⟨rfl, trivial⟩

theorem modifyLease {f : StoredArchive → StoredArchive}
    {hf : ∀ archive, (f archive).leaseId = archive.leaseId} :
    SameLease id (db.modifyLease id f hf) (db'.modifyLease id f hf) := by
  refine ⟨h.limits, ?_, h.chunks⟩
  simp only [Database.modifyLease, lookup_modify, h.lease]

theorem finalize (env : Env) (now : ℕ) :
    (db'.finalize crypto.toCrypto env id now).1 = (db.finalize crypto.toCrypto env id now).1 := by
  refine (transaction_agrees (R := fun _ _ => True) ?_ trivial).1
  unfold Database.finalizeBody
  exact .bind_eq (h.currentArchive now) fun archive => .bind_eq (by rw [h.chunks]) fun _ =>
    ⟨rfl, trivial⟩

/-- A renewal returns the same, and leaves the lease the same. -/
theorem renew (env : Env) (newExpiry now : ℕ) :
    (db'.renew env id newExpiry now).1 = (db.renew env id newExpiry now).1 ∧
      SameLease id (db.renew env id newExpiry now).2 (db'.renew env id newExpiry now).2 := by
  refine transaction_agrees ?_ h
  unfold Database.renewBody
  exact .bind_eq rfl fun _ => .bind_eq h.load fun archive => .bind_eq rfl fun _ =>
    ⟨rfl, h.modifyLease⟩

theorem delete {binding : Binding} (hbinding : binding.leaseId = id) (env : Env) :
    (db'.delete env binding).1 = (db.delete env binding).1 := by
  have hbody : Agrees (fun a b => a.1 = b.1 ∧ True) (db'.deleteBody binding)
      (db.deleteBody binding) := by
    unfold Database.deleteBody Database.checkArchive
    split
    · exact ⟨rfl, trivial⟩
    · rw [hbinding, h.load, h.lease]
      exact .bind_eq rfl fun _ => .bind_eq rfl fun _ => ⟨rfl, trivial⟩
  have hresult : (transaction db' env.commits (.storage .database) (db'.deleteBody binding)).1 =
      (transaction db env.commits (.storage .database) (db.deleteBody binding)).1 :=
    (transaction_agrees (R := fun _ _ => True) hbody trivial).1
  unfold Database.delete
  rcases hdb : transaction db env.commits _ (db.deleteBody binding) with ⟨_ | _, db₁⟩ <;>
    rcases hdb' : transaction db' env.commits _ (db'.deleteBody binding) with ⟨_ | _, db₁'⟩ <;>
      simp only [hdb, hdb', reduceCtorEq, Except.error.injEq] at hresult
  · rw [hresult]
  · rfl

/-- **An operation on a lease depends on the lease and its chunks only.** -/
theorem execute (env : Env) (operation : StorageOperation) (appendPayload : Bytes) (now : ℕ) :
    (db'.execute crypto env id operation appendPayload now).1 =
      (db.execute crypto env id operation appendPayload now).1 := by
  cases operation with
  | reserve | delete => rfl
  | append offset length sha256 =>
    simp only [Database.execute, Database.observe, h.appendChunk]
  | progress => simp only [Database.execute, Database.observe, h.uploadProgress]
  | finalize => simp only [Database.execute, Database.observe, h.finalize]
  | readRange offset length => simp only [Database.execute, Database.observe, h.readResult]
  | renew expiresAt =>
    obtain ⟨hresult, hlease⟩ := h.renew env expiresAt now
    simp only [Database.execute]
    rcases hdb : db.renew env id expiresAt now with ⟨_ | _, db₁⟩ <;>
      rcases hdb' : db'.renew env id expiresAt now with ⟨_ | _, db₁'⟩ <;>
        simp only [hdb, hdb', reduceCtorEq, Except.error.injEq, Except.ok.injEq] at hresult hlease
    · rw [hresult]
    · simp only [Database.observe, hlease.uploadProgress]

end SameLease

/-- What a request looks at is the same in two states: the binding of its pair with its lease and
chunks, and the record and the charges of its grant. -/
structure SameView (crypto : Ed25519) (request : VerifiedStorageRequest) (db db' : Database) :
    Prop where
  provider : db'.provider = db.provider
  limits : db'.limits = db.limits
  binding : db'.bindings.lookup request.pair = db.bindings.lookup request.pair
  lease : ∀ binding, db.bindings.lookup request.pair = some binding →
    SameLease binding.leaseId db db'
  capability : db'.grantOfCapability request.grant.capabilityId =
    db.grantOfCapability request.grant.capabilityId
  grant : db'.grants.lookup (request.grant.id crypto) = db.grants.lookup (request.grant.id crypto)
  chargedBytes : db'.chargedBytes (request.grant.id crypto) =
    db.chargedBytes (request.grant.id crypto)
  chargedLeases : db'.chargedLeases (request.grant.id crypto) =
    db.chargedLeases (request.grant.id crypto)

/-- The lease identifier that is drawn was not used before. -/
def Database.Fresh (db : Database) (env : Env) : Prop :=
  ∀ id, env.leaseId = some id → ∀ binding ∈ db.bindings.rows, binding.leaseId ≠ id

namespace Accounted

variable {db : Database}

theorem usage (h : Accounted crypto db) :
    db.usage = .ok ⟨db.leasedBytes false, db.leasedBytes true, db.leases.rows.length⟩ := by
  have htotal := db.leasedBytes_add
  have hle := h.total_le
  have hcapacity := h.capacity_le
  have hlength := h.length_le
  rw [maxCapacityBytes] at hcapacity
  rw [Database.usage, refuse_of_not, ok_bind, pure_ok]
  dsimp only
  rw [Transaction.checkedAdd_of_lt (by omega), Option.all_some, decide_eq_true_eq]
  omega

theorem target (h : Accounted crypto db) : db.target = .ok db.admissionTargetBytes := by
  have htarget := h.target_le
  rw [Database.target, refuse_of_not (by omega), ok_bind, pure_ok]

/-- A lease whose identifier is new can be inserted, and it has no chunks. -/
theorem insertLease (h : Accounted crypto db) (archive : StoredArchive)
    (hfresh : ∀ binding ∈ db.bindings.rows, binding.leaseId ≠ archive.leaseId)
    (hexpires : archive.expiresAtUnix ≠ 0) :
    ∃ leases, db.leases.insert archive = some leases ∧
      db.insertLease archive = .ok { db with leases := leases } ∧
      db.chunksOf archive.leaseId = [] := by
  have hnone : db.leases.lookup archive.leaseId = none := by
    rw [lookup_eq_none]
    intro archive' hmem heq
    obtain ⟨binding, hbinding, -, hid⟩ := h.owned archive' hmem
    exact hfresh binding hbinding (hid.trans heq)
  obtain ⟨leases, hinsert, -⟩ := exists_insert hnone
  refine ⟨leases, hinsert, ?_, ?_⟩
  · rw [Database.insertLease, refuse_of_not hexpires, ok_bind, hinsert]
    rfl
  · have hfilter : db.chunks.rows.filter (fun c => decide (c.leaseId = archive.leaseId)) = [] := by
      rw [List.filter_eq_nil_iff]
      intro chunk hchunk heq
      exact h.leased chunk hchunk (of_decide_eq_true heq ▸ hnone)
    rw [Database.chunksOf, orderBy]
    change List.insertionSort _ (List.filter _ _) = []
    rw [hfilter]
    rfl

end Accounted

section Reserve

variable {db db' : Database} {request : VerifiedStorageRequest} {env : Env} {expiresAt now : ℕ}
  {Q : ProviderError → Prop}

section

variable (h : Accounted crypto db) (h' : Accounted crypto db') (hfresh : db.Fresh env)
  (hfresh' : db'.Fresh env)

include h h' hfresh hfresh'

variable (hview : SameView crypto request db db') (hverified : request.Verified crypto)

include hview hverified

end

end Reserve

/-! ## Requests of others -/

/-- A use that is not a request under the same grant, and not one for the same pair. Grants are told
apart by their digests and by their capabilities. -/
def Foreign (crypto : Ed25519) (request : VerifiedStorageRequest) : Call crypto → Prop
  | .apply other _ _ _ => other.1.grant.id crypto ≠ request.grant.id crypto ∧
    other.1.grant.capabilityId ≠ request.grant.capabilityId ∧ other.1.pair ≠ request.pair
  | .setAdmissionTarget _ _ | .reopen _ => True

theorem Database.charged_deleteLease_eq {db : Database} {id : FixedBytes 16}
    {grantId : FixedBytes 32}
    (h : ∀ binding ∈ db.bindings.rows, binding.leaseId = id → binding.grantId ≠ grantId) :
    (db.deleteLease id).chargedBytes grantId = db.chargedBytes grantId ∧
      (db.deleteLease id).chargedLeases grantId = db.chargedLeases grantId := by
  have hcharges : ∀ binding ∈ db.bindings.rows,
      charges grantId (binding.bury id) = charges grantId binding := by
    intro binding hmem
    by_cases hid : binding.leaseId = id
    · simp [charges, h binding hmem hid]
    · rw [Binding.bury_of_ne hid]
  simp only [chargedBytes, chargedLeases, sumWhere_eq_sum, count_eq_sum, deleteLease,
    sum_map, Binding.ciphertextBytes_bury]
  constructor
  all_goals
    apply sum_congr
    intro binding hmem
    rw [hcharges binding hmem]

section Others

variable {db db' : Database} {request other : VerifiedStorageRequest}

/-- A request under another grant leaves the charges of a grant. -/
theorem Change.charged (h : Accounted crypto db) (hchange : Change crypto other db db')
    {grantId : FixedBytes 32} (hne : other.grant.id crypto ≠ grantId) :
    db'.chargedBytes grantId = db.chargedBytes grantId ∧
      db'.chargedLeases grantId = db.chargedLeases grantId := by
  cases hchange with
  | unchanged | appended | modified => exact ⟨rfl, rfl⟩
  | registered hprovider hgrant =>
    obtain ⟨grants, rfl, -⟩ := Database.registerGrant_spec hgrant
    exact ⟨rfl, rfl⟩
  | created hcurrent hprovider hgrant hfind hcreate =>
    obtain ⟨grants, rfl, -⟩ := Database.registerGrant_spec hgrant
    obtain ⟨leases, bindings, -, hbinding, rfl, -⟩ := Database.createBinding_spec hcreate
    have hbytes := Database.chargedBytes_insert hbinding grantId
    have hleases := Database.chargedLeases_insert hbinding grantId
    simp only [Database.charges, hne, decide_false, Bool.false_and, Bool.false_eq_true, if_false,
      Nat.add_zero] at hbytes hleases
    exact ⟨hbytes, hleases⟩
  | @deleted binding hbinding =>
    obtain ⟨hlookup, hid⟩ := Database.authorize_eq_ok hbinding
    refine Database.charged_deleteLease_eq fun binding' hmem' hlease => ?_
    obtain rfl := List.inj_on_of_nodup_map h.distinct hmem' (mem_of_lookup hlookup) hlease
    exact hid ▸ hne

/-- **A request under another grant and for another pair leaves the view of a request.** -/
theorem Change.sameView (h : Accounted crypto db) (h' : Accounted crypto db')
    (hchange : Change crypto other db db') (hid : other.grant.id crypto ≠ request.grant.id crypto)
    (hcapability : other.grant.capabilityId ≠ request.grant.capabilityId)
    (hpair : other.pair ≠ request.pair) : SameView crypto request db db' := by
  have hconfined := hchange.confined h
  obtain ⟨hbytes, hleases⟩ := hchange.charged h hid
  have hbinding := hconfined.bindings request.pair hpair.symm
  refine ⟨hconfined.provider, hconfined.limits, hbinding, ?_, ?_, ?_, hbytes, hleases⟩
  · intro binding hlookup
    have hother : ∀ binding', db'.bindings.lookup other.pair = some binding' →
        binding'.leaseId ≠ binding.leaseId := by
      intro binding' hlookup' heq
      rw [← hbinding] at hlookup
      obtain rfl := List.inj_on_of_nodup_map h'.distinct (mem_of_lookup hlookup')
        (mem_of_lookup hlookup) heq
      exact hpair ((key_of_lookup hlookup').symm.trans (key_of_lookup hlookup))
    obtain ⟨hlease, hchunks⟩ := hconfined.leases binding.leaseId hother
    exact ⟨hconfined.limits, hlease, hchunks⟩
  · rcases hconfined.grants with hgrants | ⟨-, hinsert⟩
    · simp only [Database.grantOfCapability, hgrants]
    · simp only [Database.grantOfCapability]
      rw [rows_insert hinsert, List.find?_append, List.find?_singleton]
      simp [Database.recordOf, hcapability]
  · rcases hconfined.grants with hgrants | ⟨-, hinsert⟩
    · rw [hgrants]
    · rw [lookup_insert hinsert]
      exact if_neg hid

end Others

namespace SameView

variable {request : VerifiedStorageRequest} {db db' db'' : Database}

theorem refl (db : Database) : SameView crypto request db db :=
  ⟨rfl, rfl, rfl, fun _ _ => ⟨rfl, rfl, rfl⟩, rfl, rfl, rfl, rfl⟩

theorem trans (h : SameView crypto request db db') (h' : SameView crypto request db' db'') :
    SameView crypto request db db'' where
  provider := h'.provider.trans h.provider
  limits := h'.limits.trans h.limits
  binding := h'.binding.trans h.binding
  lease binding hlookup :=
    have hlease := h.lease binding hlookup
    have hlease' := h'.lease binding (h.binding.trans hlookup)
    ⟨hlease'.limits.trans hlease.limits, hlease'.lease.trans hlease.lease,
      hlease'.chunks.trans hlease.chunks⟩
  capability := h'.capability.trans h.capability
  grant := h'.grant.trans h.grant
  chargedBytes := h'.chargedBytes.trans h.chargedBytes
  chargedLeases := h'.chargedLeases.trans h.chargedLeases

theorem next (h : Accounted crypto db) {call : Call crypto} (hcall : Foreign crypto request call) :
    SameView crypto request db ((machine crypto).next db call) := by
  refine next_cases call (fun other appendPayload env now heq => ?_) fun _ _ =>
    ⟨rfl, rfl, rfl, fun _ _ => ⟨rfl, rfl, rfl⟩, rfl, rfl, rfl, rfl⟩
  subst heq
  obtain ⟨hid, hcapability, hpair⟩ := hcall
  exact (committed_apply ..).change.sameView h (h.next (.apply other appendPayload env now)) hid
    hcapability hpair

/-- Any number of uses that are foreign to a request leave its view. -/
theorem run (h : Accounted crypto db) {calls : List (Call crypto)}
    (hcalls : ∀ call ∈ calls, Foreign crypto request call) :
    SameView crypto request db ((machine crypto).run db calls) := by
  induction calls generalizing db with
  | nil => exact refl db
  | cons call calls ih =>
    exact (next h (hcalls call List.mem_cons_self)).trans
      (ih (h.next call) fun call' hmem => hcalls call' (List.mem_cons_of_mem _ hmem))

end SameView

namespace Sample

theorem checks_third : third.checks = true := by decide +kernel

/-- A reservation by the same owner under another grant, of another archive. -/
def request₃ : OwnerRequest primitives := third.ownerRequest checks_third

/-- The tables after the reservation of the other archive. -/
def other : Database := (machine primitives).run start [.apply request₃ [] (env 8) now]

end Sample

end Volparossa.PrivateStorage
