import Volparossa.PrivateStorage.Provider

/-!
# Accounting of the private storage provider

Three quotas hold of the leases of a provider: the capacity and the count of the store, the limits
of each grant, and the admission target at the time of a reservation. The first two are about tables
that different modules write, so they hold only as long as the leases and the bindings that are not
deleted correspond. `Accounted` is this invariant, and **`accounting`** says that it holds in every
state that a provider reaches.
-/

namespace Volparossa.PrivateStorage

open Transaction (checkedAdd checkedAdd_eq_some)
open Database
open Binding
open Table

variable {crypto : Ed25519}

namespace Database

variable {db db' : Database}

/-- The payload of all leases. -/
def totalBytes (db : Database) : ℕ := db.leases.sum StoredArchive.ciphertextBytes

theorem leasedBytes_add (db : Database) :
    db.leasedBytes false + db.leasedBytes true = db.totalBytes := by
  simp only [leasedBytes, totalBytes, sumWhere_eq_sum, ← sum_add]
  apply sum_congr
  intro archive _
  cases archive.committed <;> simp

theorem usage_eq_ok {usage : StorageUsage} (h : db.usage = .ok usage) :
    usage.reservedBytes + usage.committedBytes = db.totalBytes ∧
      usage.leases = db.leases.rows.length := by
  simp only [Database.usage, ok_iff] at h
  obtain ⟨-, -, rfl⟩ := h
  exact ⟨db.leasedBytes_add, rfl⟩

theorem all_checkedAdd_eq_false {a b bound : ℕ}
    (h : ¬((checkedAdd a b).all fun bytes => decide (bytes > bound)) = true) : a + b ≤ bound := by
  unfold checkedAdd at h
  split at h <;> simp_all

/-- What an admitted lease is: there is room for it, and its identifier is new. -/
theorem reserveInTransaction_spec {env : Env} {reservation : Reservation} {id : FixedBytes 16}
    (h : db.reserveInTransaction env reservation = .ok (id, db')) :
    ∃ leases, db.leases.insert ⟨id, reservation.ciphertextBytes, reservation.expectedSha256,
        reservation.expiresAtUnix, false⟩ = some leases ∧
      db' = { db with leases := leases } ∧
      db.totalBytes + reservation.ciphertextBytes ≤ db.admissionTargetBytes ∧
      db.leases.rows.length < maxLeases := by
  simp only [reserveInTransaction, insertLease, target, ok_iff, Prod.mk.injEq, not_or] at h
  obtain ⟨-, -, -, -, usage, husage, targetBytes, ⟨-, -, rfl⟩, -, ⟨hleases, -, -, htarget⟩, -, -,
    id', -, _, ⟨-, -, leases, hinsert, rfl⟩, rfl, rfl⟩ := h
  obtain ⟨htotal, hlength⟩ := usage_eq_ok husage
  refine ⟨leases, hinsert, rfl, ?_, by omega⟩
  unfold checkedAdd at htarget
  split at htarget
  · have := all_checkedAdd_eq_false htarget
    omega
  · simp at htarget

/-- What a new binding is: its grant has room for it, its archive and its lease are new, and the
lease was admitted. -/
theorem createBinding_spec {env : Env} {request : VerifiedStorageRequest} {expiresAt now : ℕ}
    {id : FixedBytes 16}
    (h : db.createBinding crypto env request expiresAt now = .ok (id, db')) :
    ∃ leases bindings,
      db.leases.insert ⟨id, request.target.ciphertextBytes, request.target.sha256, expiresAt,
        false⟩ = some leases ∧
      db.bindings.insert ⟨request.grant.owner, request.target.archiveId, request.grant.id crypto,
        id, request.target.ciphertextBytes, request.target.sha256, false⟩ = some bindings ∧
      db' = { db with leases := leases, bindings := bindings } ∧
      db.totalBytes + request.target.ciphertextBytes ≤ db.admissionTargetBytes ∧
      db.leases.rows.length < maxLeases ∧
      db.chargedBytes (request.grant.id crypto) + request.target.ciphertextBytes ≤
        request.grant.limits.maxPayloadBytes ∧
      db.chargedLeases (request.grant.id crypto) < request.grant.limits.maxLeases ∧
      (∀ binding ∈ db.bindings.rows, binding.leaseId ≠ id) ∧
      db.grants.lookup (request.grant.id crypto) ≠ none := by
  simp only [createBinding, fromStorage, insertBinding, ok_iff, Prod.mk.injEq, not_or,
    Prod.exists] at h
  obtain ⟨-, -, -, ⟨hcount, hbytes⟩, id', db₁, hreserve, db₂, ⟨-, ⟨hlease, hgrant, -⟩, bindings,
    hinsert, rfl⟩, rfl, rfl⟩ := h
  obtain ⟨leases, hleases, rfl, htarget, hlength⟩ := reserveInTransaction_spec hreserve
  refine ⟨leases, bindings, hleases, hinsert, rfl, htarget, hlength,
    all_checkedAdd_eq_false hbytes, by omega, ?_, hgrant⟩
  intro binding hbinding heq
  exact hlease (List.any_eq_true.mpr ⟨binding, hbinding, decide_eq_true heq⟩)

/-- What registering a grant does: it was registered with the same bytes, or it is now. -/
theorem registerGrant_spec {grant : VerifiedStorageGrant}
    (h : db.registerGrant crypto grant = .ok db') :
    ∃ grants, db' = { db with grants := grants } ∧
      (grants = db.grants ∧ db.checkGrant crypto grant = .ok () ∨
        db.grantOfCapability grant.capabilityId = none ∧
          db.grants.insert (recordOf crypto grant) = some grants) := by
  unfold registerGrant at h
  split at h
  · simp only [ok_iff] at h
    obtain ⟨-, -, ⟨⟩, hcheck, rfl⟩ := h
    exact ⟨_, rfl, .inl ⟨rfl, hcheck⟩⟩
  · rename_i hcapability
    simp only [insertGrant, ok_iff] at h
    obtain ⟨-, -, -, -, grants, hinsert, rfl⟩ := h
    exact ⟨grants, rfl, .inr ⟨hcapability, hinsert⟩⟩

/-- A grant that passes the check is recorded with its bytes. -/
theorem checkGrant_eq_ok {grant : VerifiedStorageGrant} (h : db.checkGrant crypto grant = .ok ()) :
    ∃ record, db.grants.lookup (grant.id crypto) = some record ∧
      record.capabilityId = grant.capabilityId ∧ record.owner = grant.owner ∧
      record.signedGrant = grant.signed.encode := by
  simp only [checkGrant, refuse_eq_ok, not_not, Option.map_eq_some_iff, Option.filter_eq_some_iff,
    decide_eq_true_eq] at h
  obtain ⟨record, ⟨hlookup, hcapability, howner⟩, hsigned⟩ := h
  exact ⟨record, hlookup, hcapability, howner, hsigned⟩

/-- What a request that is not a reservation may use: a binding of its owner and archive, under its
grant. -/
theorem authorize_eq_ok {request : VerifiedStorageRequest} {binding : Binding}
    (h : db.authorize crypto request = .ok binding) :
    db.bindings.lookup (request.grant.owner, request.target.archiveId) = some binding ∧
      binding.grantId = request.grant.id crypto := by
  simp only [authorize, authorizedBinding, checkBinding, findBinding, ok_iff, not_or, not_not] at h
  obtain ⟨-, -, binding', hfind, -, ⟨-, ⟨hgrant, -⟩, -⟩, rfl⟩ := h
  exact ⟨hfind, hgrant⟩

end Database

/-- **What a use does**: it applies a request, or changes nothing but the admission target, which
stays within the capacity. -/
theorem next_cases {P : Database → Prop} {db : Database} (call : Call crypto)
    (happly : ∀ request appendPayload env now, call = .apply request appendPayload env now →
      P (db.apply crypto env request.1 appendPayload now).2)
    (htarget : ∀ target, (db.admissionTargetBytes ≤ db.limits.capacityBytes →
      target ≤ db.limits.capacityBytes) → P { db with admissionTargetBytes := target }) :
    P ((machine crypto).next db call) := by
  cases call with
  | apply request appendPayload env now => exact happly request appendPayload env now rfl
  | setAdmissionTarget targetBytes commits =>
    change P (transaction db commits .database (db.targetBody targetBytes)).2
    rcases transaction_cases db commits .database (db.targetBody targetBytes) with
      ⟨e, heq⟩ | ⟨status, db', hbody, heq⟩ <;> rw [heq]
    · exact htarget _ id
    · simp only [targetBody, ok_iff, Prod.mk.injEq, not_lt] at hbody
      obtain ⟨-, hle, -, -, -, -, -, rfl⟩ := hbody
      exact htarget _ fun _ => hle
  | reopen provider => exact htarget _ id

/-! ## The invariant -/

/-- The quotas hold, and the leases correspond to the bindings that are not deleted. -/
structure Accounted (crypto : Ed25519) (db : Database) : Prop where
  total_le : db.totalBytes ≤ db.limits.capacityBytes
  length_le : db.leases.rows.length ≤ maxLeases
  target_le : db.admissionTargetBytes ≤ db.limits.capacityBytes
  /-- A registered grant was verified, and what is charged to it is within its limits. -/
  granted : ∀ record ∈ db.grants.rows, ∃ grant : VerifiedStorageGrant, grant.Verified crypto ∧
    grant.provider = db.provider ∧ grant.signed.encode = record.signedGrant ∧
    db.chargedBytes record.grantId ≤ grant.limits.maxPayloadBytes ∧
    db.chargedLeases record.grantId ≤ grant.limits.maxLeases
  registered : ∀ binding ∈ db.bindings.rows, db.grants.lookup binding.grantId ≠ none
  distinct : (db.bindings.rows.map leaseId).Nodup
  bound : ∀ binding ∈ db.bindings.rows, binding.deleted = false →
    ∃ archive, db.leases.lookup binding.leaseId = some archive ∧
      archive.ciphertextBytes = binding.ciphertextBytes ∧ archive.sha256 = binding.sha256
  owned : ∀ archive ∈ db.leases.rows,
    ∃ binding ∈ db.bindings.rows, binding.deleted = false ∧ binding.leaseId = archive.leaseId
  leased : ∀ chunk ∈ db.chunks.rows, db.leases.lookup chunk.leaseId ≠ none
  capacity_le : db.limits.capacityBytes ≤ maxCapacityBytes

namespace Database

variable {db : Database}

section

variable {binding : Binding} {bindings : Table key} (h : db.bindings.insert binding = some bindings)
  (grantId : FixedBytes 32)

include h grantId

theorem chargedBytes_insert : chargedBytes { db with bindings := bindings } grantId =
      db.chargedBytes grantId + if charges grantId binding then binding.ciphertextBytes else 0 := by
  simp only [chargedBytes, sumWhere_eq_sum]
  exact sum_insert h _

theorem chargedLeases_insert : chargedLeases { db with bindings := bindings } grantId =
      db.chargedLeases grantId + if charges grantId binding then 1 else 0 := by
  simp only [chargedLeases, count_eq_sum]
  exact sum_insert h _

end

/-- A grant that no binding names has no charges. -/
theorem charged_eq_zero (db : Database) {grantId : FixedBytes 32}
    (h : ∀ binding ∈ db.bindings.rows, binding.grantId ≠ grantId) :
    db.chargedBytes grantId = 0 ∧ db.chargedLeases grantId = 0 := by
  have hfilter : db.bindings.rows.filter (charges grantId) = [] := by
    rw [List.filter_eq_nil_iff]
    intro binding hbinding
    simp [charges, h binding hbinding]
  rw [chargedBytes, chargedLeases, sumWhere, count, List.countP_eq_length_filter,
    hfilter]
  exact ⟨rfl, rfl⟩

/-- A tombstone is charged to no grant. -/
theorem charged_deleteLease_le (db : Database) (id : FixedBytes 16) (grantId : FixedBytes 32) :
    (db.deleteLease id).chargedBytes grantId ≤ db.chargedBytes grantId ∧
      (db.deleteLease id).chargedLeases grantId ≤ db.chargedLeases grantId := by
  have hcharges : ∀ (binding : Binding) (n : ℕ),
      (if charges grantId (binding.bury id) then n else 0) ≤
        if charges grantId binding then n else 0 := by
    intro binding n
    unfold bury
    split <;> simp [charges]
  simp only [chargedBytes, chargedLeases, sumWhere_eq_sum, count_eq_sum, deleteLease,
    sum_map, ciphertextBytes_bury]
  exact ⟨sum_le_sum _ fun binding _ => hcharges binding _,
    sum_le_sum _ fun binding _ => hcharges binding 1⟩

end Database

namespace Accounted

variable {db db' : Database} {request : VerifiedStorageRequest}

section

variable (h : Accounted crypto db)

include h

/-- Registering a grant keeps the invariant, and leaves it recorded with its bytes. -/
theorem registerGrant {grant : VerifiedStorageGrant} (hverified : grant.Verified crypto)
    (hprovider : grant.provider = db.provider)
    (hregister : db.registerGrant crypto grant = .ok db') :
    Accounted crypto db' ∧ ∃ record, db'.grants.lookup (grant.id crypto) = some record ∧
      record.signedGrant = grant.signed.encode := by
  obtain ⟨grants, rfl, ⟨rfl, hcheck⟩ | ⟨-, hinsert⟩⟩ := registerGrant_spec hregister
  · obtain ⟨record, hlookup, -, -, hsigned⟩ := checkGrant_eq_ok hcheck
    exact ⟨h, record, hlookup, hsigned⟩
  · have hnew := (insert_eq_some.mp hinsert).1
    refine ⟨{ h with granted := ?_, registered := ?_ }, _,
      lookup_insert_self hinsert, rfl⟩
    · intro record hrecord
      rw [rows_insert hinsert, List.mem_append, List.mem_singleton] at hrecord
      rcases hrecord with hrecord | rfl
      · exact h.granted record hrecord
      · -- the bindings name grants that were registered before this one
        obtain ⟨hbytes, hleases⟩ : db.chargedBytes (grant.id crypto) = 0 ∧
            db.chargedLeases (grant.id crypto) = 0 :=
          db.charged_eq_zero fun binding hbinding heq =>
            h.registered binding hbinding (heq ▸ hnew)
        exact ⟨grant, hverified, hprovider, rfl, hbytes.le.trans (Nat.zero_le _),
          hleases.le.trans (Nat.zero_le _)⟩
    · intro binding hbinding
      change grants.lookup binding.grantId ≠ none
      rw [lookup_insert hinsert]
      split
      · exact Option.some_ne_none _
      · exact h.registered binding hbinding

/-- A new lease with its binding keeps the invariant. -/
theorem createBinding {env : Env} {expiresAt now : ℕ} {id : FixedBytes 16} {record : GrantRecord}
    (hverified : request.grant.Verified crypto) (hprovider : request.grant.provider = db.provider)
    (hrecord : db.grants.lookup (request.grant.id crypto) = some record)
    (hsigned : record.signedGrant = request.grant.signed.encode)
    (hcreate : db.createBinding crypto env request expiresAt now = .ok (id, db')) :
    Accounted crypto db' := by
  obtain ⟨leases, bindings, hlease, hbinding, rfl, htarget, hlength, hbytes, hcount, hnew,
    hgrant⟩ :=
    createBinding_spec hcreate
  have hfresh := (insert_eq_some.mp hlease).1
  refine ⟨?_, ?_, h.target_le, ?_, ?_, ?_, ?_, ?_, ?_, h.capacity_le⟩
  · exact ((sum_insert hlease _).le.trans htarget).trans h.target_le
  · change leases.rows.length ≤ maxLeases
    rw [rows_insert hlease, List.length_append, List.length_singleton]
    omega
  · intro record' hrecord'
    obtain ⟨grant, hgrantVerified, hgrantProvider, hgrantSigned, hgrantBytes, hgrantLeases⟩ :=
      h.granted record' hrecord'
    have hcharged := chargedBytes_insert hbinding record'.grantId
    have hleases := chargedLeases_insert hbinding record'.grantId
    by_cases hid : request.grant.id crypto = record'.grantId
    · -- the recorded bytes are those of the request's grant, so the limits are its limits
      have hsame : record' = record := db.grants.eq_of_key_eq hrecord'
        (mem_of_lookup hrecord) (by rw [← hid, key_of_lookup hrecord])
      obtain rfl : grant = request.grant := hgrantVerified.eq_of_encode_eq hverified
        (by rw [hgrantSigned, hsame, hsigned]) (by rw [hgrantProvider, hprovider])
      simp only [charges, hid, decide_true, Bool.not_false, Bool.and_true,
        if_true] at hcharged hleases
      rw [hid] at hbytes hcount
      exact ⟨_, hgrantVerified, hgrantProvider, hgrantSigned, hcharged.le.trans hbytes,
        hleases.le.trans hcount⟩
    · simp only [charges, hid, decide_false, Bool.false_and, Bool.false_eq_true,
        if_false, Nat.add_zero] at hcharged hleases
      exact ⟨grant, hgrantVerified, hgrantProvider, hgrantSigned, hcharged.le.trans hgrantBytes,
        hleases.le.trans hgrantLeases⟩
  · intro binding hmem
    rw [rows_insert hbinding, List.mem_append, List.mem_singleton] at hmem
    rcases hmem with hmem | rfl
    · exact h.registered binding hmem
    · exact hgrant
  · change (bindings.rows.map leaseId).Nodup
    rw [rows_insert hbinding, List.map_append, List.nodup_append]
    refine ⟨h.distinct, by simp, ?_⟩
    intro lease hlease' lease' hmem heq
    obtain ⟨binding, hmem', rfl⟩ := List.mem_map.mp hlease'
    simp only [List.map_cons, List.map_nil, List.mem_singleton] at hmem
    exact hnew binding hmem' (heq.trans hmem)
  · intro binding hmem hlive
    change ∃ archive, leases.lookup binding.leaseId = some archive ∧ _
    rw [rows_insert hbinding, List.mem_append, List.mem_singleton] at hmem
    rcases hmem with hmem | rfl
    · rw [lookup_insert hlease, if_neg (hnew binding hmem).symm]
      exact h.bound binding hmem hlive
    · rw [lookup_insert hlease, if_pos rfl]
      exact ⟨_, rfl, rfl, rfl⟩
  · intro archive hmem
    change ∃ binding ∈ bindings.rows, _
    rw [rows_insert hlease, List.mem_append, List.mem_singleton] at hmem
    rw [rows_insert hbinding]
    rcases hmem with hmem | rfl
    · obtain ⟨binding, hbindingMem, hlive, heq⟩ := h.owned archive hmem
      exact ⟨binding, List.mem_append_left _ hbindingMem, hlive, heq⟩
    · exact ⟨_, List.mem_append_right _ (List.mem_singleton_self _), rfl, rfl⟩
  · intro chunk hchunk
    change leases.lookup chunk.leaseId ≠ none
    rw [lookup_insert hlease]
    split
    · exact Option.some_ne_none _
    · exact h.leased chunk hchunk

/-- A change of a lease that keeps its identity keeps the invariant. -/
theorem modifyLease (id : FixedBytes 16) {f : StoredArchive → StoredArchive}
    {hf : ∀ archive, (f archive).leaseId = archive.leaseId}
    (hbytes : ∀ archive, (f archive).ciphertextBytes = archive.ciphertextBytes)
    (hsha256 : ∀ archive, (f archive).sha256 = archive.sha256) :
    Accounted crypto (db.modifyLease id f hf) := by
  refine { h with total_le := ?_, length_le := ?_, bound := ?_, owned := ?_, leased := ?_ }
  · exact (sum_modify_of_eq id f hf _ hbytes).le.trans h.total_le
  · change (db.leases.modify id f hf).rows.length ≤ maxLeases
    rw [rows_modify, List.length_map]
    exact h.length_le
  · intro binding hmem hlive
    obtain ⟨archive, hlookup, hlength, hhash⟩ := h.bound binding hmem hlive
    change ∃ archive, (db.leases.modify id f hf).lookup binding.leaseId = some archive ∧ _
    rw [lookup_modify, hlookup, Option.map_some]
    refine ⟨_, rfl, ?_⟩
    split
    · exact ⟨(hbytes _).trans hlength, (hsha256 _).trans hhash⟩
    · exact ⟨hlength, hhash⟩
  · intro archive hmem
    change archive ∈ (db.leases.modify id f hf).rows at hmem
    rw [mem_modify] at hmem
    obtain ⟨archive', hmem', rfl⟩ := hmem
    obtain ⟨binding, hbinding, hlive, heq⟩ := h.owned archive' hmem'
    refine ⟨binding, hbinding, hlive, heq.trans ?_⟩
    split
    · exact (hf _).symm
    · rfl
  · intro chunk hchunk
    change (db.leases.modify id f hf).lookup chunk.leaseId ≠ none
    rw [lookup_modify, ne_eq, Option.map_eq_none_iff]
    exact h.leased chunk hchunk

/-- Deleting the lease of a binding leaves a tombstone and keeps the invariant. -/
theorem deleteLease (id : FixedBytes 16) : Accounted crypto (db.deleteLease id) := by
  refine ⟨?_, ?_, h.target_le, ?_, ?_, ?_, ?_, ?_, ?_, h.capacity_le⟩
  · exact le_trans (List.Sublist.sum_le_sum (List.filter_sublist.map _) (fun _ _ => Nat.zero_le _))
      h.total_le
  · exact (List.length_filter_le _ _).trans h.length_le
  · intro record hrecord
    obtain ⟨grant, hverified, hprovider, hsigned, hbytes, hleases⟩ := h.granted record hrecord
    obtain ⟨hbytes', hleases'⟩ := db.charged_deleteLease_le id record.grantId
    exact ⟨grant, hverified, hprovider, hsigned, hbytes'.trans hbytes, hleases'.trans hleases⟩
  · intro binding hmem
    obtain ⟨binding', hmem', rfl⟩ := List.mem_map.mp hmem
    rw [grantId_bury]
    exact h.registered binding' hmem'
  · change ((db.bindings.rows.map (bury id)).map leaseId).Nodup
    rw [List.map_map, show leaseId ∘ bury id = leaseId from
      funext (leaseId_bury id)]
    exact h.distinct
  · intro binding hmem hlive
    obtain ⟨binding', hmem', rfl⟩ := List.mem_map.mp hmem
    have hne := ne_of_bury_deleted hlive
    rw [bury_of_ne hne] at hlive ⊢
    change ∃ archive, (db.leases.erase id).lookup binding'.leaseId = some archive ∧ _
    rw [lookup_erase, if_neg hne]
    exact h.bound binding' hmem' hlive
  · intro archive hmem
    obtain ⟨hmem, hne⟩ := mem_erase.mp hmem
    obtain ⟨binding, hbinding, hlive, heq⟩ := h.owned archive hmem
    exact ⟨binding, List.mem_map.mpr ⟨binding, hbinding, bury_of_ne (heq ▸ hne)⟩, hlive,
      heq⟩
  · intro chunk hchunk
    obtain ⟨hchunk, hne⟩ := mem_filter.mp hchunk
    change (db.leases.erase id).lookup chunk.leaseId ≠ none
    rw [lookup_erase, if_neg (of_decide_eq_true hne)]
    exact h.leased chunk hchunk

end

/-- **A request keeps the invariant.** -/
theorem change (h : Accounted crypto db) (hverified : request.Verified crypto)
    (hchange : Change crypto request db db') : Accounted crypto db' := by
  cases hchange with
  | unchanged => exact h
  | registered hprovider hgrant => exact (h.registerGrant hverified.1 hprovider hgrant).1
  | created hcurrent hprovider hgrant hfind hcreate =>
    obtain ⟨hregistered, record, hrecord, hsigned⟩ :=
      h.registerGrant hverified.1 hprovider hgrant
    refine hregistered.createBinding hverified.1 ?_ hrecord hsigned hcreate
    obtain ⟨grants, rfl, -⟩ := registerGrant_spec hgrant
    exact hprovider
  | appended hbinding hlease hexists hinsert =>
    refine { h with leased := fun chunk hchunk => ?_ }
    rw [rows_insert hinsert, List.mem_append, List.mem_singleton] at hchunk
    rcases hchunk with hchunk | rfl
    · exact h.leased chunk hchunk
    · exact hexists
  | modified f hf hbinding hbytes hsha256 => exact h.modifyLease _ hbytes hsha256
  | deleted hbinding => exact h.deleteLease _

/-- **Every use of the provider keeps the invariant.** -/
theorem next (h : Accounted crypto db) (call : Call crypto) :
    Accounted crypto ((machine crypto).next db call) :=
  next_cases call (fun request _ _ _ _ => h.change request.2 (committed_apply ..).change)
    fun _ hle => { h with target_le := hle h.target_le }

theorem create {limits : StorageLimits} {provider : FixedBytes 32}
    (h : Database.create crypto limits provider = .ok db) :
    Accounted crypto db ∧ db.limits = limits := by
  simp only [Database.create, fromStorage, validLimits, ok_iff, not_or, not_not] at h
  obtain ⟨-, ⟨⟨-, hcapacity⟩, -⟩, -, -, rfl⟩ := h
  refine ⟨⟨Nat.zero_le _, Nat.zero_le _, le_rfl, ?_, ?_, List.nodup_nil, ?_, ?_, ?_, hcapacity⟩,
    rfl⟩ <;> simp

end Accounted

/-! ## Limits and totals over runs -/

/-- A request keeps the limits, the target and the pinned provider, and a lease that it adds is
within the target. -/
theorem Change.frame {db db' : Database} {request : VerifiedStorageRequest}
    (h : Change crypto request db db') :
    db'.limits = db.limits ∧ db'.admissionTargetBytes = db.admissionTargetBytes ∧
      db'.provider = db.provider ∧
      ∀ archive ∈ db'.leases.rows, db.leases.lookup archive.leaseId = none →
        db'.totalBytes ≤ db.admissionTargetBytes := by
  cases h with
  | unchanged => exact ⟨rfl, rfl, rfl, fun _ hmem hnone => absurd hnone (lookup_key_ne_none hmem)⟩
  | registered hprovider hgrant =>
    obtain ⟨grants, rfl, -⟩ := registerGrant_spec hgrant
    exact ⟨rfl, rfl, rfl, fun _ hmem hnone => absurd hnone (lookup_key_ne_none hmem)⟩
  | created hcurrent hprovider hgrant hfind hcreate =>
    obtain ⟨leases, bindings, hlease, -, rfl, htarget, -⟩ := createBinding_spec hcreate
    have htotal := (sum_insert hlease StoredArchive.ciphertextBytes).le.trans htarget
    obtain ⟨grants, rfl, -⟩ := registerGrant_spec hgrant
    exact ⟨rfl, rfl, rfl, fun _ _ _ => htotal⟩
  | appended => exact ⟨rfl, rfl, rfl, fun _ hmem hnone => absurd hnone (lookup_key_ne_none hmem)⟩
  | modified f hf =>
    refine ⟨rfl, rfl, rfl, fun archive hmem hnone => ?_⟩
    rw [modifyLease, mem_modify] at hmem
    obtain ⟨archive', hmem', rfl⟩ := hmem
    refine absurd hnone ?_
    split
    · rw [hf]
      exact lookup_key_ne_none hmem'
    · exact lookup_key_ne_none hmem'
  | deleted =>
    exact ⟨rfl, rfl, rfl, fun _ hmem hnone =>
      absurd hnone (lookup_key_ne_none (mem_erase.mp hmem).1)⟩

/-- What every use keeps: the limits and the pinned provider, and the bound on a lease that is
added. A change of the target changes nothing else. -/
structure Framed (db : Database) (call : Call crypto) (db' : Database) : Prop where
  limits : db'.limits = db.limits
  provider : db'.provider = db.provider
  added : ∀ archive ∈ db'.leases.rows, db.leases.lookup archive.leaseId = none →
    db'.totalBytes ≤ db.admissionTargetBytes
  target : ∀ targetBytes commits, call = .setAdmissionTarget targetBytes commits →
    db'.leases = db.leases

theorem framed_next (db : Database) (call : Call crypto) :
    Framed db call ((machine crypto).next db call) := by
  refine next_cases call (fun request appendPayload env now hcall => ?_) fun _ _ =>
    ⟨rfl, rfl, fun _ hmem hnone => absurd hnone (lookup_key_ne_none hmem), fun _ _ _ => rfl⟩
  obtain ⟨hlimits, -, hprovider, hadded⟩ :=
    (committed_apply crypto db env request.1 appendPayload now).change.frame
  exact ⟨hlimits, hprovider, hadded, fun _ _ h => nomatch hcall.symm.trans h⟩

/-- **Private storage accounting.** In every state that a provider reaches, the leases are within
the capacity and the count of the store, and what is charged to a grant is within the limits that
its bytes state. The bindings that are not deleted and the leases correspond, one to one and with
the same identity. A lease is added only while the total stays within the admission target, and a
change of the target changes no lease. -/
theorem accounting {limits : StorageLimits} {provider : FixedBytes 32} {db₀ : Database}
    (hcreate : create crypto limits provider = .ok db₀) (calls : List (Call crypto)) :
    let db := (machine crypto).run db₀ calls
    (db.totalBytes ≤ limits.capacityBytes ∧ db.leases.rows.length ≤ 256) ∧
      (∀ record ∈ db.grants.rows, ∃ signed grantLimits,
        SignedStorageGrant.decode crypto record.signedGrant = .ok signed ∧
        signed.validate crypto = .ok grantLimits ∧
        db.chargedBytes record.grantId ≤ grantLimits.maxPayloadBytes ∧
        db.chargedLeases record.grantId ≤ grantLimits.maxLeases) ∧
      (∀ binding ∈ db.bindings.rows, binding.deleted = false →
        db.grants.lookup binding.grantId ≠ none ∧
        ∃! archive, archive ∈ db.leases.rows ∧ archive.leaseId = binding.leaseId ∧
          archive.ciphertextBytes = binding.ciphertextBytes ∧ archive.sha256 = binding.sha256) ∧
      (∀ archive ∈ db.leases.rows, ∃! binding, binding ∈ db.bindings.rows ∧
        binding.deleted = false ∧ binding.leaseId = archive.leaseId ∧
        binding.ciphertextBytes = archive.ciphertextBytes ∧ binding.sha256 = archive.sha256) ∧
      ∀ e ∈ (machine crypto).events db₀ calls,
        (∀ archive ∈ e.after.leases.rows, e.before.leases.lookup archive.leaseId = none →
          e.after.totalBytes ≤ e.before.admissionTargetBytes) ∧
        ∀ targetBytes commits, e.input = .setAdmissionTarget targetBytes commits →
          e.after.leases = e.before.leases := by
  intro db
  obtain ⟨hstart, hlimits⟩ := Accounted.create hcreate
  have h : Accounted crypto db ∧ db.limits = limits :=
    Machine.run_invariant (P := fun db => Accounted crypto db ∧ db.limits = limits)
      (fun db call h => ⟨h.1.next call, (framed_next db call).limits.trans h.2⟩) ⟨hstart, hlimits⟩
        calls
  obtain ⟨h, hlimits⟩ := h
  refine ⟨⟨hlimits ▸ h.total_le, h.length_le⟩, ?_, ?_, ?_, ?_⟩
  · intro record hrecord
    obtain ⟨grant, hverified, -, hsigned, hbytes, hleases⟩ := h.granted record hrecord
    exact ⟨grant.signed, grant.limits, hsigned ▸ hverified.1, hverified.validate, hbytes, hleases⟩
  · intro binding hbinding hlive
    obtain ⟨archive, hlookup, hidentity⟩ := h.bound binding hbinding hlive
    refine ⟨h.registered binding hbinding, archive, ⟨mem_of_lookup hlookup,
      key_of_lookup hlookup, hidentity⟩, ?_⟩
    rintro archive' ⟨hmem, hid, -⟩
    exact db.leases.eq_of_key_eq hmem (mem_of_lookup hlookup)
      (hid.trans (key_of_lookup hlookup).symm)
  · intro archive harchive
    obtain ⟨binding, hbinding, hlive, hid⟩ := h.owned archive harchive
    obtain ⟨archive', hlookup, hbytes, hsha256⟩ := h.bound binding hbinding hlive
    obtain rfl : archive' = archive := db.leases.eq_of_key_eq (mem_of_lookup hlookup) harchive
      ((key_of_lookup hlookup).trans hid)
    refine ⟨binding, ⟨hbinding, hlive, hid, hbytes.symm, hsha256.symm⟩, ?_⟩
    rintro binding' ⟨hbinding', -, hid', -⟩
    exact List.inj_on_of_nodup_map h.distinct hbinding' hbinding (hid'.trans hid.symm)
  · intro e he
    obtain ⟨-, heq⟩ := Machine.events_invariant (P := fun _ => True) (fun _ _ _ => trivial) trivial
      calls e he
    have hframed := framed_next e.before e.input
    rw [heq]
    exact ⟨hframed.added, hframed.target⟩

/-! ## A provider with two grants of one owner -/

namespace Sample

/-- What one key signed: the digest of the payload, the digest of the signed bytes, and the
signature. -/
structure Signed where
  payloadHash : FixedBytes 32
  digest : FixedBytes 32
  signature : FixedBytes 64

/-- A grant, and a challenge for it. -/
structure Granted where
  number : UInt8
  maxPayloadBytes : ℕ
  grantId : FixedBytes 32
  challengeId : FixedBytes 32
  grant : Signed
  challenge : Signed

/-- A reservation under a grant. -/
structure Requested where
  granted : Granted
  archive : UInt8
  request : Signed

def provider : FixedBytes 32 :=
  .ofNat 32 0x17cb79fb2b4120f2b1ec65e4198d6e08b28e813feb01e4a400839b85e18080ce

def owner : FixedBytes 32 :=
  .ofNat 32 0xeb2cf13bf7ae3a5f614168a1fb09272d39771ec4b8523727815e466caf8ee163

def grant₁ : Granted where
  number := 1
  maxPayloadBytes := 100
  grantId := .ofNat 32 0xd153a60b0830e8e363020ac62cd10c60030ca8895ee2769ec0ac9c154337753b
  challengeId := .ofNat 32 0xf07736c7a01b8a6b3ef068e63e4b181d9a122996eccaf3da0b72b833d9e57d9e
  grant := ⟨.ofNat 32 0x6da83ec0603b0e97b8389a115f5d59f189ca79ee9013bb1fcb2b7031f117eec3,
    .ofNat 32 0x1c4bfc31644ab17f1e5ffa1193dae5ab9036ddf9ec96351a7ca183358c6a576b,
    .ofNat 64 (0x260b58eebf498f7b2ba4b098b1da25117751806e665de43dc18e7f070a3f31fd <<< 256 +
      0xc52b57d3ca5a473d07fb0e4bbc9e378f8201c198f37d6ccd238b147b582c5505)⟩
  challenge := ⟨.ofNat 32 0xba4fd63519124c76ac37f39a2c55801ec92492d2aecfd59f46a1ada04881e785,
    .ofNat 32 0x23813d907374255768f556eeb7611b57001747e96aa0aed419f0136bafa8a527,
    .ofNat 64 (0x9053c20a49a2e51fb7e4de93ae70ddd2fcb8e698d1c00d748336784a339cb33c <<< 256 +
      0xcc47d289d6d7a4d31aabe8a5bb40da936855342c64ec7eeaf4d11d0e84f62608)⟩

def grant₂ : Granted where
  number := 2
  maxPayloadBytes := 200
  grantId := .ofNat 32 0x30524e4013aa4078b4ea26c899eba4bdfedcfab6b9c638dd3a005def803e1835
  challengeId := .ofNat 32 0x554c800f175dde282e61199897631ea9506ef2cb65bf23d27e5284cb85f66360
  grant := ⟨.ofNat 32 0x162ba79a4877d28df5f51edd65b6b82f580cd893b0affa4bdbbe6b260b7f83ad,
    .ofNat 32 0x34bb41a6b830c811fd8347d96d62112bad2e67f1412d6e6c761804c0959eb69b,
    .ofNat 64 (0xb7e280511974f92040f586cf7156e12cbbe8e6f3f103a05dee4014daf3e3e7de <<< 256 +
      0xef36edd402af55cbc89487c82e34ee15ddbb1d2d4cc93a8d9b90e10030e36500)⟩
  challenge := ⟨.ofNat 32 0x54e45de949ffbf853f23d495808dbe83398fdf956a2a22c330582c62df1414db,
    .ofNat 32 0xde365fb9095675aa05bef4af2b58edbd6ab22a30f14851470eeeff027fe37caa,
    .ofNat 64 (0xe66920d2e106952e4dc48a7b9c3080e1e1818748e79127baf02bbfcf12d60851 <<< 256 +
      0xbd9d6deaed15cafb14ecdab5f237c4f9eefc89d12e326b0f75aa16cb6a36240a)⟩

def first : Requested where
  granted := grant₁
  archive := 1
  request := ⟨.ofNat 32 0x6d5f24b8c896fa1ced606eedde7728d0959e334580993350c4df2302ebbae1fa,
    .ofNat 32 0xfdfb3bbb1f73b3f84c55a07b3845e0a6f5ced2a0cbdf2aae49208ec78caaf6a8,
    .ofNat 64 (0xf04b3813af1e25ba598145da6db9d98ba3e5f42bb4d5604e58df019c14294336 <<< 256 +
      0xa541e20addce7da29213debb80589c1cfebe1b61ff11af0b7b68c857051e560e)⟩

def second : Requested where
  granted := grant₂
  archive := 1
  request := ⟨.ofNat 32 0xaff8424bc91ff55c4f682172d7a2d134f7266f5c80f02f3e245d1852cd28689d,
    .ofNat 32 0x3525d1cd06e22b6b5afcad7345deff780bb89a574c2f519469615cd0c96e1288,
    .ofNat 64 (0x6da2add3ade7e54cda48ab0c7ef793cf6ea36250d0b7fa28aeb1949b58634ffa <<< 256 +
      0x70c753e19f340a3686d942801dd3419300c79211005a3030c9238fbe74571105)⟩

def third : Requested where
  granted := grant₂
  archive := 2
  request := ⟨.ofNat 32 0x591416cd09216bf9c28165be4b939c366b63b22cedebf0404fd083a2f335036f,
    .ofNat 32 0x4417b54dbcff3e2bc0e49020d519575fe1866daeff26eb66e1bf10eef72dc5f4,
    .ofNat 64 (0x429203249b00d29b5a487eeff1dabcc3284c39783c261e85afc9bfd46e44733c <<< 256 +
      0x8ab79c2376c379ff0cc5929bbe9825547634c84b41945c6b314e8f89d3043001)⟩

/-- What the owner signed to have the archive of the first reservation deleted. -/
def removed : Signed :=
  ⟨.ofNat 32 0x59e9f4acc392dd257082d2154fe0c86d4440996b2af9757e2599ffbdf187b251,
    .ofNat 32 0xcbf28980d8ff14e847767908dd68f5cf9094c32d1fd205a9625d9a89861d8c9b,
    .ofNat 64 (0xae27b23ea1529c06e89b5eba43138d664095b68ab28db24d12314f07b2c21111 <<< 256 +
      0xe7a7bb9fcc30d4fafd68ea4c3515f4cb974f3d42d0f70c45c6ec04144107f704)⟩

/-- The same once more, with another nonce. -/
def removedAgain : Signed :=
  ⟨removed.payloadHash,
    .ofNat 32 0x5630b4ee9170d62765881b5775ade71d4ba056e6df30b83b39e2d36f75b0d273,
    .ofNat 64 (0x3c0eed245b774b04a1113c360216c71d8af47285ec16a8840607066c3a4a5249 <<< 256 +
      0x8da07ba8a00b1f20f8ea28bae84f5aa71f44665b8d62e62172db13b970319103)⟩

/-- What the provider signs for the first reservation. -/
def receipt : Signed :=
  ⟨.ofNat 32 0x5e8ddb9145bab437b1c9436a92f56053074253711284c964a096c3d7e2cf1e22,
    .ofNat 32 0xe6955e2c1326f53ab892be92ea62c11e060fd5745cca15a5aa026bb72da55c49,
    .ofNat 64 (0x8c77e1f9d0e3a239089410b3bb8c4da83d971ce0b4c1bf928599fc36e7c4b843 <<< 256 +
      0x9daa47b3b248718e2b7d623809ce23b12721e89c8b9e47d51661b593f17b5603)⟩

def signatures : Protocol.Signatures :=
  [grant₁.grant, grant₁.challenge, grant₂.grant, grant₂.challenge, receipt].map
      (fun s => (provider, s.digest, s.signature)) ++
    [first.request, second.request, third.request, removed, removedAgain].map
      fun s => (owner, s.digest, s.signature)

/-- The key of the provider. -/
def providerKey : Protocol.SigningKey := signatures.signingKey provider

/-- The primitives, with every signature of the provider. -/
def primitives : Ed25519 where
  toCrypto :=
    { signatures.primitives with
      verifyStrict := fun key message signature =>
        signatures.primitives.verifyStrict key message signature ||
          decide (key = provider ∧ signature = (providerKey.sign message).toBytes) }
  isWeak _ := false

def now : ℕ := 1800000000

def envelope (sender : FixedBytes 32) (expires : ℕ) (nonce : UInt8) (kind : ℕ) (payload : Bytes)
    (signed : Signed) : Envelope where
  body := some ⟨1, sender.toBytes, now, expires, List.replicate 32 nonce, kind,
    signed.payloadHash.toBytes, payload⟩
  signature := signed.signature.toBytes

namespace Granted

variable (g : Granted)

def limits : GrantLimits := ⟨g.maxPayloadBytes, 3, ⟨127⟩, 3600⟩

def payload : GrantPayload where
  capabilityId := List.replicate 32 g.number
  provider := provider.toBytes
  owner := owner.toBytes
  maxPayloadBytes := g.maxPayloadBytes
  maxLeases := 3
  rights := 127
  maxRetentionSeconds := 3600

def verified : VerifiedStorageGrant where
  signed := ⟨envelope provider (now + 3600) (10 + g.number) 1 (Protobuf.encode g.payload) g.grant,
    g.payload⟩
  provider := provider
  owner := owner
  capabilityId := .replicate 32 g.number
  limits := g.limits
  validity := ⟨now, now + 3600⟩

def storageChallenge : StorageChallenge where
  envelope := envelope provider (now + 30) (20 + g.number) 2
    (Protobuf.encode (M := ChallengePayload)
    ⟨provider.toBytes, owner.toBytes, List.replicate 32 g.number, g.grantId.toBytes⟩) g.challenge
  validity := ⟨now, now + 30⟩

end Granted

namespace Requested

variable (r : Requested)

def sha256 : FixedBytes 32 :=
  .ofNat 32 0xcf618c1df88bfa802be561eb90865c9908abd24cc99efa4da9f4897ca1a26c2d

def payload : RequestPayload where
  provider := provider.toBytes
  capabilityId := List.replicate 32 r.granted.number
  grantId := r.granted.grantId.toBytes
  challengeId := r.granted.challengeId.toBytes
  archiveId := List.replicate 32 r.archive
  ciphertextBytes := 12
  sha256 := sha256.toBytes
  command := some (.ofOperation (.reserve (now + 600)))

def verified : VerifiedStorageRequest where
  signed := ⟨envelope owner (now + 30) (30 + r.archive) 3 (Protobuf.encode r.payload) r.request⟩
  grant := r.granted.verified
  challengeId := r.granted.challengeId
  target := ⟨.replicate 32 r.archive, none, 12, sha256⟩
  operation := .reserve (now + 600)
  validity := ⟨now, now + 30⟩

/-- Whether the request verifies, as its parts state it. -/
def checks : Bool :=
  decide (SignedStorageGrant.decode primitives r.granted.verified.signed.encode =
      .ok r.granted.verified.signed ∧
    r.granted.verified.signed.verify primitives provider now = .ok r.granted.verified ∧
    r.verified.signed.verify primitives r.granted.verified r.granted.storageChallenge now =
      .ok r.verified)

/-- A request that verifies is one of an owner. -/
def ownerRequest (h : r.checks = true) : OwnerRequest primitives :=
  ⟨r.verified, ⟨(of_decide_eq_true h).1, now, (of_decide_eq_true h).2.1⟩,
    r.granted.storageChallenge, now, (of_decide_eq_true h).2.2⟩

end Requested

theorem checks_first : first.checks = true := by decide +kernel

def request₁ : OwnerRequest primitives := first.ownerRequest checks_first

def env (id : UInt8) : Env := ⟨some 1000000, some (.replicate 16 id), true⟩

def limits : StorageLimits := ⟨1000, 0⟩

def start : Database := ⟨limits, 1000, provider, .empty, .empty, .empty, .empty⟩

def calls : List (Call primitives) :=
  [.apply request₁ [] (env 7) now, .setAdmissionTarget 0 true]

theorem create_start : create primitives limits provider = .ok start := rfl

end Sample

/-- A reservation of twelve bytes in a store of a thousand, after which no more are admitted. -/
theorem accounting_sample :
    ((machine Sample.primitives).run Sample.start Sample.calls).leases.rows.length = 1 ∧
      ((machine Sample.primitives).run Sample.start Sample.calls).admissionTargetBytes = 0 ∧
      ((machine Sample.primitives).run Sample.start Sample.calls).totalBytes ≤
        Sample.limits.capacityBytes := by
  have hrun : ((machine Sample.primitives).run Sample.start Sample.calls).leases.rows.length = 1 ∧
      ((machine Sample.primitives).run Sample.start Sample.calls).admissionTargetBytes = 0 := by
    decide +kernel
  exact ⟨hrun.1, hrun.2, (accounting Sample.create_start Sample.calls).1.1⟩

end Volparossa.PrivateStorage
