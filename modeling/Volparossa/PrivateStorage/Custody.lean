import Volparossa.PrivateStorage.Outcome
import Volparossa.PrivateStorage.Receipt

/-!
# Receipts for what was executed

The receipts of a provider restate the rules of the store. They agree: **`receipted`** says that
whatever a request comes to, a provider can sign it for the rest of the validity of the request, and
the owner accepts the receipt with exactly this result. For the deadlines this needs a fact about
whole runs (`Termed`): a lease expires within the validity and the retention of the grant that it
was reserved under.
-/

namespace Volparossa.PrivateStorage

open Protocol (SigningKey)
open SignedStorageReceipt
open Envelope

section Leases

variable {crypto : Ed25519} {request : VerifiedStorageRequest} {db db' : Database} {env : Env}
  {binding : Binding} {archive archive' : StoredArchive} {chunks : List Chunk} {id : FixedBytes 16}
  {appendPayload : Bytes} {now : ℕ}

/-! ## Deadlines -/

/-- A lease had the same deadline before. -/
def Kept (db : Database) (id : FixedBytes 16) (archive' : StoredArchive) : Prop :=
  ∃ archive, db.leases.lookup id = some archive ∧ archive'.expiresAtUnix = archive.expiresAtUnix

theorem kept_of_lookup (h : db.leases.lookup id = some archive) : Kept db id archive :=
  ⟨archive, h, rfl⟩

/-- A request sets the deadline of the lease that it may use. -/
structure Sets (crypto : Ed25519) (request : VerifiedStorageRequest) (now : ℕ) (db : Database)
    (id : FixedBytes 16) (archive : StoredArchive) : Prop where
  uses : ∃ binding, Uses crypto request db binding ∧ binding.leaseId = id
  current : request.current crypto now = .ok ()
  provider : request.grant.provider = db.provider
  operation : request.operation = .reserve archive.expiresAtUnix ∨
    request.operation = .renew archive.expiresAtUnix

theorem kept_of_modify (f : StoredArchive → StoredArchive)
    {hf : ∀ archive, (f archive).leaseId = archive.leaseId} {changed : FixedBytes 16}
    (hexpires : ∀ archive, changed = id → (f archive).expiresAtUnix = archive.expiresAtUnix)
    (h : (db.modifyLease changed f hf).leases.lookup id = some archive') : Kept db id archive' := by
  rw [Database.modifyLease, Table.lookup_modify, Option.map_eq_some_iff] at h
  obtain ⟨archive, hlookup, rfl⟩ := h
  refine ⟨archive, hlookup, ?_⟩
  split
  · next hid => exact hexpires archive (hid ▸ (Table.key_of_lookup hlookup))
  · rfl

/-- **A deadline stays, or the request sets it.** -/
theorem Committed.deadline (hcommitted : Committed crypto env request appendPayload now db db')
    (h : db'.leases.lookup id = some archive') :
    Kept db id archive' ∨ Sets crypto request now db' id archive' := by
  cases hcommitted with
  | unchanged heq => exact .inl (kept_of_lookup (heq ▸ h))
  | reserved hentry hoperation hbody =>
    obtain ⟨hcurrent, hprovider⟩ := checkEntry_eq_ok hentry
    obtain ⟨db₁, hgrant, hbody⟩ := reserveBody_eq_ok hbody
    have hregistered := registered_of_registerGrant hgrant
    obtain ⟨grants, rfl, -⟩ := Database.registerGrant_spec hgrant
    obtain ⟨_, -, -, rfl⟩ | ⟨-, hcreate⟩ := hbody
    · exact .inl (kept_of_lookup h)
    · obtain ⟨leases, bindings, hlease, hbinding, rfl, -⟩ := Database.createBinding_spec hcreate
      rw [Table.lookup_insert hlease] at h
      split at h
      · next hid =>
        obtain rfl := Option.some.inj h
        refine .inr ⟨⟨_, ⟨Table.lookup_insert_self hbinding, rfl, fun id hid => ?_,
          rfl, rfl, hregistered⟩, hid⟩, hcurrent, hprovider, .inl hoperation⟩
        have hnone := (target_of_current hcurrent).2.2.2
        simp [hid, hoperation, StorageOperation.isReserve] at hnone
      · exact .inl (kept_of_lookup h)
  | deleted _ _ hbody =>
    rw [deleteBody_eq_ok hbody] at h
    split at h
    · exact .inl (kept_of_lookup h)
    · rw [Database.deleteLease, Table.lookup_erase] at h
      split at h
      · cases h
      · exact .inl (kept_of_lookup h)
  | appended _ hbody =>
    obtain rfl | ⟨_, -, -, rfl⟩ := tables_of_appendBody hbody <;> exact .inl (kept_of_lookup h)
  | finalized _ hbody =>
    obtain ⟨_, -, -, -, rfl⟩ := finalizeBody_eq_ok hbody
    exact .inl (kept_of_modify (fun row => { row with committed := true }) (fun _ _ => rfl) h)
  | @renewed binding expiresAt _ hentry hoperation hbinding hbody =>
    obtain ⟨hcurrent, hprovider⟩ := checkEntry_eq_ok hentry
    obtain ⟨archive, hload, -, rfl⟩ := renewBody_eq_ok hbody
    by_cases hid : binding.leaseId = id
    · subst hid
      rw [lookup_modifyLease _ _ (load_eq_ok hload), Option.some.injEq] at h
      refine .inr ⟨⟨binding, (uses_of_authorize hbinding).congr rfl rfl, rfl⟩, hcurrent, hprovider,
        .inr ?_⟩
      rw [hoperation, ← h]
    · exact .inl (kept_of_modify (fun row => { row with expiresAtUnix := expiresAt })
        (fun _ h => absurd h hid) h)

/-- The deadline of a lease that is set at a time is within the bounds of a grant. -/
def Within (grant : VerifiedStorageGrant) (now : ℕ) (archive : StoredArchive) : Prop :=
  archive.expiresAtUnix ≤ grant.validity.expires ∧
    archive.expiresAtUnix ≤ now + grant.limits.maxRetentionSeconds

/-- The bytes of a binding's grant are recorded, and they state the bounds of its lease. -/
def Termed (crypto : Ed25519) (now : ℕ) (db : Database) (binding : Binding) : Prop :=
  ∀ archive, db.leases.lookup binding.leaseId = some archive →
    ∃ grant record, grant.Verified crypto ∧ grant.provider = db.provider ∧
      db.grants.lookup binding.grantId = some record ∧ record.signedGrant = grant.signed.encode ∧
      Within grant now archive

/-- The time of a request is not before its validity, and it is in it. -/
theorem validity_of_current (hverified : request.Verified crypto)
    (h : request.current crypto now = .ok ()) :
    0 < request.validity.created ∧ request.validity.created ≤ now ∧ now < request.validity.expires ∧
      request.validity.expires ≤ maxInt64 ∧
      request.validity.expires ≤ request.validity.created + maxAuthSeconds := by
  obtain ⟨-, challenge, time, hverify⟩ := hverified
  simp only [SignedStorageRequest.verify, ok_iff] at hverify
  obtain ⟨_, -, body, hbody, _, -, _, -, _, -, _, -, _, -, _, -, _, -, hrequest⟩ := hverify
  have hvalidity : request.validity = validity body := by rw [← hrequest]
  simp only [VerifiedStorageRequest.current, bind_eq_ok] at h
  obtain ⟨_, -, body', hbody', -⟩ := h
  simp only [verify, ok_iff, not_or, not_lt, not_le] at hbody hbody'
  obtain ⟨body₁, hchecked, -, -, -, -, -, -, -, -, rfl⟩ := hbody
  obtain ⟨body₂, hchecked', -, -, -, ⟨hcreated, hexpires⟩, -, -, -, -, rfl⟩ := hbody'
  obtain rfl := ok_unique hchecked hchecked'
  simp only [checkedBody, ok_iff, not_or] at hchecked
  obtain ⟨_, -, _, -, _, -, _, hbounds, rfl⟩ := hchecked
  rw [hvalidity]
  simp only [validity]
  omega

/-- **A request keeps the terms of the leases.** -/
theorem Committed.termed (hcommitted : Committed crypto env request appendPayload now db db')
    (haccounted : Accounted crypto db) (hverified : request.Verified crypto) {latest : ℕ}
    (hnow : now ≤ latest) (h : ∀ binding ∈ db.bindings.rows, Termed crypto latest db binding)
    (haccounted' : Accounted crypto db') :
    ∀ binding ∈ db'.bindings.rows, Termed crypto latest db' binding := by
  have hconfined := hcommitted.change.confined haccounted
  intro binding hbinding archive' hlookup'
  rcases hcommitted.deadline hlookup' with ⟨archive, hlookup, hexpires⟩ | hsets
  · -- the lease was there, and its binding is the same
    obtain ⟨binding₀, hmem₀, -, hid₀⟩ := haccounted.owned archive (Table.mem_of_lookup hlookup)
    rw [Table.key_of_lookup hlookup] at hid₀
    obtain ⟨deleted, hmem, -⟩ := hconfined.identity binding₀ hmem₀
    obtain rfl : { binding₀ with deleted := deleted } = binding :=
      List.inj_on_of_nodup_map haccounted'.distinct hmem hbinding hid₀
    obtain ⟨grant, record, hgrant, hprovider, hrecord, hsigned, hwithin⟩ :=
      h binding₀ hmem₀ archive hlookup
    exact ⟨grant, record, hgrant, hprovider.trans hconfined.provider.symm,
      lookup_grants hconfined hrecord, hsigned, by rwa [Within, hexpires]⟩
  · obtain ⟨⟨binding', huses, hid⟩, hcurrent, hprovider, hoperation⟩ := hsets
    obtain rfl : binding' = binding := List.inj_on_of_nodup_map haccounted'.distinct
      (Table.mem_of_lookup huses.lookup) hbinding hid
    obtain ⟨record, hrecord, hsigned⟩ := huses.registered
    obtain ⟨-, hexpires, hretention⟩ := expiry_of_current hcurrent hoperation
    have hcreated := (validity_of_current hverified hcurrent).2.1
    exact ⟨request.grant, record, hverified.1, hprovider, huses.grantId ▸ hrecord, hsigned,
      hexpires, by omega⟩

/-! ## Receipts -/

/-- The time of a use, when it has one. -/
def Call.time : Call crypto → Option ℕ
  | .apply _ _ _ now => some now
  | .setAdmissionTarget _ _ | .reopen _ => none

/-- The lease identifier that is drawn in a use is not zero. -/
def Call.Nonzero : Call crypto → Prop
  | .apply _ _ env _ => env.leaseId ≠ some (.zero 16)
  | .setAdmissionTarget _ _ | .reopen _ => True

/-- What holds of a provider at a time. -/
structure Custody (crypto : Ed25519) (latest : ℕ) (db : Database) : Prop where
  accounted : Accounted crypto db
  intact : Intact crypto.toCrypto db
  termed : ∀ binding ∈ db.bindings.rows, Termed crypto latest db binding
  nonzero : ∀ binding ∈ db.bindings.rows, binding.leaseId ≠ .zero 16

/-- A binding has the lease that it had before, or the one that was drawn. -/
theorem Committed.leaseId (hcommitted : Committed crypto env request appendPayload now db db')
    (h : binding ∈ db'.bindings.rows) :
    (∃ binding' ∈ db.bindings.rows, binding'.leaseId = binding.leaseId) ∨
      env.leaseId = some binding.leaseId := by
  cases hcommitted with
  | unchanged heq => exact .inl ⟨binding, heq ▸ h, rfl⟩
  | reserved _ _ hbody =>
    obtain ⟨db₁, hgrant, hbody⟩ := reserveBody_eq_ok hbody
    obtain ⟨grants, rfl, -⟩ := Database.registerGrant_spec hgrant
    obtain ⟨_, -, -, rfl⟩ | ⟨-, hcreate⟩ := hbody
    · exact .inl ⟨binding, h, rfl⟩
    · obtain ⟨leases, bindings, -, hinsert, rfl, -⟩ := Database.createBinding_spec hcreate
      simp only [Database.createBinding, fromStorage, Database.reserveInTransaction, ok_iff,
        Prod.mk.injEq, Prod.exists] at hcreate
      obtain ⟨-, -, -, -, _, _, ⟨-, -, -, -, _, -, _, -, -, -, -, -, _, hid, _, -, rfl, -⟩, _, -,
        rfl, -⟩ := hcreate
      rw [Table.rows_insert hinsert, List.mem_append, List.mem_singleton] at h
      rcases h with h | rfl
      · exact .inl ⟨binding, h, rfl⟩
      · exact .inr hid
  | deleted _ _ hbody =>
    rw [deleteBody_eq_ok hbody] at h
    split at h
    · exact .inl ⟨binding, h, rfl⟩
    · obtain ⟨binding', hmem, rfl⟩ := List.mem_map.mp h
      exact .inl ⟨binding', hmem, (Binding.leaseId_bury _ _).symm⟩
  | appended _ hbody =>
    obtain rfl | ⟨_, -, -, rfl⟩ := tables_of_appendBody hbody <;> exact .inl ⟨binding, h, rfl⟩
  | finalized _ hbody =>
    obtain ⟨_, -, -, -, rfl⟩ := finalizeBody_eq_ok hbody
    exact .inl ⟨binding, h, rfl⟩
  | renewed _ _ _ hbody =>
    obtain ⟨_, -, -, rfl⟩ := renewBody_eq_ok hbody
    exact .inl ⟨binding, h, rfl⟩

theorem Custody.next {latest : ℕ} (h : Custody crypto latest db) (call : Call crypto)
    (htime : ∀ time, call.time = some time → time ≤ latest) (hnonzero : call.Nonzero) :
    Custody crypto latest ((machine crypto).next db call) := by
  refine next_cases call (fun request appendPayload env now heq => ?_) fun _ hle =>
    ⟨{ h.accounted with target_le := hle h.accounted.target_le },
      ⟨h.intact.1, h.intact.2, h.intact.3⟩, h.termed, h.nonzero⟩
  subst heq
  have haccounted := h.accounted.next (.apply request appendPayload env now)
  have hcommitted := committed_apply crypto db env request.1 appendPayload now
  refine ⟨haccounted, h.intact.next (.apply request appendPayload env now), ?_,
    fun binding hbinding => ?_⟩
  · exact hcommitted.termed h.accounted request.2 (htime now rfl) h.termed haccounted
  · rcases hcommitted.leaseId hbinding with ⟨binding', hmem, hid⟩ | hid
    · exact hid ▸ h.nonzero binding' hmem
    · rintro hzero
      rw [hzero] at hid
      exact hnonzero hid

theorem Custody.run {latest : ℕ} (h : Custody crypto latest db) {calls : List (Call crypto)}
    (htimes : ∀ call ∈ calls, ∀ time, call.time = some time → time ≤ latest)
    (hnonzero : ∀ call ∈ calls, call.Nonzero) :
    Custody crypto latest ((machine crypto).run db calls) := by
  induction calls generalizing db with
  | nil => exact h
  | cons call calls ih =>
    exact ih (h.next call (htimes call List.mem_cons_self) (hnonzero call List.mem_cons_self))
      (fun call' hmem => htimes call' (List.mem_cons_of_mem _ hmem))
      fun call' hmem => hnonzero call' (List.mem_cons_of_mem _ hmem)

/-- What the validation of a receipt asks for. -/
theorem validateReceipt_eq_ok {result : ReceiptResult} {created : ℕ}
    (hnonzero : result.leaseId ≠ .zero 16)
    (hlease : ∀ id, request.target.leaseId = some id → id = result.leaseId)
    (hstored : result.storedBytes = request.target.ciphertextBytes ∨
      result.storedBytes ≤ request.target.ciphertextBytes ∧ result.storedBytes % chunkBytes = 0)
    (hrange : result.rangeSha256.isSome = request.operation.isReadRange)
    (hstate : result.state.contradicts request.target.ciphertextBytes result.storedBytes = false)
    (hdeadline : validateDeadline result request.grant created = .ok ())
    (hcompatible : request.operation.compatible result = true) :
    validateReceipt result request created = .ok () := by
  simp only [validateReceipt, ok_iff]
  refine ⟨_, identifier_toBytes hnonzero, (), ?_, (), by simp [hstate], (), hdeadline,
    by simp [hcompatible]⟩
  rintro (hany | hgt | ⟨hne, hmod⟩ | hne)
  · cases hid : request.target.leaseId with
    | none => simp [hid] at hany
    | some id => simp [hid, hlease id hid] at hany
  · omega
  · omega
  · exact hne hrange

theorem length_content_chunks {received : ℕ} (hstored : Stored crypto.toCrypto archive chunks)
    (h : received = (content chunks).length) :
    received = archive.ciphertextBytes ∨
      received ≤ archive.ciphertextBytes ∧ received % chunkBytes = 0 := by
  rw [h, hstored.numbered.length_content]
  rcases Nat.le_total archive.ciphertextBytes (chunks.length * chunkBytes) with hle | hle
  · exact .inl (Nat.min_eq_left hle)
  · rw [Nat.min_eq_right hle]
    exact .inr ⟨hle, Nat.mul_mod_left _ _⟩

/-- The grant of a request is the one whose bounds its lease has. -/
theorem within_of_uses (hcustody : Custody crypto now db) (hverified : request.Verified crypto)
    (hprovider : request.grant.provider = db.provider) (huses : Uses crypto request db binding)
    (hlookup : db.leases.lookup binding.leaseId = some archive) :
    Within request.grant now archive := by
  obtain ⟨grant, record, hgrant, hprovider', hrecord, hsigned, hwithin⟩ :=
    hcustody.termed binding (Table.mem_of_lookup huses.lookup) archive hlookup
  obtain ⟨record', hrecord', hsigned'⟩ := huses.registered
  rw [huses.grantId, hrecord', Option.some.injEq] at hrecord
  subst hrecord
  rwa [hgrant.eq_of_encode_eq hverified.1 (hsigned.symm.trans hsigned')
    (hprovider'.trans hprovider.symm)] at hwithin

/-- **What a lease reports passes the validation of receipts.** -/
theorem valid_of_serving (hcustody : Custody crypto now db) (hverified : request.Verified crypto)
    (hcurrent : request.current crypto now = .ok ())
    (hprovider : request.grant.provider = db.provider) (huses : Uses crypto request db binding)
    (hlive : binding.deleted = false) {result : ProviderResult}
    (hserving : Serving crypto request now result db binding.leaseId archive) :
    validateReceipt result.receipt request now = .ok () ∧ result.receipt.expiresAt ≤ maxInt64 := by
  obtain ⟨hlookup, hnow, hreports⟩ := hserving
  have hmem := Table.mem_of_lookup huses.lookup
  have hid : archive.leaseId = binding.leaseId := Table.key_of_lookup hlookup
  have hnonzero : archive.leaseId ≠ .zero 16 := hid ▸ hcustody.nonzero binding hmem
  have hlease : ∀ id, request.target.leaseId = some id → id = archive.leaseId := by
    rw [hid]
    exact huses.leaseId
  have hbytes : archive.ciphertextBytes = request.target.ciphertextBytes := by
    obtain ⟨archive', hlookup', hbytes, -⟩ := hcustody.accounted.bound binding hmem hlive
    obtain rfl := Option.mem_unique hlookup hlookup'
    rw [hbytes, huses.ciphertextBytes]
  have hpos := (target_of_current hcurrent).1
  have hstored := (hcustody.intact.lookup hlookup).2.2
  obtain ⟨hexpires, hretention⟩ := within_of_uses hcustody hverified hprovider huses hlookup
  have hmax := hexpires.trans (VerifiedStorageGrant.expires_le hverified.1.2)
  have hprefix := length_content_chunks hstored rfl
  have hwhole := hstored.length_content
  rw [hbytes] at hprefix hwhole
  generalize (content (db.chunksOf binding.leaseId)).length = received at hreports hprefix hwhole
  have hvalid {state : ReceiptState} {stored : ℕ} {range : Option (FixedBytes 32)}
      (hstored : stored = request.target.ciphertextBytes ∨
        stored ≤ request.target.ciphertextBytes ∧ stored % chunkBytes = 0)
      (hstate : state ≠ .deleted ∧ state.contradicts request.target.ciphertextBytes stored = false)
      (hrange : range.isSome = request.operation.isReadRange)
      (hcompatible : request.operation.compatible
        ⟨state, archive.leaseId, stored, archive.expiresAtUnix, range⟩ = true) :
      validateReceipt ⟨state, archive.leaseId, stored, archive.expiresAtUnix, range⟩ request now =
        .ok () := by
    refine validateReceipt_eq_ok hnonzero hlease hstored hrange hstate.2 ?_ hcompatible
    rw [validateDeadline, if_neg hstate.1, refuse_eq_ok]
    dsimp only
    omega
  have hprogress (next : ℕ) (hrange : request.operation.isReadRange = false)
      (hcompatible : ∀ state : ReceiptState,
        state = .reserved ∧ received = 0 ∨ state = .partialUpload ∨ state = .committed →
        request.operation.compatible (archiveReceipt archive state received) = true) :
      validateReceipt (progressReceipt ⟨archive, next, received⟩) request now = .ok () := by
    rw [progressReceipt]
    split
    · next hcommitted =>
      exact hvalid hprefix (by simp [ReceiptState.contradicts, hwhole hcommitted]) hrange.symm
        (hcompatible _ (.inr (.inr rfl)))
    · split
      · next hzero =>
        exact hvalid hprefix (by simp [ReceiptState.contradicts, show received = 0 from hzero])
          hrange.symm (hcompatible _ (.inl ⟨rfl, hzero⟩))
      · next hne =>
        exact hvalid hprefix (by simp [ReceiptState.contradicts, show received ≠ 0 from hne])
          hrange.symm (hcompatible _ (.inr (.inl rfl)))
  generalize hoperation : request.operation = operation at hreports hvalid hprogress
  cases operation with
  | delete => cases hreports
  | reserve | progress =>
    obtain ⟨next, rfl⟩ := hreports
    exact ⟨hprogress next rfl fun state hstate => decide_eq_true (hstate.imp_left And.left), hmax⟩
  | append offset length sha256 =>
    obtain ⟨hreceived, next, rfl⟩ := hreports
    have hoffset := validateOperation_of_current hcurrent
    simp only [hoperation, validateOperation, refuse_eq_ok, not_or, not_not] at hoffset
    have hchunk := chunkBytes_pos
    refine ⟨hprogress next rfl fun state hstate => decide_eq_true ⟨?_, hreceived⟩, hmax⟩
    exact hstate.resolve_left fun h => by omega
  | finalize =>
    obtain ⟨hcommitted, rfl⟩ := hreports
    exact ⟨hvalid (.inl hbytes) ⟨by simp, by simp [ReceiptState.contradicts, hbytes]⟩ rfl rfl, hmax⟩
  | readRange offset length =>
    obtain ⟨hcommitted, payload, rfl⟩ := hreports
    exact ⟨hvalid (.inl hbytes)
      ⟨by rintro ⟨⟩, by simp [archiveReceipt, ReceiptState.contradicts, hbytes]⟩ rfl rfl, hmax⟩
  | renew expiresAt =>
    obtain ⟨hexpiry, rfl⟩ := hreports
    exact ⟨hvalid hprefix ⟨by simp, rfl⟩ rfl (decide_eq_true ⟨rfl, hexpiry⟩), hmax⟩

/-- The receipt of a deletion passes the validation of receipts. -/
theorem valid_of_deleted (hnonzero : binding.leaseId ≠ .zero 16)
    (huses : Uses crypto request db binding)
    (hoperation : request.operation = .delete) :
    validateReceipt ⟨.deleted, binding.leaseId, 0, 0, none⟩ request now = .ok () := by
  refine validateReceipt_eq_ok hnonzero huses.leaseId (.inr ⟨Nat.zero_le _, rfl⟩) ?_ rfl rfl ?_
  · rw [hoperation]
    rfl
  · rw [hoperation]
    rfl

/-- The provider of a grant has a valid key. -/
theorem key_of_current (h : request.current crypto now = .ok ()) :
    key crypto request.grant.provider.toBytes = .ok request.grant.provider := by
  simp only [VerifiedStorageRequest.current, VerifiedStorageGrant.current,
    SignedStorageGrant.verify, verify, checkedBody, ok_iff, not_not] at h
  obtain ⟨_, ⟨_, ⟨body, ⟨_, ⟨_, -, key, hkey, _, -, _, -, rfl⟩, _, hsender, -⟩, -⟩, -⟩, -⟩ := h
  rw [hsender] at hkey
  have heq : key = request.grant.provider := by
    simp only [Envelope.key, Envelope.fixed, FixedBytes.ofBytes_toBytes, orFail_some, ok_bind,
      ok_iff] at hkey
    obtain ⟨-, -, -, -, rfl⟩ := hkey
    rfl
  rw [hkey, heq]

theorem Custody.create {limits : StorageLimits} {provider : FixedBytes 32}
    (h : Database.create crypto limits provider = .ok db) :
    Custody crypto now db ∧ db.provider = provider := by
  have haccounted := (Accounted.create h).1
  have hintact := Intact.create h
  simp only [Database.create, fromStorage, ok_iff] at h
  obtain ⟨-, -, -, -, rfl⟩ := h
  exact ⟨⟨haccounted, hintact, fun _ h => absurd h List.not_mem_nil,
    fun _ h => absurd h List.not_mem_nil⟩, rfl⟩

end Leases

/-- **Every executed operation can be receipted.** Whatever a request comes to at a time that is not
before the times of earlier requests, the provider can sign it for the rest of the validity of the
request, and until then the owner accepts the receipt, with exactly this result. Lease identifiers
and nonces that are drawn are not zero. -/
theorem receipted {crypto : Ed25519} {limits : StorageLimits} {provider : FixedBytes 32}
    {db₀ : Database} (hcreate : Database.create crypto limits provider = .ok db₀)
    {calls : List (Call crypto)} {now : ℕ}
    (htimes : ∀ call ∈ calls, ∀ time, call.time = some time → time ≤ now)
    (hnonzero : ∀ call ∈ calls, call.Nonzero) (request : OwnerRequest crypto)
    {appendPayload : Bytes} {env : Env} (hdraw : env.leaseId ≠ some (.zero 16))
    {result : ProviderResult}
    (hresult : (((machine crypto).run db₀ calls).apply crypto env request.1 appendPayload now).1 =
      .ok result)
    (key : SigningKey) (hkey : key.verifyingKey = provider) (hcorrect : Correct crypto key)
    (nonce : FixedBytes 32) (hnonce : nonce ≠ .zero 32) :
    ∃ receipt, sign crypto key request.1 result.receipt
        ⟨now, request.1.validity.expires⟩ nonce = .ok receipt ∧
      receipt.result = result.receipt ∧
      ∀ later, now ≤ later → later < request.1.validity.expires →
        decodeAndVerify crypto receipt.encode request.1 later = .ok receipt := by
  obtain ⟨hstart, hstartProvider⟩ := Custody.create hcreate
  have hcustody := hstart.run htimes hnonzero
  have hprovider : ((machine crypto).run db₀ calls).provider = provider :=
    Machine.run_invariant (P := fun db => db.provider = provider)
      (fun db call h => (framed_next db call).provider.trans h) hstartProvider calls
  have hafter := hcustody.next (.apply request appendPayload env now)
    (fun time htime => (Option.some.inj htime).ge) hdraw
  obtain ⟨hcurrent, hgrant⟩ := entry_of_apply hresult
  obtain ⟨hcreated, hfrom, huntil, hmax, hauth⟩ := validity_of_current request.2 hcurrent
  have hvalid : validateReceipt result.receipt request.1 now = .ok () ∧
      result.receipt.expiresAt ≤ maxInt64 := by
    have hanswer : Answer crypto request.1 now ((machine crypto).run db₀ calls)
        (((machine crypto).run db₀ calls).apply crypto env request.1 appendPayload now) :=
      answer_apply hcustody.intact
    have hframe := (framed_next ((machine crypto).run db₀ calls)
      (.apply request appendPayload env now)).provider
    change Custody crypto now
      (((machine crypto).run db₀ calls).apply crypto env request.1 appendPayload now).2 at hafter
    change (((machine crypto).run db₀ calls).apply crypto env request.1 appendPayload
      now).2.provider = _ at hframe
    generalize ((machine crypto).run db₀ calls).apply crypto env request.1 appendPayload now =
      answer at hresult hafter hanswer hframe
    cases hanswer with
    | refused e => cases hresult
    | @deleted binding hoperation hbinding =>
      obtain rfl := Except.ok.inj hresult
      have huses := uses_of_authorize hbinding
      exact ⟨valid_of_deleted (hcustody.nonzero binding (Table.mem_of_lookup huses.lookup)) huses
        hoperation, Nat.zero_le _⟩
    | served huses hlive hserving =>
      obtain rfl := Except.ok.inj hresult
      exact valid_of_serving hafter request.2 hcurrent (hgrant.trans hframe.symm) huses hlive
        hserving
  have hsignable : SignedStorageReceipt.Signable crypto key request.1 result.receipt
      ⟨now, request.1.validity.expires⟩ nonce := by
    have hkeyGrant : key.verifyingKey = request.1.grant.provider :=
      hkey.trans (hprovider.symm.trans hgrant.symm)
    refine ⟨⟨?_, hnonce, hcreated.trans_le hfrom, huntil, hmax, ?_⟩, hkeyGrant, hcurrent, ?_,
      hvalid.1⟩
    · rw [hkeyGrant]
      exact key_of_current hcurrent
    · change request.1.validity.expires ≤ now + maxAuthSeconds
      omega
    · rw [within, refuse_eq_ok]
      simp only [not_or, not_lt]
      exact ⟨hfrom, le_rfl⟩
  refine ⟨_, sign_eq hsignable, rfl, fun later hlater hexpires => ?_⟩
  exact decodeAndVerify_receiptOf hsignable hcorrect
    (lt_of_le_of_lt hvalid.2 (by decide)) hlater hexpires

/-! ## A receipt for a reservation -/

namespace Custody

open Sample

theorem correct_providerKey : Correct primitives providerKey := by
  intro message
  refine ⟨decide_eq_true (FixedBytes.length_toBytes _), ?_⟩
  simp [primitives, providerKey, Protocol.Signatures.signingKey]

theorem apply_request₁ : (start.apply primitives (env 7) request₁.1 [] now).1 =
    .ok ⟨⟨.reserved, .replicate 16 7, 0, now + 600, none⟩, []⟩ := by decide +kernel

end Custody

/-- A reservation is receipted, and the owner accepts the receipt in the last second of its
request. -/
theorem receipted_sample : ∃ receipt : SignedStorageReceipt,
    receipt.envelope.signature = Sample.receipt.signature.toBytes ∧
      receipt.result = ⟨.reserved, .replicate 16 7, 0, Sample.now + 600, none⟩ ∧
      decodeAndVerify Sample.primitives receipt.encode Sample.request₁.1
        (Sample.now + 29) = .ok receipt := by
  obtain ⟨receipt, hsign, hresult, haccept⟩ := receipted Sample.create_start
    (fun call hmem => absurd hmem List.not_mem_nil) (fun call hmem => absurd hmem List.not_mem_nil)
    Sample.request₁ (by decide) Custody.apply_request₁ Sample.providerKey rfl
    Custody.correct_providerKey (.replicate 32 50) (by decide)
  have hsignature : (sign Sample.primitives Sample.providerKey
      Sample.request₁.1 ⟨.reserved, .replicate 16 7, 0, Sample.now + 600, none⟩
      ⟨Sample.now, Sample.now + 30⟩ (.replicate 32 50)).map
        (fun receipt => receipt.envelope.signature) = .ok Sample.receipt.signature.toBytes := by
    decide +kernel
  refine ⟨receipt, ?_, hresult, haccept _ (by decide) (by decide)⟩
  have hmap := congrArg (Except.map fun receipt => receipt.envelope.signature) hsign
  exact (ok_unique hsignature hmap).symm

end Volparossa.PrivateStorage
