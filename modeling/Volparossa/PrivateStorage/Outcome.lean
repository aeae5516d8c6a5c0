import Volparossa.PrivateStorage.Integrity
import Volparossa.PrivateStorage.Isolation

/-!
# What a provider answers

A provider keeps the leases and chunks of its store intact (`Committed.operation`), and so what it
answers is known: **`answer_apply`** says that a refused request changes nothing, that a deletion
leaves the tombstone of the binding, and that any other request leaves a lease that has not expired,
whose state the answer reports.
-/

namespace Volparossa.PrivateStorage

open Database

variable {crypto : Ed25519} {request : VerifiedStorageRequest} {db db' : Database} {env : Env}
  {binding : Binding} {archive : StoredArchive} {id : FixedBytes 16} {appendPayload : Bytes}
  {now : ℕ}

/-! ## Requests are operations of the store -/

/-- What a request may do to the leases: only a deletion deletes. -/
def Permits (operation : StorageOperation) (kind : Kind) : Prop :=
  ∀ id, kind = .deleted id → operation = .delete

theorem permits_same (operation : StorageOperation) : Permits operation .same :=
  fun _ h => nomatch h

theorem Operation.mono {crypto : Transaction.Crypto} {kinds kinds' : Kind → Prop}
    (h : Operation crypto kinds db db') (hkinds : ∀ kind, kinds kind → kinds' kind) :
    Operation crypto kinds' db db' :=
  let ⟨kind, hkind, heffect⟩ := h.effect
  ⟨h.limits, kind, hkinds kind hkind, heffect⟩

theorem operation_same {crypto : Transaction.Crypto} {kinds : Kind → Prop} (hsame : kinds .same)
    (hlimits : db'.limits = db.limits) (hleases : db'.leases = db.leases)
    (hchunks : db'.chunks = db.chunks) : Operation crypto kinds db db' :=
  ⟨hlimits, .same, hsame, .same hleases hchunks⟩

theorem operation_reserveBody {expiresAt : ℕ}
    (h : db.reserveBody crypto env request expiresAt now = .ok (id, db')) :
    Operation crypto.toCrypto (fun kind => kind = .same ∨ kind = .reserved) db db' := by
  obtain ⟨db₁, hgrant, h⟩ := reserveBody_eq_ok h
  obtain ⟨grants, rfl, -⟩ := registerGrant_spec hgrant
  obtain ⟨_, -, -, rfl⟩ | ⟨-, h⟩ := h
  · exact operation_same (.inl rfl) rfl rfl rfl
  · simp only [createBinding, fromStorage, insertBinding, reserveInTransaction, insertLease, ok_iff,
      Prod.mk.injEq, Prod.exists] at h
    obtain ⟨-, -, -, -, _, _,
      ⟨-, -, -, hbytes, -, -, -, -, -, -, -, -, _, -, _, ⟨-, hexpires, leases,
      hinsert, rfl⟩, rfl, rfl⟩, _, ⟨-, -, bindings, -, rfl⟩, -, rfl⟩ := h
    exact ⟨rfl, .reserved, .inr rfl, .reserved hinsert rfl (Nat.le_of_not_lt hbytes) hexpires rfl⟩

/-- **A request is an operation of the store.** -/
theorem Committed.operation (h : Committed crypto env request appendPayload now db db') :
    Operation crypto.toCrypto (Permits request.operation) db db' := by
  have hrefl : Operation crypto.toCrypto (Permits request.operation) db db :=
    operation_same (permits_same _) rfl rfl rfl
  cases h with
  | unchanged h => exact h ▸ hrefl
  | reserved _ _ hbody =>
    refine (operation_reserveBody hbody).mono ?_
    rintro kind (rfl | rfl) id h <;> cases h
  | deleted hoperation _ hbody =>
    rw [deleteBody_eq_ok hbody]
    split
    · exact hrefl
    · exact (operation_deleteLease db _).mono fun _ _ _ _ => hoperation
  | appended _ hbody =>
    refine (operation_appendBody hbody).mono ?_
    rintro kind (rfl | rfl) id h <;> cases h
  | finalized _ hbody =>
    refine (operation_finalizeBody hbody).mono ?_
    rintro kind (rfl | rfl) id h <;> cases h
  | renewed _ _ _ hbody =>
    refine (operation_renewBody hbody).mono ?_
    rintro kind (rfl | rfl) id h <;> cases h

/-- **A provider keeps its store intact.** -/
theorem Intact.next (h : Intact crypto.toCrypto db) (call : Call crypto) :
    Intact crypto.toCrypto ((machine crypto).next db call) := by
  refine next_cases call (fun request appendPayload env now _ => ?_) fun _ _ =>
    ⟨h.1, h.2, h.3⟩
  obtain ⟨-, kind, -, heffect⟩ :=
    (committed_apply crypto db env request.1 appendPayload now).operation
  exact heffect.intact h

theorem Intact.create {limits : StorageLimits} {provider : FixedBytes 32}
    (h : Database.create crypto limits provider = .ok db) : Intact crypto.toCrypto db := by
  simp only [Database.create, fromStorage, ok_iff] at h
  obtain ⟨-, -, -, -, rfl⟩ := h
  refine ⟨?_, ?_, ?_⟩ <;> intro row hrow <;> cases hrow

/-! ## Answers -/

/-- A binding that a request may use: that of its owner and archive, under its grant, for its lease
and with its identity. -/
structure Uses (crypto : Ed25519) (request : VerifiedStorageRequest) (db : Database)
    (binding : Binding) : Prop where
  lookup : db.bindings.lookup request.pair = some binding
  grantId : binding.grantId = request.grant.id crypto
  leaseId : ∀ id, request.target.leaseId = some id → id = binding.leaseId
  ciphertextBytes : binding.ciphertextBytes = request.target.ciphertextBytes
  sha256 : binding.sha256 = request.target.sha256
  /-- The grant is registered with its bytes. -/
  registered : ∃ record, db.grants.lookup (request.grant.id crypto) = some record ∧
    record.signedGrant = request.grant.signed.encode

theorem Uses.congr (h : Uses crypto request db binding) (hbindings : db'.bindings = db.bindings)
    (hgrants : db'.grants = db.grants) : Uses crypto request db' binding :=
  ⟨hbindings ▸ h.lookup, h.grantId, h.leaseId, h.ciphertextBytes, h.sha256, hgrants ▸ h.registered⟩

theorem uses_of_checkBinding (hfind : db.findBinding request.grant request.target = some binding)
    (h : checkBinding crypto binding request = .ok ())
    (hregistered : ∃ record, db.grants.lookup (request.grant.id crypto) = some record ∧
      record.signedGrant = request.grant.signed.encode) : Uses crypto request db binding := by
  simp only [checkBinding, ok_iff, not_or, not_not] at h
  obtain ⟨-, ⟨hgrant, hlease⟩, hbytes, hsha256⟩ := h
  refine ⟨hfind, hgrant, fun id hid => ?_, hbytes, hsha256, hregistered⟩
  rw [hid] at hlease
  simpa using hlease

/-- A grant that is found registered, or registered now, is recorded with its bytes. -/
theorem registered_of_registerGrant {grant : VerifiedStorageGrant}
    (h : db.registerGrant crypto grant = .ok db') :
    ∃ record, db'.grants.lookup (grant.id crypto) = some record ∧
      record.signedGrant = grant.signed.encode := by
  obtain ⟨grants, rfl, ⟨rfl, hcheck⟩ | ⟨-, hinsert⟩⟩ := registerGrant_spec h
  · obtain ⟨record, hlookup, -, -, hsigned⟩ := checkGrant_eq_ok hcheck
    exact ⟨record, hlookup, hsigned⟩
  · exact ⟨recordOf crypto grant, Table.lookup_insert_self hinsert, rfl⟩

theorem uses_of_authorize (h : db.authorize crypto request = .ok binding) :
    Uses crypto request db binding := by
  simp only [authorize, authorizedBinding, ok_iff] at h
  obtain ⟨⟨⟩, hgrant, binding', hfind, _, hcheck, rfl⟩ := h
  obtain ⟨record, hlookup, -, -, hsigned⟩ := checkGrant_eq_ok hgrant
  exact uses_of_checkBinding hfind hcheck ⟨record, hlookup, hsigned⟩

/-- What an operation reports of a lease and of the bytes that it holds. -/
def Reports (crypto : Ed25519) (archive : StoredArchive) (received : ℕ) (result : ProviderResult) :
    StorageOperation → Prop
  | .reserve _ | .progress => ∃ next, result = progressResult ⟨archive, next, received⟩
  | .append offset length _ => offset + length ≤ received ∧
    ∃ next, result = progressResult ⟨archive, next, received⟩
  | .finalize => archive.committed = true ∧
    result = ⟨archiveReceipt archive .committed archive.ciphertextBytes, []⟩
  | .readRange _ _ => archive.committed = true ∧ ∃ payload, result =
    ⟨{ archiveReceipt archive .committed archive.ciphertextBytes with
        rangeSha256 := some (crypto.sha256 payload) }, payload⟩
  | .renew expiresAt => archive.expiresAtUnix = expiresAt ∧
    result = ⟨archiveReceipt archive .renewed received, []⟩
  | .delete => False

/-- A lease in the store after a request, as the request reports it. -/
structure Serving (crypto : Ed25519) (request : VerifiedStorageRequest) (now : ℕ)
    (result : ProviderResult) (db : Database) (id : FixedBytes 16) (archive : StoredArchive) :
    Prop where
  lookup : db.leases.lookup id = some archive
  current : now < archive.expiresAtUnix
  reports : Reports crypto archive (content (db.chunksOf id)).length result request.operation

/-- What a provider can answer, and the tables that it leaves. -/
inductive Answer (crypto : Ed25519) (request : VerifiedStorageRequest) (now : ℕ) (db : Database) :
    Except ProviderError ProviderResult × Database → Prop where
  | refused (e : ProviderError) : Answer crypto request now db (.error e, db)
  | deleted {binding : Binding} (hoperation : request.operation = .delete)
      (hbinding : db.authorize crypto request = .ok binding) :
      Answer crypto request now db (.ok ⟨⟨.deleted, binding.leaseId, 0, 0, none⟩, []⟩,
        if binding.deleted then db else db.deleteLease binding.leaseId)
  | served {binding : Binding} {archive : StoredArchive} {result : ProviderResult} {db' : Database}
      (huses : Uses crypto request db' binding) (hlive : binding.deleted = false)
      (hserving : Serving crypto request now result db' binding.leaseId archive) :
      Answer crypto request now db (.ok result, db')

theorem uploadProgress_of_lookup (hdb : Intact crypto.toCrypto db)
    (hlookup : db.leases.lookup id = some archive) (hpos : 0 < now)
    (hnow : now < archive.expiresAtUnix) :
    db.uploadProgress id now =
      .ok ⟨archive, (db.chunksOf id).length, (content (db.chunksOf id)).length⟩ := by
  rw [uploadProgress, currentArchive_of_lookup hdb hlookup hpos hnow, ok_bind,
    (hdb.lookup hlookup).2.2.progress]

section

variable (h : request.current crypto now = .ok ())

include h

/-- A request that is current is not at time zero. -/
theorem pos_of_current : 0 < now := by
  simp only [VerifiedStorageRequest.current, Envelope.verify, Envelope.checkedBody, ok_iff,
    not_or] at h
  obtain ⟨-, -, body, ⟨_, ⟨body', -, _, -, _, -, _, hbody, rfl⟩, _, -, _, hnow, -⟩, -⟩ := h
  omega

/-- A request that is current is within the bounds of its operation. -/
theorem validateOperation_of_current :
    validateOperation request.target request.grant request.validity.created now request.operation =
      .ok () := by
  simp only [VerifiedStorageRequest.current, validate, bind_eq_ok] at h
  obtain ⟨_, -, _, -, _, -, _, -, _, -, _, -, hoperation⟩ := h
  exact hoperation

/-- The time until which a lease is reserved or renewed. -/
theorem expiry_of_current {expiresAt : ℕ}
    (hoperation : request.operation = .reserve expiresAt ∨ request.operation = .renew expiresAt) :
    now < expiresAt ∧ expiresAt ≤ request.grant.validity.expires ∧
      expiresAt ≤ request.validity.created + request.grant.limits.maxRetentionSeconds := by
  have hvalid := validateOperation_of_current h
  rcases hoperation with hoperation | hoperation <;>
    simp only [hoperation, validateOperation, refuse_eq_ok, not_or] at hvalid <;> omega

end

theorem answer_reserve (hdb : Intact crypto.toCrypto db) {expiresAt : ℕ}
    (hrequest : request.current crypto now = .ok ())
    (hoperation : request.operation = .reserve expiresAt) :
    Answer crypto request now db (db.reserve crypto env request expiresAt now) := by
  unfold reserve
  rcases transaction_cases db env.commits (.storage .database)
    (db.reserveBody crypto env request expiresAt now) with ⟨e, h⟩ | ⟨id, db', hbody, h⟩
  · rw [h]
    exact .refused e
  · rw [h]
    have hintact : Intact crypto.toCrypto db' := by
      obtain ⟨-, kind, -, heffect⟩ := operation_reserveBody hbody
      exact heffect.intact hdb
    suffices hlease : ∃ binding archive, Uses crypto request db' binding ∧ binding.deleted = false ∧
        id = binding.leaseId ∧ db'.leases.lookup id = some archive ∧ now < archive.expiresAtUnix by
      obtain ⟨binding, archive, huses, hlive, rfl, hlookup, hcurrent⟩ := hlease
      have hprogress := uploadProgress_of_lookup hintact hlookup (pos_of_current hrequest) hcurrent
      simp only [observe, fromStorage, hprogress]
      refine .served huses hlive ⟨hlookup, hcurrent, ?_⟩
      rw [hoperation]
      exact ⟨_, rfl⟩
    obtain ⟨db₁, hgrant, ⟨binding, hfind, hreuse, rfl⟩ | ⟨-, hcreate⟩⟩ := reserveBody_eq_ok hbody
    · have hregistered := registered_of_registerGrant hgrant
      simp only [reuseBinding, checkArchive, fromStorage, ok_iff] at hreuse
      obtain ⟨_, hcheck, _, hlive, archive, ⟨_, hload, _, -, rfl⟩, _, hexpires, rfl⟩ := hreuse
      exact ⟨binding, _, uses_of_checkBinding hfind hcheck hregistered,
        Bool.not_eq_true _ ▸ hlive, rfl, load_eq_ok hload, Nat.lt_of_not_le hexpires⟩
    · have hregistered := registered_of_registerGrant hgrant
      obtain ⟨leases, bindings, hlease, hbinding, rfl, -⟩ := createBinding_spec hcreate
      refine ⟨_, _, ⟨Table.lookup_insert_self hbinding, rfl, fun id hid => ?_, rfl,
        rfl, hregistered⟩, rfl, rfl, Table.lookup_insert_self hlease,
        (expiry_of_current hrequest (.inl hoperation)).1⟩
      have hnone := (target_of_current hrequest).2.2.2
      simp [hid, hoperation, StorageOperation.isReserve] at hnone

/-- What appending a chunk returns: the position behind the stored chunks, with the chunk among
them. -/
theorem appendBody_eq_ok {crypto : Transaction.Crypto} (hdb : Intact crypto db) {ordinal : ℕ}
    {sha256 : FixedBytes 32} {bytes : Bytes} {progress : UploadProgress}
    (h : db.appendBody crypto env id ordinal sha256 bytes now = .ok (progress, db')) :
    ∃ archive, db.leases.lookup id = some archive ∧ now < archive.expiresAtUnix ∧
      db'.leases = db.leases ∧ db'.bindings = db.bindings ∧ db'.grants = db.grants ∧
      Intact crypto db' ∧
      ordinal < (db'.chunksOf id).length ∧
      progress = ⟨archive, (db'.chunksOf id).length, (content (db'.chunksOf id)).length⟩ := by
  have hintact : Intact crypto db' := by
    obtain ⟨-, kind, -, heffect⟩ := operation_appendBody h
    exact heffect.intact hdb
  simp only [appendBody, ok_iff, not_not] at h
  obtain ⟨archive, hcurrent, length, hlength, -, rfl, -, hhash, progress', hprogress, h⟩ := h
  obtain ⟨hlookup, hexpires⟩ := currentArchive_eq_ok hcurrent
  have hstored := (hdb.lookup hlookup).2.2
  obtain rfl := ok_unique hstored.progress hprogress
  refine ⟨archive, hlookup, hexpires, ?_⟩
  split at h
  · next hlt =>
    simp only [ok_iff, Prod.mk.injEq] at h
    obtain ⟨-, -, rfl, rfl⟩ := h
    exact ⟨rfl, rfl, rfl, hintact, hlt, rfl⟩
  · simp only [insertChunk, ok_iff, Prod.mk.injEq, not_not] at h
    obtain ⟨-, rfl, -, -, -, -, _, ⟨-, -, chunks, hinsert, rfl⟩, rfl, rfl⟩ := h
    obtain ⟨hlt, hlen⟩ := chunkLength_eq_ok.mp hlength
    have hcheck : checkedChunk crypto archive (db.chunksOf id).length
        ⟨id, (db.chunksOf id).length, sha256, bytes⟩ = .ok bytes :=
      checkedChunk_eq_ok.mpr ⟨rfl, rfl, hlt, hlen, hhash.symm⟩
    have happend : ({ db with chunks := chunks } : Database).chunksOf id =
        db.chunksOf id ++ [⟨id, (db.chunksOf id).length, sha256, bytes⟩] :=
      @chunksOf_insert_next crypto ⟨id, (db.chunksOf id).length, sha256, bytes⟩ db
        { db with chunks := chunks } archive hstored.numbered hcheck hinsert
    refine ⟨rfl, rfl, rfl, hintact, ?_, ?_⟩
    · rw [happend, List.length_append]
      exact Nat.lt_succ_self _
    · rw [happend, content_append, List.length_append, List.length_append]
      simp [content]

theorem lookup_modifyLease (f : StoredArchive → StoredArchive)
    (hf : ∀ archive, (f archive).leaseId = archive.leaseId)
    (h : db.leases.lookup id = some archive) :
    (db.modifyLease id f hf).leases.lookup id = some (f archive) := by
  rw [modifyLease, Table.lookup_modify_self h]

/-- The answer to an operation on the lease of a live binding. -/
theorem answer_execute (hdb : Intact crypto.toCrypto db)
    (hrequest : request.current crypto now = .ok ()) (huses : Uses crypto request db binding)
    (hlive : binding.deleted = false) (harchive : db.checkArchive binding = .ok archive) :
    Answer crypto request now db
      (db.execute crypto env binding.leaseId request.operation appendPayload now) := by
  have hpos := pos_of_current hrequest
  simp only [checkArchive, fromStorage, ok_iff, not_or, not_not] at harchive
  obtain ⟨_, hload, -, ⟨hbytes, -⟩, rfl⟩ := harchive
  have hlookup := load_eq_ok hload
  cases hoperation : request.operation with
  | reserve | delete => exact .refused _
  | append offset length sha256 =>
    simp only [execute, appendChunk]
    rcases transaction_cases db env.commits .database (db.appendBody crypto.toCrypto env
      binding.leaseId (offset / chunkBytes) sha256 appendPayload now) with
      ⟨e, h⟩ | ⟨progress, db', hbody, h⟩
    · rw [h]
      exact .refused _
    · rw [h]
      obtain ⟨archive', hlookup', hcurrent, hleases, hbindings, hgrants, hintact, hordinal, rfl⟩ :=
        appendBody_eq_ok hdb hbody
      obtain rfl := Option.mem_unique hlookup hlookup'
      rw [← hleases] at hlookup
      refine .served (huses.congr hbindings hgrants) hlive ⟨hlookup, hcurrent, ?_⟩
      rw [hoperation]
      refine ⟨?_, _, rfl⟩
      have hvalid := validateOperation_of_current hrequest
      simp only [hoperation, validateOperation, refuse_eq_ok, not_or, not_not] at hvalid
      obtain ⟨hmod, hlt, hlength⟩ := hvalid
      rw [(hintact.lookup hlookup).2.2.numbered.length_content, hbytes, huses.ciphertextBytes]
      have hsplit := Nat.div_add_mod offset chunkBytes
      have hle := Nat.mul_le_mul_right chunkBytes hordinal
      rw [Nat.succ_mul, Nat.mul_comm (offset / chunkBytes)] at hle
      omega
  | progress =>
    simp only [execute, observe, fromStorage]
    cases hprogress : db.uploadProgress binding.leaseId now with
    | error e => exact .refused _
    | ok progress =>
      simp only [uploadProgress, bind_eq_ok] at hprogress
      obtain ⟨archive', hcurrent, hprogress⟩ := hprogress
      obtain ⟨hlookup', hcurrent⟩ := currentArchive_eq_ok hcurrent
      obtain rfl := ok_unique (hdb.lookup hlookup').2.2.progress hprogress
      refine .served huses hlive ⟨hlookup', hcurrent, ?_⟩
      rw [hoperation]
      exact ⟨_, rfl⟩
  | finalize =>
    simp only [execute, finalize]
    rcases transaction_cases db env.commits .database
      (db.finalizeBody crypto.toCrypto binding.leaseId now) with ⟨e, h⟩ | ⟨committed, db', hbody, h⟩
    · rw [h]
      exact .refused _
    · rw [h]
      obtain ⟨archive', hcurrent, -, rfl, rfl⟩ := finalizeBody_eq_ok hbody
      obtain ⟨hlookup', hcurrent⟩ := currentArchive_eq_ok hcurrent
      refine .served (huses.congr rfl rfl) hlive ⟨lookup_modifyLease
        (fun row => { row with committed := true }) (fun _ => rfl) hlookup', hcurrent, ?_⟩
      rw [hoperation]
      exact ⟨rfl, rfl⟩
  | readRange offset length =>
    simp only [execute, observe, fromStorage]
    cases hread : db.readResult crypto binding.leaseId offset length now with
    | error e => exact .refused _
    | ok result =>
      simp only [readResult, readRange, ok_iff, Prod.exists, Prod.mk.injEq] at hread
      obtain ⟨-, -, range, payload, ⟨archive', hcurrent, -, hcommitted, -, -, -, -, -, -, -, -, -,
        rfl, -⟩, -, -, rfl⟩ := hread
      obtain ⟨hlookup', hcurrent⟩ := currentArchive_eq_ok hcurrent
      refine .served huses hlive ⟨hlookup', hcurrent, ?_⟩
      rw [hoperation]
      exact ⟨Bool.not_eq_false _ ▸ hcommitted, _, rfl⟩
  | renew expiresAt =>
    simp only [execute, renew]
    rcases transaction_cases db env.commits .database (db.renewBody binding.leaseId expiresAt now)
      with ⟨e, h⟩ | ⟨renewed, db', hbody, h⟩
    · rw [h]
      exact .refused _
    · rw [h]
      obtain ⟨-, kind, -, heffect⟩ := operation_renewBody hbody
      have hintact := heffect.intact hdb
      obtain ⟨archive', hload', -, rfl⟩ := renewBody_eq_ok hbody
      have hlookup' := lookup_modifyLease (fun row => { row with expiresAtUnix := expiresAt })
        (fun _ => rfl) (load_eq_ok hload')
      have hexpiry := (expiry_of_current hrequest (.inr hoperation)).1
      have hprogress := uploadProgress_of_lookup hintact hlookup' hpos hexpiry
      simp only [observe, fromStorage, hprogress]
      refine .served (huses.congr rfl rfl) hlive ⟨hlookup', hexpiry, ?_⟩
      rw [hoperation]
      exact ⟨rfl, rfl⟩

/-- **What a provider answers.** -/
theorem answer_apply (hdb : Intact crypto.toCrypto db) :
    Answer crypto request now db (db.apply crypto env request appendPayload now) := by
  unfold apply
  split
  · exact .refused _
  · next hentry =>
    obtain ⟨hrequest, -⟩ := checkEntry_eq_ok hentry
    split
    · next hoperation => exact answer_reserve hdb hrequest hoperation
    · split
      · exact .refused _
      · next binding hbinding =>
        split
        · next hdelete =>
          unfold delete
          rcases transaction_cases db env.commits (.storage .database) (db.deleteBody binding) with
            ⟨e, h⟩ | ⟨⟨⟩, db', hbody, h⟩
          · rw [h]
            exact .refused _
          · rw [h]
            rw [deleteBody_eq_ok hbody]
            exact .deleted hdelete hbinding
        · split
          · exact .refused _
          · next hlive =>
            simp only [liveBinding, ok_iff] at hlive
            obtain ⟨-, hlive, archive, harchive, -⟩ := hlive
            exact answer_execute hdb hrequest (uses_of_authorize hbinding)
              (Bool.not_eq_true _ ▸ hlive) harchive

theorem Answer.eq_of_error {answer : Except ProviderError ProviderResult × Database}
    (h : Answer crypto request now db answer) {e : ProviderError} (he : answer.1 = .error e) :
    answer.2 = db := by
  cases h with
  | refused => rfl
  | deleted | served => cases he

/-- A request that succeeds is current, and names the provider. -/
theorem entry_of_apply {result : ProviderResult}
    (h : (db.apply crypto env request appendPayload now).1 = .ok result) :
    request.current crypto now = .ok () ∧ request.grant.provider = db.provider := by
  cases hentry : db.checkEntry crypto request appendPayload now with
  | error e =>
    rw [apply, hentry] at h
    cases h
  | ok =>
    exact checkEntry_eq_ok hentry

/-- The record of a grant stays. -/
theorem lookup_grants {other : VerifiedStorageRequest} (h : Confined crypto other db db')
    {grantId : FixedBytes 32} {record : GrantRecord}
    (hlookup : db.grants.lookup grantId = some record) :
    db'.grants.lookup grantId = some record := by
  rcases h.grants with hgrants | ⟨-, hinsert⟩
  · rw [hgrants, hlookup]
  · rw [Table.lookup_insert hinsert, if_neg, hlookup]
    rintro rfl
    have hnone := (Table.insert_eq_some.mp hinsert).1
    rw [hlookup] at hnone
    cases hnone

end Volparossa.PrivateStorage
