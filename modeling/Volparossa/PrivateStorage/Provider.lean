import Volparossa.Foundations.Machine
import Volparossa.PrivateStorage.Store

/-!
# The private storage provider

Durable authorization bindings around the ciphertext store. A provider executes verified requests of
owners (`apply`); a reservation registers the grant, binds the owner's archive to it and to a new
lease, and every later operation has to come under the grant and with the identity of the binding. A
deletion leaves the binding as a tombstone.

`machine` is the provider over time: requests, changes of the admission target, and reopenings.
`committed_apply` says which body a request commits, and `Committed.change` what it can make of the
tables.
-/

namespace Volparossa.PrivateStorage

open Transaction (checkedAdd)
open Database

/-- Metadata is retained rather than silently evicted and replayed as a new authorization. -/
def maxProviderGrants : ℕ := 256

/-- Includes live bindings and deletion tombstones. -/
def maxProviderBindings : ℕ := 4096

/-- Exact lifecycle of a receipt. -/
inductive ReceiptState where
  | reserved
  | partialUpload
  | committed
  | renewed
  | deleted
  deriving DecidableEq, Repr

/-- Observed lifecycle and prefix state. -/
structure ReceiptResult where
  state : ReceiptState
  leaseId : FixedBytes 16
  storedBytes : ℕ
  expiresAt : ℕ
  rangeSha256 : Option (FixedBytes 32)
  deriving DecidableEq

/-- An executed, durable outcome. -/
structure ProviderResult where
  receipt : ReceiptResult
  payload : Bytes
  deriving DecidableEq

/-- Authorization errors. -/
inductive ProviderError where
  | protocol (e : ProtocolError)
  | storage (e : StorageError)
  | unauthorized
  | conflict
  | deleted
  | metadataQuota
  deriving DecidableEq, Repr

/-- Wrap an error of the store. -/
def fromStorage {α : Type} (x : Except StorageError α) : Except ProviderError α :=
  x.mapError .storage

def archiveReceipt (archive : StoredArchive) (state : ReceiptState) (storedBytes : ℕ) :
    ReceiptResult :=
  ⟨state, archive.leaseId, storedBytes, archive.expiresAtUnix, none⟩

def progressReceipt (progress : UploadProgress) : ReceiptResult :=
  archiveReceipt progress.archive
    (if progress.archive.committed then .committed
      else if progress.receivedBytes = 0 then .reserved else .partialUpload)
    progress.receivedBytes

namespace Database

variable (crypto : Ed25519) (db : Database)

/-! ## Grants and bindings -/

/-- The registered grant with a capability. -/
def grantOfCapability (capabilityId : FixedBytes 32) : Option GrantRecord :=
  db.grants.rows.find? fun record => decide (record.capabilityId = capabilityId)

def checkGrant (grant : VerifiedStorageGrant) : Except ProviderError Unit :=
  refuse (((db.grants.lookup (grant.id crypto)).filter fun record =>
      decide (record.capabilityId = grant.capabilityId ∧ record.owner = grant.owner)).map
    GrantRecord.signedGrant ≠ some grant.signed.encode) .unauthorized

/-- What is recorded of a grant. -/
def recordOf (grant : VerifiedStorageGrant) : GrantRecord :=
  ⟨grant.id crypto, grant.capabilityId, grant.owner, grant.signed.encode⟩

/-- Insert a grant; its identifier and its capability have to be new. -/
def insertGrant (record : GrantRecord) : Except ProviderError Database := do
  refuse (¬(1 ≤ record.signedGrant.length ∧ record.signedGrant.length ≤ 2048) ∨
    db.grantOfCapability record.capabilityId ≠ none) (.storage .database)
  let grants ← orFail (db.grants.insert record) (.storage .database)
  pure { db with grants := grants }

/-- Register a grant, or find it registered with exactly these bytes. -/
def registerGrant (grant : VerifiedStorageGrant) : Except ProviderError Database :=
  match db.grantOfCapability grant.capabilityId with
  | some record => do
    refuse (record.grantId ≠ grant.id crypto) .unauthorized
    db.checkGrant crypto grant
    pure db
  | none => do
    refuse (db.grants.rows.length ≥ maxProviderGrants) .metadataQuota
    db.insertGrant (recordOf crypto grant)

def findBinding (grant : VerifiedStorageGrant) (target : StorageTarget) : Option Binding :=
  db.bindings.lookup (grant.owner, target.archiveId)

/-- A binding may be used only under its grant, for its lease and with its identity. -/
def checkBinding (binding : Binding) (request : VerifiedStorageRequest) :
    Except ProviderError Unit := do
  refuse (binding.grantId ≠ request.grant.id crypto ∨
    request.target.leaseId.any fun id => decide (id ≠ binding.leaseId)) .unauthorized
  refuse (binding.ciphertextBytes ≠ request.target.ciphertextBytes ∨
    binding.sha256 ≠ request.target.sha256) .conflict

def authorizedBinding (request : VerifiedStorageRequest) : Except ProviderError Binding := do
  let binding ← orFail (db.findBinding request.grant request.target) .unauthorized
  checkBinding crypto binding request
  pure binding

/-- The lease of a binding, with the identity of the binding. -/
def checkArchive (binding : Binding) : Except ProviderError StoredArchive := do
  let archive ← fromStorage (db.load binding.leaseId)
  refuse (archive.ciphertextBytes ≠ binding.ciphertextBytes ∨ archive.sha256 ≠ binding.sha256)
    (.storage .invalidStore)
  pure archive

/-- Insert a binding; its owner and archive have to be new, its lease bound to no other, its grant
registered, and its length within bounds. -/
def insertBinding (binding : Binding) : Except ProviderError Database := do
  refuse (db.bindings.rows.any (fun row => decide (row.leaseId = binding.leaseId)) ∨
    db.grants.lookup binding.grantId = none ∨
    ¬(1 ≤ binding.ciphertextBytes ∧ binding.ciphertextBytes ≤ 68719476736)) (.storage .database)
  let bindings ← orFail (db.bindings.insert binding) (.storage .database)
  pure { db with bindings := bindings }

/-- Whether a binding is charged to a grant. -/
def charges (grantId : FixedBytes 32) (binding : Binding) : Bool :=
  decide (binding.grantId = grantId) && !binding.deleted

/-- The payload that is charged to a grant. -/
def chargedBytes (grantId : FixedBytes 32) : ℕ :=
  db.bindings.sumWhere (charges grantId) Binding.ciphertextBytes

/-- The leases that are charged to a grant. -/
def chargedLeases (grantId : FixedBytes 32) : ℕ := db.bindings.count (charges grantId)

/-! ## Requests -/

/-- A binding that a repeated reservation finds. -/
def reuseBinding (binding : Binding) (request : VerifiedStorageRequest) (now : ℕ) :
    Except ProviderError (FixedBytes 16) := do
  checkBinding crypto binding request
  refuse (binding.deleted = true) .deleted
  let archive ← db.checkArchive binding
  refuse (archive.expiresAtUnix ≤ now) (.storage .expired)
  pure binding.leaseId

/-- A new lease and its binding, within the limits of the grant. -/
def createBinding (env : Env) (request : VerifiedStorageRequest) (expiresAt now : ℕ) :
    Except ProviderError (FixedBytes 16 × Database) := do
  let target := request.target
  let grantId := request.grant.id crypto
  let limits := request.grant.limits
  refuse (db.bindings.rows.length ≥ maxProviderBindings) .metadataQuota
  refuse (db.chargedLeases grantId ≥ limits.maxLeases ∨
    (checkedAdd (db.chargedBytes grantId) target.ciphertextBytes).all
      fun bytes => decide (bytes > limits.maxPayloadBytes)) (.storage .quota)
  let (id, db) ← fromStorage (db.reserveInTransaction env
    ⟨target.ciphertextBytes, target.sha256, expiresAt, now⟩)
  let db ← db.insertBinding ⟨request.grant.owner, target.archiveId, grantId, id,
    target.ciphertextBytes, target.sha256, false⟩
  pure (id, db)

/-- What a reservation makes of the tables. -/
def reserveBody (env : Env) (request : VerifiedStorageRequest) (expiresAt now : ℕ) :
    Except ProviderError (FixedBytes 16 × Database) := do
  let db ← db.registerGrant crypto request.grant
  match db.findBinding request.grant request.target with
  | some binding => do
    let id ← db.reuseBinding crypto binding request now
    pure (id, db)
  | none => db.createBinding crypto env request expiresAt now

/-- What a reading of the tables returns, with the tables. -/
def observe {α : Type} (x : Except StorageError α) (f : α → ProviderResult) :
    Except ProviderError ProviderResult × Database :=
  ((fromStorage x).map f, db)

def progressResult (progress : UploadProgress) : ProviderResult := ⟨progressReceipt progress, []⟩

/-- Reserve, and report the upload position. -/
def reserve (env : Env) (request : VerifiedStorageRequest) (expiresAt now : ℕ) :
    Except ProviderError ProviderResult × Database :=
  match transaction db env.commits (.storage .database)
      (db.reserveBody crypto env request expiresAt now) with
  | (.error e, db) => (.error e, db)
  | (.ok id, db) => db.observe (db.uploadProgress id now) progressResult

/-- What a deletion makes of the tables. -/
def deleteBody (binding : Binding) : Except ProviderError (Unit × Database) := do
  if binding.deleted then pure ((), db)
  else
    let _ ← db.checkArchive binding
    refuse (db.leases.lookup binding.leaseId = none) (.storage .invalidStore)
    pure ((), db.deleteLease binding.leaseId)

def delete (env : Env) (binding : Binding) : Except ProviderError ProviderResult × Database :=
  match transaction db env.commits (.storage .database) (db.deleteBody binding) with
  | (.error e, db) => (.error e, db)
  | (.ok (), db) => (.ok ⟨⟨.deleted, binding.leaseId, 0, 0, none⟩, []⟩, db)

/-- Read a range, whose length has to be the requested one. -/
def readResult (id : FixedBytes 16) (offset length now : ℕ) :
    Except StorageError ProviderResult := do
  let chunks := (length + chunkBytes - 1) / chunkBytes
  refuse (chunks ≥ 2 ^ 32) .invalidInput
  let (range, payload) ← db.readRange crypto.toCrypto id (offset / chunkBytes) chunks now
  refuse (range.ciphertextBytes ≠ length ∨ payload.length ≠ length) .integrity
  let receipt := archiveReceipt range.archive .committed range.archive.ciphertextBytes
  pure ⟨{ receipt with rangeSha256 := some (crypto.sha256 payload) }, payload⟩

/-- Execute an operation on the lease of a live binding. -/
def execute (env : Env) (id : FixedBytes 16) (operation : StorageOperation) (appendPayload : Bytes)
    (now : ℕ) : Except ProviderError ProviderResult × Database :=
  match operation with
  | .append offset _ sha256 =>
    let (progress, db) :=
      db.appendChunk crypto.toCrypto env id (offset / chunkBytes) sha256 appendPayload now
    db.observe progress progressResult
  | .progress => db.observe (db.uploadProgress id now) progressResult
  | .finalize =>
    let (archive, db) := db.finalize crypto.toCrypto env id now
    db.observe archive fun archive =>
      ⟨archiveReceipt archive .committed archive.ciphertextBytes, []⟩
  | .readRange offset length => db.observe (db.readResult crypto id offset length now) fun r => r
  | .renew expiresAt =>
    match db.renew env id expiresAt now with
    | (.error e, db) => (.error (.storage e), db)
    | (.ok _, db) => db.observe (db.uploadProgress id now) fun progress =>
      ⟨archiveReceipt progress.archive .renewed progress.receivedBytes, []⟩
  | .reserve _ | .delete => (.error (.storage .invalidInput), db)

/-- Ciphertext comes with an append, and only then. -/
def checkPayload (operation : StorageOperation) (appendPayload : Bytes) :
    Except ProviderError Unit :=
  match operation with
  | .append _ length _ => refuse (appendPayload.length ≠ length) (.storage .invalidInput)
  | _ => refuse (appendPayload ≠ []) (.storage .invalidInput)

/-- What is checked of a request before the tables are read. -/
def checkEntry (request : VerifiedStorageRequest) (appendPayload : Bytes) (now : ℕ) :
    Except ProviderError Unit := do
  (request.current crypto now).mapError .protocol
  refuse (request.grant.provider ≠ db.provider) .unauthorized
  checkPayload request.operation appendPayload

/-- What is checked of a request against the tables, when it is not a reservation. -/
def authorize (request : VerifiedStorageRequest) : Except ProviderError Binding := do
  db.checkGrant crypto request.grant
  db.authorizedBinding crypto request

/-- What is checked before an operation on a live binding. -/
def liveBinding (binding : Binding) : Except ProviderError Unit := do
  refuse (binding.deleted = true) .deleted
  let _ ← db.checkArchive binding
  pure ()

/-- **Execute one verified exact operation.** -/
def apply (env : Env) (request : VerifiedStorageRequest) (appendPayload : Bytes) (now : ℕ) :
    Except ProviderError ProviderResult × Database :=
  match db.checkEntry crypto request appendPayload now with
  | .error e => (.error e, db)
  | .ok () =>
    match request.operation with
    | .reserve expiresAt => db.reserve crypto env request expiresAt now
    | operation =>
      match db.authorize crypto request with
      | .error e => (.error e, db)
      | .ok binding =>
        if operation = .delete then db.delete env binding
        else
          match db.liveBinding binding with
          | .error e => (.error e, db)
          | .ok () => db.execute crypto env binding.leaseId operation appendPayload now

/-! ## Opening -/

/-- A new store, pinned to a provider. -/
def create (limits : StorageLimits) (provider : FixedBytes 32) : Except ProviderError Database := do
  fromStorage (validLimits limits)
  refuse (crypto.isWeak provider = true) .unauthorized
  pure ⟨limits, limits.capacityBytes, provider, .empty, .empty, .empty, .empty⟩

/-- Open an owned store again, as a provider. -/
def reopen (provider : FixedBytes 32) : Except ProviderError Unit := do
  (fromStorage (validLimits db.limits)).mapError fun _ => .storage .invalidStore
  let _ ← fromStorage db.usage
  let _ ← fromStorage db.admissionStatus
  refuse (crypto.isWeak provider = true) .unauthorized
  refuse (db.provider ≠ provider) .unauthorized
  refuse (db.grants.rows.length > maxProviderGrants ∨
    db.bindings.rows.length > maxProviderBindings) (.storage .invalidStore)

end Database

/-! ## What a request can make of the tables -/

/-- The effect of a request: none, a registered grant, a new lease with its binding, or a change of
the chunks or of the lease of a binding that the request may use. -/
inductive Change (crypto : Ed25519) (request : VerifiedStorageRequest) (db : Database) :
    Database → Prop where
  | unchanged : Change crypto request db db
  | registered {db₁ : Database} {binding : Binding}
      (hprovider : request.grant.provider = db.provider)
      (hgrant : db.registerGrant crypto request.grant = .ok db₁)
      (hfind : db₁.findBinding request.grant request.target = some binding)
      (hcheck : checkBinding crypto binding request = .ok ()) :
      Change crypto request db db₁
  | created {db₁ db₂ : Database} {env : Env} {expiresAt now : ℕ} {id : FixedBytes 16}
      (hcurrent : request.current crypto now = .ok ())
      (hprovider : request.grant.provider = db.provider)
      (hgrant : db.registerGrant crypto request.grant = .ok db₁)
      (hfind : db₁.findBinding request.grant request.target = none)
      (hcreate : db₁.createBinding crypto env request expiresAt now = .ok (id, db₂)) :
      Change crypto request db db₂
  | appended {binding : Binding} {chunk : Chunk} {chunks : Table Chunk.key}
      (hbinding : db.authorize crypto request = .ok binding)
      (hlease : chunk.leaseId = binding.leaseId) (hexists : db.leases.lookup chunk.leaseId ≠ none)
      (hinsert : db.chunks.insert chunk = some chunks) :
      Change crypto request db { db with chunks := chunks }
  | modified {binding : Binding} (f : StoredArchive → StoredArchive)
      (hf : ∀ archive, (f archive).leaseId = archive.leaseId)
      (hbinding : db.authorize crypto request = .ok binding)
      (hbytes : ∀ archive, (f archive).ciphertextBytes = archive.ciphertextBytes)
      (hsha256 : ∀ archive, (f archive).sha256 = archive.sha256) :
      Change crypto request db (db.modifyLease binding.leaseId f hf)
  | deleted {binding : Binding} (hbinding : db.authorize crypto request = .ok binding)
      (hlive : binding.deleted = false) :
      Change crypto request db (db.deleteLease binding.leaseId)

section Inversion

variable {crypto : Ed25519} {db db' : Database} {request : VerifiedStorageRequest} {env : Env}
  {binding : Binding} {id : FixedBytes 16} {now : ℕ}

/-! ### What the bodies do -/

/-- A reservation finds a binding, or makes one. -/
theorem reserveBody_eq_ok {expiresAt : ℕ}
    (h : db.reserveBody crypto env request expiresAt now = .ok (id, db')) :
    ∃ db₁, db.registerGrant crypto request.grant = .ok db₁ ∧
      ((∃ binding, db₁.findBinding request.grant request.target = some binding ∧
          db₁.reuseBinding crypto binding request now = .ok id ∧ db' = db₁) ∨
        db₁.findBinding request.grant request.target = none ∧
          db₁.createBinding crypto env request expiresAt now = .ok (id, db')) := by
  simp only [reserveBody, bind_eq_ok] at h
  obtain ⟨db₁, hgrant, h⟩ := h
  refine ⟨db₁, hgrant, ?_⟩
  split at h
  · simp only [ok_iff, Prod.mk.injEq] at h
    obtain ⟨_, hreuse, rfl, rfl⟩ := h
    exact .inl ⟨_, ‹_›, hreuse, rfl⟩
  · exact .inr ⟨‹_›, h⟩

theorem deleteBody_eq_ok {deleted : Unit} (h : db.deleteBody binding = .ok (deleted, db')) :
    db' = if binding.deleted then db else db.deleteLease binding.leaseId := by
  unfold deleteBody at h
  split at h
  · rename_i hdeleted
    simp only [pure_eq_ok, Prod.mk.injEq] at h
    rw [if_pos hdeleted, h.2]
  · rename_i hlive
    simp only [ok_iff, Prod.mk.injEq] at h
    obtain ⟨-, -, -, -, -, rfl⟩ := h
    rw [if_neg hlive]

/-- Appending leaves the tables to a retry, and inserts a new chunk. -/
theorem tables_of_appendBody {crypto : Transaction.Crypto} {ordinal : ℕ} {sha256 : FixedBytes 32}
    {bytes : Bytes} {progress : UploadProgress}
    (h : db.appendBody crypto env id ordinal sha256 bytes now = .ok (progress, db')) :
    db' = db ∨ ∃ chunks, db.leases.lookup id ≠ none ∧
      db.chunks.insert ⟨id, ordinal, sha256, bytes⟩ = some chunks ∧
      db' = { db with chunks := chunks } := by
  simp only [appendBody, bind_eq_ok] at h
  obtain ⟨archive, -, length, -, -, -, -, -, progress', -, h⟩ := h
  split at h
  · simp only [ok_iff, Prod.mk.injEq] at h
    obtain ⟨-, -, -, rfl⟩ := h
    exact .inl rfl
  · simp only [insertChunk, ok_iff, Prod.mk.injEq, not_or] at h
    obtain ⟨-, -, -, -, -, -, _, ⟨-, ⟨hexists, -⟩, chunks, hinsert, rfl⟩, -, rfl⟩ := h
    exact .inr ⟨chunks, hexists, hinsert, rfl⟩

theorem finalizeBody_eq_ok {crypto : Transaction.Crypto} {committed : StoredArchive}
    (h : db.finalizeBody crypto id now = .ok (committed, db')) :
    ∃ archive, db.currentArchive id now = .ok archive ∧
      verifyArchive crypto archive (db.chunksOf id) = .ok () ∧
      committed = { archive with committed := true } ∧
      db' = db.modifyLease id (fun row => { row with committed := true }) fun _ => rfl := by
  simp only [finalizeBody, ok_iff, Prod.mk.injEq] at h
  obtain ⟨archive, hcurrent, ⟨⟩, hverify, rfl, rfl⟩ := h
  exact ⟨archive, hcurrent, hverify, rfl, rfl⟩

theorem renewBody_eq_ok {newExpiry : ℕ} {renewed : StoredArchive}
    (h : db.renewBody id newExpiry now = .ok (renewed, db')) :
    ∃ archive, db.load id = .ok archive ∧ archive.expiresAtUnix ≤ newExpiry ∧
      db' = db.modifyLease id (fun row => { row with expiresAtUnix := newExpiry }) fun _ =>
        rfl := by
  simp only [renewBody, ok_iff, Prod.mk.injEq, not_lt] at h
  obtain ⟨-, -, archive, hload, -, hexpiry, -, rfl⟩ := h
  exact ⟨archive, hload, hexpiry, rfl⟩

/-! ### What a request does -/

theorem checkEntry_eq_ok {appendPayload : Bytes}
    (h : db.checkEntry crypto request appendPayload now = .ok ()) :
    request.current crypto now = .ok () ∧ request.grant.provider = db.provider := by
  simp only [checkEntry, ok_iff, not_not] at h
  obtain ⟨⟨⟩, hcurrent, -, hprovider, -⟩ := h
  exact ⟨hcurrent, hprovider⟩

/-- The tables after a request: as they were, or as the body of one operation makes them. -/
inductive Committed (crypto : Ed25519) (env : Env) (request : VerifiedStorageRequest)
    (appendPayload : Bytes) (now : ℕ) (db db' : Database) : Prop where
  | unchanged (h : db' = db)
  | reserved {expiresAt : ℕ} {id : FixedBytes 16}
      (hentry : db.checkEntry crypto request appendPayload now = .ok ())
      (hoperation : request.operation = .reserve expiresAt)
      (hbody : db.reserveBody crypto env request expiresAt now = .ok (id, db'))
  | deleted {binding : Binding} (hoperation : request.operation = .delete)
      (hbinding : db.authorize crypto request = .ok binding)
      (hbody : db.deleteBody binding = .ok ((), db'))
  | appended {binding : Binding} {ordinal : ℕ} {sha256 : FixedBytes 32} {progress : UploadProgress}
      (hbinding : db.authorize crypto request = .ok binding)
      (hbody : db.appendBody crypto.toCrypto env binding.leaseId ordinal sha256 appendPayload now =
        .ok (progress, db'))
  | finalized {binding : Binding} {archive : StoredArchive}
      (hbinding : db.authorize crypto request = .ok binding)
      (hbody : db.finalizeBody crypto.toCrypto binding.leaseId now = .ok (archive, db'))
  | renewed {binding : Binding} {expiresAt : ℕ} {archive : StoredArchive}
      (hentry : db.checkEntry crypto request appendPayload now = .ok ())
      (hoperation : request.operation = .renew expiresAt)
      (hbinding : db.authorize crypto request = .ok binding)
      (hbody : db.renewBody binding.leaseId expiresAt now = .ok (archive, db'))

/-- A request that commits a transaction does what the body does. -/
theorem committed_transaction {ε α : Type} {commits : Bool} {database : ε}
    {body : Except ε (α × Database)} {appendPayload : Bytes}
    (h : ∀ a db', body = .ok (a, db') → Committed crypto env request appendPayload now db db') :
    Committed crypto env request appendPayload now db (transaction db commits database body).2 := by
  rcases transaction_cases db commits database body with ⟨e, heq⟩ | ⟨a, db', hbody, heq⟩ <;>
    rw [heq]
  · exact .unchanged rfl
  · exact h a db' hbody

theorem committed_execute {appendPayload : Bytes}
    (hentry : db.checkEntry crypto request appendPayload now = .ok ())
    (hbinding : db.authorize crypto request = .ok binding) :
    Committed crypto env request appendPayload now db
      (db.execute crypto env binding.leaseId request.operation appendPayload now).2 := by
  cases hoperation : request.operation with
  | reserve | progress | readRange | delete => exact .unchanged rfl
  | append => exact committed_transaction fun _ _ hbody => .appended hbinding hbody
  | finalize => exact committed_transaction fun _ _ hbody => .finalized hbinding hbody
  | renew expiresAt =>
    have hrenew : (db.execute crypto env binding.leaseId (.renew expiresAt) appendPayload now).2 =
        (db.renew env binding.leaseId expiresAt now).2 := by
      simp only [execute]
      split <;> rename_i h <;> simp only [h, observe]
    rw [hrenew]
    exact committed_transaction fun _ _ hbody => .renewed hentry hoperation hbinding hbody

/-- **Which body a request commits.** -/
theorem committed_apply (crypto : Ed25519) (db : Database) (env : Env)
    (request : VerifiedStorageRequest) (appendPayload : Bytes) (now : ℕ) :
    Committed crypto env request appendPayload now db
      (db.apply crypto env request appendPayload now).2 := by
  unfold apply
  split
  · exact .unchanged rfl
  rename_i hentry
  split
  · rename_i expiresAt hoperation
    have hreserve : (db.reserve crypto env request expiresAt now).2 = (transaction db env.commits
        (.storage .database) (db.reserveBody crypto env request expiresAt now)).2 := by
      unfold reserve
      split <;> rename_i h <;> simp only [h, observe]
    rw [hreserve]
    exact committed_transaction fun _ _ hbody => .reserved hentry hoperation hbody
  split
  · exact .unchanged rfl
  rename_i binding hbinding
  split
  · rename_i hoperation
    have hdelete : (db.delete env binding).2 = (transaction db env.commits (.storage .database)
        (db.deleteBody binding)).2 := by
      unfold delete
      split <;> rename_i h <;> rw [h]
    rw [hdelete]
    exact committed_transaction fun _ _ hbody => .deleted hoperation hbinding hbody
  · split
    · exact .unchanged rfl
    · exact committed_execute hentry hbinding

/-- **What a request can make of the tables.** -/
theorem Committed.change {appendPayload : Bytes}
    (h : Committed crypto env request appendPayload now db db') : Change crypto request db db' := by
  cases h with
  | unchanged h => exact h ▸ .unchanged
  | reserved hentry hoperation hbody =>
    obtain ⟨hcurrent, hprovider⟩ := checkEntry_eq_ok hentry
    obtain ⟨db₁, hgrant, ⟨binding, hfind, hreuse, rfl⟩ | ⟨hfind, hcreate⟩⟩ :=
      reserveBody_eq_ok hbody
    · simp only [reuseBinding, bind_eq_ok] at hreuse
      obtain ⟨⟨⟩, hcheck, -⟩ := hreuse
      exact .registered hprovider hgrant hfind hcheck
    · exact .created hcurrent hprovider hgrant hfind hcreate
  | deleted _ hbinding hbody =>
    rw [deleteBody_eq_ok hbody]
    split
    · exact .unchanged
    · rename_i hlive
      exact .deleted hbinding (Bool.not_eq_true _ ▸ hlive)
  | appended hbinding hbody =>
    obtain rfl | ⟨chunks, hexists, hinsert, rfl⟩ := tables_of_appendBody hbody
    · exact .unchanged
    · exact .appended hbinding rfl hexists hinsert
  | finalized hbinding hbody =>
    obtain ⟨_, -, -, -, rfl⟩ := finalizeBody_eq_ok hbody
    exact .modified _ _ hbinding (fun _ => rfl) fun _ => rfl
  | renewed _ _ hbinding hbody =>
    obtain ⟨_, -, -, rfl⟩ := renewBody_eq_ok hbody
    exact .modified _ _ hbinding (fun _ => rfl) fun _ => rfl

end Inversion

/-! ## The provider over time -/

/-- A use of the provider. -/
inductive Call (crypto : Ed25519) where
  | apply (request : OwnerRequest crypto) (appendPayload : Bytes) (env : Env) (now : ℕ)
  | setAdmissionTarget (targetBytes : ℕ) (commits : Bool)
  | reopen (provider : FixedBytes 32)

/-- What a use returns. -/
inductive Output where
  | applied (result : Except ProviderError ProviderResult)
  | target (result : Except StorageError Database.StorageAdmissionStatus)
  | reopened (result : Except ProviderError Unit)

/-- The provider as a machine. -/
def machine (crypto : Ed25519) : Machine Database (Call crypto) Output where
  step db
    | .apply request appendPayload env now =>
      let (result, db) := db.apply crypto env request.1 appendPayload now
      (.applied result, db)
    | .setAdmissionTarget targetBytes commits =>
      let (result, db) := db.setAdmissionTarget commits targetBytes
      (.target result, db)
    | .reopen provider => (.reopened (db.reopen crypto provider), db)

end Volparossa.PrivateStorage
