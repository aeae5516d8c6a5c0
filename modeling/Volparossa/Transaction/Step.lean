import Volparossa.Transaction.Transfer

/-!
# What one command does

The step lemma of the ledger. A new command that passes the checks of `applyCommand` either is
rejected by the state of its reservation or of its payer, with an error that says so, or changes the
tables in one of two ways (`Recorded`): a reserve appends a reservation, a commit or cancel closes
one, and both append the record of the operation. The ledger invariant holds of the tables after it
(`recordOperation_spec`). In particular no branch that the code reserves for a corrupted store is
taken: neither a failure of the accounting check, nor a violated constraint.

`applyCommand_spec` is the form the rest of the development uses.
-/

namespace Volparossa.Transaction

open FixedBytes

/-! ## The effect of a command -/

/-- The record that an accepted command leaves. -/
def operationRow (crypto : Crypto) (t : Tables) (b : Bytes) (v : Verified) (r : Receipt) :
    OperationRow :=
  ⟨t.operations.rows.length + 1, v.command.operationId.toBytes, v.command.payer.toBytes,
    v.nonce.toBytes, b, (crypto.sha256 b).toBytes, r.reservationId.toBytes, stateNumber r.state⟩

/-- What an action does to the reservations. -/
inductive Moves (t : Tables) (command : Command) (t' : Tables) :
    OperationId → ReservationState → Prop
  /-- A reserve appends a pending reservation under the identifier of its operation. -/
  | reserve {recipient : AccountId} {units : ℕ}
      (haction : command.action = .reserve recipient units)
      (hinsert : t.reservations.insert ⟨command.operationId.toBytes, command.payer.toBytes,
        recipient.toBytes, units, 1⟩ = some t'.reservations) :
      Moves t command t' command.operationId .reserved
  /-- A commit or cancel closes a pending reservation of its payer. -/
  | close {id : OperationId} {s : ReservationState} {row : ReservationRow}
      (haction : command.action = .commit id ∧ s = .committed ∨
        command.action = .cancel id ∧ s = .cancelled)
      (hrow : t.reservations.lookup id.toBytes = some row) (hstate : row.state = 1)
      (hpayer : row.payer = command.payer.toBytes)
      (hmodify : t'.reservations = t.reservations.modify id.toBytes
        (fun r => { r with state := stateNumber s }) fun _ => rfl) :
      Moves t command t' id s

/-- **What an accepted new command changes**: it moves one reservation and appends one operation. -/
structure Recorded (crypto : Crypto) (ledger : LedgerId) (t : Tables) (b : Bytes) (v : Verified)
    (r : Receipt) (t' : Tables) : Prop where
  receipt : r = ⟨ledger, v.command.operationId, crypto.sha256 b, t.operations.rows.length + 1,
    r.reservationId, r.state⟩
  operations : t'.operations.rows = t.operations.rows ++ [operationRow crypto t b v r]
  moves : Moves t v.command t' r.reservationId r.state

/-- The operation budget has room for an action. -/
def Room (t : Tables) : Action → Prop
  | .reserve _ _ => t.operations.rows.length + t.pending + 2 ≤ maxOperations
  | _ => t.operations.rows.length < maxOperations

theorem Room.lt {t : Tables} {action : Action} (h : Room t action) :
    t.operations.rows.length < maxOperations := by
  cases action with
  | reserve recipient units =>
    simp only [Room] at h
    omega
  | commit id => exact h
  | cancel id => exact h

/-- A command that the tables have not seen: its identifier and its nonce are unused, and the budget
has room for it. -/
structure Fresh (t : Tables) (v : Verified) : Prop where
  id : t.operations.lookup v.command.operationId.toBytes = none
  nonce : ∀ o ∈ t.operations.rows, o.signer = v.command.payer.toBytes → o.nonce ≠ v.nonce.toBytes
  room : Room t v.command.action

/-! ## The step -/

/-- The errors that reject a command; the others are failures of the store. -/
def Error.IsRejection (e : Error) : Prop :=
  e ∈ [.invalid, .unauthorized, .wrongLedger, .notLive, .conflict, .replay, .insufficient,
    .notFound, .state, .capacity]

section Record

variable {crypto : Crypto} {ledger : LedgerId} {supply : ℕ} {t : Tables} {b : Bytes} {v : Verified}

/-- What the part of `applyCommand` after the checks can come to. -/
def Settles (crypto : Crypto) (ledger : LedgerId) (supply : ℕ) (t : Tables) (b : Bytes)
    (v : Verified) (x : Except Error (Receipt × Tables)) : Prop :=
  (∃ e, e.IsRejection ∧ x = .error e) ∨
    ∃ r t', x = .ok (r, t') ∧ Recorded crypto ledger t b v r t' ∧ Invariant ledger supply t'

/-- The record of an operation is a valid row of tables with its payer and its reservation. -/
theorem operationRow_valid (t' : Tables) {r : Receipt} (hpos : 0 < b.length)
    (hle : b.length ≤ maxBytes) (hpayer : v.command.payer.toBytes ∈ t'.owners)
    (hreservation : r.reservationId.toBytes ∈ t'.reservationIds) :
    (operationRow crypto t b v r).Valid t' :=
  ⟨length_toBytes _, length_toBytes _, hpos, hle, length_toBytes _,
    hpayer, hreservation, stateNumber_mem _⟩

theorem settles_of_transition_error {e : Error} (h : transition t v.command = .error e)
    (he : e.IsRejection := by simp [Error.IsRejection]) :
    Settles crypto ledger supply t b v (recordOperation crypto t ledger b v) := by
  refine Or.inl ⟨e, he, ?_⟩
  rw [recordOperation, h]
  rfl

section Fresh

variable (hi : Invariant ledger supply t) (hfresh : Fresh t v) (hpos : 0 < b.length)
  (hle : b.length ≤ maxBytes)

include hi hfresh hpos hle

/-- A transition of a new command is recorded, if the invariant holds with the record. -/
theorem recordOperation_of_transition {t₁ : Tables} {id : OperationId} {s : ReservationState}
    (htransition : transition t v.command = .ok ((id, s), t₁))
    (hmeta : t₁.metaRows = t.metaRows) (hops : t₁.operations = t.operations)
    (howners : t₁.owners = t.owners) (hpayer : v.command.payer.toBytes ∈ t.owners)
    (hreservation : id.toBytes ∈ t₁.reservationIds)
    (hmoves : ∀ operations, Moves t v.command { t₁ with operations } id s)
    (hinv : ∀ operations o, Extends t { t₁ with operations } o →
      o.id = v.command.operationId.toBytes → Invariant ledger supply { t₁ with operations }) :
    ∃ r t', recordOperation crypto t ledger b v = .ok (r, t') ∧
      Recorded crypto ledger t b v r t' ∧ Invariant ledger supply t' := by
  have hcount := hfresh.room.lt
  rw [← howners] at hpayer
  have hlt : t.operations.rows.length + 1 ≤ maxUnits := by
    unfold maxOperations at hcount
    unfold maxUnits
    omega
  let r : Receipt := ⟨ledger, v.command.operationId, crypto.sha256 b, t.operations.rows.length + 1,
    id, s⟩
  obtain ⟨operations, hrows, hinsert⟩ := insertOperation_eq_ok t₁
    (operationRow crypto t b v r) (Nat.succ_pos _) hlt (length_toBytes _)
    (length_toBytes _) hpos hle (length_toBytes _) (stateNumber_mem _)
    ((t₁.accounts.lookup_ne_none _).mpr hpayer)
    ((t₁.reservations.lookup_ne_none _).mpr hreservation)
    (fun o ho => by have := hi.sequence_le (hops ▸ ho); simp only [operationRow]; omega)
    (fun o ho => hfresh.nonce o (hops ▸ ho)) (hops ▸ hfresh.id)
  rw [hops] at hrows
  have hinvariant := hinv operations _ ⟨hmeta, howners, hrows, rfl,
    operationRow_valid { t₁ with operations } hpos hle hpayer hreservation, hfresh.nonce⟩ rfl
  refine ⟨r, { t₁ with operations }, ?_, ⟨rfl, hrows, hmoves operations⟩, hinvariant⟩
  rw [recordOperation, htransition, ok_bind]
  refine (congrArg (· >>= _) hinsert).trans ?_
  rw [ok_bind, hinvariant.validateAccounting]
  rfl

theorem recordOperation_reserve (hwf : v.WellFormed) {a : AccountRow}
    (ha : t.accounts.lookup v.command.payer.toBytes = some a) {recipient : AccountId} {units : ℕ}
    (haction : v.command.action = .reserve recipient units) :
    Settles crypto ledger supply t b v (recordOperation crypto t ledger b v) := by
  have htransition : transition t v.command = reserveUnits t v.command recipient units := by
    rw [transition, haction]
  simp only [Verified.WellFormed, haction] at hwf
  by_cases hr : t.accounts.lookup recipient.toBytes = none
  · refine settles_of_transition_error (e := .notFound) ?_
    rw [htransition, reserveUnits, account_eq_ok ha, ok_bind, account_eq_error hr, error_bind]
  · by_cases hav : units ≤ a.available
    · obtain ⟨reservations, hinsert, hok⟩ := reserveUnits_eq_ok hi hwf.1 ha hr hav
        (hi.lookup_reservations_eq_none hfresh.id)
      refine Or.inr
        (recordOperation_of_transition hi hfresh hpos hle (htransition.trans hok) rfl rfl
        ?_ ((t.accounts.lookup_ne_none _).mp (by simp [ha])) ?_
        (fun operations => .reserve haction hinsert) ?_)
      · apply Tables.owners_of_modify
        · rfl
        · exact fun _ => rfl
      · rw [Tables.reservationIds, Table.rows_insert hinsert, List.map_append]
        exact List.mem_append_right _ (by simp [reservationRow])
      · intro operations o hextends hid
        exact hi.reserve hextends hid hwf.1 hwf.2.2 ha hr hav rfl hinsert
          (by simpa only [haction, Room] using hfresh.room)
    · refine settles_of_transition_error (e := .insufficient) ?_
      obtain ⟨x, hx⟩ := Option.ne_none_iff_exists'.mp hr
      rw [htransition, reserveUnits, account_eq_ok ha, ok_bind, account_eq_ok hx, ok_bind,
        checkedSub, if_neg hav]
      rfl

omit hi hfresh hpos hle in
/-- The transition of a commit or a cancel. -/
theorem transition_close {c : Command} {id : OperationId} {commit : Bool}
    (haction : c.action = if commit then .commit id else .cancel id) :
    transition t c = closeReservation t c id commit := by
  rw [transition, haction]
  cases commit <;> rfl

variable (crypto) in
/-- **A pending reservation is closed by its payer.** -/
theorem recordOperation_close_eq_ok {id : OperationId} {commit : Bool}
    (haction : v.command.action = if commit then .commit id else .cancel id) {row : ReservationRow}
    (hrow : t.reservations.lookup id.toBytes = some row)
    (hpayer : row.payer = v.command.payer.toBytes) (hstate : row.state = 1) :
    ∃ r t', recordOperation crypto t ledger b v = .ok (r, t') ∧
      Recorded crypto ledger t b v r t' ∧ Invariant ledger supply t' := by
  have haction' : v.command.action = .commit id ∧ closedState commit = .committed ∨
      v.command.action = .cancel id ∧ closedState commit = .cancelled := by
    cases commit
    · exact Or.inr ⟨haction, rfl⟩
    · exact Or.inl ⟨haction, rfl⟩
  have hmem := Table.mem_of_lookup hrow
  obtain ⟨a, ha⟩ := t.accounts.exists_lookup (hi.reservation row hmem).payer
  obtain ⟨c, hc⟩ := hi.exists_beneficiary hmem commit
  refine recordOperation_of_transition hi hfresh hpos hle
    ((transition_close haction).trans (closeReservation_eq_ok hi hrow hpayer hstate ha hc)) rfl rfl
    (owners_closedAccounts _ _ _ _ _ _) (hpayer ▸ (hi.reservation row hmem).payer) ?_
    (fun operations => .close haction' hrow hstate hpayer rfl) ?_
  · rw [Tables.reservationIds_of_modify (t := t)]
    · exact (t.reservations.lookup_ne_none _).mp (by simp [hrow])
    · rfl
    · exact fun _ => rfl
  · exact fun operations o hextends _ => hi.close hextends hrow hstate ha hc rfl rfl

theorem recordOperation_close {id : OperationId} (commit : Bool)
    (haction : v.command.action = if commit then .commit id else .cancel id) :
    Settles crypto ledger supply t b v (recordOperation crypto t ledger b v) := by
  cases hrow : t.reservations.lookup id.toBytes with
  | none =>
    refine settles_of_transition_error (e := .notFound) ?_
    rw [transition_close haction, closeReservation, hrow, orFail_none, error_bind]
  | some row =>
    by_cases hpayer : row.payer = v.command.payer.toBytes
    · by_cases hstate : row.state = 1
      · exact Or.inr
          (recordOperation_close_eq_ok crypto hi hfresh hpos hle haction hrow hpayer hstate)
      · refine settles_of_transition_error (e := .state) ?_
        rw [transition_close haction, closeReservation, hrow, orFail_some, ok_bind,
          refuse_of_not (not_not.mpr hpayer), ok_bind, refuse, if_pos hstate, error_bind]
    · refine settles_of_transition_error (e := .unauthorized) ?_
      rw [transition_close haction, closeReservation, hrow, orFail_some, ok_bind, refuse,
        if_pos hpayer, error_bind]

variable (crypto) in
/-- **The transition of a new command** is rejected, or recorded with the invariant. -/
theorem recordOperation_spec (hwf : v.WellFormed) {a : AccountRow}
    (ha : t.accounts.lookup v.command.payer.toBytes = some a) :
    Settles crypto ledger supply t b v (recordOperation crypto t ledger b v) := by
  cases haction : v.command.action with
  | reserve recipient units => exact recordOperation_reserve hi hfresh hpos hle hwf ha haction
  | commit id => exact recordOperation_close hi hfresh hpos hle true haction
  | cancel id => exact recordOperation_close hi hfresh hpos hle false haction

end Fresh

end Record

/-- A command that was accepted before, with the receipt of that time. -/
structure Replayed (crypto : Crypto) (ledger : LedgerId) (mode : Mode) (t : Tables) (b : Bytes)
    (v : Verified) (r : Receipt) : Prop where
  verified : verifyMode crypto b ledger mode = .ok v
  row : ∃ o, t.operations.lookup v.command.operationId.toBytes = some o ∧ o.signed = b ∧
    rowReceipt ledger v.command.operationId o = .ok r

/-- A command that is accepted now. -/
structure Accepted (crypto : Crypto) (ledger : LedgerId) (mode : Mode) (t : Tables) (b : Bytes)
    (now : ℕ) (v : Verified) (r : Receipt) (t' : Tables) : Prop
    extends Recorded crypto ledger t b v r t' where
  verified : verifyMode crypto b ledger mode = .ok v
  live : v.validFrom ≤ now ∧ now < v.expires
  fresh : Fresh t v

section Apply

variable {crypto : Crypto} {ledger : LedgerId} {supply : ℕ} {mode : Mode} {t : Tables}

/-- The row of an operation has a receipt. -/
theorem Invariant.exists_rowReceipt (hi : Invariant ledger supply t) {o : OperationRow}
    (ho : o ∈ t.operations.rows) (id : OperationId) :
    ∃ r, rowReceipt ledger id o = .ok r ∧ r.operationId = id ∧ r.ledgerId = ledger ∧
      r.commandSha256.toBytes = o.hash ∧ r.sequence = o.sequence ∧
      r.reservationId.toBytes = o.reservation ∧ stateNumber r.state = o.state := by
  have hv := hi.operation o ho
  obtain ⟨row, hrow, hid⟩ := List.mem_map.mp hv.reservation
  obtain ⟨hash, hhash⟩ := exists_toBytes hv.hash_length
  obtain ⟨reservation, hreservation⟩ := exists_toBytes
    (n := 32) (b := o.reservation) (hid ▸ (hi.reservation row hrow).id_length)
  obtain ⟨s, hs, hnumber⟩ := exists_parseState hv.state
  refine ⟨⟨ledger, id, hash, o.sequence, reservation, s⟩, ?_, rfl, rfl, hhash.symm, rfl,
    hreservation.symm, hnumber⟩
  rw [rowReceipt, hhash, ofBytes_toBytes, orFail_some, ok_bind, hreservation,
    ofBytes_toBytes, orFail_some, ok_bind, hs]
  rfl

theorem receipt_of_lookup_eq_none {id : OperationId} (h : t.operations.lookup id.toBytes = none) :
    receipt t ledger id = .ok none := by
  rw [receipt, h]

theorem receipt_of_lookup_eq_some {id : OperationId} {o : OperationRow} {r : Receipt}
    (h : t.operations.lookup id.toBytes = some o) (hr : rowReceipt ledger id o = .ok r) :
    receipt t ledger id = .ok (some r) := by
  rw [receipt, h]
  simp only [hr, ok_bind, pure_ok]

theorem checkBudget_of_room {action : Action} (h : Room t action) :
    checkBudget t action = .ok () := by
  unfold checkBudget
  extract_lets count
  rw [refuse_of_not (by have := h.lt; omega), ok_bind]
  cases action with
  | commit id => rfl
  | cancel id => rfl
  | reserve recipient units =>
    simp only [Room] at h
    have hlt : t.operations.rows.length + t.pending + 2 < 2 ^ 64 := by
      unfold maxOperations at h
      omega
    refine refuse_of_not ?_ _
    rw [checkedAdd_of_lt (by omega), Option.bind_some, checkedAdd_of_lt hlt]
    simpa using h

theorem checkBudget_of_not_room {action : Action} (h : ¬Room t action) :
    checkBudget t action = .error .capacity := by
  unfold checkBudget
  extract_lets count
  by_cases hcount : count ≥ maxOperations
  · rw [refuse, if_pos hcount, error_bind]
  rw [refuse_of_not hcount, ok_bind]
  cases action with
  | commit id => exact absurd (not_le.mp hcount) h
  | cancel id => exact absurd (not_le.mp hcount) h
  | reserve recipient units =>
    refine if_pos ?_
    cases hadd : (checkedAdd count t.pending).bind fun n => checkedAdd n 2 with
    | none => rfl
    | some n =>
      simp only [Option.bind_eq_some_iff, checkedAdd_eq_some] at hadd
      simp only [Room] at h
      simp only [Option.all_some, decide_eq_true_eq]
      omega

variable {b : Bytes} {now : ℕ}

section

variable {v : Verified} (hv : verifyMode crypto b ledger mode = .ok v) {a : AccountRow}
  (ha : t.accounts.lookup v.command.payer.toBytes = some a)

include hv ha

/-- A command under an accepted identifier gets the receipt of the acceptance, or is in conflict
with it. -/
theorem applyCommand_of_lookup {o : OperationRow}
    (ho : t.operations.lookup v.command.operationId.toBytes = some o) {r : Receipt}
    (hr : rowReceipt ledger v.command.operationId o = .ok r) :
    applyCommand crypto t ledger mode b now =
      if o.signed = b then .ok (r, t) else .error .conflict := by
  rw [applyCommand, hv, ok_bind, account_eq_ok ha, ok_bind, receipt_of_lookup_eq_some ho hr,
    ok_bind]
  dsimp only
  rw [ho, orFail_some, ok_bind]
  rfl

/-- A new command that is live and within the budget comes to its transition. -/
theorem applyCommand_of_fresh (hfresh : Fresh t v) (hlive : v.validFrom ≤ now ∧ now < v.expires) :
    applyCommand crypto t ledger mode b now = recordOperation crypto t ledger b v := by
  unfold applyCommand
  rw [hv, ok_bind, account_eq_ok ha, ok_bind, receipt_of_lookup_eq_none hfresh.id, ok_bind]
  dsimp only
  rw [refuse_of_not (by omega), ok_bind, refuse_of_not (by simpa using hfresh.nonce), ok_bind,
    checkBudget_of_room hfresh.room, ok_bind]

end

/-- **What one command does**, from tables with the invariant: it is rejected, it gets the receipt
of the acceptance of the same bytes, or it is accepted and the invariant holds after it. -/
theorem applyCommand_spec (crypto : Crypto) (mode : Mode) (hi : Invariant ledger supply t)
    (b : Bytes) (now : ℕ) :
    (∃ e, e.IsRejection ∧ applyCommand crypto t ledger mode b now = .error e) ∨
    (∃ v r, Replayed crypto ledger mode t b v r ∧
      applyCommand crypto t ledger mode b now = .ok (r, t)) ∨
    ∃ v r t', Accepted crypto ledger mode t b now v r t' ∧ Invariant ledger supply t' ∧
      applyCommand crypto t ledger mode b now = .ok (r, t') := by
  cases hv : verifyMode crypto b ledger mode with
  | error e =>
    refine Or.inl ⟨e, ?_, by rw [applyCommand, hv, error_bind]⟩
    rcases verifyMode_failsOnly crypto b ledger mode e hv with rfl | rfl | rfl <;>
      simp [Error.IsRejection]
  | ok v =>
  cases ha : t.accounts.lookup v.command.payer.toBytes with
  | none =>
    refine Or.inl ⟨.notFound, by simp [Error.IsRejection], ?_⟩
    rw [applyCommand, hv, ok_bind, account_eq_error ha, error_bind]
  | some a =>
  cases ho : t.operations.lookup v.command.operationId.toBytes with
  | some o =>
    obtain ⟨r, hr, -⟩ := hi.exists_rowReceipt (Table.mem_of_lookup ho) v.command.operationId
    rw [applyCommand_of_lookup hv ha ho hr]
    by_cases hsigned : o.signed = b
    · exact Or.inr (Or.inl ⟨v, r, ⟨hv, o, ho, hsigned, hr⟩, if_pos hsigned⟩)
    · exact Or.inl ⟨.conflict, by simp [Error.IsRejection], if_neg hsigned⟩
  | none =>
  rw [applyCommand, hv, ok_bind, account_eq_ok ha, ok_bind, receipt_of_lookup_eq_none ho, ok_bind]
  dsimp only
  by_cases hlive : now < v.validFrom ∨ v.expires ≤ now
  · refine Or.inl ⟨.notLive, by simp [Error.IsRejection], ?_⟩
    rw [refuse, if_pos hlive, error_bind]
  rw [refuse_of_not hlive, ok_bind]
  by_cases hnonce : ∃ o ∈ t.operations.rows, o.signer = v.command.payer.toBytes ∧
      o.nonce = v.nonce.toBytes
  · refine Or.inl ⟨.replay, by simp [Error.IsRejection], ?_⟩
    rw [refuse, if_pos hnonce, error_bind]
  rw [refuse_of_not hnonce, ok_bind]
  by_cases hroom : Room t v.command.action
  swap
  · refine Or.inl ⟨.capacity, by simp [Error.IsRejection], ?_⟩
    rw [checkBudget_of_not_room hroom, error_bind]
  rw [checkBudget_of_room hroom, ok_bind]
  have hfresh : Fresh t v := ⟨ho, fun o ho hsigner hn => hnonce ⟨o, ho, hsigner, hn⟩, hroom⟩
  obtain ⟨hpos, hle⟩ := verifyMode_length hv
  rcases recordOperation_spec crypto hi hfresh hpos hle (verifyMode_wellFormed hv) ha with
    h | ⟨r, t', h, hrecorded, hinv⟩
  · exact Or.inl h
  · exact Or.inr (Or.inr ⟨v, r, t', ⟨hrecorded, hv, by omega, hfresh⟩, hinv, h⟩)

section

variable (hi : Invariant ledger supply t)

include hi

theorem applyCommand_eq_ok {r : Receipt} {t' : Tables}
    (h : applyCommand crypto t ledger mode b now = .ok (r, t')) :
    ∃ v, Replayed crypto ledger mode t b v r ∧ t' = t ∨
      Accepted crypto ledger mode t b now v r t' ∧ Invariant ledger supply t' := by
  rcases applyCommand_spec crypto mode hi b now with
    ⟨e, -, he⟩ | ⟨v, r₁, hrep, hok⟩ | ⟨v, r₁, t₁, hacc, hinv, hok⟩
  · simp [h] at he
  · cases h.symm.trans hok
    exact ⟨v, Or.inl ⟨hrep, rfl⟩⟩
  · cases h.symm.trans hok
    exact ⟨v, Or.inr ⟨hacc, hinv⟩⟩

/-- **A command only fails by rejection.** -/
theorem applyCommand_eq_error {e : Error} (h : applyCommand crypto t ledger mode b now = .error e) :
    e.IsRejection := by
  rcases applyCommand_spec crypto mode hi b now with
    ⟨e', he, hx⟩ | ⟨v, r₁, -, hok⟩ | ⟨v, r₁, t₁, -, -, hok⟩
  · cases h.symm.trans hx
    exact he
  · simp [h] at hok
  · simp [h] at hok

/-- **A command preserves the invariant.** -/
theorem applyCommand_invariant {r : Receipt} {t' : Tables}
    (h : applyCommand crypto t ledger mode b now = .ok (r, t')) : Invariant ledger supply t' := by
  obtain ⟨v, ⟨-, rfl⟩ | ⟨-, hinv⟩⟩ := applyCommand_eq_ok hi h
  · exact hi
  · exact hinv

/-- **A pending reservation can be closed** by a new command of its payer: the budget holds a slot
for the completion of every pending reservation. -/
theorem applyCommand_close {id : OperationId} {row : ReservationRow}
    (hrow : t.reservations.lookup id.toBytes = some row) (hpending : row.state = 1) {v : Verified}
    {commit : Bool} (hv : verifyMode crypto b ledger mode = .ok v)
    (hpayer : v.command.payer.toBytes = row.payer)
    (haction : v.command.action = if commit then .commit id else .cancel id)
    (hoperation : ∀ o ∈ t.operations.rows, o.id ≠ v.command.operationId.toBytes)
    (hnonce : ∀ o ∈ t.operations.rows, o.signer = row.payer → o.nonce ≠ v.nonce.toBytes)
    (hlive : v.validFrom ≤ now ∧ now < v.expires) :
    ∃ r t', applyCommand crypto t ledger mode b now = .ok (r, t') ∧
      Recorded crypto ledger t b v r t' ∧ r.reservationId = id ∧ r.state = closedState commit ∧
      t'.reservations.lookup id.toBytes = some { row with state := stateNumber r.state } := by
  have hmem := Table.mem_of_lookup hrow
  obtain ⟨a, ha⟩ := t.accounts.exists_lookup (hi.reservation row hmem).payer
  rw [← hpayer] at ha hnonce
  have hlt : t.operations.rows.length < maxOperations := by
    have := hi.budget
    have := Tables.pending_pos hmem hpending
    omega
  have hroom : Room t v.command.action := by
    rw [haction]
    cases commit
    · exact hlt
    · exact hlt
  have hfresh : Fresh t v := ⟨(t.operations.lookup_eq_none _).mpr hoperation, hnonce, hroom⟩
  obtain ⟨hpos, hle⟩ := verifyMode_length hv
  obtain ⟨r, t', hr, hrecorded, -⟩ := recordOperation_close_eq_ok crypto hi hfresh hpos hle
    haction hrow hpayer.symm hpending
  refine ⟨r, t', (applyCommand_of_fresh hv ha hfresh hlive).trans hr, hrecorded, ?_⟩
  have hmoves := hrecorded.moves
  generalize r.reservationId = rid, r.state = s at hmoves
  cases hmoves with
  | reserve haction' =>
    rw [haction] at haction'
    cases commit <;> cases haction'
  | close haction' hrow' hstate' hpayer' hmodify =>
    have hid : rid = id ∧ s = closedState commit := by
      rw [haction] at haction'
      cases commit <;> simp_all [closedState]
    obtain ⟨rfl, rfl⟩ := hid
    exact ⟨rfl, rfl, by rw [hmodify, Table.lookup_modify_self hrow]⟩

end

end Apply

end Volparossa.Transaction
