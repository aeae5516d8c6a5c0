import Volparossa.Transaction.Ledger

/-!
# The order of rows

A relational table has no order of rows: two databases with the same rows, inserted in whatever
order, cannot be told apart by a command. `Tables.Same` is that relation, and `applyCommand` agrees
on related tables (`applyCommand_same`): the same receipt or the same error, and related tables
after it.
-/

namespace Volparossa.Transaction

/-- Two databases with the same rows. -/
structure Tables.Same (t t' : Tables) : Prop where
  metaRows : t.metaRows.Same t'.metaRows
  accounts : t.accounts.Same t'.accounts
  reservations : t.reservations.Same t'.reservations
  operations : t.operations.Same t'.operations

namespace Tables.Same

variable {t t' t'' : Tables}

theorem refl (t : Tables) : t.Same t := ⟨.refl _, .refl _, .refl _, .refl _⟩

theorem symm (h : t.Same t') : t'.Same t :=
  ⟨h.metaRows.symm, h.accounts.symm, h.reservations.symm, h.operations.symm⟩

theorem trans (h : t.Same t') (h' : t'.Same t'') : t.Same t'' :=
  ⟨List.Perm.trans h.metaRows h'.metaRows, List.Perm.trans h.accounts h'.accounts,
    List.Perm.trans h.reservations h'.reservations, List.Perm.trans h.operations h'.operations⟩

theorem pending (h : t.Same t') : t.pending = t'.pending := h.reservations.count _

theorem pendingUnits (h : t.Same t') (owner : Bytes) :
    t.pendingUnits owner = t'.pendingUnits owner :=
  h.reservations.sumWhere _ _

end Tables.Same

section

variable {t t' : Tables}

/-- A result together with the tables after it. -/
def SameResult {α : Type} (x y : α × Tables) : Prop := x.1 = y.1 ∧ x.2.Same y.2

theorem account_same (h : t.Same t') (owner : AccountId) : account t owner = account t' owner := by
  rw [account, account, h.accounts.lookup]

theorem receipt_same (h : t.Same t') (ledger : LedgerId) (id : OperationId) :
    receipt t ledger id = receipt t' ledger id := by
  rw [receipt, receipt, h.operations.lookup]

theorem refuse_congr {p q : Prop} [Decidable p] [Decidable q] (h : p ↔ q) (e : Error) :
    refuse p e = refuse q e := by
  unfold refuse
  simp only [h]

theorem validateAccounting_same (h : t.Same t') : validateAccounting t = validateAccounting t' := by
  have hmismatches : t.accounts.count (fun a => decide (a.reserved ≠ t.pendingUnits a.owner)) =
      t'.accounts.count (fun a => decide (a.reserved ≠ t'.pendingUnits a.owner)) := by
    rw [h.accounts.count]
    simp only [h.pendingUnits]
  have hoverflow : (∃ a ∈ t.accounts.rows, maxUnits < t.pendingUnits a.owner) ↔
      ∃ a ∈ t'.accounts.rows, maxUnits < t'.pendingUnits a.owner := by
    simp only [h.accounts.mem, h.pendingUnits]
  simp only [validateAccounting, h.metaRows.lookup, h.accounts.length, h.accounts.sum, hmismatches,
    h.operations.length, h.pending, refuse_congr hoverflow]

/-! ## Statements -/

section

variable (h : t.Same t')

include h

theorem insertReservation_same (row : ReservationRow) :
    Agrees Tables.Same (insertReservation t row) (insertReservation t' row) := by
  unfold insertReservation
  refine .bind_eq rfl fun _ => .bind_eq ?_ fun _ => ?_
  · rw [h.accounts.lookup, h.accounts.lookup]
  · rcases h.reservations.insert row with ⟨hn, hn'⟩ | ⟨u, u', hu, hu', hs⟩
    · rw [hn, hn']
      exact rfl
    · rw [hu, hu']
      exact ⟨h.metaRows, h.accounts, hs, h.operations⟩

theorem insertOperation_same (row : OperationRow) :
    Agrees Tables.Same (insertOperation t row) (insertOperation t' row) := by
  unfold insertOperation
  refine .bind_eq rfl fun _ => .bind_eq ?_ fun _ => ?_
  · refine refuse_congr ?_ _
    simp only [h.accounts.lookup, h.reservations.lookup, h.operations.mem]
  · rcases h.operations.insert row with ⟨hn, hn'⟩ | ⟨u, u', hu, hu', hs⟩
    · rw [hn, hn']
      exact rfl
    · rw [hu, hu']
      exact ⟨h.metaRows, h.accounts, h.reservations, hs⟩

theorem setBalance_same (available reserved : ℕ) (owner : Bytes) :
    Agrees Tables.Same (setBalance t available reserved owner)
      (setBalance t' available reserved owner) :=
  .bind_eq rfl fun available => .bind_eq rfl fun reserved =>
    ⟨h.metaRows, h.accounts.modify _ (fun a => { a with available, reserved }) fun _ => rfl,
      h.reservations, h.operations⟩

theorem setReserved_same (reserved : ℕ) (owner : Bytes) :
    Agrees Tables.Same (setReserved t reserved owner) (setReserved t' reserved owner) :=
  .bind_eq rfl fun reserved =>
    ⟨h.metaRows, h.accounts.modify _ (fun a => { a with reserved }) fun _ => rfl, h.reservations,
      h.operations⟩

theorem setAvailable_same (available : ℕ) (owner : Bytes) :
    Agrees Tables.Same (setAvailable t available owner) (setAvailable t' available owner) :=
  .bind_eq rfl fun available =>
    ⟨h.metaRows, h.accounts.modify _ (fun a => { a with available }) fun _ => rfl, h.reservations,
      h.operations⟩

theorem setState_same (state : ℕ) (id : Bytes) :
    Agrees Tables.Same (setState t state id) (setState t' state id) :=
  .bind_eq rfl fun _ =>
    ⟨h.metaRows, h.accounts, h.reservations.modify _ (fun r => { r with state }) fun _ => rfl,
      h.operations⟩

end

/-! ## Commands -/

section

variable (h : t.Same t')

include h

theorem reserveUnits_same (c : Command) (recipient : AccountId) (units : ℕ) :
    Agrees SameResult (reserveUnits t c recipient units) (reserveUnits t' c recipient units) := by
  unfold reserveUnits
  refine .bind_eq (account_same h _) fun _ => .bind_eq (account_same h _) fun _ =>
    .bind_eq rfl fun _ => .bind_eq rfl fun _ => (setBalance_same h _ _ _).bind fun u u' hu => ?_
  exact (insertReservation_same hu _).bind fun w w' hw => ⟨rfl, hw⟩

theorem closeReservation_same (c : Command) (id : OperationId) (commit : Bool) :
    Agrees SameResult (closeReservation t c id commit) (closeReservation t' c id commit) := by
  unfold closeReservation
  refine .bind_eq (by rw [h.reservations.lookup]) fun _ => .bind_eq rfl fun _ =>
    .bind_eq rfl fun _ => .bind_eq (account_same h _) fun _ => .bind_eq rfl fun _ =>
    .bind_eq rfl fun _ => .bind_eq (account_same h _) fun _ => .bind_eq rfl fun _ =>
    (setReserved_same h _ _).bind fun u u' hu => (setAvailable_same hu _ _).bind fun w w' hw => ?_
  exact (setState_same hw _ _).bind fun x x' hx => ⟨rfl, hx⟩

theorem transition_same (c : Command) : Agrees SameResult (transition t c) (transition t' c) := by
  unfold transition
  cases c.action with
  | reserve recipient units => exact reserveUnits_same h c recipient units
  | commit id => exact closeReservation_same h c id true
  | cancel id => exact closeReservation_same h c id false

theorem checkBudget_same (action : Action) : checkBudget t action = checkBudget t' action := by
  simp only [checkBudget, h.operations.length, h.pending]

theorem recordOperation_same (crypto : Crypto) (ledger : LedgerId) (b : Bytes) (v : Verified) :
    Agrees SameResult (recordOperation crypto t ledger b v)
      (recordOperation crypto t' ledger b v) := by
  unfold recordOperation
  refine (transition_same h v.command).bind ?_
  rintro ⟨⟨id, s⟩, u⟩ ⟨⟨id', s'⟩, u'⟩ ⟨heq, hu⟩
  cases heq
  rw [h.operations.length]
  refine (insertOperation_same hu _).bind fun w w' hw => ?_
  exact .bind_eq (validateAccounting_same hw) fun _ => ⟨rfl, hw⟩

/-- **A command does not depend on the order of the rows.** -/
theorem applyCommand_same (crypto : Crypto) (ledger : LedgerId) (mode : Mode) (b : Bytes)
    (now : ℕ) : Agrees SameResult (applyCommand crypto t ledger mode b now)
      (applyCommand crypto t' ledger mode b now) := by
  unfold applyCommand
  refine .bind_eq rfl fun v => .bind_eq (account_same h _) fun _ =>
    .bind_eq (receipt_same h _ _) fun r => ?_
  cases r with
  | some previous =>
    refine .bind_eq (by rw [h.operations.lookup]) fun original => ?_
    by_cases hsigned : original.signed = b
    · simp only [hsigned, if_true]
      exact ⟨rfl, h⟩
    · simp only [hsigned, if_false]
      exact rfl
  | none =>
    refine .bind_eq rfl fun _ => .bind_eq ?_ fun _ => .bind_eq (checkBudget_same h _) fun _ =>
      recordOperation_same h crypto ledger b v
    refine refuse_congr ?_ _
    simp only [h.operations.mem]

end

end

end Volparossa.Transaction
