import Volparossa.Foundations.Machine
import Volparossa.Transaction.Genesis
import Volparossa.Transaction.Step

/-!
# Conservation of units

A local store as a machine whose inputs are arbitrary byte strings at arbitrary times. Whatever
is applied to it, the ledger invariant holds (`Store.run_sound`): units are neither created nor
destroyed, what is reserved is what the pending reservations hold, and the budget keeps a slot for
the completion of each of them. So no call ever meets a failure of the store, and a pending
reservation can always be closed by its payer.
-/

namespace Volparossa.Transaction

namespace Store

/-- The machine of a local store: an input is a byte string and a time. -/
def machine (crypto : Crypto) : Machine Store (Bytes × ℕ) (Except Error Receipt) :=
  ⟨fun s input => s.apply crypto input.1 input.2⟩

/-- A local store of a ledger, with the ledger invariant. -/
structure Sound (ledger : LedgerId) (supply : ℕ) (s : Store) : Prop where
  mode : s.mode = .localStore
  ledgerId : s.ledgerId = ledger
  invariant : Invariant ledger supply s.database.tables

section

variable {crypto : Crypto} {ledger : LedgerId} {supply : ℕ} {s : Store}

theorem create_eq_ok {accounts : List GenesisAccount} (h : create crypto ledger accounts = .ok s) :
    s.Sound ledger (totalUnits accounts) ∧ s.database.tables.IsGenesis ledger accounts := by
  simp only [create, ok_iff] at h
  obtain ⟨d, hd, rfl⟩ := h
  obtain ⟨hadm, hgenesis, -⟩ := createMode_eq_ok hd
  exact ⟨⟨rfl, rfl, hgenesis.invariant hadm⟩, hgenesis⟩

section

variable (hs : s.Sound ledger supply)

include hs

/-- A call of a local store is the command in a transaction of its own. -/
theorem apply_eq (b : Bytes) (now : ℕ) : s.apply crypto b now =
      match applyCommand crypto s.database.tables ledger .localStore b now with
      | .ok (r, tables) => (.ok r, s.withTables tables)
      | .error e => (.error e, s) := by
  obtain ⟨hmode, rfl, -⟩ := hs
  exact if_neg (not_not.mpr hmode)

/-- One call preserves the invariant. -/
theorem apply_sound (b : Bytes) (now : ℕ) : (s.apply crypto b now).2.Sound ledger supply := by
  rw [apply_eq hs]
  cases h : applyCommand crypto s.database.tables ledger .localStore b now with
  | error e => exact hs
  | ok x => exact ⟨hs.mode, hs.ledgerId, applyCommand_invariant hs.invariant h⟩

/-- **The invariant holds after every run.** -/
theorem run_sound (calls : List (Bytes × ℕ)) :
    ((machine crypto).run s calls).Sound ledger supply := by
  apply Machine.run_invariant _ hs
  intro s call h
  exact apply_sound h call.1 call.2

/-- A call only fails by rejection, and then changes nothing. -/
theorem apply_eq_error {b : Bytes} {now : ℕ} {e : Error} (h : (s.apply crypto b now).1 = .error e) :
    e.IsRejection ∧ (s.apply crypto b now).2 = s := by
  rw [apply_eq hs] at h ⊢
  cases hc : applyCommand crypto s.database.tables ledger .localStore b now with
  | error e' =>
    rw [hc] at h
    cases h
    exact ⟨applyCommand_eq_error hs.invariant hc, rfl⟩
  | ok x =>
    rw [hc] at h
    cases h

end

end

/-- **Conservation and accounting.** From every accepted genesis and after every sequence of calls,
the available and reserved units of all accounts add up to the funding of the genesis, the reserved
units of an account are those of its pending reservations as a payer, and the accepted operations
leave room for the completion of every pending reservation. A further call, whatever its bytes and
its time, does not meet a failure of the store: every error is a rejection of the command. -/
theorem conservation {crypto : Crypto} {ledger : LedgerId} {accounts : List GenesisAccount}
    {s₀ : Store} (h : create crypto ledger accounts = .ok s₀) (calls : List (Bytes × ℕ)) :
    let s := (machine crypto).run s₀ calls
    let t := s.database.tables
    (t.accounts.rows.map fun a => a.available + a.reserved).sum = (accounts.map (·.units)).sum ∧
    (accounts.map (·.units)).sum ≤ 2 ^ 63 - 1 ∧
    (∀ a ∈ t.accounts.rows, a.reserved =
      ((t.reservations.rows.filter fun r => decide (r.payer = a.owner ∧ r.state = 1)).map
        (·.units)).sum) ∧
    t.operations.rows.length + (t.reservations.rows.filter fun r => decide (r.state = 1)).length ≤
      1024 ∧
    ∀ b now e, (s.apply crypto b now).1 = .error e →
      e.IsRejection ∧ e ≠ .store ∧ e ≠ .database := by
  intro s t
  have hs : s.Sound ledger (totalUnits accounts) := run_sound (create_eq_ok h).1 calls
  have hi := hs.invariant
  refine ⟨hi.conserved, hi.supply_le, hi.reserved, ?_, ?_⟩
  · rw [← List.countP_eq_length_filter]
    exact hi.budget
  · intro b now e he
    have hrejection := (apply_eq_error hs he).1
    refine ⟨hrejection, ?_, ?_⟩
    · rintro rfl
      simp [Error.IsRejection] at hrejection
    · rintro rfl
      simp [Error.IsRejection] at hrejection

/-- The store of the two accounts. -/
def sampleStore : Store :=
  (create sampleCrypto (.replicate 32 9) sampleAccounts).toOption.getD
    ⟨⟨0, 0, .empty, none⟩, .zero 32, .localStore⟩

/-- A reserve of the first account in favour of the second. -/
def sampleReserve : Bytes :=
  sampleCommand .localStore (.replicate 32 9) 3 4 (.reserve sampleRecipient 7)

theorem conservation_after_reserve :
    create sampleCrypto (.replicate 32 9) sampleAccounts = .ok sampleStore ∧
    ((machine sampleCrypto).run sampleStore
      [(sampleReserve, 150)]).database.tables.operations.rows.length = 1 ∧
    (((machine sampleCrypto).run sampleStore
      [(sampleReserve, 150)]).database.tables.accounts.rows.map
      fun a => a.available + a.reserved).sum = 15 := by
  have h : create sampleCrypto (.replicate 32 9) sampleAccounts = .ok sampleStore := rfl
  obtain ⟨hsum, -⟩ := conservation h [(sampleReserve, 150)]
  exact ⟨h, by decide +kernel, hsum.trans (by decide)⟩

/-- **A pending reservation can always be closed.** In every state of a store, a command of the
payer of a pending reservation that commits or cancels it, under an unused operation identifier and
an unused nonce and within its validity window, is accepted: its receipt has the terminal state, and
so has the reservation. The budget cannot refuse it, since it holds a slot for the completion of
every pending reservation. -/
theorem closes_pending {crypto : Crypto} {ledger : LedgerId} {accounts : List GenesisAccount}
    {s₀ : Store} (h : create crypto ledger accounts = .ok s₀) (calls : List (Bytes × ℕ))
    {id : OperationId} {row : ReservationRow}
    (hrow : ((machine crypto).run s₀ calls).database.tables.reservations.lookup id.toBytes =
      some row)
    (hpending : row.state = 1) {b : Bytes} {now : ℕ} {v : Verified} (commit : Bool)
    (hv : verifyMode crypto b ledger .localStore = .ok v)
    (hpayer : v.command.payer.toBytes = row.payer)
    (haction : v.command.action = if commit then .commit id else .cancel id)
    (hoperation : ∀ o ∈ ((machine crypto).run s₀ calls).database.tables.operations.rows,
      o.id ≠ v.command.operationId.toBytes)
    (hnonce : ∀ o ∈ ((machine crypto).run s₀ calls).database.tables.operations.rows,
      o.signer = row.payer → o.nonce ≠ v.nonce.toBytes)
    (hlive : v.validFrom ≤ now ∧ now < v.expires) :
    let result := ((machine crypto).run s₀ calls).apply crypto b now
    let closed : ReservationState := if commit then .committed else .cancelled
    ∃ r, result.1 = .ok r ∧ r.operationId = v.command.operationId ∧ r.reservationId = id ∧
      r.state = closed ∧ result.2.database.tables.reservations.lookup id.toBytes =
        some { row with state := stateNumber closed } := by
  have hs : ((machine crypto).run s₀ calls).Sound ledger (totalUnits accounts) :=
    run_sound (create_eq_ok h).1 calls
  obtain ⟨r, t', hok, hrecorded, hid, hstate, hclosed⟩ :=
    applyCommand_close hs.invariant hrow hpending hv hpayer haction hoperation hnonce hlive
  rw [hstate] at hclosed
  refine ⟨r, ?_, by rw [hrecorded.receipt], hid, hstate, ?_⟩
  · rw [apply_eq hs, hok]
  · rw [apply_eq hs, hok]
    exact hclosed

/-- A commit of the sample reserve. -/
def sampleCommit : Bytes :=
  sampleCommand .localStore (.replicate 32 9) 5 6 (.commit (.replicate 32 3))

theorem closes_pending_after_reserve :
    create sampleCrypto (.replicate 32 9) sampleAccounts = .ok sampleStore ∧
    ∃ r, (((machine sampleCrypto).run sampleStore [(sampleReserve, 150)]).apply sampleCrypto
      sampleCommit 199).1 = .ok r ∧ r.state = .committed := by
  have h : create sampleCrypto (.replicate 32 9) sampleAccounts = .ok sampleStore := rfl
  have hrow : ((machine sampleCrypto).run sampleStore
      [(sampleReserve, 150)]).database.tables.reservations.lookup
      (FixedBytes.replicate 32 3).toBytes =
        some ⟨List.replicate 32 3, samplePayer.toBytes, sampleRecipient.toBytes, 7, 1⟩ := by
    decide +kernel
  have hv : verifyMode sampleCrypto sampleCommit (.replicate 32 9) .localStore =
      .ok ⟨⟨.replicate 32 5, samplePayer, .commit (.replicate 32 3)⟩, .replicate 32 6, 100,
        200⟩ := by
    decide +kernel
  have hlive : 100 ≤ 199 ∧ 199 < 200 := by decide
  obtain ⟨r, hr, -, -, hstate, -⟩ :=
    closes_pending h [(sampleReserve, 150)] hrow rfl true hv rfl rfl
    (by decide +kernel) (by decide +kernel) hlive
  exact ⟨h, r, hr, hstate⟩

end Store

end Volparossa.Transaction
