import Volparossa.Foundations.Table
import Volparossa.Transaction.Basic

/-!
# The tables of the ledger

The database schema of the store: four tables, whose rows carry the columns under their names, and
the statements that write them, each with the constraints that the schema declares (`CHECK`,
`UNIQUE`, `REFERENCES`). A statement that would violate a constraint fails with
`Error.database`, as does an integer outside the signed 64-bit range, whether it is bound as a
parameter or comes out of an aggregate (`sqlInteger`). A failed statement has no result: the
transaction it is part of is rolled back by whoever began it.

`validateAccounting` is the accounting check that every command and every snapshot runs, and
`createMode` initializes the tables from a genesis.
-/

namespace Volparossa.Transaction

/-- The only row of `meta`. -/
structure MetaRow where
  singleton : ℕ
  ledger : Bytes
  unit : Bytes
  supply : ℕ
  deriving DecidableEq

structure AccountRow where
  owner : Bytes
  available : ℕ
  reserved : ℕ
  deriving DecidableEq

structure ReservationRow where
  id : Bytes
  payer : Bytes
  recipient : Bytes
  units : ℕ
  state : ℕ
  deriving DecidableEq

structure OperationRow where
  sequence : ℕ
  id : Bytes
  signer : Bytes
  nonce : Bytes
  signed : Bytes
  hash : Bytes
  reservation : Bytes
  state : ℕ
  deriving DecidableEq

/-- The tables. `operations` is keyed by its `UNIQUE` column `id`; its primary key `sequence` and
its other constraint are checked by `insertOperation`. -/
structure Tables where
  metaRows : Table MetaRow.singleton
  accounts : Table AccountRow.owner
  reservations : Table ReservationRow.id
  operations : Table OperationRow.id
  deriving DecidableEq

namespace Tables

/-- The tables of a new database. -/
def empty : Tables := ⟨.empty, .empty, .empty, .empty⟩

/-- The number of pending reservations. -/
def pending (t : Tables) : ℕ := t.reservations.count fun r => decide (r.state = 1)

/-- The units that an owner's pending reservations hold. -/
def pendingUnits (t : Tables) (owner : Bytes) : ℕ :=
  t.reservations.sumWhere (fun r => decide (r.payer = owner ∧ r.state = 1)) (·.units)

end Tables

/-! ## Statements -/

/-- An integer of the database: a signed 64-bit one. -/
def sqlInteger (n : ℕ) : Except Error ℕ := if n ≤ maxUnits then .ok n else .error .database

def insertMeta (t : Tables) (row : MetaRow) : Except Error Tables := do
  let _ ← sqlInteger row.supply
  refuse (row.singleton ≠ 1 ∨ row.ledger.length ≠ 32) Error.database
  let metaRows ← orFail (t.metaRows.insert row) Error.database
  pure { t with metaRows }

def insertAccount (t : Tables) (row : AccountRow) : Except Error Tables := do
  let _ ← sqlInteger row.available
  let _ ← sqlInteger row.reserved
  refuse (row.owner.length ≠ 32) Error.database
  let accounts ← orFail (t.accounts.insert row) Error.database
  pure { t with accounts }

def insertReservation (t : Tables) (row : ReservationRow) : Except Error Tables := do
  let _ ← sqlInteger row.units
  refuse (row.id.length ≠ 32 ∨ row.units = 0 ∨ row.state ∉ [1, 2, 3] ∨
    t.accounts.lookup row.payer = none ∨ t.accounts.lookup row.recipient = none) Error.database
  let reservations ← orFail (t.reservations.insert row) Error.database
  pure { t with reservations }

def insertOperation (t : Tables) (row : OperationRow) : Except Error Tables := do
  let _ ← sqlInteger row.sequence
  refuse (row.sequence = 0 ∨ row.id.length ≠ 32 ∨ row.nonce.length ≠ 32 ∨
    row.signed.length = 0 ∨ 4096 < row.signed.length ∨ row.hash.length ≠ 32 ∨
    row.state ∉ [1, 2, 3] ∨ t.accounts.lookup row.signer = none ∨
    t.reservations.lookup row.reservation = none ∨
    (∃ o ∈ t.operations.rows, o.sequence = row.sequence) ∨
    (∃ o ∈ t.operations.rows, o.signer = row.signer ∧ o.nonce = row.nonce)) Error.database
  let operations ← orFail (t.operations.insert row) Error.database
  pure { t with operations }

/-- `UPDATE accounts SET available=?1,reserved=?2 WHERE owner=?3`. -/
def setBalance (t : Tables) (available reserved : ℕ) (owner : Bytes) : Except Error Tables := do
  let available ← sqlInteger available
  let reserved ← sqlInteger reserved
  pure { t with
    accounts := t.accounts.modify owner (fun a => { a with available, reserved }) fun _ => rfl }

/-- `UPDATE accounts SET reserved=?1 WHERE owner=?2`. -/
def setReserved (t : Tables) (reserved : ℕ) (owner : Bytes) : Except Error Tables := do
  let reserved ← sqlInteger reserved
  pure { t with accounts := t.accounts.modify owner (fun a => { a with reserved }) fun _ => rfl }

/-- `UPDATE accounts SET available=?1 WHERE owner=?2`. -/
def setAvailable (t : Tables) (available : ℕ) (owner : Bytes) : Except Error Tables := do
  let available ← sqlInteger available
  pure { t with accounts := t.accounts.modify owner (fun a => { a with available }) fun _ => rfl }

/-- `UPDATE reservations SET state=?1 WHERE id=?2`. -/
def setState (t : Tables) (state : ℕ) (id : Bytes) : Except Error Tables := do
  refuse (state ∉ [1, 2, 3]) Error.database
  pure { t with
    reservations := t.reservations.modify id (fun r => { r with state }) fun _ => rfl }

/-- The accounting check: the supply is the sum over all accounts, every account's reserved units
are those of its pending reservations, and the operations leave room for the completions. -/
def validateAccounting (t : Tables) : Except Error Unit := do
  let row ← orFail (t.metaRows.lookup 1) Error.database
  refuse (row.supply > maxUnits ∨ t.accounts.rows.length = 0 ∨
    t.accounts.rows.length > maxAccounts) Error.store
  let available ← sqlInteger (t.accounts.sum (·.available))
  let reserved ← sqlInteger (t.accounts.sum (·.reserved))
  let total ← sqlInteger (available + reserved)
  -- the inner aggregate of the mismatch query overflows on its own
  refuse (∃ a ∈ t.accounts.rows, maxUnits < t.pendingUnits a.owner) Error.database
  let mismatches := t.accounts.count fun a => decide (a.reserved ≠ t.pendingUnits a.owner)
  refuse (total ≠ row.supply ∨ mismatches ≠ 0 ∨
    (checkedAdd t.operations.rows.length t.pending).all (fun n => maxOperations < n)) Error.store

/-! ### What the statements do -/

section Statements

variable {t : Tables}

theorem sqlInteger_of_le {n : ℕ} (h : n ≤ maxUnits) : sqlInteger n = .ok n := if_pos h

theorem insertMeta_eq_ok (t : Tables) (row : MetaRow) (hsupply : row.supply ≤ maxUnits)
    (hsingleton : row.singleton = 1)
    (hledger : row.ledger.length = 32) (hfresh : t.metaRows.lookup row.singleton = none) :
    ∃ metaRows, metaRows.rows = t.metaRows.rows ++ [row] ∧ insertMeta t row =
      .ok { t with metaRows } := by
  obtain ⟨metaRows, hinsert, hrows⟩ := Table.exists_insert hfresh
  refine ⟨metaRows, hrows, ?_⟩
  rw [insertMeta, sqlInteger_of_le hsupply, ok_bind, refuse_of_not (by simp [hsingleton, hledger]),
    ok_bind, hinsert]
  rfl

theorem insertAccount_eq_ok (t : Tables) (row : AccountRow) (havailable : row.available ≤ maxUnits)
    (hreserved : row.reserved ≤ maxUnits) (howner : row.owner.length = 32)
    (hfresh : t.accounts.lookup row.owner = none) :
    ∃ accounts, accounts.rows = t.accounts.rows ++ [row] ∧
      insertAccount t row = .ok { t with accounts } := by
  obtain ⟨accounts, hinsert, hrows⟩ := Table.exists_insert hfresh
  refine ⟨accounts, hrows, ?_⟩
  rw [insertAccount, sqlInteger_of_le havailable, ok_bind, sqlInteger_of_le hreserved, ok_bind,
    refuse_of_not (by simp [howner]), ok_bind, hinsert]
  rfl

theorem insertReservation_eq_ok (t : Tables) (row : ReservationRow) (hunits : 0 < row.units)
    (hle : row.units ≤ maxUnits) (hid : row.id.length = 32) (hstate : row.state ∈ [1, 2, 3])
    (hpayer : t.accounts.lookup row.payer ≠ none)
    (hrecipient : t.accounts.lookup row.recipient ≠ none)
    (hfresh : t.reservations.lookup row.id = none) :
    ∃ reservations, reservations.rows = t.reservations.rows ++ [row] ∧
      t.reservations.insert row = some reservations ∧
      insertReservation t row = .ok { t with reservations } := by
  obtain ⟨reservations, hinsert, hrows⟩ := Table.exists_insert hfresh
  refine ⟨reservations, hrows, hinsert, ?_⟩
  rw [insertReservation, sqlInteger_of_le hle, ok_bind,
    refuse_of_not (by simp only [hid, hstate, hpayer, hrecipient]; simp; omega), ok_bind, hinsert]
  rfl

theorem insertOperation_eq_ok (t : Tables) (row : OperationRow) (hpos : 0 < row.sequence)
    (hle : row.sequence ≤ maxUnits) (hid : row.id.length = 32) (hnonce : row.nonce.length = 32)
    (hsigned : 0 < row.signed.length) (hsigned' : row.signed.length ≤ 4096)
    (hhash : row.hash.length = 32) (hstate : row.state ∈ [1, 2, 3])
    (hsigner : t.accounts.lookup row.signer ≠ none)
    (hreservation : t.reservations.lookup row.reservation ≠ none)
    (hsequence : ∀ o ∈ t.operations.rows, o.sequence ≠ row.sequence)
    (hunused : ∀ o ∈ t.operations.rows, o.signer = row.signer → o.nonce ≠ row.nonce)
    (hfresh : t.operations.lookup row.id = none) :
    ∃ operations, operations.rows = t.operations.rows ++ [row] ∧
      insertOperation t row = .ok { t with operations } := by
  obtain ⟨operations, hinsert, hrows⟩ := Table.exists_insert hfresh
  refine ⟨operations, hrows, ?_⟩
  rw [insertOperation, sqlInteger_of_le hle, ok_bind, refuse_of_not, ok_bind, hinsert]
  · rfl
  · simp only [not_or, not_not, not_exists, not_and]
    exact ⟨hpos.ne', hid, hnonce, hsigned.ne', hsigned'.not_gt, hhash, hstate, hsigner,
      hreservation, hsequence, hunused⟩

theorem setBalance_of_le {available reserved : ℕ} (ha : available ≤ maxUnits)
    (hr : reserved ≤ maxUnits) (owner : Bytes) :
    setBalance t available reserved owner = .ok { t with
      accounts := t.accounts.modify owner (fun a => { a with available, reserved }) fun _ =>
        rfl } := by
  rw [setBalance, sqlInteger_of_le ha, sqlInteger_of_le hr]
  rfl

theorem setReserved_of_le {reserved : ℕ} (h : reserved ≤ maxUnits) (owner : Bytes) :
    setReserved t reserved owner = .ok { t with
      accounts := t.accounts.modify owner (fun a => { a with reserved }) fun _ => rfl } := by
  rw [setReserved, sqlInteger_of_le h]
  rfl

theorem setAvailable_of_le {available : ℕ} (h : available ≤ maxUnits) (owner : Bytes) :
    setAvailable t available owner = .ok { t with
      accounts := t.accounts.modify owner (fun a => { a with available }) fun _ => rfl } := by
  rw [setAvailable, sqlInteger_of_le h]
  rfl

theorem setState_eq_ok (s : ReservationState) (id : Bytes) :
    setState t (stateNumber s) id = .ok { t with
      reservations := t.reservations.modify id (fun r => { r with state := stateNumber s })
        fun _ => rfl } := by
  rw [setState, refuse_of_not (not_not.mpr (stateNumber_mem s))]
  rfl

end Statements

/-! ## Creation -/

/-- The row of `ordered_checkpoint`. -/
structure Checkpoint where
  genesis : Bytes
  record : Bytes
  deriving DecidableEq

/-- The database file: its pragmas, the tables, and the checkpoint that only an ordered store
has. -/
structure Database where
  applicationId : ℕ
  userVersion : ℕ
  tables : Tables
  checkpoint : Option Checkpoint
  deriving DecidableEq

/-- The application identifier of the files of a mode. -/
def applicationId (mode : Mode) : ℕ := if mode = .localStore then 0x56505431 else 0x56505432

/-- One iteration of the check of the genesis accounts: the keys seen so far, and their funding. -/
def addGenesisAccount (crypto : Crypto) (s : List AccountId × ℕ) (account : GenesisAccount) :
    Except Error (List AccountId × ℕ) := do
  refuse (account.owner = FixedBytes.zero 32 ∨ crypto.verifyingKey account.owner = false ∨
    account.owner ∈ s.1) Error.invalid
  let supply ← orFail ((checkedAdd s.2 account.units).filter fun n => n ≤ maxUnits) Error.capacity
  pure (account.owner :: s.1, supply)

/-- Check a genesis, and return its supply. -/
def genesisSupply (crypto : Crypto) (ledger : LedgerId) (accounts : List GenesisAccount) :
    Except Error ℕ := do
  refuse (ledger = FixedBytes.zero 32 ∨ accounts = [] ∨ accounts.length > maxAccounts) Error.invalid
  let s ← accounts.foldlM (addGenesisAccount crypto) ([], 0)
  pure s.2

/-- Initialize a database with the funding of `accounts`. -/
def createMode (crypto : Crypto) (ledger : LedgerId) (accounts : List GenesisAccount) (mode : Mode)
    (init : Tables → Except Error (Option Checkpoint)) : Except Error Database := do
  let supply ← genesisSupply crypto ledger accounts
  let t ← insertMeta .empty ⟨1, ledger.toBytes, testUnit, supply⟩
  let t ← accounts.foldlM (fun t a => insertAccount t ⟨a.owner.toBytes, a.units, 0⟩) t
  validateAccounting t
  let checkpoint ← init t
  pure ⟨applicationId mode, 1, t, checkpoint⟩

/-- Open a database for a mode, and return its ledger. -/
def openMode (d : Database) (mode : Mode) : Except Error LedgerId := do
  refuse (d.applicationId ≠ applicationId mode ∨ d.userVersion ≠ 1) Error.store
  let row ← orFail (d.tables.metaRows.lookup 1) Error.database
  refuse (row.unit ≠ testUnit ∨ row.ledger = (FixedBytes.zero 32).toBytes) Error.store
  validateAccounting d.tables
  orFail (FixedBytes.ofBytes 32 row.ledger) Error.store

end Volparossa.Transaction
