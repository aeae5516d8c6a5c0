import Volparossa.Transaction.Tables
import Volparossa.Transaction.Wire

/-!
# Applying a command

`applyCommand` takes a byte string and a time to a receipt and the tables after the command, or to
an error, in which case the caller keeps the tables before it. The checks come in the order of the
source: the signature, the payer's account, an earlier operation of the same identifier (whose
exact bytes get the original receipt back, at any time), the validity window, the nonce, the
operation budget, and then the transition of the reservation and the record of the operation.
-/

namespace Volparossa.Transaction

/-- The balance of an account. -/
def account (t : Tables) (owner : AccountId) : Except Error Balance := do
  let row ← orFail (t.accounts.lookup owner.toBytes) Error.notFound
  pure ⟨row.available, row.reserved⟩

/-- The receipt that the row of an operation records. -/
def rowReceipt (ledger : LedgerId) (id : OperationId) (row : OperationRow) :
    Except Error Receipt := do
  let commandSha256 ← orFail (FixedBytes.ofBytes 32 row.hash) Error.store
  let reservationId ← orFail (FixedBytes.ofBytes 32 row.reservation) Error.store
  let state ← parseState row.state
  pure ⟨ledger, id, commandSha256, row.sequence, reservationId, state⟩

/-- The receipt of an operation, if it was accepted. -/
def receipt (t : Tables) (ledger : LedgerId) (id : OperationId) : Except Error (Option Receipt) :=
  match t.operations.lookup id.toBytes with
  | none => .ok none
  | some row => do
    let r ← rowReceipt ledger id row
    pure (some r)

/-- Move available units of the payer into a reservation. -/
def reserveUnits (t : Tables) (command : Command) (recipient : AccountId) (units : ℕ) :
    Except Error ((OperationId × ReservationState) × Tables) := do
  let payer ← account t command.payer
  let _ ← account t recipient
  let available ← orFail (checkedSub payer.availableUnits units) Error.insufficient
  let reserved ← orFail ((checkedAdd payer.reservedUnits units).filter fun n => n ≤ maxUnits)
    Error.capacity
  let t ← setBalance t available reserved command.payer.toBytes
  let t ← insertReservation t
    ⟨command.operationId.toBytes, command.payer.toBytes, recipient.toBytes, units, 1⟩
  pure ((command.operationId, .reserved), t)

/-- Close a pending reservation: credit its recipient, or return the units to its payer. -/
def closeReservation (t : Tables) (command : Command) (reservationId : OperationId)
    (commit : Bool) : Except Error ((OperationId × ReservationState) × Tables) := do
  let row ← orFail (t.reservations.lookup reservationId.toBytes) Error.notFound
  refuse (row.payer ≠ command.payer.toBytes) Error.unauthorized
  refuse (row.state ≠ 1) Error.state
  let paying ← account t command.payer
  let reserved ← orFail (checkedSub paying.reservedUnits row.units) Error.store
  let beneficiary : AccountId ←
    (if commit then orFail (FixedBytes.ofBytes 32 row.recipient) Error.store else pure
      command.payer)
  let credited ← account t beneficiary
  let available ← orFail ((checkedAdd credited.availableUnits row.units).filter fun n => n ≤
    maxUnits) Error.capacity
  let t ← setReserved t reserved command.payer.toBytes
  let t ← setAvailable t available beneficiary.toBytes
  let state : ReservationState := if commit then .committed else .cancelled
  let t ← setState t (stateNumber state) reservationId.toBytes
  pure ((reservationId, state), t)

/-- The transition of a reservation under a command. -/
def transition (t : Tables) (command : Command) :
    Except Error ((OperationId × ReservationState) × Tables) :=
  match command.action with
  | .reserve recipient units => reserveUnits t command recipient units
  | .commit reservationId => closeReservation t command reservationId true
  | .cancel reservationId => closeReservation t command reservationId false

/-- The operation budget: a reserve needs a record for itself and one for its completion, in
addition to those of every reservation that is pending already. -/
def checkBudget (t : Tables) (action : Action) : Except Error Unit := do
  let count := t.operations.rows.length
  refuse (count ≥ maxOperations) Error.capacity
  match action with
  | .reserve _ _ =>
    refuse (((checkedAdd count t.pending).bind fun n => checkedAdd n 2).all
      (fun n => maxOperations < n)) Error.capacity
  | _ => pure ()

/-- The part of `applyCommand` after the command is known to be new: the transition, and the record
of the operation. -/
def recordOperation (crypto : Crypto) (t : Tables) (ledger : LedgerId) (b : Bytes) (v : Verified) :
    Except Error (Receipt × Tables) := do
  let count := t.operations.rows.length
  let ((reservationId, state), t) ← transition t v.command
  let hash := crypto.sha256 b
  let t ← insertOperation t ⟨count + 1, v.command.operationId.toBytes, v.command.payer.toBytes,
    v.nonce.toBytes, b, hash.toBytes, reservationId.toBytes, stateNumber state⟩
  validateAccounting t
  pure (⟨ledger, v.command.operationId, hash, count + 1, reservationId, state⟩, t)

/-- **Apply one command.** -/
def applyCommand (crypto : Crypto) (t : Tables) (ledger : LedgerId) (mode : Mode) (b : Bytes)
    (now : ℕ) : Except Error (Receipt × Tables) := do
  let v ← verifyMode crypto b ledger mode
  let _ ← account t v.command.payer
  match ← receipt t ledger v.command.operationId with
  | some previous => do
    let original ← orFail (t.operations.lookup v.command.operationId.toBytes) Error.database
    if original.signed = b then pure (previous, t) else .error Error.conflict
  | none => do
    refuse (now < v.validFrom ∨ v.expires ≤ now) Error.notLive
    refuse (∃ o ∈ t.operations.rows, o.signer = v.command.payer.toBytes ∧ o.nonce = v.nonce.toBytes)
      Error.replay
    checkBudget t v.command.action
    recordOperation crypto t ledger b v

/-- An opened store. -/
structure Store where
  database : Database
  ledgerId : LedgerId
  mode : Mode
  deriving DecidableEq

/-- Create a local store. -/
def Store.create (crypto : Crypto) (ledger : LedgerId) (accounts : List GenesisAccount) :
    Except Error Store := do
  let database ← createMode crypto ledger accounts .localStore fun _ => .ok none
  pure ⟨database, ledger, .localStore⟩

/-- The store with other tables. -/
def Store.withTables (s : Store) (tables : Tables) : Store :=
  { s with database := { s.database with tables } }

@[simp] theorem Store.tables_withTables (s : Store) (tables : Tables) :
    (s.withTables tables).database.tables = tables := rfl

/-- Apply one command in a transaction of its own: the store after a failure is the one before. -/
def Store.apply (crypto : Crypto) (s : Store) (b : Bytes) (now : ℕ) :
    Except Error Receipt × Store :=
  if s.mode ≠ .localStore then (.error .store, s)
  else
    match applyCommand crypto s.database.tables s.ledgerId .localStore b now with
    | .ok (r, tables) => (.ok r, s.withTables tables)
    | .error e => (.error e, s)

end Volparossa.Transaction
