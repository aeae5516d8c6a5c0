import Volparossa.Ordered.Record
import Volparossa.Ordered.Snapshot
import Volparossa.Transaction.Genesis

/-!
# The ordered store

An ordered ledger executes blocks of commands in two phases. `stage` computes the next block on an
in-memory copy of the tables and keeps the result in the handle; `commit` executes the block again
on the durable tables, in one transaction, and persists it if it comes to the staged result. The
durable state is the database, which any number of handles share; a handle has nothing but the
ledger identifier and the staged block.

A function that fails returns no database: its transaction is rolled back.
-/

namespace Volparossa.Ordered

open Protobuf Protocol Transaction

/-- Bound on the commands of a block, rejected ones included. -/
def maxBlockCommands : ℕ := 64

/-- Bound on the bytes of all commands of a block. -/
def maxBlockBytes : ℕ := 65536

/-- Bound on the encoding of a record. -/
def maxRecordBytes : ℕ := 128 * 1024

/-! ## Times and blocks -/

namespace BlockTime

def validate (t : BlockTime) : Except Error Unit :=
  refuse (t.seconds > maxUnits ∨ t.nanos ≥ 1000000000) Error.invalid

/-- Convert a timestamp, without wrapping. -/
def fromUnix (seconds : Int64) (nanos : Int32) : Except Error BlockTime := do
  refuse (seconds < 0) Error.invalid
  refuse (nanos < 0) Error.invalid
  let value : BlockTime := ⟨seconds.toInt.toNat, nanos.toInt.toNat⟩
  value.validate
  pure value

instance : LE BlockTime :=
  ⟨fun a b => a.seconds < b.seconds ∨ a.seconds = b.seconds ∧ a.nanos ≤ b.nanos⟩

instance (a b : BlockTime) : Decidable (a ≤ b) :=
  inferInstanceAs (Decidable (a.seconds < b.seconds ∨ a.seconds = b.seconds ∧ a.nanos ≤ b.nanos))

/-- The order of optional times, in which none comes first. -/
def before : Option BlockTime → Option BlockTime → Bool
  | _, none => false
  | none, some _ => true
  | some a, some b => !decide (b ≤ a)

end BlockTime

/-- Ordered input. -/
structure Block where
  height : ℕ
  blockId : FixedBytes 32
  time : BlockTime
  commands : List Bytes
  deriving DecidableEq

def BlockWire.ofBlock (b : Block) : BlockWire :=
  ⟨b.height, b.blockId.toBytes, some b.time, b.commands⟩

def validateBlock (block : Block) : Except Error Unit := do
  block.time.validate
  refuse (block.height = 0 ∨ block.height > maxUnits ∨ block.blockId = .zero 32) Error.invalid
  refuse (block.commands.length > maxBlockCommands ∨ (∃ c ∈ block.commands, c.length > 4096) ∨
    (block.commands.map (·.length)).sum > maxBlockBytes) Error.capacity

/-! ## Outcomes -/

/-- Stable rejection codes. -/
inductive CommandFailure
  | invalid
  | unauthorized
  | wrongLedger
  | notLive
  | conflict
  | replay
  | insufficient
  | notFound
  | state
  | capacity
  deriving DecidableEq

namespace CommandFailure

/-- The code of a failure. -/
def code : CommandFailure → ℕ
  | invalid => 1
  | unauthorized => 2
  | wrongLedger => 3
  | notLive => 4
  | conflict => 5
  | replay => 6
  | insufficient => 7
  | notFound => 8
  | state => 9
  | capacity => 10

/-- The failure that an error is, unless it is one of the store. -/
def classify : Error → Except Error CommandFailure
  | .invalid => .ok invalid
  | .unauthorized => .ok unauthorized
  | .wrongLedger => .ok wrongLedger
  | .notLive => .ok notLive
  | .conflict => .ok conflict
  | .replay => .ok replay
  | .insufficient => .ok insufficient
  | .notFound => .ok notFound
  | .state => .ok state
  | .capacity => .ok capacity
  | other => .error other

/-- The failure with a code. -/
def number : ℕ → Except Error CommandFailure
  | 1 => .ok invalid
  | 2 => .ok unauthorized
  | 3 => .ok wrongLedger
  | 4 => .ok notLive
  | 5 => .ok conflict
  | 6 => .ok replay
  | 7 => .ok insufficient
  | 8 => .ok notFound
  | 9 => .ok state
  | 10 => .ok capacity
  | _ => .error .store

@[simp] theorem number_code (f : CommandFailure) : number f.code = .ok f := by
  cases f <;> rfl

end CommandFailure

/-- The outcome of one command. -/
structure BlockOutcome where
  commandSha256 : FixedBytes 32
  result : Except CommandFailure Receipt
  deriving DecidableEq

/-- A provisional block calculation. -/
structure StagedBlock where
  height : ℕ
  blockId : FixedBytes 32
  appHash : FixedBytes 32
  outcomes : List BlockOutcome
  deriving DecidableEq

/-- A durable checkpoint. -/
structure BlockReceipt where
  height : ℕ
  blockId : FixedBytes 32
  time : BlockTime
  appHash : FixedBytes 32
  outcomes : List BlockOutcome
  deriving DecidableEq

/-! ## Execution -/

/-- The wire form of a receipt. -/
def ReceiptWire.ofReceipt (r : Receipt) : ReceiptWire :=
  ⟨r.operationId.toBytes, r.commandSha256.toBytes, r.sequence, r.reservationId.toBytes,
    stateNumber r.state⟩

/-- Execute one command of a block in a savepoint of its own. -/
def executeCommand (crypto : Crypto) (ledger : LedgerId) (now : ℕ) (s : List OutcomeWire × Tables)
    (b : Bytes) : Except Error (List OutcomeWire × Tables) :=
  match applyCommand crypto s.2 ledger .orderedStore b now with
  | .ok (receipt, t) =>
    .ok (s.1 ++ [⟨(crypto.sha256 b).toBytes, 0, some (.ofReceipt receipt)⟩], t)
  | .error e => do
    let failure ← CommandFailure.classify e
    pure (s.1 ++ [⟨(crypto.sha256 b).toBytes, failure.code, none⟩], s.2)

/-- **Execute the commands of a block, in order.** -/
def execute (crypto : Crypto) (t : Tables) (ledger : LedgerId) (block : BlockWire) :
    Except Error (List OutcomeWire × Tables) := do
  let time ← orFail block.time Error.store
  block.commands.foldlM (executeCommand crypto ledger time.seconds) ([], t)

/-! ## Hashes -/

/-- The ledger identifier that a genesis determines. -/
def genesisLedger (crypto : Crypto) (genesis : Bytes) : LedgerId :=
  crypto.sha256 (ascii "volparossa/transaction/ordered-genesis/v1\x00" ++ genesis)

def recordBytes (record : Record) : Except Error Bytes :=
  (encodeCanonical record maxRecordBytes).mapError fun _ => Error.store

/-- The eight bytes of a 64-bit integer, the most significant first. -/
def bigEndian (n : ℕ) : Bytes := (List.range 8).map fun i => (n / 256 ^ (7 - i)).toUInt8

/-- The commitment to the genesis, the record and the tables. -/
def stateHash (crypto : Crypto) (t : Tables) (genesis : Bytes) (record : Record) :
    Except Error (FixedBytes 32) := do
  let unhashed ← recordBytes { record with appHash := [] }
  let snapshot ← Snapshot.capture t
  let tables ← snapshot.bytes
  pure (crypto.sha256 (ascii "volparossa/transaction/ordered-state/v1\x00" ++
    [genesis, unhashed, tables].flatMap fun piece => bigEndian piece.length ++ piece))

/-! ## Receipts -/

def array (b : Bytes) : Except Error (FixedBytes 32) := orFail (FixedBytes.ofBytes 32 b) Error.store

/-- The result that a record holds for a command. -/
def publicResult (ledger : LedgerId) (o : OutcomeWire) :
    Except Error (Except CommandFailure Receipt) :=
  match o.receipt, o.code with
  | some value, 0 => do
    let operationId ← array value.operation
    let commandSha256 ← array value.hash
    let reservationId ← array value.reservation
    let state ← parseState value.state
    pure (.ok ⟨ledger, operationId, commandSha256, value.sequence, reservationId, state⟩)
  | none, code => do
    let failure ← CommandFailure.number code
    pure (.error failure)
  | some _, _ => .error .store

def publicOutcome (ledger : LedgerId) (o : OutcomeWire) : Except Error BlockOutcome := do
  let result ← publicResult ledger o
  let commandSha256 ← array o.hash
  pure ⟨commandSha256, result⟩

def publicReceipt (record : Record) (ledger : LedgerId) : Except Error BlockReceipt := do
  let block ← orFail record.block Error.store
  let outcomes ← record.outcomes.mapM (publicOutcome ledger)
  let blockId ← array block.id
  let time ← orFail block.time Error.store
  let appHash ← array record.appHash
  pure ⟨block.height, blockId, time, appHash, outcomes⟩

def stagedReceipt (record : Record) (ledger : LedgerId) : Except Error StagedBlock := do
  let value ← publicReceipt record ledger
  pure ⟨value.height, value.blockId, value.appHash, value.outcomes⟩

/-! ## Genesis -/

/-- The canonical genesis, with the accounts in the order of their owners. -/
def encodeGenesis (authority : FixedBytes 32) (accounts : List GenesisAccount) (time : BlockTime) :
    Except Error Bytes := do
  time.validate
  refuse (authority = .zero 32 ∨ accounts = [] ∨ accounts.length > maxAccounts) Error.invalid
  let sorted := accounts.insertionSort fun a b => a.owner.toBytes ≤ b.owner.toBytes
  let genesis : Genesis := ⟨1, authority.toBytes, some time,
    sorted.map fun a => ⟨a.owner.toBytes, a.units⟩⟩
  (encodeCanonical genesis 8192).mapError fun _ => Error.invalid

/-- The record of the genesis, but for its hash. -/
def genesisRecord (time : BlockTime) : Record :=
  ⟨some ⟨0, (FixedBytes.zero 32).toBytes, some time, []⟩, (FixedBytes.zero 32).toBytes, [], []⟩

/-- A row of `ordered_checkpoint`, within the bounds of its columns. -/
def checkpointRow (genesis record : Bytes) : Except Error Checkpoint := do
  refuse (genesis.length = 0 ∨ genesis.length > 8192 ∨ record.length = 0 ∨ record.length > 131072)
    Error.database
  pure ⟨genesis, record⟩

/-- The first checkpoint of an ordered store. -/
def initCheckpoint (crypto : Crypto) (genesis : Bytes) (time : BlockTime) (t : Tables) :
    Except Error (Option Checkpoint) := do
  let hash ← stateHash crypto t genesis (genesisRecord time)
  let record ← recordBytes { genesisRecord time with appHash := hash.toBytes }
  let checkpoint ← checkpointRow genesis record
  pure (some checkpoint)

/-! ## Loading -/

/-- What `load` requires of a genesis. -/
def checkGenesis (crypto : Crypto) (genesis : Bytes) (ledger : LedgerId) :
    Except Error Genesis := do
  let decoded : Genesis ← (decodeCanonical genesis 8192).mapError fun _ => Error.store
  refuse (decoded.version ≠ 1 ∨ decoded.authority.length ≠ 32 ∨
    decoded.authority = (FixedBytes.zero 32).toBytes ∨ decoded.accounts = [] ∨
    decoded.accounts.length > maxAccounts ∨
    ¬decoded.accounts.IsChain (fun a b => a.owner < b.owner) ∨
    genesisLedger crypto genesis ≠ ledger) Error.store
  let time ← orFail decoded.time Error.store
  time.validate.mapError fun _ => Error.store
  pure decoded

/-- What `load` requires of the block of a record. -/
def checkBlock (decoded : Genesis) (record : Record) (block : BlockWire) (receipt : BlockReceipt) :
    Except Error Unit :=
  if block.height = 0 then
    refuse (block.id ≠ (FixedBytes.zero 32).toBytes ∨
      record.previousHash ≠ (FixedBytes.zero 32).toBytes ∨ block.commands ≠ [] ∨
      block.time ≠ decoded.time) Error.store
  else do
    (validateBlock ⟨block.height, receipt.blockId, receipt.time, block.commands⟩).mapError
      fun _ => Error.store
    refuse (BlockTime.before block.time decoded.time) Error.store

/-- **Read and check the checkpoint of a database.** -/
def load (crypto : Crypto) (d : Database) (ledger : LedgerId) : Except Error (Bytes × Record) := do
  let checkpoint ← orFail d.checkpoint Error.database
  let decoded ← checkGenesis crypto checkpoint.genesis ledger
  let record : Record ← (decodeCanonical checkpoint.record maxRecordBytes).mapError fun _ =>
    Error.store
  let block ← orFail record.block Error.store
  let receipt ← publicReceipt record ledger
  refuse (record.previousHash.length ≠ 32 ∨ block.commands.length ≠ record.outcomes.length)
    Error.store
  checkBlock decoded record block receipt
  refuse (∃ p ∈ block.commands.zip record.outcomes, p.2.hash ≠ (crypto.sha256 p.1).toBytes)
    Error.store
  let hash ← stateHash crypto d.tables checkpoint.genesis record
  refuse (hash.toBytes ≠ record.appHash) Error.store
  pure (checkpoint.genesis, record)

/-! ## Handles -/

/-- A staged block, and the record it was computed from. -/
structure Pending where
  base : Bytes
  record : Record
  deriving DecidableEq

/-- An opened ordered store, apart from its database. -/
structure Handle where
  ledgerId : LedgerId
  staged : Option Pending
  deriving DecidableEq

/-- Create an ordered store. -/
def create (crypto : Crypto) (authority : FixedBytes 32) (accounts : List GenesisAccount)
    (time : BlockTime) : Except Error (Database × Handle) := do
  let genesis ← encodeGenesis authority accounts time
  let ledger := genesisLedger crypto genesis
  let d ← createMode crypto ledger accounts .orderedStore (initCheckpoint crypto genesis time)
  pure (d, ⟨ledger, none⟩)

/-- The durable checkpoint. -/
def info (crypto : Crypto) (d : Database) (h : Handle) : Except Error BlockReceipt := do
  let (_, record) ← load crypto d h.ledgerId
  publicReceipt record h.ledgerId

/-- Open the ordered store of a database. -/
def openStore (crypto : Crypto) (d : Database) : Except Error Handle := do
  let ledger ← openMode d .orderedStore
  let _ ← info crypto d ⟨ledger, none⟩
  pure ⟨ledger, none⟩

/-- Whether the store has this genesis. -/
def matchesGenesis (crypto : Crypto) (d : Database) (h : Handle) (authority : FixedBytes 32)
    (accounts : List GenesisAccount) (time : BlockTime) : Except Error Bool := do
  let expected ← encodeGenesis authority accounts time
  let (actual, _) ← load crypto d h.ledgerId
  pure (decide (actual = expected))

/-- The terms of a signed command of an enrolled payer. -/
def inspect (crypto : Crypto) (d : Database) (h : Handle) (b : Bytes) : Except Error Command := do
  let v ← verifyMode crypto b h.ledgerId .orderedStore
  let _ ← account d.tables v.command.payer
  pure v.command

/-- The committed balance of an account. -/
def status (d : Database) (owner : AccountId) : Except Error Balance := account d.tables owner

/-- The receipt of a committed operation. -/
def operation (d : Database) (h : Handle) (id : OperationId) : Except Error (Option Receipt) :=
  receipt d.tables h.ledgerId id

/-- Execute a block on a copy of the tables in memory. -/
def executeInMemory (crypto : Crypto) (t : Tables) (ledger : LedgerId) (input : BlockWire) :
    Except Error (List OutcomeWire × Tables) := do
  let snapshot ← Snapshot.capture t
  let memory ← snapshot.memoryCopy
  execute crypto memory ledger input

/-- The block after `current`, computed in memory. -/
def stageNext (crypto : Crypto) (t : Tables) (ledger : LedgerId) (genesis : Bytes)
    (current : Record) (input : BlockWire) : Except Error (StagedBlock × Pending) := do
  let (outcomes, memory) ← executeInMemory crypto t ledger input
  let hash ← stateHash crypto memory genesis ⟨some input, current.appHash, outcomes, []⟩
  let record : Record := ⟨some input, current.appHash, outcomes, hash.toBytes⟩
  let preview ← stagedReceipt record ledger
  let base ← recordBytes current
  pure (preview, ⟨base, record⟩)

/-- Stage a block from the durable state: the latest one again, or the next one. -/
def stageFresh (crypto : Crypto) (d : Database) (h : Handle) (block : Block) :
    Except Error (StagedBlock × Handle) := do
  let (genesis, current) ← load crypto d h.ledgerId
  let previous ← orFail current.block Error.store
  if previous.height = block.height then do
    refuse (previous ≠ .ofBlock block) Error.conflict
    let receipt ← stagedReceipt current h.ledgerId
    pure (receipt, h)
  else do
    refuse (checkedAdd previous.height 1 ≠ some block.height) Error.state
    let time ← orFail previous.time Error.store
    refuse (¬time ≤ block.time ∨ previous.id = block.blockId.toBytes) Error.state
    let (preview, pending) ← stageNext crypto d.tables h.ledgerId genesis current (.ofBlock block)
    pure (preview, { h with staged := some pending })

/-- A staged block again. -/
def restage (h : Handle) (pending : Pending) (block : Block) :
    Except Error (StagedBlock × Handle) := do
  refuse (pending.record.block ≠ some (.ofBlock block)) Error.conflict
  let receipt ← stagedReceipt pending.record h.ledgerId
  pure (receipt, h)

/-- **Stage a block.** It only reads the database. -/
def stage (crypto : Crypto) (d : Database) (h : Handle) (block : Block) :
    Except Error (StagedBlock × Handle) := do
  validateBlock block
  match h.staged with
  | some pending => restage h pending block
  | none => stageFresh crypto d h block

/-- Forget the staged block. -/
def discardStaged (h : Handle) : Handle := { h with staged := none }

/-- `UPDATE ordered_checkpoint SET record=?1`. -/
def setRecord (d : Database) (record : Bytes) : Except Error Database := do
  let checkpoint ← orFail d.checkpoint Error.database
  let row ← checkpointRow checkpoint.genesis record
  pure { d with checkpoint := some row }

/-- Commit the latest committed block again. -/
def recommit (d : Database) (h : Handle) (current : Record) :
    Except Error (BlockReceipt × Database × Handle) := do
  refuse (h.staged.any fun pending => decide (pending.record ≠ current)) Error.conflict
  let receipt ← publicReceipt current h.ledgerId
  pure (receipt, d, discardStaged h)

/-- Execute the staged block on the durable tables, and persist it. -/
def commitNext (crypto : Crypto) (d : Database) (h : Handle) (blockId : FixedBytes 32)
    (genesis : Bytes) (current : Record) : Except Error (BlockReceipt × Database × Handle) := do
  let pending ← orFail h.staged Error.state
  let block ← orFail pending.record.block Error.store
  refuse (block.id ≠ blockId.toBytes) Error.conflict
  let base ← recordBytes current
  refuse (pending.base ≠ base) Error.conflict
  let (outcomes, tables) ← execute crypto d.tables h.ledgerId block
  refuse (outcomes ≠ pending.record.outcomes) Error.store
  let hash ← stateHash crypto tables genesis pending.record
  refuse (hash.toBytes ≠ pending.record.appHash) Error.store
  let receipt ← publicReceipt pending.record h.ledgerId
  let bytes ← recordBytes pending.record
  let d ← setRecord { d with tables } bytes
  pure (receipt, d, discardStaged h)

/-- **Commit a block.** -/
def commit (crypto : Crypto) (d : Database) (h : Handle) (blockId : FixedBytes 32) :
    Except Error (BlockReceipt × Database × Handle) := do
  let (genesis, current) ← load crypto d h.ledgerId
  let currentBlock ← orFail current.block Error.store
  if currentBlock.height > 0 ∧ currentBlock.id = blockId.toBytes then recommit d h current
  else commitNext crypto d h blockId genesis current

end Volparossa.Ordered
