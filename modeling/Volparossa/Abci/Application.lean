import Volparossa.Abci.Config
import Volparossa.Ordered.Session

/-!
# The ABCI application

The application that consensus drives: one request after another, each answered or refused with a
fatal error, after which every request is refused. `InitChain` creates the store, `FinalizeBlock`
stages a block in it and `Commit` commits the staged block; the other requests only read.

A request function that can change the application returns the application with its result, since
what it changed before an error stays changed. Of a request the model has the fields that the
application reads, and the length of its encoding.
-/

namespace Volparossa.Abci

open Protobuf Transaction Ordered

/-! ## Requests -/

structure Timestamp where
  seconds : Int64
  nanos : Int32
  deriving DecidableEq

structure RequestInitChain where
  time : Option Timestamp
  chainId : Bytes
  consensusParams : Option ConsensusParams
  validators : List ValidatorUpdate
  appStateBytes : Bytes
  initialHeight : Int64
  deriving DecidableEq

structure RequestCheckTx where
  tx : Bytes
  type : Int32
  deriving DecidableEq

structure RequestPrepareProposal where
  maxTxBytes : Int64
  txs : List Bytes
  height : Int64
  time : Option Timestamp
  deriving DecidableEq

structure RequestProcessProposal where
  txs : List Bytes
  hash : Bytes
  height : Int64
  time : Option Timestamp
  deriving DecidableEq

structure RequestFinalizeBlock where
  txs : List Bytes
  hash : Bytes
  height : Int64
  time : Option Timestamp
  deriving DecidableEq

structure RequestQuery where
  data : Bytes
  path : Bytes
  height : Int64
  prove : Bool
  deriving DecidableEq

inductive RequestValue
  | echo (message : Bytes)
  | flush
  | info
  | initChain (value : RequestInitChain)
  | query (value : RequestQuery)
  | checkTx (value : RequestCheckTx)
  | commit
  | listSnapshots
  | offerSnapshot
  | loadSnapshotChunk
  | applySnapshotChunk
  | prepareProposal (value : RequestPrepareProposal)
  | processProposal (value : RequestProcessProposal)
  | extendVote
  | verifyVoteExtension
  | finalizeBlock (value : RequestFinalizeBlock)
  | insertTx
  | reapTxs
  deriving DecidableEq

/-- A decoded request. Its encoding also has the fields that no function here reads. -/
structure Request where
  encodedLen : ℕ
  value : Option RequestValue
  deriving DecidableEq

/-! ## Responses -/

structure ResponseInfo where
  data : Bytes
  version : Bytes
  appVersion : ℕ
  lastBlockHeight : Int64
  lastBlockAppHash : Bytes
  deriving DecidableEq

structure ResponseInitChain where
  consensusParams : Option ConsensusParams
  validators : List ValidatorUpdate
  appHash : Bytes
  deriving DecidableEq

structure ResponseQuery where
  code : ℕ
  value : Bytes
  height : Int64
  codespace : Bytes
  deriving DecidableEq

/-- The result of checking or executing a transaction. -/
structure TxResult where
  code : ℕ
  data : Bytes
  codespace : Bytes
  deriving DecidableEq

inductive ProposalStatus
  | accept
  | reject
  deriving DecidableEq

inductive OfferSnapshotResult
  | reject
  deriving DecidableEq

inductive ApplySnapshotChunkResult
  | abort
  deriving DecidableEq

inductive Response
  | echo (message : Bytes)
  | flush
  | info (value : ResponseInfo)
  | initChain (value : ResponseInitChain)
  | query (value : ResponseQuery)
  | checkTx (value : TxResult)
  | commit (retainHeight : Int64)
  | listSnapshots
  | offerSnapshot (result : OfferSnapshotResult)
  | applySnapshotChunk (result : ApplySnapshotChunkResult)
  | prepareProposal (txs : List Bytes)
  | processProposal (status : ProposalStatus)
  | finalizeBlock (txResults : List TxResult) (appHash : Bytes)
  deriving DecidableEq

/-! ## Shared checks -/

/-- Bound on the encoding of a request. -/
def maxFrameBytes : ℕ := 128 * 1024

def codespace : Bytes := ascii "volparossa.test.v1"

def agreedTime (value : Option Timestamp) : Except Error BlockTime := do
  let value ← orFail value Error.protocol
  (BlockTime.fromUnix value.seconds value.nanos).mapError fun _ => Error.protocol

def heightI64 (value : ℕ) : Except Error Int64 := do
  refuse (value ≥ 2 ^ 63) Error.protocol
  pure (Int64.ofNat value)

def blockId (b : Bytes) : Except Error (FixedBytes 32) := do
  let id ← orFail (FixedBytes.ofBytes 32 b) Error.protocol
  refuse (id = .zero 32) Error.protocol
  pure id

def boundedCommands (commands : List Bytes) : Bool :=
  decide (commands.length ≤ maxBlockCommands ∧ (∀ tx ∈ commands, tx.length ≤ 4096) ∧
    (commands.map (·.length)).sum ≤ maxBlockBytes)

/-- The code of a rejected command; other failures of the store are fatal. -/
def rejection (e : Transaction.Error) : Except Error CommandFailure :=
  ofStore (CommandFailure.classify e)

/-! ## The application -/

/-- A flat JSON value. -/
inductive JsonScalar
  | text (b : Bytes)
  | number (n : ℕ)
  | boolean (b : Bool)
  deriving DecidableEq

/-- The members of a JSON object. -/
abbrev JsonObject := List (Bytes × JsonScalar)

/-- The libraries that the application calls: the primitives, and the reader and writer of JSON. -/
structure Libraries where
  crypto : Crypto
  fromSlice : Bytes → Option Genesis
  toVec : JsonObject → Option Bytes

/-- The application. Its store is the durable database at its path, together with the handle on it;
there is none before `InitChain`. -/
structure Application where
  genesis : Genesis
  store : Option OrderedStore
  pending : Option (FixedBytes 32)
  failed : Bool
  deriving DecidableEq

namespace Application

variable (lib : Libraries)

/-- The durable state. -/
def database (app : Application) : Option Database := app.store.map (·.database)

/-- The block staged in memory. -/
def staged (app : Application) : Option Pending := app.store.bind (·.handle.staged)

/-- Open the application on the database at its path, if there is one. -/
def openApplication (durable : Option Database) (genesis : Genesis) : Except Error Application := do
  let genesis ← genesis.normalized lib.crypto
  match durable with
  | none => pure ⟨genesis, none, none, false⟩
  | some database => do
    let handle ← ofStore (openStore lib.crypto database)
    let authority ← genesis.authority lib.crypto
    let accounts ← genesis.genesisAccounts lib.crypto
    let time ← genesis.time
    let same ← ofStore (matchesGenesis lib.crypto database handle authority accounts time)
    refuse (same = false) Error.configuration
    pure ⟨genesis, some ⟨database, handle⟩, none, false⟩

def getStore (app : Application) : Except Error OrderedStore := orFail app.store Error.protocol

/-- The durable checkpoint. -/
def storeInfo (s : OrderedStore) : Except Error BlockReceipt :=
  ofStore (Ordered.info lib.crypto s.database s.handle)

def info (app : Application) : Except Error ResponseInfo := do
  let (height, hash) ← (match app.store with
    | some s => do
      let value ← storeInfo lib s
      let height ← heightI64 value.height
      pure (height, value.appHash.toBytes)
    | none => pure (0, []) : Except Error (Int64 × Bytes))
  pure ⟨ascii "ordered-fictitious-TEST-only", ascii "0.1.0", 1, height, hash⟩

/-- The digits of the key of an initial validator. -/
def validatorKey (v : ValidatorUpdate) : Except Error Bytes :=
  match v.pubKey.bind (·.sum) with
  | some (.ed25519 key) =>
    if key.length = 32 ∧ v.power = 10 then .ok (hexEncode key) else .error .configuration
  | _ => .error .configuration

/-- Whether `InitChain` passes the configuration that the application was started with. -/
def checkInitChain (app : Application) (request : RequestInitChain) : Except Error Unit := do
  refuse (app.pending.isSome ∨ request.chainId ≠ app.genesis.chainId ∨ request.initialHeight ≠ 1)
    Error.configuration
  let agreed ← agreedTime request.time
  let time ← app.genesis.time
  refuse (agreed ≠ time ∨ request.consensusParams ≠ some consensusParams) Error.configuration
  let genesis ← Genesis.fromJson lib.crypto lib.fromSlice request.appStateBytes
  refuse (genesis ≠ app.genesis) Error.configuration
  let actual ← request.validators.mapM validatorKey
  refuse (actual.insertionSort (· ≤ ·) ≠ app.genesis.validators) Error.configuration

def createStore (genesis : Genesis) : Except Error OrderedStore := do
  let authority ← genesis.authority lib.crypto
  let accounts ← genesis.genesisAccounts lib.crypto
  let time ← genesis.time
  let (database, handle) ← ofStore (create lib.crypto authority accounts time)
  pure ⟨database, handle⟩

/-- The store that `InitChain` continues with: the one there is, or a created one. -/
def initStore (app : Application) (request : RequestInitChain) : Except Error OrderedStore := do
  checkInitChain lib app request
  match app.store with
  | some s => pure s
  | none => createStore lib app.genesis

def initResponse (genesis : Genesis) (s : OrderedStore) : Except Error ResponseInitChain := do
  let info ← storeInfo lib s
  refuse (info.height ≠ 0) Error.protocol
  let validators ← genesis.validatorUpdates lib.crypto
  pure ⟨some consensusParams, validators, info.appHash.toBytes⟩

def initChain (app : Application) (request : RequestInitChain) :
    Except Error ResponseInitChain × Application :=
  match initStore lib app request with
  | .error e => (.error e, app)
  | .ok s => (initResponse lib app.genesis s, { app with store := some s })

def checkTx (app : Application) (request : RequestCheckTx) : Except Error TxResult := do
  refuse (request.type ≠ 0 ∧ request.type ≠ 1) Error.protocol
  let s ← getStore app
  let code ← (match inspect lib.crypto s.database s.handle request.tx with
    | .ok _ => pure 0
    | .error e => do
      let failure ← rejection e
      pure failure.code : Except Error ℕ)
  pure ⟨code, [], codespace⟩

/-- Whether a proposal has the next height, and a time that does not go back. -/
def proposalPosition (app : Application) (height : Int64) (time : Option Timestamp) :
    Except Error Bool := do
  let s ← getStore app
  let current ← storeInfo lib s
  match agreedTime time with
  | .error _ => pure false
  | .ok time =>
    pure (decide (height.toInt.toNat? = checkedAdd current.height 1 ∧ current.time ≤ time))

/-- The commands that fit a block, in their order. -/
def fitting (maxBytes : ℕ) : List Bytes → ℕ → List Bytes → List Bytes
  | [], _, txs => txs
  | b :: rest, used, txs =>
    if txs.length = maxBlockCommands then txs
    else if b.length ≤ 4096 ∧ b.length ≤ maxBytes - used then
      fitting maxBytes rest (used + b.length) (txs ++ [b])
    else fitting maxBytes rest used txs

def prepare (app : Application) (request : RequestPrepareProposal) : Except Error (List Bytes) := do
  let position ← proposalPosition lib app request.height request.time
  refuse (position = false) Error.protocol
  let maxTxBytes ← orFail request.maxTxBytes.toInt.toNat? Error.protocol
  pure (fitting (min maxTxBytes maxBlockBytes) request.txs 0 [])

def process (app : Application) (request : RequestProcessProposal) :
    Except Error ProposalStatus := do
  let position ← proposalPosition lib app request.height request.time
  let accepted := position && (blockId request.hash).isOk && boundedCommands request.txs
  pure (if accepted then .accept else .reject)

/-- The block that `FinalizeBlock` passes. -/
def finalizedBlock (request : RequestFinalizeBlock) : Except Error Block := do
  let height ← orFail request.height.toInt.toNat? Error.protocol
  let id ← blockId request.hash
  let time ← agreedTime request.time
  pure ⟨height, id, time, request.txs⟩

def execTxResult (o : BlockOutcome) : TxResult :=
  ⟨match o.result with
    | .ok _ => 0
    | .error failure => failure.code, o.commandSha256.toBytes, codespace⟩

/-- Stage the block of a request. -/
def stageRequest (app : Application) (request : RequestFinalizeBlock) :
    Except Error (StagedBlock × OrderedStore) := do
  let block ← finalizedBlock request
  let s ← getStore app
  let (staged, handle) ← ofStore (stage lib.crypto s.database s.handle block)
  pure (staged, { s with handle })

def finalize (app : Application) (request : RequestFinalizeBlock) :
    Except Error Response × Application :=
  match stageRequest lib app request with
  | .error e => (.error e, app)
  | .ok (staged, s) =>
    (.ok (.finalizeBlock (staged.outcomes.map execTxResult) staged.appHash.toBytes),
      { app with store := some s, pending := some staged.blockId })

/-- Commit the block that was finalized last. -/
def commitPending (app : Application) : Except Error OrderedStore := do
  let id ← orFail app.pending Error.protocol
  let s ← getStore app
  let (_, database, handle) ← ofStore (Ordered.commit lib.crypto s.database s.handle id)
  pure ⟨database, handle⟩

def commit (app : Application) : Except Error Response × Application :=
  match commitPending lib app with
  | .error e => (.error e, app)
  | .ok s => (.ok (.commit 0), { app with store := some s, pending := none })

/-! ## Queries -/

def stateText : ReservationState → Bytes
  | .reserved => ascii "Reserved"
  | .committed => ascii "Committed"
  | .cancelled => ascii "Cancelled"

def infoValue (s : OrderedStore) (current : BlockReceipt) : JsonObject :=
  [(ascii "unit", .text testUnit), (ascii "height", .number current.height),
    (ascii "app_hash", .text (hexEncode current.appHash.toBytes)),
    (ascii "ledger_id", .text (hexEncode s.handle.ledgerId.toBytes)),
    (ascii "consensus_certificate", .boolean false)]

def balanceValue (b : Balance) : JsonObject :=
  [(ascii "available_units", .number b.availableUnits),
    (ascii "reserved_units", .number b.reservedUnits)]

def operationValue (r : Receipt) : JsonObject :=
  [(ascii "operation_id", .text (hexEncode r.operationId.toBytes)),
    (ascii "command_sha256", .text (hexEncode r.commandSha256.toBytes)),
    (ascii "sequence", .number r.sequence),
    (ascii "reservation_id", .text (hexEncode r.reservationId.toBytes)),
    (ascii "state", .text (stateText r.state)), (ascii "consensus_certificate", .boolean false)]

/-- The value that a query asks for, if it has one. -/
def queryValue (s : OrderedStore) (current : BlockReceipt) (request : RequestQuery) :
    Except Error (Option JsonObject) :=
  if request.path = ascii "/test/info" ∧ request.data = [] then pure (some (infoValue s current))
  else if request.path = ascii "/test/balance" ∧ request.data.length = 32 then do
    let owner ← orFail (FixedBytes.ofBytes 32 request.data) Error.protocol
    match status s.database owner with
    | .ok balance => pure (some (balanceValue balance))
    | .error .notFound => pure none
    | .error e => .error (.store e)
  else if request.path = ascii "/test/operation" ∧ request.data.length = 32 then do
    let id ← orFail (FixedBytes.ofBytes 32 request.data) Error.protocol
    let receipt ← ofStore (operation s.database s.handle id)
    pure (receipt.map operationValue)
  else pure none

def query (app : Application) (request : RequestQuery) : Except Error ResponseQuery := do
  let s ← getStore app
  let current ← storeInfo lib s
  let height ← heightI64 current.height
  let value ← (if request.prove ∨ request.height ≠ 0 ∧ request.height ≠ height then pure none
    else queryValue s current request : Except Error (Option JsonObject))
  match value with
  | none => pure ⟨100, [], height, codespace⟩
  | some value => do
    let encoded ← orFail (lib.toVec value) Error.protocol
    pure ⟨0, encoded, height, codespace⟩

/-! ## Requests -/

/-- The answer to a request. -/
def answer (app : Application) : RequestValue → Except Error Response × Application
  | .echo message => (.ok (.echo message), app)
  | .flush => (.ok .flush, app)
  | .info => ((info lib app).map .info, app)
  | .initChain value => ((initChain lib app value).1.map .initChain, (initChain lib app value).2)
  | .checkTx value => ((checkTx lib app value).map .checkTx, app)
  | .prepareProposal value => ((prepare lib app value).map .prepareProposal, app)
  | .processProposal value => ((process lib app value).map .processProposal, app)
  | .finalizeBlock value => finalize lib app value
  | .commit => commit lib app
  | .query value => ((query lib app value).map .query, app)
  -- no snapshot is advertised, and none is accepted
  | .listSnapshots => (.ok .listSnapshots, app)
  | .offerSnapshot => (.ok (.offerSnapshot .reject), app)
  | .applySnapshotChunk => (.ok (.applySnapshotChunk .abort), app)
  | .loadSnapshotChunk | .extendVote | .verifyVoteExtension | .insertTx | .reapTxs =>
    (.error .protocol, app)

def handleInner (app : Application) (request : Request) : Except Error Response × Application :=
  if request.encodedLen > maxFrameBytes then (.error .protocol, app)
  else
    match request.value with
    | none => (.error .protocol, app)
    | some value => answer lib app value

/-- **Handle one request.** An error is fatal: the application answers no request after it. -/
def handle (app : Application) (request : Request) : Except Error Response × Application :=
  if app.failed then (.error .protocol, app)
  else
    match handleInner lib app request with
    | (.ok response, app) => (.ok response, app)
    | (.error e, app) => (.error e, { app with failed := true })

/-- The application, as a machine. -/
def machine : Machine Application Request (Except Error Response) := ⟨handle lib⟩

/-- One step of a run of the application. -/
abbrev Event := Machine.Event Application Request (Except Error Response)

end Application

end Volparossa.Abci
