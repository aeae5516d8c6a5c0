import Volparossa.Ordered.Store

/-!
# The genesis configuration of the ABCI adapter

Every validator is started with the same four-validator genesis, and receives it once more from
consensus as the application state. `Genesis.normalized` checks such a configuration and brings its
lists of validators and accounts into one order, the one that the authority identifier is made from.

Text is its UTF-8 bytes: the code reads the length, the bytes and the order of a text, and nothing
else of it.
-/

namespace Volparossa.Abci

open Protobuf Transaction Ordered

/-- Closed failure classes. -/
inductive Error
  | configuration
  | protocol
  | store (e : Transaction.Error)
  | io
  deriving DecidableEq

/-- A failure of the store, as one of the adapter. -/
def ofStore {α : Type} (x : Except Transaction.Error α) : Except Error α := x.mapError .store

/-! ## Hexadecimal text -/

/-- The lowercase digit of a number below sixteen. -/
def hexDigit (n : ℕ) : UInt8 := (if n < 10 then 48 + n else 87 + n).toUInt8

def hexEncode (b : Bytes) : Bytes :=
  b.flatMap fun x => [hexDigit (x.toNat / 16), hexDigit (x.toNat % 16)]

/-- The number that a digit of either case stands for. -/
def hexValue (b : UInt8) : Option ℕ :=
  if 48 ≤ b ∧ b ≤ 57 then some (b.toNat - 48)
  else if 97 ≤ b ∧ b ≤ 102 then some (b.toNat - 87)
  else if 65 ≤ b ∧ b ≤ 70 then some (b.toNat - 55)
  else none

def hexDecode : Bytes → Option Bytes
  | [] => some []
  | [_] => none
  | high :: low :: rest => do
    let high ← hexValue high
    let low ← hexValue low
    let rest ← hexDecode rest
    some ((16 * high + low).toUInt8 :: rest)

/-- The Ed25519 key of 64 lowercase digits. -/
def publicKey (crypto : Crypto) (value : Bytes) : Except Error (FixedBytes 32) := do
  refuse (value.length ≠ 64 ∨ ¬∀ b ∈ value, 48 ≤ b ∧ b ≤ 57 ∨ 97 ≤ b ∧ b ≤ 102)
    Error.configuration
  let decoded ← orFail (hexDecode value) Error.configuration
  let key ← orFail (FixedBytes.ofBytes 32 decoded) Error.configuration
  refuse (key = .zero 32 ∨ crypto.verifyingKey key = false) Error.configuration
  pure key

/-! ## Consensus parameters -/

structure BlockParams where
  maxBytes : Int64
  maxGas : Int64
  deriving DecidableEq

structure Duration where
  seconds : Int64
  nanos : Int32
  deriving DecidableEq

structure EvidenceParams where
  maxAgeNumBlocks : Int64
  maxAgeDuration : Option Duration
  maxBytes : Int64
  deriving DecidableEq

structure ValidatorParams where
  pubKeyTypes : List Bytes
  deriving DecidableEq

structure VersionParams where
  app : ℕ
  deriving DecidableEq

structure AbciParams where
  voteExtensionsEnableHeight : Int64
  deriving DecidableEq

structure AuthorityParams where
  authority : Bytes
  deriving DecidableEq

structure ConsensusParams where
  block : Option BlockParams
  evidence : Option EvidenceParams
  validator : Option ValidatorParams
  version : Option VersionParams
  abci : Option AbciParams
  authority : Option AuthorityParams
  deriving DecidableEq

/-- A signed integer, written as its two's complement. -/
def int64 (tag : ℕ) (n : Int64) : List Field := uint tag n.toUInt64.toNat

def embedded (tag : ℕ) (fs : Option (List Field)) : List Field :=
  match fs with
  | none => []
  | some fs => [⟨tag, .len (encodeFields fs)⟩]

def BlockParams.fields (m : BlockParams) : List Field := int64 1 m.maxBytes ++ int64 2 m.maxGas

def Duration.fields (m : Duration) : List Field := int64 1 m.seconds ++ int64 2 m.nanos.toInt64

def EvidenceParams.fields (m : EvidenceParams) : List Field :=
  int64 1 m.maxAgeNumBlocks ++ embedded 2 (m.maxAgeDuration.map Duration.fields) ++
    int64 3 m.maxBytes

def ConsensusParams.fields (m : ConsensusParams) : List Field :=
  embedded 1 (m.block.map BlockParams.fields) ++
  embedded 2 (m.evidence.map EvidenceParams.fields) ++
  embedded 3 (m.validator.map fun v => repeatedBytes 1 v.pubKeyTypes) ++
  embedded 4 (m.version.map fun v => uint 1 v.app) ++
  embedded 5 (m.abci.map fun v => int64 1 v.voteExtensionsEnableHeight) ++
  embedded 6 (m.authority.map fun v => bytes 1 v.authority)

/-- The fixed consensus parameters. -/
def consensusParams : ConsensusParams where
  block := some ⟨98304, -1⟩
  evidence := some ⟨1000, some ⟨86400, 0⟩, 8192⟩
  validator := some ⟨[ascii "ed25519"]⟩
  version := some ⟨1⟩
  abci := some ⟨0⟩
  authority := some ⟨[]⟩

/-! ## Genesis -/

/-- One explicitly funded account. -/
structure Account where
  publicKey : Bytes
  units : ℕ
  deriving DecidableEq

/-- The configuration that the operator and the application state must agree on. -/
structure Genesis where
  version : ℕ
  chainId : Bytes
  seconds : Int64
  nanos : Int32
  validators : List Bytes
  accounts : List Account
  deriving DecidableEq

/-- A validator key, as consensus passes it. -/
inductive PublicKeySum
  | ed25519 (key : Bytes)
  | secp256k1 (key : Bytes)
  | bls12381 (key : Bytes)
  | mldsa65 (key : Bytes)
  | secp256k1eth (key : Bytes)
  deriving DecidableEq

structure PublicKey where
  sum : Option PublicKeySum
  deriving DecidableEq

structure ValidatorUpdate where
  pubKey : Option PublicKey
  power : Int64
  deriving DecidableEq

def isAlphanumeric (b : UInt8) : Bool :=
  decide (48 ≤ b ∧ b ≤ 57 ∨ 65 ≤ b ∧ b ≤ 90 ∨ 97 ≤ b ∧ b ≤ 122)

/-- Add a key to a set that does not have it. -/
def insertKey (keys : List (FixedBytes 32)) (key : FixedBytes 32) :
    Except Error (List (FixedBytes 32)) := do
  refuse (key ∈ keys) Error.configuration
  pure (key :: keys)

namespace Genesis

def time (g : Genesis) : Except Error BlockTime :=
  (BlockTime.fromUnix g.seconds g.nanos).mapError fun _ => Error.configuration

/-- The configuration with its lists in order. -/
def sorted (g : Genesis) : Genesis :=
  { g with
    validators := g.validators.insertionSort (· ≤ ·)
    accounts := g.accounts.insertionSort fun a b => a.publicKey ≤ b.publicKey }

def checkValidator (crypto : Crypto) (keys : List (FixedBytes 32)) (value : Bytes) :
    Except Error (List (FixedBytes 32)) := do
  let key ← Abci.publicKey crypto value
  insertKey keys key

def checkAccount (crypto : Crypto) (s : List (FixedBytes 32) × ℕ) (value : Account) :
    Except Error (List (FixedBytes 32) × ℕ) := do
  let key ← Abci.publicKey crypto value.publicKey
  let keys ← insertKey s.1 key
  let supply ← orFail ((checkedAdd s.2 value.units).filter fun v => v ≤ maxUnits)
    Error.configuration
  pure (keys, supply)

/-- **Validate a configuration, and bring its lists into order.** -/
def normalized (crypto : Crypto) (g : Genesis) : Except Error Genesis := do
  refuse (g.version ≠ 1 ∨ ¬ascii "volparossa-test-" <+: g.chainId ∨ g.chainId.length > 50 ∨
    (¬∀ b ∈ g.chainId, isAlphanumeric b ∨ b = 45) ∨ g.validators.length ≠ 4 ∨ g.accounts = [] ∨
    g.accounts.length > maxAccounts) Error.configuration
  let _ ← g.time
  let _ ← g.sorted.validators.foldlM (checkValidator crypto) []
  let _ ← g.sorted.accounts.foldlM (checkAccount crypto) ([], 0)
  pure g.sorted

/-- The configuration in a JSON text; `parse` is the JSON reader. -/
def fromJson (crypto : Crypto) (parse : Bytes → Option Genesis) (b : Bytes) :
    Except Error Genesis := do
  refuse (b.length > 16384) Error.configuration
  let value ← orFail (parse b) Error.configuration
  value.normalized crypto

/-- The accounts, as the store takes them. -/
def genesisAccounts (crypto : Crypto) (g : Genesis) : Except Error (List GenesisAccount) :=
  g.accounts.mapM fun a => do
    let owner ← Abci.publicKey crypto a.publicKey
    pure ⟨owner, a.units⟩

/-- The identifier of the chain and its validators. -/
def authority (crypto : Crypto) (g : Genesis) : Except Error (FixedBytes 32) := do
  refuse (g.chainId.length ≥ 2 ^ 32) Error.configuration
  let keys ← g.validators.mapM (Abci.publicKey crypto)
  pure (crypto.sha256 (ascii "volparossa/transaction/comet-0.40-test-authority/v1\x00" ++
    (FixedBytes.ofNat 4 g.chainId.length).toBytes ++ g.chainId ++
    keys.flatMap (fun key => key.toBytes ++ bigEndian 10) ++ encodeFields consensusParams.fields))

/-- The initial validator set. -/
def validatorUpdates (crypto : Crypto) (g : Genesis) : Except Error (List ValidatorUpdate) :=
  g.validators.mapM fun value => do
    let key ← Abci.publicKey crypto value
    pure ⟨some ⟨some (.ed25519 key.toBytes)⟩, 10⟩

end Genesis

end Volparossa.Abci
