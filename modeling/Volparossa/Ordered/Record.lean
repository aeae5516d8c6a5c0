import Volparossa.Foundations.Protobuf.RoundTrip
import Volparossa.Protocol.Canonical
import Volparossa.Transaction.Basic

/-!
# The records of an ordered ledger

The messages that an ordered ledger persists and hashes: its genesis, and the record of its latest
block with the outcome of every command. Each of them round trips through its encoding
(`LawfulMessage`), so the bytes of a stored record determine it.
-/

namespace Volparossa.Ordered

open Protobuf Transaction

/-! ## Messages -/

/-- Agreed Unix time. -/
structure BlockTime where
  seconds : ℕ
  nanos : ℕ
  deriving DecidableEq

structure InitialAccount where
  owner : Bytes
  units : ℕ
  deriving DecidableEq

structure Genesis where
  version : ℕ
  authority : Bytes
  time : Option BlockTime
  accounts : List InitialAccount
  deriving DecidableEq

structure BlockWire where
  height : ℕ
  id : Bytes
  time : Option BlockTime
  commands : List Bytes
  deriving DecidableEq

structure ReceiptWire where
  operation : Bytes
  hash : Bytes
  sequence : ℕ
  reservation : Bytes
  state : ℕ
  deriving DecidableEq

structure OutcomeWire where
  hash : Bytes
  code : ℕ
  receipt : Option ReceiptWire
  deriving DecidableEq

structure Record where
  block : Option BlockWire
  previousHash : Bytes
  outcomes : List OutcomeWire
  appHash : Bytes
  deriving DecidableEq

instance : Message BlockTime := schema ⟨0, 0⟩ [
  .uint64 1 (·.seconds) ({ · with seconds := · }),
  .uint32 2 (·.nanos) ({ · with nanos := · })]

instance : LawfulMessage BlockTime := lawful (fun m => m.seconds < 2 ^ 64 ∧ m.nanos < 2 ^ 32)
  (by decide) fun _ h => .cons (.uint64 h.1) <| .cons (.uint32 h.2) .nil

instance : Message InitialAccount := schema ⟨[], 0⟩ [
  .bytes 1 (·.owner) ({ · with owner := · }),
  .uint64 2 (·.units) ({ · with units := · })]

instance : LawfulMessage InitialAccount := lawful (fun m => m.units < 2 ^ 64) (by decide)
  fun _ h => .cons .bytes <| .cons (.uint64 h) .nil

instance : Message Genesis := schema ⟨0, [], none, []⟩ [
  .uint32 1 (·.version) ({ · with version := · }),
  .bytes 2 (·.authority) ({ · with authority := · }),
  .message 3 (·.time) ({ · with time := · }),
  .repeatedMessage 4 (·.accounts) ({ · with accounts := · })]

instance : LawfulMessage Genesis := lawful
  (fun m => m.version < 2 ^ 32 ∧ (∀ t, m.time = some t → Fits t) ∧ ∀ a ∈ m.accounts, Fits a)
  (by decide)
  fun _ ⟨hversion, htime, haccounts⟩ =>
    .cons (.uint32 hversion) <| .cons .bytes <| .cons (.message htime) <|
    .cons (.repeatedMessage haccounts) .nil

instance : Message BlockWire := schema ⟨0, [], none, []⟩ [
  .uint64 1 (·.height) ({ · with height := · }),
  .bytes 2 (·.id) ({ · with id := · }),
  .message 3 (·.time) ({ · with time := · }),
  .repeatedBytes 4 (·.commands) ({ · with commands := · })]

instance : LawfulMessage BlockWire := lawful
  (fun m => m.height < 2 ^ 64 ∧ ∀ t, m.time = some t → Fits t) (by decide)
  fun _ ⟨hheight, htime⟩ =>
    .cons (.uint64 hheight) <| .cons .bytes <| .cons (.message htime) <| .cons .repeatedBytes .nil

instance : Message ReceiptWire := schema ⟨[], [], 0, [], 0⟩ [
  .bytes 1 (·.operation) ({ · with operation := · }),
  .bytes 2 (·.hash) ({ · with hash := · }),
  .uint64 3 (·.sequence) ({ · with sequence := · }),
  .bytes 4 (·.reservation) ({ · with reservation := · }),
  .uint32 5 (·.state) ({ · with state := · })]

instance : LawfulMessage ReceiptWire := lawful (fun m => m.sequence < 2 ^ 64 ∧ m.state < 2 ^ 32)
  (by decide)
  fun _ ⟨hsequence, hstate⟩ =>
    .cons .bytes <| .cons .bytes <| .cons (.uint64 hsequence) <| .cons .bytes <|
    .cons (.uint32 hstate) .nil

instance : Message OutcomeWire := schema ⟨[], 0, none⟩ [
  .bytes 1 (·.hash) ({ · with hash := · }),
  .uint32 2 (·.code) ({ · with code := · }),
  .message 3 (·.receipt) ({ · with receipt := · })]

instance : LawfulMessage OutcomeWire := lawful
  (fun m => m.code < 2 ^ 32 ∧ ∀ r, m.receipt = some r → Fits r) (by decide)
  fun _ ⟨hcode, hreceipt⟩ =>
    .cons .bytes <| .cons (.uint32 hcode) <| .cons (.message hreceipt) .nil

instance : Message Record := schema ⟨none, [], [], []⟩ [
  .message 1 (·.block) ({ · with block := · }),
  .bytes 2 (·.previousHash) ({ · with previousHash := · }),
  .repeatedMessage 3 (·.outcomes) ({ · with outcomes := · }),
  .bytes 4 (·.appHash) ({ · with appHash := · })]

instance : LawfulMessage Record := lawful
  (fun m => (∀ b, m.block = some b → Fits b) ∧ ∀ o ∈ m.outcomes, Fits o) (by decide)
  fun _ ⟨hblock, houtcomes⟩ =>
    .cons (.message hblock) <| .cons .bytes <| .cons (.repeatedMessage houtcomes) <|
    .cons .bytes .nil

end Volparossa.Ordered
