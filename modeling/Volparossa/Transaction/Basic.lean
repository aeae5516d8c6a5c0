import Volparossa.Foundations.FixedBytes
import Volparossa.Foundations.Fallible

/-!
# The vocabulary of the TEST-unit ledger

Identifiers, commands, receipts, errors and bounds of the transaction crate, and the cryptographic
primitives it calls, which are a parameter of everything that follows (`Crypto`): no result about
the ledger depends on what a digest or a signature check computes, only on its being a function.
-/

namespace Volparossa.Transaction

/-- Identifier of one independently initialized test ledger. -/
abbrev LedgerId := FixedBytes 32

/-- Financial test public key of an account. -/
abbrev AccountId := FixedBytes 32

/-- Idempotency identifier of an operation within a ledger. -/
abbrev OperationId := FixedBytes 32

/-- The UTF-8 bytes of an ASCII text. -/
def ascii (s : String) : Bytes := s.toUTF8.data.toList

/-- The only supported unit. -/
def testUnit : Bytes := ascii "volparossa.test.unit.v1"

/-- The largest signed 64-bit integer, which bounds the whole supply. -/
def maxUnits : ℕ := 9223372036854775807

/-- Bound on explicitly initialized accounts. -/
def maxAccounts : ℕ := 64

/-- Bound on accepted commands together with the completions that pending reserves keep free. -/
def maxOperations : ℕ := 1024

/-- Whether a store applies commands itself or executes ordered blocks of them. -/
inductive Mode
  | localStore
  | orderedStore
  deriving DecidableEq

/-- The failures of the store. -/
inductive Error
  | invalid
  | unauthorized
  | wrongLedger
  | notLive
  | conflict
  | replay
  | insufficient
  | notFound
  | state
  | capacity
  | store
  | busy
  | io
  | database
  deriving DecidableEq

/-- Initial fictitious funding of an account. -/
structure GenesisAccount where
  owner : AccountId
  units : ℕ
  deriving DecidableEq

/-- What a command does; commit and cancel refer to a prior reserve. -/
inductive Action
  | reserve (recipient : AccountId) (units : ℕ)
  | commit (reservationId : OperationId)
  | cancel (reservationId : OperationId)
  deriving DecidableEq

/-- A command, as its payer signed it. -/
structure Command where
  operationId : OperationId
  payer : AccountId
  action : Action
  deriving DecidableEq

/-- Durable state of a reservation. -/
inductive ReservationState
  | reserved
  | committed
  | cancelled
  deriving DecidableEq

/-- Receipt of one accepted command. -/
structure Receipt where
  ledgerId : LedgerId
  operationId : OperationId
  commandSha256 : FixedBytes 32
  sequence : ℕ
  reservationId : OperationId
  state : ReservationState
  deriving DecidableEq

/-- Quantities of an account. -/
structure Balance where
  availableUnits : ℕ
  reservedUnits : ℕ
  deriving DecidableEq

def stateNumber : ReservationState → ℕ
  | .reserved => 1
  | .committed => 2
  | .cancelled => 3

def parseState : ℕ → Except Error ReservationState
  | 1 => .ok .reserved
  | 2 => .ok .committed
  | 3 => .ok .cancelled
  | _ => .error .store

@[simp] theorem parseState_stateNumber (s : ReservationState) :
    parseState (stateNumber s) = .ok s := by
  cases s <;> rfl

theorem stateNumber_mem (s : ReservationState) : stateNumber s ∈ [1, 2, 3] := by
  cases s <;> simp [stateNumber]

theorem exists_parseState {n : ℕ} (h : n ∈ [1, 2, 3]) :
    ∃ s, parseState n = .ok s ∧ stateNumber s = n := by
  simp only [List.mem_cons, List.not_mem_nil, or_false] at h
  rcases h with rfl | rfl | rfl
  · exact ⟨.reserved, rfl, rfl⟩
  · exact ⟨.committed, rfl, rfl⟩
  · exact ⟨.cancelled, rfl, rfl⟩

/-- The sum of two 64-bit integers, when it is one. -/
def checkedAdd (a b : ℕ) : Option ℕ := if a + b < 2 ^ 64 then some (a + b) else none

/-- The difference of two unsigned integers, when it is one. -/
def checkedSub (a b : ℕ) : Option ℕ := if b ≤ a then some (a - b) else none

theorem checkedAdd_of_lt {a b : ℕ} (h : a + b < 2 ^ 64) : checkedAdd a b = some (a + b) := if_pos h

theorem checkedAdd_eq_some {a b c : ℕ} : checkedAdd a b = some c ↔ a + b < 2 ^ 64 ∧ a + b = c := by
  unfold checkedAdd
  split <;> simp_all

theorem checkedSub_of_le {a b : ℕ} (h : b ≤ a) : checkedSub a b = some (a - b) := if_pos h

/-- The cryptographic primitives that the crate imports. -/
structure Crypto where
  /-- The SHA-256 digest. -/
  sha256 : Bytes → FixedBytes 32
  /-- Whether 32 bytes are an Ed25519 verifying key. -/
  verifyingKey : FixedBytes 32 → Bool
  /-- Whether a byte string has the form of an Ed25519 signature. -/
  signature : Bytes → Bool
  /-- Strict verification of a signature on a message under a key. -/
  verifyStrict : FixedBytes 32 → Bytes → Bytes → Bool

end Volparossa.Transaction
