import Volparossa.Foundations.Fallible
import Volparossa.Foundations.FixedBytes

/-!
# Identifiers, times, transports and bandwidth

The types that the client, relay and exit crates share: bounded opaque identifiers, wall-clock
times in seconds, transports and roles, and bandwidth in both directions.
-/

namespace Volparossa.Core

/-- The longest identifier. -/
def maxIdentifierBytes : ℕ := 128

/-- Failure to construct a bounded opaque identifier. -/
inductive IdentifierError where
  | empty
  | tooLong
  | invalidCharacter
  deriving DecidableEq, Repr

/-- A byte of the canonical safe set: an ASCII letter or digit, `-`, `_`, `.` or `:`. -/
def identifierByte (byte : UInt8) : Bool :=
  (48 ≤ byte && byte ≤ 57) || (65 ≤ byte && byte ≤ 90) || (97 ≤ byte && byte ≤ 122) ||
    byte == 45 || byte == 95 || byte == 46 || byte == 58

def validateIdentifier (value : Bytes) : Except IdentifierError Unit := do
  refuse (value = []) .empty
  refuse (maxIdentifierBytes < value.length) .tooLong
  refuse (value.all identifierByte = false) .invalidCharacter

/-- A bounded opaque identifier. The source has one such type for each use; they differ in name
only. -/
structure Identifier where
  bytes : Bytes
  valid : validateIdentifier bytes = .ok ()
  deriving DecidableEq

namespace Identifier

@[ext] theorem ext {a b : Identifier} (h : a.bytes = b.bytes) : a = b := by
  cases a
  cases b
  cases h
  rfl

/-- Validates and constructs the identifier. -/
def new (value : Bytes) : Except IdentifierError Identifier :=
  match h : validateIdentifier value with
  | .error e => .error e
  | .ok () => .ok ⟨value, h⟩

/-- Identifiers are ordered as their text is, byte by byte. -/
instance : LE Identifier := ⟨fun a b => a.bytes ≤ b.bytes⟩

instance (a b : Identifier) : Decidable (a ≤ b) :=
  inferInstanceAs (Decidable (a.bytes ≤ b.bytes))

theorem le_total (a b : Identifier) : a ≤ b ∨ b ≤ a := List.le_total a.bytes b.bytes

theorem le_trans {a b c : Identifier} (h : a ≤ b) (h' : b ≤ c) : a ≤ c := List.le_trans h h'

end Identifier

abbrev NodeId := Identifier

abbrev RouteContextId := Identifier

abbrev ReservationId := Identifier

abbrev ClientEphemeralId := Identifier

abbrev FlowId := Identifier

abbrev LocalProfileId := Identifier

abbrev OriginKey := Identifier

/-- Whether a time, in seconds since the Unix epoch, has come: at the expiry instant and after
it. -/
def isExpiredAt (expiry now : ℕ) : Bool := expiry ≤ now

@[simp] theorem isExpiredAt_eq_true {expiry now : ℕ} :
    isExpiredAt expiry now = true ↔ expiry ≤ now := by
  simp [isExpiredAt]

/-- The transports of a route. -/
inductive Transport where
  | tcpMptcp
  | udpSinglePath
  | multipathQuic
  deriving DecidableEq, Repr

/-- The hash of the exact whitelist manifest a route must use. -/
abbrev PolicyHash := FixedBytes 32

/-- A role for which a node is being considered. -/
inductive ServiceRole where
  | relay
  | exit
  deriving DecidableEq, Repr

/-- A defensive upper bound used to reject implausible capacity claims. -/
def maxBandwidthMbps : ℕ := 1000000

/-- Upload and download capacity in decimal megabits per second. -/
@[ext] structure Bandwidth where
  upMbps : ℕ
  downMbps : ℕ
  deriving DecidableEq, Repr

namespace Bandwidth

def zero : Bandwidth := ⟨0, 0⟩

/-- Whether both directions keep to the defensive bound. -/
def validate (b : Bandwidth) : Bool := b.upMbps ≤ maxBandwidthMbps && b.downMbps ≤ maxBandwidthMbps

@[simp] theorem validate_eq_true {b : Bandwidth} :
    b.validate = true ↔ b.upMbps ≤ maxBandwidthMbps ∧ b.downMbps ≤ maxBandwidthMbps := by
  simp [validate]

/-- Both directions of `b` are at most those of `b'`. -/
instance : LE Bandwidth := ⟨fun b b' => b.upMbps ≤ b'.upMbps ∧ b.downMbps ≤ b'.downMbps⟩

instance (b b' : Bandwidth) : Decidable (b ≤ b') :=
  inferInstanceAs (Decidable (b.upMbps ≤ b'.upMbps ∧ b.downMbps ≤ b'.downMbps))

/-- Take bandwidth away in both directions, if there is as much. -/
def checkedSub (b b' : Bandwidth) : Option Bandwidth :=
  if b' ≤ b then some ⟨b.upMbps - b'.upMbps, b.downMbps - b'.downMbps⟩ else none

end Bandwidth

instance neZero10 : NeZero 10 := ⟨by decide⟩

/-- The identifier whose text is one digit. -/
def sampleId (n : Fin 10) : Identifier :=
  ⟨[48 + UInt8.ofNat n.val], by revert n; decide⟩

end Volparossa.Core
