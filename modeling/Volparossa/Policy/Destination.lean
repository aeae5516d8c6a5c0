import Volparossa.Core.Network
import Volparossa.Foundations.Increasing
import Volparossa.Transaction.Basic

/-!
# Destinations of the egress whitelist

A rule of a whitelist names a destination, by an exact domain name, by a wildcard or by an address,
and the protocol and port combinations it permits there. Names are compared byte by byte, so they
are normalized first (`normalizeDomain`), and the constructors that read a rule from the wire refuse
a name that is not already in its normal form. `DestinationRule.Normal` says what they let through
(`DestinationRule.fromWireExactDomain_spec`, …).

What the URL library makes of a host text is a parameter (`parseHost`).
-/

namespace Volparossa.Policy

open Volparossa.Core (IpAddr)

open Transaction (ascii)

/-- Maximum permissions attached to one destination selector. -/
def maxPermissionsPerDestination : ℕ := 64

/-- Maximum UTF-8 input length accepted before IDNA processing. -/
def maxDomainInputBytes : ℕ := 1024

/-- Maximum canonical ASCII DNS-name length, excluding a root dot. -/
def maxDomainNameBytes : ℕ := 253

/-- Errors returned while constructing, verifying, or applying a whitelist manifest. -/
inductive PolicyError where
  | oversized (what : String) (maximum : ℕ)
  | tooManyItems (what : String) (maximum : ℕ)
  | decode
  | nonCanonicalProtobuf
  | nonCanonicalSemantic (what : String)
  | unsupportedSchemaVersion (version : ℕ)
  | unsupportedProtocolVersion (minimum supported : ℕ)
  | invalidField (field : String)
  | invalidDomain
  | rawIpAsDomain
  | invalidWildcard
  | invalidPort (port : ℕ)
  | duplicateItem (what : String)
  | invalidTimeWindow
  | notYetValid
  | expired
  | manifestHashMismatch
  | maintainerCount (expected actual : ℕ)
  | trustRootMismatch
  | developmentKeyRejected
  | untrustedSigner
  | invalidSignature
  | insufficientSignatures (required valid : ℕ)
  | denied
  deriving DecidableEq

/-! ## Permissions -/

/-- An Internet transport protocol that can be authorized by a policy rule. -/
inductive TransportProtocol where
  | tcp
  | udp
  deriving DecidableEq, Repr

namespace TransportProtocol

def wireValue : TransportProtocol → ℤ
  | .tcp => 1
  | .udp => 2

def fromWire (value : ℤ) : Except PolicyError TransportProtocol :=
  if value = 1 then .ok .tcp
  else if value = 2 then .ok .udp
  else .error (.invalidField "transport protocol")

theorem fromWire_eq_ok {value : ℤ} {p : TransportProtocol} :
    fromWire value = .ok p ↔ value = p.wireValue := by
  unfold fromWire
  cases p with
  | tcp => split <;> [simp_all [wireValue]; split <;> simp_all [wireValue]]
  | udp => split <;> [simp_all [wireValue]; split <;> simp_all [wireValue]]

end TransportProtocol

/-- One exact protocol and destination-port combination; port zero is not one. -/
structure ProtocolPort where
  protocol : TransportProtocol
  port : ℕ
  port_pos : 0 < port
  port_lt : port < 2 ^ 16
  deriving DecidableEq

namespace ProtocolPort

def fromWire (protocol : ℤ) (port : ℕ) : Except PolicyError ProtocolPort := do
  let protocol ← TransportProtocol.fromWire protocol
  if h : 0 < port ∧ port < 2 ^ 16 then pure ⟨protocol, port, h.1, h.2⟩
  else .error (.invalidPort port)

theorem fromWire_eq_ok {protocol : ℤ} {port : ℕ} {p : ProtocolPort} :
    fromWire protocol port = .ok p ↔ protocol = p.protocol.wireValue ∧ port = p.port := by
  simp only [fromWire, bind_eq_ok, TransportProtocol.fromWire_eq_ok]
  constructor
  · rintro ⟨protocol', rfl, h⟩
    split at h
    · cases h
      exact ⟨rfl, rfl⟩
    · cases h
  · rintro ⟨rfl, rfl⟩
    exact ⟨p.protocol, rfl, by rw [dif_pos ⟨p.port_pos, p.port_lt⟩]; rfl⟩

/-- The order of permissions: by protocol, then by port. -/
instance : Ord ProtocolPort :=
  ⟨compareLex (compareOn fun p => p.protocol.wireValue) (compareOn ProtocolPort.port)⟩

instance : Std.TransOrd ProtocolPort := inferInstanceAs (Std.TransCmp
  (compareLex (compareOn fun p : ProtocolPort => p.protocol.wireValue)
    (compareOn ProtocolPort.port)))

end ProtocolPort

/-- Sorts the permissions and refuses duplicates. -/
def normalizePermissions (permissions : List ProtocolPort) :
    Except PolicyError (List ProtocolPort) := do
  refuse (permissions.length > maxPermissionsPerDestination)
    (.tooManyItems "protocol/port permissions per destination" maxPermissionsPerDestination)
  refuse (permissions = []) (.invalidField "empty permission set")
  let normalized := permissions.insertionSort fun a b => compare a b ≠ .gt
  refuse (¬normalized.IsChain fun a b => a ≠ b) (.duplicateItem "protocol/port permission")
  pure normalized

/-- Permissions in strictly increasing order are already normal. -/
theorem normalizePermissions_eq_ok {permissions normalized : List ProtocolPort}
    (hsorted : Increasing permissions)
    (h : normalizePermissions permissions = .ok normalized) :
    normalized = permissions ∧ permissions ≠ [] ∧
      permissions.length ≤ maxPermissionsPerDestination := by
  simp only [normalizePermissions, ok_iff] at h
  obtain ⟨-, hlength, -, hne, -, -, rfl⟩ := h
  have hle : permissions.Pairwise fun a b => compare a b ≠ .gt :=
    hsorted.pairwise.imp fun h => by rw [h]; decide
  exact ⟨hle.insertionSort_eq, hne, by omega⟩

/-! ## Domain names -/

/-- What a host text denotes. -/
inductive Host where
  | domain (name : Bytes)
  | ipv4
  | ipv6
  deriving DecidableEq

/-- The code points of a UTF-8 text, the last one first. -/
def codePoints (text : Bytes) : List ℕ :=
  text.foldl (fun points (b : UInt8) =>
    if b < 0x80 then b.toNat :: points
    else if b < 0xC0 then
      match points with
      | [] => []
      | point :: rest => (64 * point + b.toNat % 64) :: rest
    else if b < 0xE0 then b.toNat % 32 :: points
    else if b < 0xF0 then b.toNat % 16 :: points
    else b.toNat % 8 :: points) []

/-- The white space of Unicode. -/
def isWhitespace (c : ℕ) : Bool :=
  (9 ≤ c && c ≤ 13) || (0x2000 ≤ c && c ≤ 0x200A) ||
    [0x20, 0x85, 0xA0, 0x1680, 0x2028, 0x2029, 0x202F, 0x205F, 0x3000].contains c

/-- The control characters of Unicode. -/
def isControl (c : ℕ) : Bool := c < 0x20 || (0x7F ≤ c && c ≤ 0x9F)

/-- The characters of URL syntax and wildcards that no name may have. -/
def urlSyntax : List ℕ := (ascii "*%/\\@:#?[]").map UInt8.toNat

def toAsciiLowercase (b : UInt8) : UInt8 := if 65 ≤ b ∧ b ≤ 90 then b + 32 else b

/-- A label of a normalized name. -/
def isNormalLabel (label : Bytes) : Bool :=
  label ≠ [] && label.length ≤ 63 && label.headD 0 ≠ 45 && label.getLastD 0 ≠ 45 &&
    label.all fun b => (97 ≤ b && b ≤ 122) || (48 ≤ b && b ≤ 57) || b = 45

variable (parseHost : Bytes → Option Host)

/-- The lower-case ASCII form of a DNS name, without a trailing root dot. -/
def normalizeDomain (input : Bytes) : Except PolicyError Bytes := do
  refuse (input = [] ∨ input.length > maxDomainInputBytes) .invalidDomain
  refuse (((codePoints input).any fun c => isWhitespace c || isControl c || urlSyntax.contains c) =
    true) .invalidDomain
  let domain ← match parseHost input with
    | none => .error .invalidDomain
    | some (.domain name) => .ok name
    | some .ipv4 | some .ipv6 => .error .rawIpAsDomain
  let lower := domain.map toAsciiLowercase
  let name := if lower.getLast? = some 46 then lower.dropLast else lower
  refuse (name = [] ∨ name.length > maxDomainNameBytes ∨ name.head? = some 46 ∨
    name.getLast? = some 46) .invalidDomain
  refuse (((name.splitOn 46).all isNormalLabel) = false) .invalidDomain
  pure name

/-- The start of every wildcard pattern. -/
def wildcardStart : Bytes := ascii "*."

/-- The normalized name below which a wildcard pattern matches. -/
def wildcardSuffix (pattern : Bytes) : Except PolicyError Bytes := do
  refuse (¬wildcardStart <+: pattern) .invalidWildcard
  let suffix := pattern.drop wildcardStart.length
  refuse (42 ∈ suffix) .invalidWildcard
  let suffix ← (normalizeDomain parseHost suffix).mapError fun _ => .invalidWildcard
  refuse (46 ∉ suffix) .invalidWildcard
  pure suffix

/-- Only a text that starts as a wildcard pattern does has a suffix. -/
theorem wildcardSuffix_spec {pattern suffix : Bytes}
    (h : wildcardSuffix parseHost pattern = .ok suffix) (hp : pattern = wildcardStart ++ suffix) :
    normalizeDomain parseHost suffix = .ok suffix ∧ 46 ∈ suffix := by
  simp only [wildcardSuffix, ok_iff] at h
  obtain ⟨-, -, -, -, suffix', hnormal, -, hdot, rfl⟩ := h
  rw [hp, List.drop_left] at hnormal
  exact ⟨hnormal, not_not.mp hdot⟩

/-! ## Rules -/

inductive Destination where
  | exactDomain (name : Bytes)
  | wildcardDomain (suffix : Bytes)
  | exactIp (address : IpAddr)
  deriving DecidableEq

namespace Destination

/-- Which kind of destination comes first, with the addresses of the two families apart. -/
def rank : Destination → ℕ
  | .exactDomain _ => 0
  | .wildcardDomain _ => 1
  | .exactIp (.v4 ..) => 2
  | .exactIp (.v6 _) => 3

/-- The bytes by which destinations of one kind are ordered. -/
def content : Destination → Bytes
  | .exactDomain name => name
  | .wildcardDomain suffix => suffix
  | .exactIp address => address.toBytes

instance : Ord Destination := ⟨compareLex (compareOn rank) (compareOn content)⟩

instance : Std.TransOrd Destination :=
  inferInstanceAs (Std.TransCmp (compareLex (compareOn rank) (compareOn content)))

/-- Only normalized names, in patterns of at least two labels below the wildcard. -/
def Normal : Destination → Prop
  | .exactDomain name => normalizeDomain parseHost name = .ok name
  | .wildcardDomain suffix => normalizeDomain parseHost suffix = .ok suffix ∧ 46 ∈ suffix
  | .exactIp _ => True

end Destination

/-- A normalized destination selector and its exact protocol/port permissions. -/
structure DestinationRule where
  destination : Destination
  permissions : List ProtocolPort
  deriving DecidableEq

namespace DestinationRule

def exactDomain (domain : Bytes) (permissions : List ProtocolPort) :
    Except PolicyError DestinationRule := do
  let name ← normalizeDomain parseHost domain
  let permissions ← normalizePermissions permissions
  pure ⟨.exactDomain name, permissions⟩

def wildcardDomain (pattern : Bytes) (permissions : List ProtocolPort) :
    Except PolicyError DestinationRule := do
  let suffix ← wildcardSuffix parseHost pattern
  let permissions ← normalizePermissions permissions
  pure ⟨.wildcardDomain suffix, permissions⟩

def exactIp (address : IpAddr) (permissions : List ProtocolPort) :
    Except PolicyError DestinationRule := do
  let permissions ← normalizePermissions permissions
  pure ⟨.exactIp address, permissions⟩

def fromWireExactDomain (domain : Bytes) (permissions : List ProtocolPort) :
    Except PolicyError DestinationRule := do
  let normalized ← normalizeDomain parseHost domain
  refuse (normalized ≠ domain) (.nonCanonicalSemantic "exact domain")
  exactDomain parseHost domain permissions

def fromWireWildcardDomain (pattern : Bytes) (permissions : List ProtocolPort) :
    Except PolicyError DestinationRule := do
  let suffix ← wildcardSuffix parseHost pattern
  refuse (pattern ≠ wildcardStart ++ suffix) (.nonCanonicalSemantic "wildcard domain")
  wildcardDomain parseHost pattern permissions

def fromWireIp (address : IpAddr) (permissions : List ProtocolPort) :
    Except PolicyError DestinationRule :=
  exactIp address permissions

/-- A rule within its bounds: the name is normalized, and there are permissions, not too many, each
once and in increasing order. -/
structure Normal (rule : DestinationRule) : Prop where
  destination : rule.destination.Normal parseHost
  nonempty : rule.permissions ≠ []
  length_le : rule.permissions.length ≤ maxPermissionsPerDestination
  increasing : Increasing rule.permissions

section Spec

variable {parseHost} {permissions : List ProtocolPort} {rule : DestinationRule}
  (hsorted : Increasing permissions)

include hsorted

theorem normal_of_normalizePermissions (destination : Destination) {normalized : List ProtocolPort}
    (hdestination : destination.Normal parseHost)
    (h : normalizePermissions permissions = .ok normalized) :
    normalized = permissions ∧ Normal parseHost ⟨destination, normalized⟩ := by
  obtain ⟨rfl, hne, hlength⟩ := normalizePermissions_eq_ok hsorted h
  exact ⟨rfl, hdestination, hne, hlength, hsorted⟩

theorem fromWireExactDomain_spec {domain : Bytes}
    (h : fromWireExactDomain parseHost domain permissions = .ok rule) :
    rule = ⟨.exactDomain domain, permissions⟩ ∧ rule.Normal parseHost := by
  simp only [fromWireExactDomain, exactDomain, ok_iff, not_not] at h
  obtain ⟨name, hname, -, rfl, name', hname', normalized, hpermissions, rfl⟩ := h
  obtain rfl := ok_unique hname hname'
  obtain ⟨rfl, hnormal⟩ := normal_of_normalizePermissions hsorted
    (.exactDomain name) hname hpermissions
  exact ⟨rfl, hnormal⟩

theorem fromWireWildcardDomain_spec {pattern : Bytes}
    (h : fromWireWildcardDomain parseHost pattern permissions = .ok rule) :
    ∃ suffix, pattern = wildcardStart ++ suffix ∧
      rule = ⟨.wildcardDomain suffix, permissions⟩ ∧ rule.Normal parseHost := by
  simp only [fromWireWildcardDomain, wildcardDomain, ok_iff, not_not] at h
  obtain ⟨suffix, hsuffix, -, hpattern, suffix', hsuffix', normalized, hpermissions, rfl⟩ := h
  obtain rfl := ok_unique hsuffix hsuffix'
  obtain ⟨rfl, hnormal⟩ := normal_of_normalizePermissions hsorted
    (.wildcardDomain suffix) (wildcardSuffix_spec parseHost hsuffix hpattern)
    hpermissions
  exact ⟨suffix, hpattern, rfl, hnormal⟩

variable (parseHost) in
theorem fromWireIp_spec {address : IpAddr} (h : fromWireIp address permissions = .ok rule) :
    rule = ⟨.exactIp address, permissions⟩ ∧ rule.Normal parseHost := by
  simp only [fromWireIp, exactIp, ok_iff] at h
  obtain ⟨normalized, hpermissions, rfl⟩ := h
  obtain ⟨rfl, hnormal⟩ := normal_of_normalizePermissions hsorted
    (.exactIp address) (show Destination.Normal parseHost _ from trivial) hpermissions
  exact ⟨rfl, hnormal⟩

end Spec

end DestinationRule

end Volparossa.Policy
