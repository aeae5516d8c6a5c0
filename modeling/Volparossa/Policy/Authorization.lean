import Volparossa.Policy.Manifest

/-!
# What a manifest authorizes

A verified manifest answers for a flow to a name, for the resolution of a name and for a flow to an
address. Names are compared by their normal form, a wildcard by its whole labels
(`wildcardMatches_iff_labels`); `domain_authorization` says which names it lets through.
-/

namespace Volparossa.Policy

open Volparossa.Core (IpAddr)

/-- A protocol and a port, unless the port is zero. -/
def ProtocolPort.new (protocol : TransportProtocol) (port : UInt16) :
    Except PolicyError ProtocolPort :=
  if h : 0 < port.toNat then .ok ⟨protocol, port.toNat, h, port.toNat_lt⟩
  else .error (.invalidPort port.toNat)

/-- What a flow goes to. -/
inductive RequestDestination where
  | domain (name : Bytes)
  | ip (address : IpAddr)
  deriving DecidableEq

structure NormalizedRequest where
  destination : RequestDestination
  permission : ProtocolPort
  deriving DecidableEq

/-- A name below a suffix, with at least one character before the dot. -/
def wildcardMatches (domain suffix : Bytes) : Bool :=
  let start := domain.take (domain.length - suffix.length)
  suffix <:+ domain ∧ start.getLast? = some 46 ∧ start.length > 1

namespace DestinationRule

def matchesDnsName (rule : DestinationRule) (normalized : Bytes) : Bool :=
  match rule.destination with
  | .exactDomain domain => domain = normalized
  | .wildcardDomain suffix => wildcardMatches normalized suffix
  | .exactIp _ => false

/-- The permissions of a rule increase, so a binary search finds those that it has. -/
def isAllowed (rule : DestinationRule) (request : NormalizedRequest) : Bool :=
  if request.permission ∉ rule.permissions then false
  else
    match rule.destination, request.destination with
    | .exactDomain name, .domain requested => name = requested
    | .wildcardDomain suffix, .domain requested => wildcardMatches requested suffix
    | .exactIp address, .ip requested => address = requested
    | .exactDomain _, .ip _ | .wildcardDomain _, .ip _ | .exactIp _, .domain _ => false

end DestinationRule

section Authorization

variable (parseHost : Bytes → Option Host)

def NormalizedRequest.ofDomain (domain : Bytes) (protocol : TransportProtocol) (port : UInt16) :
    Except PolicyError NormalizedRequest := do
  let name ← normalizeDomain parseHost domain
  let permission ← ProtocolPort.new protocol port
  pure ⟨.domain name, permission⟩

namespace VerifiedManifest

variable (m : VerifiedManifest) (nowMs : ℕ)

def authorizeNormalized (request : NormalizedRequest) : Except PolicyError Unit :=
  refuse (¬m.rules.any (·.isAllowed request)) .denied

/-- Authorize a flow to a name. -/
def authorizeDomain (domain : Bytes) (protocol : TransportProtocol) (port : UInt16) :
    Except PolicyError Unit := do
  m.ensureActiveAt nowMs
  let request ← NormalizedRequest.ofDomain parseHost domain protocol port
  m.authorizeNormalized request

/-- Authorize the resolution of a name that a rule covers. -/
def authorizeDnsName (domain : Bytes) : Except PolicyError Bytes := do
  m.ensureActiveAt nowMs
  let normalized ← normalizeDomain parseHost domain
  refuse (¬m.rules.any (·.matchesDnsName normalized)) .denied
  pure normalized

end VerifiedManifest

end Authorization

/-! ## Labels -/

theorem wildcardMatches_iff {domain suffix : Bytes} :
    wildcardMatches domain suffix = true ↔ ∃ start, start ≠ [] ∧
    domain = start ++ 46 :: suffix := by
  simp only [wildcardMatches, decide_eq_true_eq]
  constructor
  · rintro ⟨⟨whole, rfl⟩, hlast, hlength⟩
    rw [List.length_append, Nat.add_sub_cancel, List.take_left] at hlast hlength
    obtain ⟨start, rfl⟩ := List.getLast?_eq_some_iff.mp hlast
    refine ⟨start, ?_, by rw [List.append_assoc, List.singleton_append]⟩
    rintro rfl
    simp at hlength
  · rintro ⟨start, hstart, rfl⟩
    have hpos := List.length_pos_iff.mpr hstart
    rw [List.append_cons, List.length_append, Nat.add_sub_cancel, List.take_left]
    exact ⟨List.suffix_append _ _, List.getLast?_concat, by simpa using hpos⟩

theorem intercalate_append {start rest : List Bytes} (hstart : start ≠ []) (hrest : rest ≠ []) :
    [46].intercalate (start ++ rest) =
      ([46] : Bytes).intercalate start ++ 46 :: ([46] : Bytes).intercalate rest := by
  induction start with
  | nil => exact absurd rfl hstart
  | cons label labels ih =>
    rw [List.cons_append, List.intercalate_cons_of_ne_nil (by simp [hrest])]
    cases labels with
    | nil => simp
    | cons next labels => simp only [ih (by simp), List.intercalate_cons_cons, List.append_assoc]

/-- A wildcard matches a name that has one or more labels before those of the suffix. -/
theorem wildcardMatches_iff_labels {name suffix : Bytes} (hname : name.head? ≠ some 46) :
    wildcardMatches name suffix = true ↔
      ∃ labels, labels ≠ [] ∧ name.splitOn 46 = labels ++ suffix.splitOn 46 := by
  rw [wildcardMatches_iff]
  constructor
  · rintro ⟨start, -, rfl⟩
    exact ⟨_, List.splitOn_ne_nil 46 start, List.splitOn_append_cons_self start suffix⟩
  · rintro ⟨labels, hlabels, hsplit⟩
    have hjoin := congrArg ([46] : Bytes).intercalate hsplit
    rw [List.intercalate_splitOn, intercalate_append hlabels (List.splitOn_ne_nil _ _),
      List.intercalate_splitOn] at hjoin
    refine ⟨_, fun hnil => hname ?_, hjoin⟩
    rw [hjoin, hnil]
    rfl

section Domains

variable {parseHost : Bytes → Option Host}

theorem normalizeDomain_eq_ok {host name : Bytes} (h : normalizeDomain parseHost host = .ok name) :
    (∃ domain, parseHost host = some (.domain domain)) ∧ name.head? ≠ some 46 := by
  simp only [normalizeDomain, ok_iff] at h
  obtain ⟨-, -, -, -, h⟩ := h
  cases hparse : parseHost host with
  | none => simp [hparse] at h
  | some parsed =>
    cases parsed with
    | domain domain =>
      simp only [hparse, ok_bind, ok_iff] at h
      obtain ⟨-, hname, -, -, rfl⟩ := h
      exact ⟨⟨domain, rfl⟩, fun hhead => hname (.inr (.inr (.inl hhead)))⟩
    | _ => simp [hparse] at h

theorem ProtocolPort.new_eq_ok {protocol : TransportProtocol} {port : UInt16} {p : ProtocolPort} :
    ProtocolPort.new protocol port = .ok p ↔ p.protocol = protocol ∧ p.port = port.toNat := by
  rw [ProtocolPort.new]
  split
  · rw [Except.ok.injEq]
    refine ⟨fun h => h ▸ ⟨rfl, rfl⟩, fun hp => ?_⟩
    cases p
    obtain ⟨rfl, rfl⟩ := hp
    rfl
  · next h => exact ⟨(absurd · (by simp)), fun hp => absurd (hp.2 ▸ p.port_pos) h⟩

/-- A rule covers a name as a flow and as a query alike, whatever it permits. -/
theorem DestinationRule.isAllowed_domain {rule : DestinationRule} {name : Bytes}
    {p : ProtocolPort} :
    rule.isAllowed ⟨.domain name, p⟩ = true ↔ p ∈ rule.permissions ∧ rule.matchesDnsName name := by
  simp only [DestinationRule.isAllowed, DestinationRule.matchesDnsName]
  cases rule.destination <;> simp [and_comm]

theorem DestinationRule.matchesDnsName_iff {rule : DestinationRule} {name : Bytes}
    (hname : name.head? ≠ some 46) : rule.matchesDnsName name = true ↔
      rule.destination = .exactDomain name ∨ ∃ suffix labels, rule.destination =
        .wildcardDomain suffix ∧ labels ≠ [] ∧ name.splitOn 46 = labels ++ suffix.splitOn 46 := by
  rw [DestinationRule.matchesDnsName]
  cases rule.destination with
  | exactDomain domain => simp
  | wildcardDomain suffix => simp [wildcardMatches_iff_labels hname]
  | exactIp address => simp

/-- **Names are authorized label by label.** A flow to a name is authorized exactly when the
manifest is active and a rule permits its protocol and port whose name is the normalized one, or
whose wildcard suffix has one or more labels before it there. A wildcard matches neither its own
suffix, nor a name that continues it within a label, nor an address; and the name of an authorized
flow may be resolved. -/
theorem domain_authorization (m : VerifiedManifest) (nowMs : ℕ) (host : Bytes)
    (protocol : TransportProtocol) (port : UInt16) :
    (m.authorizeDomain parseHost nowMs host protocol port = .ok () ↔
      (m.validFromMs ≤ nowMs ∧ nowMs < m.expiresAtMs) ∧
      ∃ name, normalizeDomain parseHost host = .ok name ∧ ∃ rule ∈ m.rules,
        (∃ p ∈ rule.permissions, p.protocol = protocol ∧ p.port = port.toNat) ∧
        (rule.destination = .exactDomain name ∨ ∃ suffix labels, rule.destination =
          .wildcardDomain suffix ∧ labels ≠ [] ∧
          name.splitOn 46 = labels ++ suffix.splitOn 46)) ∧
    (∀ suffix, wildcardMatches suffix suffix = false) ∧
    (∀ start suffix : Bytes, start.getLast? ≠ some 46 →
      wildcardMatches (start ++ suffix) suffix = false) ∧
    (parseHost host = some .ipv4 ∨ parseHost host = some .ipv6 →
      m.authorizeDomain parseHost nowMs host protocol port ≠ .ok ()) ∧
    (∀ suffix permissions address p,
      DestinationRule.isAllowed ⟨.wildcardDomain suffix, permissions⟩ ⟨.ip address, p⟩ = false) ∧
    (m.authorizeDomain parseHost nowMs host protocol port = .ok () →
      ∃ name, m.authorizeDnsName parseHost nowMs host = .ok name) := by
  have hdomain : m.authorizeDomain parseHost nowMs host protocol port = .ok () ↔
      (m.validFromMs ≤ nowMs ∧ nowMs < m.expiresAtMs) ∧
      ∃ name, normalizeDomain parseHost host = .ok name ∧ ∃ rule ∈ m.rules,
        (∃ p ∈ rule.permissions, p.protocol = protocol ∧ p.port = port.toNat) ∧
        rule.matchesDnsName name = true := by
    simp only [VerifiedManifest.authorizeDomain, VerifiedManifest.ensureActiveAt,
      VerifiedManifest.authorizeNormalized, NormalizedRequest.ofDomain, ok_iff,
      ProtocolPort.new_eq_ok, not_not, List.any_eq_true]
    constructor
    · rintro ⟨-, ⟨-, hfrom, huntil⟩, _, ⟨name, hname, p, hp, rfl⟩, rule, hrule, hallowed⟩
      obtain ⟨hmem, hmatches⟩ := DestinationRule.isAllowed_domain.mp hallowed
      exact ⟨⟨by omega, by omega⟩, name, hname, rule, hrule, ⟨p, hmem, hp⟩, hmatches⟩
    · rintro ⟨⟨hfrom, huntil⟩, name, hname, rule, hrule, ⟨p, hmem, hp⟩, hmatches⟩
      exact ⟨(), ⟨(), by omega, by omega⟩, _, ⟨name, hname, p, hp, rfl⟩, rule, hrule,
        DestinationRule.isAllowed_domain.mpr ⟨hmem, hmatches⟩⟩
  refine ⟨hdomain.trans ?_, fun suffix => ?_, fun start suffix hstart => ?_, fun hip h => ?_,
    fun suffix permissions address p => ?_, fun h => ?_⟩
  · refine and_congr_right fun _ => exists_congr fun name => and_congr_right fun hname => ?_
    simp only [DestinationRule.matchesDnsName_iff (normalizeDomain_eq_ok hname).2]
  · rw [Bool.eq_false_iff, ne_eq, wildcardMatches_iff]
    rintro ⟨start, -, hsuffix⟩
    have hlength := congrArg List.length hsuffix
    rw [List.length_append, List.length_cons] at hlength
    omega
  · rw [Bool.eq_false_iff, ne_eq, wildcardMatches_iff]
    rintro ⟨whole, -, hsuffix⟩
    rw [List.append_cons] at hsuffix
    rw [List.append_cancel_right hsuffix, List.getLast?_concat] at hstart
    exact hstart rfl
  · obtain ⟨-, name, hname, -⟩ := hdomain.mp h
    obtain ⟨⟨domain, hparse⟩, -⟩ := normalizeDomain_eq_ok hname
    simp [hparse] at hip
  · simp [DestinationRule.isAllowed]
  · obtain ⟨⟨hfrom, huntil⟩, name, hname, rule, hrule, -, hmatches⟩ := hdomain.mp h
    refine ⟨name, ?_⟩
    simp only [VerifiedManifest.authorizeDnsName, VerifiedManifest.ensureActiveAt, ok_iff, not_not,
      List.any_eq_true]
    exact ⟨(), ⟨(), by omega, by omega⟩, name, hname, (), ⟨rule, hrule, hmatches⟩, rfl⟩

/-- A name below a wildcard, one label deeper. -/
theorem domain_authorization_below :
    ∃ name, (⟨1, 1, 0, 0, 10, 1, 1, .zero 32,
      [⟨.wildcardDomain [98, 46, 99], [⟨.tcp, 443, by decide, by decide⟩]⟩]⟩ :
        VerifiedManifest).authorizeDnsName (some ∘ .domain) 5 [97, 46, 98, 46, 99] = .ok name :=
  (domain_authorization _ 5 _ .tcp 443).2.2.2.2.2 (by decide)

end Domains

end Volparossa.Policy
