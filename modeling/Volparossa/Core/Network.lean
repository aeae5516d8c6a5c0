import Volparossa.Foundations.FixedBytes

/-!
# Addresses of the underlay

Which addresses count as ordinary, publicly routable unicast, and which as possible direct local
endpoints; and the network prefixes to which an observed address is cut down.
-/

namespace Volparossa.Core

/-- An address of either family, by its octets. -/
inductive IpAddr where
  | v4 (first second third fourth : UInt8)
  | v6 (octets : FixedBytes 16)
  deriving DecidableEq

/-- The address that four or sixteen bytes are. -/
def parseIpBytes (b : Bytes) : Option IpAddr :=
  match b with
  | [first, second, third, fourth] => some (.v4 first second third fourth)
  | _ => (FixedBytes.ofBytes 16 b).map .v6

/-- The octets of an address. -/
def IpAddr.toBytes : IpAddr → Bytes
  | .v4 first second third fourth => [first, second, third, fourth]
  | .v6 octets => octets.toBytes

theorem toBytes_of_parseIpBytes {b : Bytes} {address : IpAddr} (h : parseIpBytes b = some address) :
    address.toBytes = b := by
  unfold parseIpBytes at h
  split at h
  · cases h
    rfl
  · obtain ⟨octets, hoctets, rfl⟩ := Option.map_eq_some_iff.mp h
    exact (FixedBytes.ofBytes_eq_some.mp hoctets).symm

/-- Outside every special-purpose block of the IPv4 registry. -/
def isPublicRoutableIpv4 (first second third : UInt8) : Bool :=
  !(first == 0 || first == 10 || first == 127 || (first == 100 && 64 ≤ second && second ≤ 127) ||
    (first == 169 && second == 254) || (first == 172 && 16 ≤ second && second ≤ 31) ||
    (first == 192 && second == 0 && third == 0) || (first == 192 && second == 0 && third == 2) ||
    (first == 192 && second == 31 && third == 196) ||
    (first == 192 && second == 52 && third == 193) ||
    (first == 192 && second == 88 && third == 99) || (first == 192 && second == 168) ||
    (first == 192 && second == 175 && third == 48) ||
    (first == 198 && (second == 18 || second == 19)) ||
    (first == 198 && second == 51 && third == 100) ||
    (first == 203 && second == 0 && third == 113) || 224 ≤ first)

/-- Ordinary global unicast without its special-purpose blocks; the argument is the first six
octets. -/
def isPublicRoutableIpv6 (octets : Bytes) : Bool :=
  match octets with
  | o0 :: o1 :: o2 :: o3 :: o4 :: o5 :: _ =>
    o0 &&& 0xe0 == 0x20 && !(o0 == 0x20 && o1 == 0x01 && o2 &&& 0xfe == 0) &&
      !(o0 == 0x20 && o1 == 0x01 && o2 == 0x0d && o3 == 0xb8) && !(o0 == 0x20 && o1 == 0x02) &&
      !(o0 == 0x3f && o1 == 0xff && o2 &&& 0xf0 == 0) &&
      !(o0 == 0x26 && o1 == 0x20 && o2 == 0x00 && o3 == 0x4f && o4 == 0x80 && o5 == 0x00)
  | _ => false

/-- Ordinary, publicly routable unicast. -/
def isPublicRoutableIp : IpAddr → Bool
  | .v4 first second third _ => isPublicRoutableIpv4 first second third
  | .v6 octets => isPublicRoutableIpv6 octets.toBytes

/-- Private IPv4 and unique-local IPv6 addresses. -/
def isLocalLanIp : IpAddr → Bool
  | .v4 first second _ _ =>
    first == 10 || (first == 172 && 16 ≤ second && second ≤ 31) || (first == 192 && second == 168)
  | .v6 octets => octets.toBytes.headD 0 &&& 0xfe == 0xfc

/-! ## Observed prefixes -/

/-- The family of an address. -/
inductive IpFamily where
  | ipv4
  | ipv6
  deriving DecidableEq

/-- A network prefix of an observed address, a /24 or a /48, of the Internet or of a local
network. -/
inductive ObservedNetworkPrefix where
  | ipv4 (first second third : UInt8)
  | ipv6 (octets : FixedBytes 6)
  | localIpv4 (first second third : UInt8)
  | localIpv6 (octets : FixedBytes 6)
  deriving DecidableEq

namespace ObservedNetworkPrefix

def family : ObservedNetworkPrefix → IpFamily
  | .ipv4 .. | .localIpv4 .. => .ipv4
  | .ipv6 _ | .localIpv6 _ => .ipv6

def isPublicRoutable : ObservedNetworkPrefix → Bool
  | .ipv4 first second third => isPublicRoutableIpv4 first second third
  | .ipv6 octets => isPublicRoutableIpv6 octets.toBytes
  | .localIpv4 .. | .localIpv6 _ => false

/-- A prefix of local scope that is one of a private network. -/
def isLocalLan : ObservedNetworkPrefix → Bool
  | .localIpv4 first second _ =>
    first == 10 || (first == 172 && 16 ≤ second && second ≤ 31) || (first == 192 && second == 168)
  | .localIpv6 octets => octets.toBytes.headD 0 &&& 0xfe == 0xfc
  | .ipv4 .. | .ipv6 _ => false

end ObservedNetworkPrefix

end Volparossa.Core
