import Volparossa.Core.Network
import Volparossa.Foundations.Fallible

/-!
# Helper-prepared endpoint leases

A privileged helper prepares the WireGuard endpoints of a route. What leaves it is public: the key,
the address and the port of an endpoint, and two opaque handles, one for the route context and one
for the lease. A lease is bound to one route context and one path, and its handles differ: that is
part of the type, so that a lease that breaks it cannot be built.
-/

namespace Volparossa.Wireguard

open Volparossa.Core (IpAddr isPublicRoutableIp isLocalLanIp)

/-- Maximum relay paths in one route context. -/
def maxPaths : ℕ := 8

inductive WireGuardError where
  | invalidTopology
  | invalidUnderlayAddress
  | invalidListenPort
  | invalidHelperHandle
  | invalidHelperBinding
  | duplicateHelperHandle
  deriving DecidableEq, Repr

/-- Public WireGuard key safe for route-specific reservations. -/
abbrev WireGuardPublicKey := FixedBytes 32

/-- Route-specific UDP endpoint safe for an explicitly scoped signed control message. -/
structure PublicWireGuardEndpoint where
  publicKey : WireGuardPublicKey
  underlayIp : IpAddr
  listenPort : UInt16
  deriving DecidableEq

namespace PublicWireGuardEndpoint

/-- An endpoint whose address is of the kind that `allowed` says. -/
def build (allowed : IpAddr → Bool) (publicKey : WireGuardPublicKey) (underlayIp : IpAddr)
    (listenPort : UInt16) : Except WireGuardError PublicWireGuardEndpoint := do
  refuse (publicKey = .zero 32) .invalidTopology
  refuse (allowed underlayIp = false) .invalidUnderlayAddress
  refuse (listenPort = 0) .invalidListenPort
  pure ⟨publicKey, underlayIp, listenPort⟩

/-- Bind a key to one publicly routable socket. -/
def new := build isPublicRoutableIp

/-- Bind a key to one socket of the local network. -/
def newDirectLocalLan := build isLocalLanIp

def isLocalLan (endpoint : PublicWireGuardEndpoint) : Bool := isLocalLanIp endpoint.underlayIp

end PublicWireGuardEndpoint

/-- An opaque helper capability: 32 bytes that are not zero. -/
abbrev HelperHandle := { bytes : FixedBytes 32 // bytes ≠ .zero 32 }

/-- A fixed-width, non-zero helper capability. -/
def HelperHandle.fromBytes (bytes : FixedBytes 32) : Except WireGuardError HelperHandle :=
  if h : bytes = .zero 32 then .error .invalidHelperHandle else .ok ⟨bytes, h⟩

/-- What a lease is bound to: a route context that is not zero, a path of it, and two handles that
differ. -/
def LeaseBinding (routeContextId : FixedBytes 16) (contextHandle leaseHandle : HelperHandle)
    (pathId : ℕ) : Prop :=
  (routeContextId ≠ .zero 16 ∧ 1 ≤ pathId ∧ pathId ≤ maxPaths) ∧ contextHandle ≠ leaseHandle

instance (routeContextId : FixedBytes 16) (contextHandle leaseHandle : HelperHandle) (pathId : ℕ) :
    Decidable (LeaseBinding routeContextId contextHandle leaseHandle pathId) :=
  inferInstanceAs (Decidable (_ ∧ _))

/-- Helper-prepared client endpoint containing public data and opaque capabilities only. -/
structure ClientEndpointLease where
  routeContextId : FixedBytes 16
  contextHandle : HelperHandle
  leaseHandle : HelperHandle
  pathId : ℕ
  publicEndpoint : PublicWireGuardEndpoint
  bound : LeaseBinding routeContextId contextHandle leaseHandle pathId
  deriving DecidableEq

/-- The side of a link that an endpoint is on. -/
inductive EndpointRole where
  | client
  | relayClient
  | relayExit
  | exit
  deriving DecidableEq, Repr

/-- Bind a helper response to the exact client route and path. -/
def ClientEndpointLease.new (routeContextId : FixedBytes 16)
    (contextHandle leaseHandle : HelperHandle) (pathId : ℕ) (role : EndpointRole)
    (publicEndpoint : PublicWireGuardEndpoint) : Except WireGuardError ClientEndpointLease :=
  if h : LeaseBinding routeContextId contextHandle leaseHandle pathId ∧ role = .client then
    .ok ⟨routeContextId, contextHandle, leaseHandle, pathId, publicEndpoint, h.1⟩
  else if (routeContextId ≠ .zero 16 ∧ 1 ≤ pathId ∧ pathId ≤ maxPaths) ∧ role = .client then
    .error .duplicateHelperHandle
  else .error .invalidHelperBinding

end Volparossa.Wireguard
