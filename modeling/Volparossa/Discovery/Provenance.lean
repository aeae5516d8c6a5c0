import Volparossa.Core.Network
import Volparossa.Foundations.Machine
import Volparossa.Foundations.Table

/-!
# Connection provenance

A discovery service keeps a registry of its authenticated connections, which follows the events of
the swarm: a connection is established, its address changes, it is closed. The registry answers
questions about a connection that are asked later: a witness says that a connection had a direct
endpoint in a network, and it is bound when a response arrives only if the connection is still the
one that it was. Every change of address advances a generation of the connection, which makes the
witnesses from before it worthless; and an event that does not fit what the registry knows poisons
it, after which it answers nothing (`silent_of_poisoned`).
-/

namespace Volparossa.Discovery

open Volparossa.Core

/-! ## Endpoints -/

/-- The identity of an authenticated peer. -/
structure PeerId where
  bytes : Bytes
  deriving DecidableEq

/-- The number of a connection in its swarm. -/
abbrev ConnectionId := ℕ

/-- A part of an address; those that the registry does not look into are kept by their code. -/
inductive Multiaddr.Protocol where
  | ip4 (first second third fourth : UInt8)
  | ip6 (octets : FixedBytes 16)
  | tcp (port : UInt16)
  | udp (port : UInt16)
  | quicV1
  | p2p (peerId : PeerId)
  | other (code : ℕ) (data : Bytes)
  deriving DecidableEq

abbrev Multiaddr := List Multiaddr.Protocol

/-- An endpoint of a connection: whether the connection goes through a relay, and the address of the
remote side. -/
structure ConnectedPoint where
  isRelayed : Bool
  remoteAddress : Multiaddr
  deriving DecidableEq

inductive NativePrefixBytes where
  | ipv4 (first second third : UInt8)
  | ipv6 (octets : FixedBytes 6)
  | localIpv4 (first second third : UInt8)
  | localIpv6 (octets : FixedBytes 6)
  deriving DecidableEq

/-- The normalized prefix of octets of a scope. -/
def NativePrefixBytes.normalized : NativePrefixBytes → ObservedNetworkPrefix
  | .ipv4 first second third => .ipv4 first second third
  | .ipv6 octets => .ipv6 octets
  | .localIpv4 first second third => .localIpv4 first second third
  | .localIpv6 octets => .localIpv6 octets

/-- A prefix twice, normalized and as its octets. -/
structure NativeNetworkPrefix where
  normalized : ObservedNetworkPrefix
  bytes : NativePrefixBytes
  deriving DecidableEq

namespace NativeNetworkPrefix

/-- The prefix of octets, as the four constructors of the source make it. -/
def ofBytes (bytes : NativePrefixBytes) : NativeNetworkPrefix := ⟨bytes.normalized, bytes⟩

def isConsistent (network : NativeNetworkPrefix) : Bool :=
  network.normalized = network.bytes.normalized

def sameAs (network other : NativeNetworkPrefix) : Bool :=
  network.normalized = other.normalized && network.bytes = other.bytes

def forWitness (network : NativeNetworkPrefix) : NativeNetworkPrefix := ofBytes network.bytes

theorem sameAs_iff {network other : NativeNetworkPrefix} :
    network.sameAs other = true ↔ network = other := by
  cases network
  cases other
  simp [sameAs]

end NativeNetworkPrefix

def sameOptionalPrefix : Option NativeNetworkPrefix → Option NativeNetworkPrefix → Bool
  | some left, some right => left.sameAs right
  | none, none => true
  | some _, none | none, some _ => false

theorem sameOptionalPrefix_iff {left right : Option NativeNetworkPrefix} :
    sameOptionalPrefix left right = true ↔ left = right := by
  cases left <;> cases right <;> simp [sameOptionalPrefix, NativeNetworkPrefix.sameAs_iff]

/-- The octets of the network of an address, with its scope. -/
def networkBytes : Multiaddr.Protocol → Option NativePrefixBytes
  | .ip4 first second third fourth =>
    some (if isLocalLanIp (.v4 first second third fourth) then .localIpv4 first second third
      else .ipv4 first second third)
  | .ip6 octets =>
    (FixedBytes.ofBytes 6 (octets.toBytes.take 6)).map fun network =>
      if isLocalLanIp (.v6 octets) then .localIpv6 network else .ipv6 network
  | _ => none

/-- What follows the transport of an address. -/
def afterTransport : Multiaddr → Option Multiaddr
  | .tcp port :: rest => if port ≠ 0 then some rest else none
  | .udp port :: .quicV1 :: rest => if port ≠ 0 then some rest else none
  | _ => none

/-- Nothing follows, or the expected peer. -/
def endsWithPeer (expectedPeerId : PeerId) : Multiaddr → Bool
  | [] => true
  | [.p2p peerId] => peerId = expectedPeerId
  | _ => false

def directScopedMultiaddrPrefix (expectedPeerId : PeerId) (address : Multiaddr) :
    Option NativeNetworkPrefix := do
  let first ← address.head?
  let network := NativeNetworkPrefix.ofBytes (← networkBytes first)
  guard ((network.normalized.isPublicRoutable || network.normalized.isLocalLan) &&
    network.isConsistent)
  let rest ← afterTransport address.tail
  guard (endsWithPeer expectedPeerId rest)
  pure network

def directScopedPrefix (expectedPeerId : PeerId) (endpoint : ConnectedPoint) :
    Option NativeNetworkPrefix :=
  if endpoint.isRelayed then none
  else directScopedMultiaddrPrefix expectedPeerId endpoint.remoteAddress

theorem isRelayed_of_directScopedPrefix {peerId : PeerId} {endpoint : ConnectedPoint}
    {network : NativeNetworkPrefix} (h : directScopedPrefix peerId endpoint = some network) :
    endpoint.isRelayed = false := by
  unfold directScopedPrefix at h
  split at h
  · cases h
  · rename_i hrelayed
    simpa using hrelayed

/-! ## The registry -/

structure ConnectionRecord where
  connectionId : ConnectionId
  peerId : PeerId
  generation : ℕ
  scopedPrefix : Option NativeNetworkPrefix
  relayed : Bool
  deriving DecidableEq

/-- A proof that an authenticated connection had a network of a family. -/
structure ConnectionWitness where
  peerId : PeerId
  connectionId : ConnectionId
  generation : ℕ
  scopedPrefix : NativeNetworkPrefix
  deriving DecidableEq

/-- A witness that was bound to the current generation. -/
structure BoundConnectionObservation where
  peerId : PeerId
  connectionId : ConnectionId
  generation : ℕ
  scopedPrefix : NativeNetworkPrefix
  deriving DecidableEq

def maxEstablishedConnections : ℕ := 384

def maxEstablishedConnectionsPerPeer : ℕ := 4

structure ConnectionRegistry where
  records : Table ConnectionRecord.connectionId
  maxTotal : ℕ
  maxPerPeer : ℕ
  poisoned : Bool

/-- The next number of 64 bits, if there is one. -/
def nextGeneration (generation : ℕ) : Option ℕ :=
  if generation + 1 < 2 ^ 64 then some (generation + 1) else none

namespace ConnectionRegistry

def withLimits (maxTotal maxPerPeer : ℕ) : ConnectionRegistry :=
  ⟨.empty, maxTotal, maxPerPeer, false⟩

def poison (r : ConnectionRegistry) : ConnectionRegistry :=
  { r with records := .empty, poisoned := true }

def peerConnections (r : ConnectionRegistry) (peerId : PeerId) : ℕ :=
  r.records.count fun record => record.peerId = peerId

def established (r : ConnectionRegistry) (peerId : PeerId) (connectionId : ConnectionId)
    (endpoint : ConnectedPoint) (otherEstablished : ℕ) : ConnectionRegistry :=
  if r.poisoned then r
  else if r.records.lookup connectionId ≠ none ∨ otherEstablished ≠ r.peerConnections peerId ∨
      r.records.rows.length ≥ r.maxTotal ∨ r.peerConnections peerId ≥ r.maxPerPeer then r.poison
  else
    match r.records.insert ⟨connectionId, peerId, 1, directScopedPrefix peerId endpoint,
      endpoint.isRelayed⟩ with
    | some records => { r with records }
    | none => r.poison

def addressChanged (r : ConnectionRegistry) (peerId : PeerId) (connectionId : ConnectionId)
    (old new : ConnectedPoint) : ConnectionRegistry :=
  if r.poisoned then r
  else
    match r.records.lookup connectionId with
    | none => r.poison
    | some record =>
      if record.peerId ≠ peerId then r.poison
      else
        -- the generation advances before either address is parsed, also for the same prefix
        match nextGeneration record.generation with
        | none => r.poison
        | some generation =>
          if record.relayed ≠ old.isRelayed ∨
              sameOptionalPrefix record.scopedPrefix (directScopedPrefix peerId old) = false then
            r.poison
          else
            { r with records := r.records.modify connectionId (fun record =>
                { record with generation, scopedPrefix := directScopedPrefix peerId new,
                              relayed := new.isRelayed }) fun _ => rfl }

def closed (r : ConnectionRegistry) (peerId : PeerId) (connectionId : ConnectionId)
    (endpoint : ConnectedPoint) (remainingEstablished : ℕ) : ConnectionRegistry :=
  if r.poisoned then r
  else
    match r.records.lookup connectionId with
    | none => r.poison
    | some record =>
      if record.peerId ≠ peerId ∨ record.relayed ≠ endpoint.isRelayed ∨
          sameOptionalPrefix record.scopedPrefix (directScopedPrefix peerId endpoint) = false ∨
          r.peerConnections peerId = 0 ∨ r.peerConnections peerId - 1 ≠ remainingEstablished then
        r.poison
      else { r with records := r.records.erase connectionId }

def allowsIdentifyAddressImport (r : ConnectionRegistry) (peerId : PeerId)
    (connectionId : ConnectionId) : Bool :=
  !r.poisoned && (r.records.lookup connectionId).any fun record =>
    record.peerId = peerId && !record.relayed

/-- The witness of a record whose prefix has the family. -/
def witnessOf (record : ConnectionRecord) (family : IpFamily) : Option ConnectionWitness := do
  let network ← record.scopedPrefix
  guard (network.normalized.family = family && network.isConsistent)
  pure ⟨record.peerId, record.connectionId, record.generation, network.forWitness⟩

def uniqueWitness (r : ConnectionRegistry) (peerId : PeerId) (family : IpFamily) :
    Option ConnectionWitness :=
  if r.poisoned then none
  else
    match r.records.rows.filter fun record => record.peerId = peerId with
    | [record] => witnessOf record family
    | _ => none

def advisoryLocalPrefix (r : ConnectionRegistry) (peerId : PeerId) : Option ObservedNetworkPrefix :=
  if r.poisoned then none
  else
    match r.records.rows.filter fun record => record.peerId = peerId with
    | [] => none
    | record :: others => do
      guard (record.relayed = false)
      let network ← record.scopedPrefix
      guard (network.isConsistent && network.normalized.isLocalLan && others.all fun record =>
        !record.relayed && record.scopedPrefix.any fun other =>
          other.isConsistent && other.sameAs network)
      pure network.normalized

def exactWitness (r : ConnectionRegistry) (peerId : PeerId) (connectionId : ConnectionId)
    (family : IpFamily) : Option ConnectionWitness :=
  if r.poisoned then none
  else do
    let record ← r.records.lookup connectionId
    guard (record.peerId = peerId)
    witnessOf record family

def bind (r : ConnectionRegistry) (witness : ConnectionWitness) (expectedPeerId : PeerId)
    (expectedConnectionId : ConnectionId) : Option BoundConnectionObservation :=
  if r.poisoned ∨ witness.peerId ≠ expectedPeerId ∨
      witness.connectionId ≠ expectedConnectionId then none
  else do
    let record ← r.records.lookup expectedConnectionId
    let network ← record.scopedPrefix
    guard (record.peerId = expectedPeerId && record.generation = witness.generation &&
      network.sameAs witness.scopedPrefix && witness.scopedPrefix.isConsistent &&
      network.isConsistent)
    pure ⟨expectedPeerId, expectedConnectionId, witness.generation, witness.scopedPrefix⟩

end ConnectionRegistry

/-! ## The behaviour -/

inductive ContentControlConnectionState where
  | poisoned
  | missing
  | noDirect
  | unique
  | multiple
  deriving DecidableEq

/-- The connection that a native probe request arrived on. -/
structure NativeProbeConnection where
  ownerInstance : ℕ
  peerId : PeerId
  connectionId : ConnectionId
  generation : ℕ
  deriving DecidableEq

/-- A request for an exit permit arrived over a connection of the control relay. -/
structure BoundNativeProbeControlConnection where
  connection : NativeProbeConnection
  deriving DecidableEq

/-- A chain of authorizations arrived over a connection of the data relay. -/
structure BoundNativeProbeDataRelayConnection where
  connection : NativeProbeConnection
  deriving DecidableEq

/-- The registry of a service; the instance is the address that no other behaviour shares. -/
structure ConnectionProvenanceBehaviour where
  ownInstance : ℕ
  registry : ConnectionRegistry

/-- What happens to a behaviour: events of the swarm, and the service raises the number of
connections that it retains. -/
inductive Event where
  | established (peerId : PeerId) (connectionId : ConnectionId) (endpoint : ConnectedPoint)
    (otherEstablished : ℕ)
  | addressChange (peerId : PeerId) (connectionId : ConnectionId) (old new : ConnectedPoint)
  | closed (peerId : PeerId) (connectionId : ConnectionId) (endpoint : ConnectedPoint)
    (remainingEstablished : ℕ)
  | retainConnectionCapacity (capacity : ℕ)
  deriving DecidableEq

namespace ConnectionProvenanceBehaviour

def new (ownInstance : ℕ) : ConnectionProvenanceBehaviour :=
  ⟨ownInstance, .withLimits maxEstablishedConnections maxEstablishedConnectionsPerPeer⟩

def retainConnectionCapacity (b : ConnectionProvenanceBehaviour) (capacity : ℕ) :
    ConnectionProvenanceBehaviour :=
  { b with registry := { b.registry with maxTotal := max b.registry.maxTotal capacity } }

def onSwarmEvent (b : ConnectionProvenanceBehaviour) : Event → ConnectionProvenanceBehaviour
  | .established peerId connectionId endpoint otherEstablished =>
    { b with registry := b.registry.established peerId connectionId endpoint otherEstablished }
  | .addressChange peerId connectionId old new =>
    { b with registry := b.registry.addressChanged peerId connectionId old new }
  | .closed peerId connectionId endpoint remainingEstablished =>
    { b with registry := b.registry.closed peerId connectionId endpoint remainingEstablished }
  | .retainConnectionCapacity capacity => b.retainConnectionCapacity capacity

def contentControlState (b : ConnectionProvenanceBehaviour) (peerId : PeerId) :
    ContentControlConnectionState :=
  if b.registry.poisoned then .poisoned
  else
    let total := b.registry.peerConnections peerId
    let direct := b.registry.records.count fun record => record.peerId = peerId && !record.relayed
    if total = 0 then .missing
    else if direct = 0 then .noDirect
    else if total = 1 then .unique
    else .multiple

def bindNativeProbe (b : ConnectionProvenanceBehaviour) (peerId : PeerId)
    (connectionId : ConnectionId) : Option NativeProbeConnection :=
  if b.registry.poisoned then none
  else do
    let record ← b.registry.records.lookup connectionId
    guard (record.peerId = peerId)
    pure ⟨b.ownInstance, peerId, connectionId, record.generation⟩

def consumeBoundNativeProbe (b : ConnectionProvenanceBehaviour) (bound : NativeProbeConnection)
    (expectedPeerId : PeerId) : Bool :=
  if bound.ownerInstance ≠ b.ownInstance then false
  else if b.registry.poisoned ∨ bound.peerId ≠ expectedPeerId then false
  else (b.registry.records.lookup bound.connectionId).any fun record =>
    record.peerId = expectedPeerId && record.generation = bound.generation

def bindNativeProbeControl (b : ConnectionProvenanceBehaviour) (peerId : PeerId)
    (connectionId : ConnectionId) : Option BoundNativeProbeControlConnection :=
  (b.bindNativeProbe peerId connectionId).map .mk

def consumeBoundNativeProbeControl (b : ConnectionProvenanceBehaviour)
    (bound : BoundNativeProbeControlConnection) (expectedPeerId : PeerId) : Bool :=
  b.consumeBoundNativeProbe bound.connection expectedPeerId

def bindNativeProbeDataRelay (b : ConnectionProvenanceBehaviour) (peerId : PeerId)
    (connectionId : ConnectionId) : Option BoundNativeProbeDataRelayConnection :=
  (b.bindNativeProbe peerId connectionId).map .mk

def consumeBoundNativeProbeDataRelay (b : ConnectionProvenanceBehaviour)
    (bound : BoundNativeProbeDataRelayConnection) (expectedPeerId : PeerId) : Bool :=
  b.consumeBoundNativeProbe bound.connection expectedPeerId

/-- A behaviour takes one event after another. -/
def machine : Machine ConnectionProvenanceBehaviour Event Unit :=
  ⟨fun b event => ((), b.onSwarmEvent event)⟩

/-- The behaviour after the events since its start. -/
def after (ownInstance : ℕ) (events : List Event) : ConnectionProvenanceBehaviour :=
  machine.run (new ownInstance) events

/-- The behaviour hands the witness out, for the only connection of a peer or for an exact one. -/
def Issues (b : ConnectionProvenanceBehaviour) (witness : ConnectionWitness) : Prop :=
  ∃ peerId family, b.registry.uniqueWitness peerId family = some witness ∨
    ∃ connectionId, b.registry.exactWitness peerId connectionId family = some witness

/-- The behaviour issues nothing and accepts nothing. -/
structure Silent (b : ConnectionProvenanceBehaviour) : Prop where
  issues : ∀ witness, ¬b.Issues witness
  bind : ∀ witness peerId connectionId, b.registry.bind witness peerId connectionId = none
  control : ∀ peerId connectionId, b.bindNativeProbeControl peerId connectionId = none
  consumeControl : ∀ bound peerId, b.consumeBoundNativeProbeControl bound peerId = false
  dataRelay : ∀ peerId connectionId, b.bindNativeProbeDataRelay peerId connectionId = none
  consumeDataRelay : ∀ bound peerId, b.consumeBoundNativeProbeDataRelay bound peerId = false
  advisory : ∀ peerId, b.registry.advisoryLocalPrefix peerId = none
  identify : ∀ peerId connectionId,
    b.registry.allowsIdentifyAddressImport peerId connectionId = false
  state : ∀ peerId, b.contentControlState peerId = .poisoned

theorem silent_of_poisoned {b : ConnectionProvenanceBehaviour} (h : b.registry.poisoned = true) :
    Silent b where
  issues := by
    rintro witness ⟨peerId, family, hunique | ⟨connectionId, hexact⟩⟩
    · simp [ConnectionRegistry.uniqueWitness, h] at hunique
    · simp [ConnectionRegistry.exactWitness, h] at hexact
  bind _ _ _ := by simp [ConnectionRegistry.bind, h]
  control _ _ := by simp [bindNativeProbeControl, bindNativeProbe, h]
  consumeControl _ _ := by simp [consumeBoundNativeProbeControl, consumeBoundNativeProbe, h]
  dataRelay _ _ := by simp [bindNativeProbeDataRelay, bindNativeProbe, h]
  consumeDataRelay _ _ := by simp [consumeBoundNativeProbeDataRelay, consumeBoundNativeProbe, h]
  advisory _ := by simp [ConnectionRegistry.advisoryLocalPrefix, h]
  identify _ _ := by simp [ConnectionRegistry.allowsIdentifyAddressImport, h]
  state _ := by simp [contentControlState, h]

end ConnectionProvenanceBehaviour

end Volparossa.Discovery
