import Volparossa.Discovery.Provenance

/-!
# The registry and the open connections

The registry of connections is compared with the open connections themselves, `Network`, which are
what the events say and nothing else. `Tracks` relates the two, `Tracks.next` is the step of the
simulation, and `tracks_or_poisoned` the run. An endpoint is known to the registry only through its
scoped prefix and whether it is relayed, so that it cannot tell two endpoints apart that agree in
these (`SameView`); and an identifier that comes back after its connection was closed looks like a
fresh one.
-/

namespace Volparossa.Discovery

open Volparossa.Core ConnectionRegistry Table

/-! ## The open connections -/

/-- An open connection: its peer, its current endpoint, and how often its address changed. -/
structure Connection where
  connectionId : ConnectionId
  peerId : PeerId
  endpoint : ConnectedPoint
  changes : ℕ

/-- The connections that are open, and the number of them that the service retains. -/
structure Network where
  connections : Table Connection.connectionId
  capacity : ℕ

/-- The registry cannot tell the endpoints apart. -/
def SameView (peerId : PeerId) (endpoint endpoint' : ConnectedPoint) : Prop :=
  endpoint.isRelayed = endpoint'.isRelayed ∧
    directScopedPrefix peerId endpoint = directScopedPrefix peerId endpoint'

namespace Network

def initial : Network := ⟨.empty, maxEstablishedConnections⟩

/-- What an event says about the open connections. -/
def next (n : Network) : Event → Network
  | .established peerId connectionId endpoint _ =>
    { n with connections := n.connections.put ⟨connectionId, peerId, endpoint, 0⟩ }
  | .addressChange _ connectionId _ new =>
    { n with connections := n.connections.modify connectionId (fun connection =>
        { connection with endpoint := new, changes := connection.changes + 1 }) fun _ => rfl }
  | .closed _ connectionId _ _ => { n with connections := n.connections.erase connectionId }
  | .retainConnectionCapacity capacity => { n with capacity := max n.capacity capacity }

/-- The open connections after events. -/
def after (events : List Event) : Network := events.foldl next initial

def peerConnections (n : Network) (peerId : PeerId) : ℕ :=
  n.connections.count fun connection => connection.peerId = peerId

/-- The event fits the open connections: an established one is not open yet, another one is open
and belongs to the peer, the number of the peer's other connections is right, and the endpoint that
the event says the connection had agrees with the one that it has. -/
def Fits (agree : PeerId → ConnectedPoint → ConnectedPoint → Prop) (n : Network) : Event → Prop
  | .established peerId connectionId _ otherEstablished =>
    n.connections.lookup connectionId = none ∧ otherEstablished = n.peerConnections peerId
  | .addressChange peerId connectionId old _ =>
    ∃ connection, n.connections.lookup connectionId = some connection ∧
      connection.peerId = peerId ∧ agree peerId connection.endpoint old
  | .closed peerId connectionId endpoint remainingEstablished =>
    ∃ connection, n.connections.lookup connectionId = some connection ∧
      connection.peerId = peerId ∧ agree peerId connection.endpoint endpoint ∧
      n.peerConnections peerId = remainingEstablished + 1
  | .retainConnectionCapacity _ => True

/-- The event is consistent with the open connections. -/
def Consistent (n : Network) (event : Event) : Prop := n.Fits (fun _ => Eq) event

/-- The event is consistent as far as the registry can see. -/
def Plausible (n : Network) (event : Event) : Prop := n.Fits SameView event

/-- The event does not exceed the number of connections, those of one peer, or the number of changes
of one connection, which are counted with 64 bits. -/
def WithinLimits (n : Network) : Event → Prop
  | .established peerId _ _ _ =>
    n.connections.rows.length < n.capacity ∧
      n.peerConnections peerId < maxEstablishedConnectionsPerPeer
  | .addressChange _ connectionId _ _ =>
    ∀ connection, n.connections.lookup connectionId = some connection →
      connection.changes + 2 < 2 ^ 64
  | .closed .. | .retainConnectionCapacity _ => True

theorem plausible_of_consistent {n : Network} {event : Event} (h : n.Consistent event) :
    n.Plausible event := by
  cases event with
  | established | retainConnectionCapacity => exact h
  | addressChange =>
    obtain ⟨connection, hlookup, hpeer, rfl⟩ := h
    exact ⟨connection, hlookup, hpeer, rfl, rfl⟩
  | closed =>
    obtain ⟨connection, hlookup, hpeer, rfl, hcount⟩ := h
    exact ⟨connection, hlookup, hpeer, ⟨rfl, rfl⟩, hcount⟩

theorem after_append (events : List Event) (event : Event) :
    after (events ++ [event]) = (after events).next event := by
  simp [after]

end Network

/-! ## The registry follows the open connections -/

/-- The record of an open connection. -/
def Connection.record (connection : Connection) : ConnectionRecord where
  connectionId := connection.connectionId
  peerId := connection.peerId
  generation := connection.changes + 1
  scopedPrefix := directScopedPrefix connection.peerId connection.endpoint
  relayed := connection.endpoint.isRelayed

/-- The records are those of the open connections. -/
structure Tracks (n : Network) (r : ConnectionRegistry) : Prop where
  poisoned : r.poisoned = false
  rows : r.records.rows = n.connections.rows.map Connection.record
  maxTotal : r.maxTotal = n.capacity
  maxPerPeer : r.maxPerPeer = maxEstablishedConnectionsPerPeer

namespace Tracks

variable {n : Network} {r : ConnectionRegistry}

theorem lookup (h : Tracks n r) (connectionId : ConnectionId) :
    r.records.lookup connectionId =
      (n.connections.lookup connectionId).map Connection.record := by
  rw [Table.lookup, h.rows, List.find?_map, Table.lookup]
  rfl

theorem peerConnections (h : Tracks n r) (peerId : PeerId) :
    r.peerConnections peerId = n.peerConnections peerId := by
  rw [ConnectionRegistry.peerConnections, count, h.rows, List.countP_map]
  rfl

theorem length (h : Tracks n r) : r.records.rows.length = n.connections.rows.length := by
  rw [h.rows, List.length_map]

end Tracks

/-- The event fits the open connections as far as the registry can see, within the limits. -/
def Network.Accepts (n : Network) (event : Event) : Prop := n.Plausible event ∧ n.WithinLimits event

/-- An event leads to the records of the open connections if it is accepted, and to a poisoned
registry otherwise. -/
def Follows (n : Network) (event : Event) (r : ConnectionRegistry) : Prop :=
  (n.Accepts event → Tracks (n.next event) r) ∧ (¬n.Accepts event → r.poisoned = true)

section Follows

variable {n : Network} {r : ConnectionRegistry} {event : Event}

theorem Follows.poison (h : ¬n.Accepts event) : Follows n event r.poison :=
  ⟨fun haccepts => absurd haccepts h, fun _ => rfl⟩

theorem Follows.ite {p : Prop} [Decidable p] {r' : ConnectionRegistry} (hp : p ↔ ¬n.Accepts event)
    (h : n.Accepts event → Tracks (n.next event) r') :
    Follows n event (if p then r.poison else r') := by
  split
  · next hpoison => exact .poison (hp.mp hpoison)
  · next hkept => exact ⟨h, fun hnot => absurd (hp.mpr hnot) hkept⟩

namespace Tracks

section

variable {peerId : PeerId} {connectionId : ConnectionId}

theorem established {endpoint : ConnectedPoint} {otherEstablished : ℕ} (h : Tracks n r) :
    Follows n (.established peerId connectionId endpoint otherEstablished)
      (r.established peerId connectionId endpoint otherEstablished) := by
  rw [ConnectionRegistry.established, if_neg (by simp [h.poisoned])]
  refine .ite ?_ fun hfits => ?_
  · rw [h.lookup, h.peerConnections, h.length, h.maxTotal, h.maxPerPeer]
    simp only [Network.Accepts, Network.Plausible, Network.Fits, Network.WithinLimits, ne_eq,
      Option.map_eq_none_iff, not_and_or, ge_iff_le, not_lt]
    tauto
  · have hfresh : r.records.lookup connectionId = none := by
      rw [h.lookup, hfits.1.1]
      rfl
    obtain ⟨records, hinsert, hrows⟩ := exists_insert (t := r.records)
      (r := ⟨connectionId, peerId, 1, directScopedPrefix peerId endpoint, endpoint.isRelayed⟩)
        hfresh
    rw [hinsert]
    refine ⟨h.poisoned, ?_, h.maxTotal, h.maxPerPeer⟩
    dsimp only [Network.next]
    rw [hrows, h.rows, rows_put hfits.1.1, List.map_append]
    rfl

theorem addressChange {old new : ConnectedPoint} (h : Tracks n r) :
    Follows n (.addressChange peerId connectionId old new)
      (r.addressChanged peerId connectionId old new) := by
  rw [addressChanged, if_neg (by simp [h.poisoned]), h.lookup]
  cases hlookup : n.connections.lookup connectionId with
  | none => exact .poison fun ⟨⟨_, hsome, _⟩, _⟩ => nomatch hlookup.symm.trans hsome
  | some connection =>
    have haccepts : n.Accepts (.addressChange peerId connectionId old new) ↔
        (connection.peerId = peerId ∧ SameView peerId connection.endpoint old) ∧
          connection.changes + 2 < 2 ^ 64 := by
      simp [Network.Accepts, Network.Plausible, Network.Fits, Network.WithinLimits, hlookup]
    dsimp only [Option.map_some, Connection.record]
    by_cases hpeer : connection.peerId = peerId
    swap
    · rw [if_pos hpeer]
      exact .poison fun hfits => hpeer (haccepts.mp hfits).1.1
    subst hpeer
    rw [if_neg (not_not.mpr rfl), nextGeneration]
    by_cases hchanges : connection.changes + 1 + 1 < 2 ^ 64
    swap
    · rw [if_neg hchanges]
      exact .poison fun hfits => hchanges (haccepts.mp hfits).2
    rw [if_pos hchanges]
    refine .ite ?_ fun hfits => ?_
    · rw [haccepts, ← Bool.not_eq_true, sameOptionalPrefix_iff, ← not_and_or, ← SameView]
      exact not_congr ⟨fun hsame => ⟨⟨rfl, hsame⟩, hchanges⟩, fun hfits => hfits.1.2⟩
    · refine ⟨h.poisoned, ?_, h.maxTotal, h.maxPerPeer⟩
      rw [Network.next, rows_modify, rows_modify, h.rows, List.map_map, List.map_map]
      refine List.map_congr_left fun c hc => ?_
      by_cases hid : c.connectionId = connectionId
      · have heq : c = connection := n.connections.eq_of_key_eq hc (mem_of_lookup hlookup)
          (hid.trans (key_of_lookup hlookup).symm)
        subst heq
        simp [Connection.record, hid]
      · simp [Connection.record, hid]

theorem closed {endpoint : ConnectedPoint} {remainingEstablished : ℕ} (h : Tracks n r) :
    Follows n (.closed peerId connectionId endpoint remainingEstablished)
      (r.closed peerId connectionId endpoint remainingEstablished) := by
  rw [ConnectionRegistry.closed, if_neg (by simp [h.poisoned]), h.lookup]
  cases hlookup : n.connections.lookup connectionId with
  | none => exact .poison fun ⟨⟨_, hsome, _⟩, _⟩ => nomatch hlookup.symm.trans hsome
  | some connection =>
    refine .ite ?_ fun hfits => ?_
    · have hcount : n.peerConnections peerId = remainingEstablished + 1 ↔
          ¬(n.peerConnections peerId = 0 ∨ n.peerConnections peerId - 1 ≠
            remainingEstablished) := by
        omega
      simp only [Connection.record, Network.Accepts, Network.WithinLimits, and_true,
        Network.Plausible, Network.Fits, hlookup, Option.some.injEq, exists_eq_left', SameView,
        hcount, h.peerConnections, ← Bool.not_eq_true, sameOptionalPrefix_iff]
      by_cases hpeer : connection.peerId = peerId
      · subst hpeer
        tauto
      · tauto
    · refine ⟨h.poisoned, ?_, h.maxTotal, h.maxPerPeer⟩
      simp only [Network.next, erase, h.rows, List.filter_map]
      rfl

end

/-- **A step of the simulation.** -/
theorem next {b : ConnectionProvenanceBehaviour} (h : Tracks n b.registry) (event : Event) :
    Follows n event (b.onSwarmEvent event).registry := by
  cases event with
  | established => exact h.established
  | addressChange => exact h.addressChange
  | closed => exact h.closed
  | retainConnectionCapacity =>
    refine ⟨fun _ => ⟨h.poisoned, h.rows, ?_, h.maxPerPeer⟩, fun hfits =>
      absurd ⟨trivial, trivial⟩ hfits⟩
    exact congrArg (max · _) h.maxTotal

end Tracks

end Follows

namespace ConnectionProvenanceBehaviour

/-- A poisoned registry stays poisoned. -/
theorem poisoned_onSwarmEvent {b : ConnectionProvenanceBehaviour} (h : b.registry.poisoned = true)
    (event : Event) : (b.onSwarmEvent event).registry.poisoned = true := by
  cases event <;> simp [onSwarmEvent, established,
    addressChanged, closed, retainConnectionCapacity, h]

theorem after_append (ownInstance : ℕ) (events later : List Event) :
    after ownInstance (events ++ later) = machine.run (after ownInstance events) later :=
  machine.run_append _ events later

end ConnectionProvenanceBehaviour

/-- Every event of a sequence satisfies a condition on the connections that are open when it
happens. -/
def Throughout (P : Network → Event → Prop) (events : List Event) : Prop :=
  ∀ before event later, events = before ++ event :: later → P (Network.after before) event

namespace Throughout

variable {P : Network → Event → Prop} {events : List Event}

theorem mono {Q : Network → Event → Prop} (hPQ : ∀ n event, P n event → Q n event)
    (h : Throughout P events) : Throughout Q events :=
  fun before event later heq => hPQ _ _ (h before event later heq)

theorem nil : Throughout P [] := by
  intro before event later heq
  simp at heq

theorem of_append {later : List Event} (h : Throughout P (events ++ later)) :
    Throughout P events :=
  fun before event rest heq => h before event (rest ++ later) (by simp [heq])

theorem append_singleton {event : Event} :
    Throughout P (events ++ [event]) ↔ Throughout P events ∧ P (Network.after events) event := by
  refine ⟨fun h => ⟨h.of_append, h events event [] rfl⟩, fun ⟨h, hevent⟩ before e later heq => ?_⟩
  rcases List.eq_nil_or_concat later with rfl | ⟨later, last, rfl⟩
  · obtain ⟨rfl, hlast⟩ := List.append_inj' heq rfl
    obtain rfl : event = e := by simpa using hlast
    exact hevent
  · rw [List.concat_eq_append, ← List.cons_append, ← List.append_assoc] at heq
    exact h before e later (List.append_inj' heq rfl).1

end Throughout

namespace ConnectionProvenanceBehaviour

variable {ownInstance : ℕ} {events later : List Event}

/-- **A run of the simulation**: the records are those of the open connections as long as every
event is accepted, and the registry is poisoned from the first event on that is not. -/
theorem tracks_or_poisoned (ownInstance : ℕ) (events : List Event) :
    (Throughout Network.Accepts events →
      Tracks (Network.after events) (after ownInstance events).registry) ∧
    (¬Throughout Network.Accepts events →
      (after ownInstance events).registry.poisoned = true) := by
  induction events using List.reverseRecOn with
  | nil =>
    exact ⟨fun _ => ⟨rfl, rfl, rfl, rfl⟩, fun h => absurd Throughout.nil h⟩
  | append_singleton events event ih =>
    obtain ⟨htracks, hpoisoned⟩ := ih
    rw [after_append, Network.after_append, Throughout.append_singleton]
    by_cases h : Throughout Network.Accepts events
    · have hnext := (htracks h).next event
      exact ⟨fun ⟨_, hevent⟩ => hnext.1 hevent, fun hnot => hnext.2 fun hevent => hnot ⟨h, hevent⟩⟩
    · exact ⟨fun ⟨hall, _⟩ => absurd hall h, fun _ => poisoned_onSwarmEvent (hpoisoned h) event⟩

theorem throughout_of_not_poisoned (h : (after ownInstance events).registry.poisoned = false) :
    Throughout Network.Accepts events := by
  by_contra hnot
  rw [(tracks_or_poisoned ownInstance events).2 hnot] at h
  cases h

end ConnectionProvenanceBehaviour

/-! ## Witnesses -/

namespace Event

/-- The event changes the address of the connection or closes it. -/
def touches (connectionId : ConnectionId) : Event → Bool
  | .addressChange _ connectionId' _ _ | .closed _ connectionId' _ _ => connectionId' = connectionId
  | .established .. | .retainConnectionCapacity _ => false

def closedId : Event → Option ConnectionId
  | .closed _ connectionId _ _ => some connectionId
  | _ => none

def establishedId : Event → Option ConnectionId
  | .established _ connectionId _ _ => some connectionId
  | _ => none

end Event

/-- No connection is established with the identifier of one that was closed before. -/
def NeverReused (events : List Event) : Prop :=
  events.Pairwise fun event event' => ∀ connectionId ∈ event.closedId,
    event'.establishedId ≠ some connectionId

instance (events : List Event) : Decidable (NeverReused events) :=
  inferInstanceAs (Decidable (events.Pairwise _))

namespace Network

/-- An identifier that is not established is not open later either. -/
theorem lookup_foldl_eq_none {n : Network} {connectionId : ConnectionId} {later : List Event}
    (h : n.connections.lookup connectionId = none)
    (hlater : ∀ event ∈ later, event.establishedId ≠ some connectionId) :
    (later.foldl next n).connections.lookup connectionId = none := by
  induction later generalizing n with
  | nil => exact h
  | cons event later ih =>
    refine ih ?_ fun e he => hlater e (List.mem_cons_of_mem _ he)
    cases event with
    | established peerId connectionId' endpoint others =>
      have hne : connectionId ≠ connectionId' := fun heq =>
        hlater _ List.mem_cons_self (by rw [Event.establishedId, heq])
      simp [next, lookup_put, hne, h]
    | addressChange => simp [next, lookup_modify, h]
    | closed => simp [next, lookup_erase, h]
    | retainConnectionCapacity => exact h

/-- **A connection that is open all along** has changed its address as often as events say: if it
has as many changes as before, no event was about it. -/
theorem not_touches_of_changes_eq {events later : List Event} {connectionId : ConnectionId}
    {c c' : Connection} (hall : Throughout Accepts (events ++ later)) (hreused : NeverReused later)
    (h : (after events).connections.lookup connectionId = some c)
    (h' : (after (events ++ later)).connections.lookup connectionId = some c') :
    c.changes ≤ c'.changes ∧
      (c'.changes = c.changes → ∀ event ∈ later, event.touches connectionId = false) := by
  induction later generalizing events c with
  | nil =>
    rw [List.append_nil, h, Option.some.injEq] at h'
    subst h'
    exact ⟨le_rfl, by simp⟩
  | cons event later ih =>
    rw [List.append_cons] at hall h'
    obtain ⟨haccepts, -⟩ := (Throughout.append_singleton.mp hall.of_append).2
    have hnext := after_append events event
    obtain ⟨hfirst, hrest⟩ := List.pairwise_cons.mp hreused
    have hopen : ∀ d : Connection,
        ((after events).next event).connections.lookup connectionId = some d →
        d.changes ≤ c'.changes ∧ (c'.changes = d.changes →
          ∀ event ∈ later, event.touches connectionId = false) :=
      fun d hd => ih hall hrest (hnext ▸ hd) h'
    have hskip (htouches : event.touches connectionId = false)
        (hc : ((after events).next event).connections.lookup connectionId = some c) :
        c.changes ≤ c'.changes ∧ (c'.changes = c.changes →
          ∀ e ∈ event :: later, e.touches connectionId = false) :=
      (hopen c hc).imp_right fun hnone heq => List.forall_mem_cons.mpr ⟨htouches, hnone heq⟩
    cases event with
    | established peerId connectionId' endpoint others =>
      have hne : connectionId ≠ connectionId' := by
        rintro rfl
        rw [haccepts.1] at h
        cases h
      exact hskip rfl (by simp [next, lookup_put, hne, h])
    | addressChange peerId connectionId' old new =>
      by_cases hid : connectionId = connectionId'
      · subst hid
        have hnew : ((after events).next (.addressChange peerId connectionId old new)
            ).connections.lookup connectionId =
            some { c with endpoint := new, changes := c.changes + 1 } := by
          rw [next, lookup_modify_self h]
        obtain ⟨hle, -⟩ := hopen _ hnew
        dsimp only at hle
        exact ⟨by omega, fun heq => absurd heq (by omega)⟩
      · exact hskip (by simp [Event.touches, Ne.symm hid])
          (by rw [next, lookup_modify_of_ne hid, h])
    | closed peerId connectionId' endpoint remaining =>
      by_cases hid : connectionId = connectionId'
      · subst hid
        -- a closed connection does not come back
        have hclosed : (after (events ++ [.closed peerId connectionId endpoint remaining])
            ).connections.lookup connectionId = none := by
          simp [hnext, next, lookup_erase]
        have hnone := lookup_foldl_eq_none hclosed fun e he => hfirst e he connectionId rfl
        rw [after, List.foldl_append, ← after, hnone] at h'
        cases h'
      · exact hskip (by simp [Event.touches, Ne.symm hid]) (by simp [next, lookup_erase, hid, h])
    | retainConnectionCapacity => exact hskip rfl h

end Network

namespace Tracks

variable {n : Network} {b : ConnectionProvenanceBehaviour} {witness : ConnectionWitness}

theorem exists_connection {r : ConnectionRegistry} {connectionId : ConnectionId}
    {record : ConnectionRecord} (h : Tracks n r)
    (hrecord : r.records.lookup connectionId = some record) :
    ∃ connection, n.connections.lookup connectionId = some connection ∧
      connection.record = record := by
  rw [h.lookup, Option.map_eq_some_iff] at hrecord
  exact hrecord

theorem generation_of_witnessOf {record : ConnectionRecord} {family : IpFamily}
    (h : witnessOf record family = some witness) :
    witness.connectionId = record.connectionId ∧ witness.generation = record.generation := by
  simp only [witnessOf, Option.bind_eq_bind, Option.bind_eq_some_iff,
    Option.pure_def, Option.some.injEq] at h
  obtain ⟨_, _, _, _, rfl⟩ := h
  exact ⟨rfl, rfl⟩

/-- A witness is one of an open connection, of its current generation. -/
theorem of_issues (h : Tracks n b.registry) (hissues : b.Issues witness) :
    ∃ connection, n.connections.lookup witness.connectionId = some connection ∧
      witness.generation = connection.changes + 1 := by
  obtain ⟨record, family, hlookup, hwitness⟩ : ∃ record family,
      b.registry.records.lookup record.connectionId = some record ∧
      witnessOf record family = some witness := by
    obtain ⟨peerId, family, hunique | ⟨connectionId, hexact⟩⟩ := hissues
    · rw [uniqueWitness, if_neg (by simp [h.poisoned])] at hunique
      split at hunique
      · rename_i record hfilter
        have hrecord : record ∈ b.registry.records.rows :=
          List.mem_of_mem_filter (hfilter ▸ List.mem_singleton_self record)
        exact ⟨record, family, lookup_key _ hrecord, hunique⟩
      · cases hunique
    · rw [exactWitness, if_neg (by simp [h.poisoned])] at hexact
      simp only [Option.bind_eq_bind, Option.bind_eq_some_iff] at hexact
      obtain ⟨record, hrecord, _, _, hwitness⟩ := hexact
      exact ⟨record, family, (key_of_lookup hrecord).symm ▸ hrecord, hwitness⟩
  obtain ⟨hid, hgeneration⟩ := generation_of_witnessOf hwitness
  obtain ⟨connection, hconnection, rfl⟩ := h.exists_connection hlookup
  exact ⟨connection, hid ▸ hconnection, hgeneration⟩

/-- A witness is bound to an open connection of its generation, with the scoped prefix of the
current endpoint. -/
theorem of_bind {peerId : PeerId} {connectionId : ConnectionId}
    {observation : BoundConnectionObservation} (h : Tracks n b.registry)
    (hbind : b.registry.bind witness peerId connectionId = some observation) :
    ∃ connection, n.connections.lookup connectionId = some connection ∧
      connection.peerId = peerId ∧ witness.connectionId = connectionId ∧
      witness.generation = connection.changes + 1 ∧
      directScopedPrefix peerId connection.endpoint = some observation.scopedPrefix := by
  unfold ConnectionRegistry.bind at hbind
  split at hbind
  · cases hbind
  rename_i hexpected
  simp only [not_or, not_not] at hexpected
  simp only [Option.bind_eq_bind, Option.bind_eq_some_iff, Option.pure_def, Option.some.injEq]
    at hbind
  obtain ⟨record, hrecord, network, hnetwork, _, hguard, rfl⟩ := hbind
  obtain ⟨connection, hconnection, rfl⟩ := h.exists_connection hrecord
  simp only [Option.guard_eq_some', Bool.and_eq_true, decide_eq_true_eq,
    NativeNetworkPrefix.sameAs_iff] at hguard
  obtain ⟨⟨⟨⟨hpeer, hgeneration⟩, rfl⟩, -⟩, -⟩ := hguard
  exact ⟨connection, hconnection, hpeer, hexpected.2.2, hgeneration.symm, hpeer ▸ hnetwork⟩

end Tracks

/-! ## Provenance -/

namespace ConnectionProvenanceBehaviour

/-- **Provenance of connections.** If no identifier comes back after it was closed, a witness is
bound only if its connection was neither closed nor changed its address since, and then the prefix
is the scoped prefix of the current direct endpoint. Events that are consistent and within the
limits never poison the registry, whose records are then those of the open connections. From the
first event on that exceeds a limit or that the registry can see to be inconsistent, nothing is
issued and nothing accepted. -/
theorem provenance (ownInstance : ℕ) :
    (∀ (events later : List Event) (witness : ConnectionWitness) (peerId : PeerId)
        (connectionId : ConnectionId) (observation : BoundConnectionObservation),
      NeverReused (events ++ later) → (after ownInstance events).Issues witness →
      (after ownInstance (events ++ later)).registry.bind witness peerId connectionId =
        some observation →
      (∀ event ∈ later, event.touches connectionId = false) ∧
      ∃ connection,
        (Network.after (events ++ later)).connections.lookup connectionId = some connection ∧
        connection.peerId = peerId ∧ connection.endpoint.isRelayed = false ∧
        directScopedPrefix peerId connection.endpoint = some observation.scopedPrefix) ∧
    (∀ events : List Event,
      Throughout (fun n event => n.Consistent event ∧ n.WithinLimits event) events →
      (after ownInstance events).registry.poisoned = false ∧
      ∀ connectionId, (after ownInstance events).registry.records.lookup connectionId =
        ((Network.after events).connections.lookup connectionId).map Connection.record) ∧
    ∀ (events later : List Event) (event : Event),
      ¬(Network.after events).Plausible event ∨ ¬(Network.after events).WithinLimits event →
      Silent (after ownInstance (events ++ event :: later)) := by
  refine ⟨fun events later witness peerId connectionId observation hreused hissues hbind => ?_,
    fun events hall => ?_, fun events later event hevent => ?_⟩
  · have hall : Throughout Network.Accepts (events ++ later) := by
      have hclean : (after ownInstance (events ++ later)).registry.poisoned = false := by
        by_contra hpoisoned
        rw [(silent_of_poisoned (by simpa using hpoisoned)).bind] at hbind
        cases hbind
      exact throughout_of_not_poisoned hclean
    obtain ⟨c, hc, hgeneration⟩ :=
      ((tracks_or_poisoned ownInstance events).1 hall.of_append).of_issues hissues
    obtain ⟨c', hc', hpeer, rfl, hgeneration', hscoped⟩ :=
      ((tracks_or_poisoned ownInstance (events ++ later)).1 hall).of_bind hbind
    have hchanges := Network.not_touches_of_changes_eq hall (List.pairwise_append.mp hreused).2.1
      hc hc'
    exact ⟨hchanges.2 (by omega), c', hc', hpeer, isRelayed_of_directScopedPrefix hscoped,
      hscoped⟩
  · have htracks := (tracks_or_poisoned ownInstance events).1 (hall.mono fun _ _ h =>
      ⟨Network.plausible_of_consistent h.1, h.2⟩)
    exact ⟨htracks.poisoned, htracks.lookup⟩
  · refine silent_of_poisoned ((tracks_or_poisoned ownInstance _).2 fun hall => ?_)
    obtain ⟨hcredible, hlimits⟩ := hall events event later rfl
    exact hevent.elim (absurd hcredible) (absurd hlimits)

/-! ## What the registry does not see -/

namespace Sample

def peerId : PeerId := ⟨[18, 1, 7]⟩

/-- A direct endpoint at port 443 of a host of one public network. -/
def endpoint (host : UInt8) : ConnectedPoint := ⟨false, [.ip4 1 1 1 host, .tcp 443]⟩

def opened : Event := .established peerId 41 (endpoint 8) 0

def reopened : List Event := [.closed peerId 41 (endpoint 8) 0, opened]

/-- The old endpoint is another host of the network of the connection. -/
def moved : Event := .addressChange peerId 41 (endpoint 9) (endpoint 10)

def witness : ConnectionWitness := ⟨peerId, 41, 1, .ofBytes (.ipv4 1 1 1)⟩

theorem issues_witness : (after 0 [opened]).Issues witness :=
  ⟨peerId, .ipv4, .inl (by decide)⟩

end Sample

open Sample in
/-- The registry does not see that an identifier comes back: the witness of a connection that was
closed is bound to the next one. Nor does it see that the old endpoint of a change is wrong, if it
is in the network of the connection. -/
theorem bind_after_closed :
    ((after 0 [opened]).Issues witness ∧
      (after 0 ([opened] ++ reopened)).registry.bind witness peerId 41 =
        some ⟨peerId, 41, 1, .ofBytes (.ipv4 1 1 1)⟩ ∧
      ∃ event ∈ reopened, event.touches 41 = true) ∧
    (¬(Network.after [opened]).Consistent moved ∧ ¬Silent (after 0 [opened, moved])) := by
  refine ⟨⟨issues_witness, by decide, by decide⟩, ?_, fun hsilent => ?_⟩
  · rintro ⟨connection, hlookup, -, hendpoint⟩
    cases hlookup
    revert hendpoint
    decide
  · have hbind := hsilent.bind { witness with generation := 2 } peerId 41
    revert hbind
    decide

open Sample in
theorem provenance_sample :
    (∃ event ∈ reopened, event.touches 41 = true) ∧
    ((∀ event ∈ [Event.retainConnectionCapacity 500], event.touches 41 = false) ∧
      ∃ connection, (Network.after [opened, .retainConnectionCapacity 500]).connections.lookup 41 =
        some connection ∧ connection.peerId = peerId ∧ connection.endpoint.isRelayed = false ∧
        directScopedPrefix peerId connection.endpoint = some (.ofBytes (.ipv4 1 1 1))) ∧
    ((after 0 [opened]).registry.poisoned = false ∧
      ∀ connectionId, (after 0 [opened]).registry.records.lookup connectionId =
        ((Network.after [opened]).connections.lookup connectionId).map Connection.record) ∧
    Silent (after 0 ([opened] ++ opened :: reopened)) := by
  have h := provenance 0
  refine ⟨by decide, h.1 [opened] [.retainConnectionCapacity 500] witness peerId 41
    ⟨peerId, 41, 1, .ofBytes (.ipv4 1 1 1)⟩ (by decide) issues_witness (by decide),
    h.2.1 [opened] ?_, h.2.2 [opened] reopened opened (.inl ?_)⟩
  · rw [← List.nil_append [opened]]
    exact Throughout.append_singleton.mpr ⟨.nil, ⟨rfl, by decide⟩, by decide, by decide⟩
  · rintro ⟨hlookup, -⟩
    revert hlookup
    decide

end ConnectionProvenanceBehaviour

end Volparossa.Discovery
