import Volparossa.Reservation.Coordinator.Leases

/-!
# Separation and replacement of leases

The leases that a coordinator retains should share nothing, and should stay until they are released
or expire. Neither is so in every run, and both have an exact condition on the operations of a run,
over their arguments and the states they start from.

A finalization compares what it generates with everything that is retained, and an extension does
not: the leases are pairwise distinct in every run whose extensions bring distinct leases, and only
then (`leases_separated`). An extension refuses a key that is taken, and a finalization does not;
and a bearer that has expired takes the leases of its reservation with it, whether they have expired
or not. A lease is lost in exactly the runs that do one or the other (`leases_kept`).
-/

namespace Volparossa.Reservation.ReservationCoordinator

open Protocol ClientPathState Sample Table

open Transaction (Crypto)

open Wireguard (ClientEndpointLease)

variable {crypto : Crypto} {c : ReservationCoordinator} {call : Call} {paths : Table key}

/-! ## Extensions of the run

The route of the sample run is extended by a second path, with a lease of the client's choice. -/

namespace Sample

def extensionScope : RouteExtensionScope := {
  extensionId := List.replicate 16 43, signedExitReservation := signedExit
  finalizedBundleHash := bundleHash.toBytes, pathId := 2, relayNodeId := List.replicate 32 8
  relayPeerId := [13], probeId := List.replicate 16 35, addressFamily := 1 }

/-- The request to authorize a second path. -/
def extensionRequest : RouteExtensionRequest where
  scope := some extensionScope
  phase := 2
  path := some ⟨2, List.replicate 32 8, [13], List.replicate 32 26, [1], [1]⟩

def extensionMessage : RouteExtension where
  scope := some extensionScope
  phase := 2
  signedProbePermit := signed 113 (permitMessage 2 35 (List.replicate 32 8) [13] 113) 1000 31000
  signedRelayAuthorization :=
    signed 114 (authorizationMessage 2 (List.replicate 32 8) [13] 26 114) 1000 901000
  selectedPathIds := [1]
  hardExpiresAtMs := 901000

def signedExtension : Bytes := signed 115 extensionMessage 2000 31000

/-- The call that retains the lease of the second path. -/
def extend (lease : ClientEndpointLease) (nonce : UInt8) : Call :=
  .signExtensionRelayRequest bundle ⟨signedExtension, extensionMessage⟩ lease 2000 31000
    (.replicate 32 nonce)

/-- The calls up to the verified extension. -/
def authorized : List Call := finalized ++
  [.verifyRouteExtensionResponse bundle extensionRequest signedExtension 2000]

/-- The coordinator after the verified extension. -/
def afterAuthorized : ReservationCoordinator := { afterFinalized with
  exitReplay := ⟨16, [entry exit 101 901000, entry exit 102 31000, entry exit 104 31000,
    entry exit 108 901000, entry exit 109 901000, entry exit 115 31000], by decide +kernel⟩ }

/-- The coordinator after the extension. -/
def afterExtended (lease : ClientEndpointLease) : ReservationCoordinator := { afterAuthorized with
  clientPaths := afterAuthorized.clientPaths.put (retained lease) }

/-- The run to the verified extension, evaluated. -/
theorem run_authorized :
    (∀ e ∈ (machine signatures.primitives).events start authorized,
      ∃ answer, e.output = .ok answer) ∧
    (machine signatures.primitives).run start authorized = afterAuthorized := by
  have hleads : leadsTo signatures.primitives afterAuthorized afterFinalized
      [.verifyRouteExtensionResponse bundle extensionRequest signedExtension 2000] = true := by
    decide +kernel
  obtain ⟨hevents, hrun⟩ := run_of_leadsTo hleads ⟨rfl, rfl⟩
  rw [authorized, Machine.events_append, Machine.run_append, run_finalized.2,
    List.forall_mem_append]
  exact ⟨⟨run_finalized.1, hevents⟩, hrun⟩

/-- The run with an extension that succeeds. -/
theorem events_extended {lease : ClientEndpointLease} {nonce : UInt8}
    (h : leadsTo signatures.primitives (afterExtended lease) afterAuthorized [extend lease nonce] =
      true) :
    ∃ answer, (machine signatures.primitives).events start (authorized ++ [extend lease nonce]) =
      (machine signatures.primitives).events start authorized ++
        [⟨afterAuthorized, extend lease nonce, .ok answer, afterExtended lease⟩] := by
  obtain ⟨answer, hstep⟩ := step_of_leadsTo h ⟨rfl, rfl⟩
  refine ⟨answer, ?_⟩
  rw [Machine.events_append, run_authorized.2, Machine.events_cons, Machine.events_nil,
    Machine.event, Machine.next, hstep]

theorem leadsTo_second : leadsTo signatures.primitives (afterExtended secondLease) afterAuthorized
    [extend secondLease 120] = true := by
  decide +kernel

theorem leadsTo_shared : leadsTo signatures.primitives (afterExtended sharedLease) afterAuthorized
    [extend sharedLease 116] = true := by
  decide +kernel

end Sample

/-! ## Separation -/

/-- The retained leases are pairwise distinct. -/
def Separated (c : ReservationCoordinator) : Prop :=
  c.clientPaths.rows.Pairwise fun state state' => Distinct state.endpoint state'.endpoint

/-- An extension that passes its checks brings a lease that is distinct from the retained ones. -/
def BringsDistinct (crypto : Crypto) (c : ReservationCoordinator) : Call → Prop
  | .signExtensionRelayRequest original extension endpoint createdAtMs expiresAtMs nonce =>
    c.AllowsExtension crypto original extension endpoint createdAtMs expiresAtMs nonce →
      ∀ state ∈ c.clientPaths.rows, Distinct state.endpoint endpoint
  | _ => True

theorem LeaseChange.length_le (h : LeaseChange crypto c call paths)
    (hc : c.clientPaths.rows.length ≤ maxLocalPathLeases) :
    paths.rows.length ≤ maxLocalPathLeases := by
  cases h with
  | kept => exact hc
  | dropped => exact (length_filter_le _ _).trans hc
  | finalized h =>
    exact (length_foldl_put_le _ _).trans (leases_of_prepareFinalize h).1
  | extended h =>
    exact (length_put_le _).trans (lease_of_prepareExtension h).1

theorem LeaseChange.separated (h : LeaseChange crypto c call paths)
    (hc : c.Separated) (hdistinct : c.BringsDistinct crypto call) :
    paths.rows.Pairwise fun state state' => Distinct state.endpoint state'.endpoint := by
  cases h with
  | kept => exact hc
  | dropped => exact hc.sublist List.filter_sublist
  | finalized h =>
    obtain ⟨-, -, hpairwise, hnew⟩ := leases_of_prepareFinalize h
    exact pairwise_foldl_put hc hpairwise hnew
  | extended h =>
    obtain ⟨-, hendpoint, -⟩ := lease_of_prepareExtension h
    refine pairwise_put hc fun state hstate => ?_
    rw [hendpoint]
    exact hdistinct (allowsExtension_iff.mpr ⟨_, h⟩) state hstate

theorem bringsDistinct_of_not_retains (h : ¬c.Retains crypto call) :
    c.BringsDistinct crypto call := by
  cases call with
  | signExtensionRelayRequest => exact fun hextends => absurd hextends h
  | _ => trivial

theorem LeaseChange.bringsDistinct (h : LeaseChange crypto c call paths)
    (hpaths : paths.rows.Pairwise fun state state' => Distinct state.endpoint state'.endpoint) :
    c.BringsDistinct crypto call := by
  cases h with
  | kept hretains | dropped hretains => exact bringsDistinct_of_not_retains hretains
  | finalized => trivial
  | extended h =>
    obtain ⟨-, hendpoint, hfree⟩ := lease_of_prepareExtension h
    intro _ state hstate
    rw [rows_put hfree] at hpaths
    rw [← hendpoint]
    exact (List.pairwise_append.mp hpaths).2.2 state hstate _ (List.mem_singleton.mpr rfl)

/-- The leases stay separated as long as the extensions bring distinct ones. -/
theorem separated_events (crypto : Crypto) (calls : List Call) (hc : c.Separated)
    (hdistinct : ∀ e ∈ (machine crypto).events c calls, e.before.BringsDistinct crypto e.input) :
    ∀ e ∈ (machine crypto).events c calls, e.after.Separated := by
  induction calls generalizing c with
  | nil => simp
  | cons call calls ih =>
    rw [Machine.events_cons, List.forall_mem_cons] at hdistinct ⊢
    have hnext := (leaseChange crypto c call).separated hc hdistinct.1
    exact ⟨hnext, ih hnext hdistinct.2⟩

theorem clientPaths_new {sessionKey : SigningKey} {replayCapacity : ℕ}
    (h : new crypto sessionKey replayCapacity = .ok c) :
    c.clientPaths = .empty := by
  simp only [new, ok_iff] at h
  obtain ⟨cache, -, rfl⟩ := h
  rfl

/-- **Separation of the leases.** In every run of a new coordinator at most 64 leases are retained.
They are pairwise distinct in public key, listen port and lease handle after every operation if and
only if every extension that passes its checks brings a lease that is distinct from those
retained. -/
theorem leases_separated (crypto : Crypto) (sessionKey : SigningKey) (replayCapacity : ℕ)
    (c : ReservationCoordinator)
    (hnew : new crypto sessionKey replayCapacity = .ok c)
    (calls : List Call) :
    (∀ e ∈ (machine crypto).events c calls, e.after.clientPaths.rows.length ≤ 64) ∧
    ((∀ e ∈ (machine crypto).events c calls, e.after.Separated) ↔
      ∀ e ∈ (machine crypto).events c calls, e.before.BringsDistinct crypto e.input) := by
  have hempty := clientPaths_new hnew
  have hchange : ∀ e ∈ (machine crypto).events c calls,
      e.before.clientPaths.rows.length ≤ maxLocalPathLeases ∧
        LeaseChange crypto e.before e.input e.after.clientPaths := by
    intro e he
    obtain ⟨hlength, hevent⟩ := Machine.events_invariant
      (P := fun c => c.clientPaths.rows.length ≤ maxLocalPathLeases)
      (fun c call hc => (leaseChange crypto c call).length_le hc) (by simp [hempty]) calls e he
    refine ⟨hlength, ?_⟩
    rw [hevent]
    exact leaseChange crypto e.before e.input
  refine ⟨fun e he => ?_, fun h e he => ?_, fun h => ?_⟩
  · obtain ⟨hlength, hlease⟩ := hchange e he
    exact hlease.length_le hlength
  · exact (hchange e he).2.bringsDistinct (h e he)
  · exact separated_events crypto calls (by simp [Separated, hempty]) h

/-- In the sample run, an extension brings a lease of its own, which is then the second one that is
retained: the leases are separated to the end. -/
theorem leases_separated_extended :
    new signatures.primitives (signatures.signingKey client.key) 16 = .ok start ∧
    (∀ e ∈ (machine signatures.primitives).events start (authorized ++ [extend secondLease 120]),
      ∃ answer, e.output = .ok answer) ∧
    ((machine signatures.primitives).run start
      (authorized ++ [extend secondLease 120])).clientPaths.rows =
        [retained firstLease, retained secondLease] ∧
    ∀ e ∈ (machine signatures.primitives).events start (authorized ++ [extend secondLease 120]),
      e.after.Separated := by
  obtain ⟨answer, hevents⟩ := events_extended leadsTo_second
  refine ⟨new_start, ?_, ?_, (leases_separated _ _ _ _ new_start _).2.mpr ?_⟩
  · rw [hevents, List.forall_mem_append, List.forall_mem_singleton]
    exact ⟨run_authorized.1, answer, rfl⟩
  · rw [Machine.run_of_getLast _ (by rw [hevents, List.getLast?_concat])]
    rfl
  · rw [hevents, List.forall_mem_append, List.forall_mem_singleton]
    refine ⟨fun e he => ?_, fun _ state hstate => ?_⟩
    · have hinput := List.mem_map_of_mem (f := Machine.Event.input) he
      rw [Machine.map_input_events] at hinput
      simp only [authorized, finalized, List.cons_append, List.nil_append,
        List.mem_cons, List.not_mem_nil, or_false] at hinput
      rcases hinput with h | h | h | h | h | h <;> rw [h] <;> trivial
    · rw [List.mem_singleton.mp hstate]
      decide

/-- In the sample run, an extension brings a lease with the listen port and the lease handle of the
one that is retained, and succeeds. -/
theorem extension_shares_lease :
    new signatures.primitives (signatures.signingKey client.key) 16 = .ok start ∧
    ∃ e ∈ (machine signatures.primitives).events start (authorized ++ [extend sharedLease 116]),
      e.input = extend sharedLease 116 ∧
      (∃ answer, e.output = .ok answer) ∧
      e.after.clientPaths.rows = [retained firstLease, retained sharedLease] ∧
      ¬e.after.Separated := by
  obtain ⟨answer, hevents⟩ := events_extended leadsTo_shared
  refine ⟨new_start, ⟨afterAuthorized, extend sharedLease 116, .ok answer,
    afterExtended sharedLease⟩, ?_, rfl, ⟨answer, rfl⟩, rfl, ?_⟩
  · rw [hevents]
    exact List.mem_append_right _ (List.mem_singleton.mpr rfl)
  · dsimp only [Separated]
    decide

/-! ## Replacement -/

/-- A lease may go: its reservation is released, or it has expired itself. -/
def MayGo (state : ClientPathState) : Call → Prop
  | .release reservationId => state.key.reservationId = reservationId
  | .purgeExpired nowMs => state.expiresAtMs ≤ nowMs
  | .takeNativeRouteAuthorization _ nowMs => state.expiresAtMs ≤ nowMs
  | _ => False

/-- The leases that are retained stay under their keys, unless they may go. -/
def Kept (c : ReservationCoordinator) (call : Call) (paths : Table key) : Prop :=
  ∀ state ∈ c.clientPaths.rows, MayGo state call ∨ paths.lookup state.key = some state

/-- A finalization that passes its checks is for paths under whose keys nothing is retained, and a
bearer that has expired is asked for when the leases of its reservation have expired too. -/
def SparesLeases (crypto : Crypto) (c : ReservationCoordinator) : Call → Prop
  | .signFinalizeRequest intent hold probes createdAtMs expiresAtMs provider draws =>
    c.AllowsFinalize crypto intent hold probes createdAtMs expiresAtMs provider draws →
      ∀ probe ∈ probes,
        c.clientPaths.lookup ⟨intent.reservationId, probe.permit.permit.pathId⟩ = none
  | .takeNativeRouteAuthorization finalizeId nowMs =>
    ∀ pending, c.pendingNativeAuthorizations.lookup finalizeId = some pending →
      pending.expiresAtMs ≤ nowMs → ∀ state ∈ c.clientPaths.rows,
        state.key.reservationId = pending.reservationId → state.expiresAtMs ≤ nowMs
  | _ => True

/-- The leases of a finalization stay under their keys if and only if its paths are free: a lease
under the key of a path is replaced by another one. -/
theorem kept_finalized_iff {intent : ExitReservationIntent}
    {provider : ℕ → Option ClientEndpointLease} {hold : VerifiedExitCapacityHold}
    {probes : List VerifiedRelayProbe} {createdAtMs expiresAtMs : ℕ}
    {draws : FinalizeDraws} {prepared : PreparedFinalize}
    (h : c.prepareFinalize crypto intent hold probes createdAtMs expiresAtMs provider draws =
      .ok prepared) :
    (∀ state ∈ c.clientPaths.rows,
      (prepared.leases.foldl (fun leases state => leases.put state) c.clientPaths).lookup
        state.key = some state) ↔
    ∀ probe ∈ probes,
      c.clientPaths.lookup ⟨intent.reservationId, probe.permit.permit.pathId⟩ = none := by
  obtain ⟨-, hkeys, -, hnew⟩ := leases_of_prepareFinalize h
  constructor
  · intro hkept probe hprobe
    refine (lookup_eq_none _ _).mpr fun state hstate hkey => ?_
    have hmem : state.key ∈ prepared.leases.map (·.key) := by
      rw [hkeys, hkey]
      exact List.mem_map_of_mem hprobe
    obtain ⟨state', hstate', hlookup⟩ := exists_lookup_foldl_put (t := c.clientPaths) hmem
    rw [hkept state hstate, Option.some.injEq] at hlookup
    exact (hnew state hstate state' hstate').2.2 (by rw [hlookup])
  · intro hfree state hstate
    rw [lookup_foldl_put_of_not_mem, lookup_key _ hstate]
    rw [hkeys]
    intro hmem
    obtain ⟨probe, hprobe, hkey⟩ := List.mem_map.mp hmem
    exact (lookup_eq_none _ _).mp (hfree probe hprobe) state hstate hkey.symm

/-- An operation that retains nothing spares the leases if and only if those that it drops may
go. -/
theorem sparesLeases_iff (hretains : ¬c.Retains crypto call) :
    c.SparesLeases crypto call ↔ ∀ state ∈ c.clientPaths.rows, c.Drops state call →
    MayGo state call := by
  cases call with
  | signFinalizeRequest => exact iff_of_true (fun h => absurd h hretains) fun _ _ => id
  | takeNativeRouteAuthorization =>
    simp only [SparesLeases, Drops, MayGo, forall_exists_index, and_imp]
    exact ⟨fun h state hstate pending hpending hexpired => h pending hpending hexpired state hstate,
      fun h pending hpending hexpired state hstate => h state hstate pending hpending hexpired⟩
  | _ => exact iff_of_true trivial fun _ _ => id

theorem LeaseChange.kept_iff (h : LeaseChange crypto c call paths) :
    c.Kept call paths ↔ c.SparesLeases crypto call := by
  cases h with
  | kept hretains hdrops =>
    rw [sparesLeases_iff hretains]
    exact iff_of_true (fun state hstate => .inr (lookup_key _ hstate))
      fun state _ h => absurd h (hdrops state)
  | @dropped _ p hretains h =>
    rw [sparesLeases_iff hretains]
    refine forall₂_congr fun state hstate => ?_
    rw [← h state]
    cases hp : p state with
    | true => exact iff_of_true (.inr (lookup_key _ (mem_filter.mpr ⟨hstate, hp⟩))) (by simp)
    | false =>
      have hgone : (c.clientPaths.filter p).lookup state.key ≠ some state := by
        intro hlookup
        rw [(mem_filter.mp (mem_of_lookup hlookup)).2] at hp
        cases hp
      exact ⟨fun h _ => h.resolve_right hgone, fun h => .inl (h rfl)⟩
  | finalized h =>
    refine Iff.trans ?_ ((kept_finalized_iff h).trans
      ⟨fun h _ => h, fun hfree => hfree (allowsFinalize_iff.mpr ⟨_, h⟩)⟩)
    exact forall₂_congr fun state _ => or_iff_right id
  | extended h =>
    refine iff_of_true (fun state hstate => .inr ?_) trivial
    obtain ⟨-, -, hfree⟩ := lease_of_prepareExtension h
    rw [lookup_put, if_neg, lookup_key _ hstate]
    exact (lookup_eq_none _ _).mp hfree state hstate

/-- **No lease is lost silently.** In a run of a coordinator every lease that is retained stays
under its key until its reservation is released or it has expired, if and only if every finalization
that passes its checks is for paths under whose keys nothing is retained, and no bearer that has
expired is asked for while a lease of its reservation has not. -/
theorem leases_kept (crypto : Crypto) (c : ReservationCoordinator) (calls : List Call) :
    (∀ e ∈ (machine crypto).events c calls, e.before.Kept e.input e.after.clientPaths) ↔
      ∀ e ∈ (machine crypto).events c calls, e.before.SparesLeases crypto e.input := by
  refine forall₂_congr fun e he => ?_
  obtain ⟨-, hevent⟩ := Machine.events_invariant (P := fun _ => True) (fun _ _ _ => trivial) trivial
    calls e he
  rw [hevent]
  exact (leaseChange crypto e.before e.input).kept_iff

namespace Sample

/-- Another finalization of the first path. -/
def finalizeAgain : Call :=
  .signFinalizeRequest intent hold [probe] 1000 31000 (provider thirdLease) (draws 42 52 107)

end Sample

/-- In the sample run, the second finalization of a path puts another lease under the key of the
first, which is not expired and whose reservation is not released. -/
theorem refinalization_replaces_lease :
    new signatures.primitives (signatures.signingKey client.key) 16 = .ok start ∧
    ∃ e ∈ (machine signatures.primitives).events start (finalized ++ [finalizeAgain]),
      e.input = finalizeAgain ∧
      (∃ answer, e.output = .ok answer) ∧
      e.before.clientPaths.rows = [retained firstLease] ∧
      e.after.clientPaths.rows = [retained thirdLease] ∧
      (retained thirdLease).key = (retained firstLease).key ∧
      ¬e.before.Kept e.input e.after.clientPaths := by
  have heval : (afterFinalized.call signatures.primitives finalizeAgain).1.isOk = true ∧
      (afterFinalized.call signatures.primitives finalizeAgain).2.clientPaths.rows =
        [retained thirdLease] := by
    decide +kernel
  rcases hcall : afterFinalized.call signatures.primitives finalizeAgain with ⟨output, next⟩
  rw [hcall] at heval
  have hstep : (machine signatures.primitives).step afterFinalized finalizeAgain =
      (output, next) := hcall
  refine ⟨new_start, ⟨afterFinalized, finalizeAgain, output, next⟩, ?_, rfl,
    exists_eq_ok heval.1, rfl, heval.2, rfl, fun hkept => ?_⟩
  · rw [Machine.events_append, run_finalized.2, Machine.events_cons, Machine.event,
      Machine.next, hstep]
    exact List.mem_append_right _ List.mem_cons_self
  · have hlookup := (hkept (retained firstLease) List.mem_cons_self).resolve_left id
    have hmem := mem_of_lookup hlookup
    rw [heval.2, List.mem_singleton] at hmem
    revert hmem
    decide

end Volparossa.Reservation.ReservationCoordinator
