import Volparossa.Reservation.Coordinator.Session

/-!
# The leases of the client

A coordinator retains the endpoint leases of its client under the reservation and the path they are
for. An operation keeps them, drops some of them, or retains the leases that a finalization
generated or that an extension brings (`leaseChange`). The two that retain leases do so when they
pass their checks, which are stated on the arguments and the state before (`AllowsFinalize`,
`AllowsExtension`).

A finalization compares what it generates with everything that is retained
(`leases_of_prepareFinalize`), and does not look at the keys. An extension looks at the key, and
does not compare (`lease_of_prepareExtension`).
-/

namespace Volparossa.Reservation.ReservationCoordinator

open Protocol ReservationCoordinator ClientPathState Table

open Transaction (Crypto)

open Wireguard (ClientEndpointLease HelperHandle)

variable {crypto : Crypto} {c : ReservationCoordinator} {createdAtMs expiresAtMs : ℕ}

-- the arguments of a finalization and what it comes to
variable {intent : ExitReservationIntent} {hold : VerifiedExitCapacityHold}
  {probes : List VerifiedRelayProbe} {provider : ℕ → Option ClientEndpointLease}
  {draws : FinalizeDraws} {prepared : PreparedFinalize}

-- those of an extension
variable {original : VerifiedFinalizedExitBundle} {extension : VerifiedRouteExtension}
  {endpoint : ClientEndpointLease} {nonce : FixedBytes 32}

/-! ## The checks of the operations that retain leases -/

section Checks

variable (crypto : Crypto) (c : ReservationCoordinator)

/-- The checks of a finalization: its scope, the room for an attempt and its leases, each of its
paths, each lease that it generates, and what it draws and signs. -/
def AllowsFinalize (intent : ExitReservationIntent) (hold : VerifiedExitCapacityHold)
    (probes : List VerifiedRelayProbe) (createdAtMs expiresAtMs : ℕ)
    (provider : ℕ → Option ClientEndpointLease) (draws : FinalizeDraws) : Prop :=
  c.finalizePhase intent hold probes createdAtMs expiresAtMs = true ∧
  c.pendingNativeAuthorizations.rows.length < maxPendingNativeAuthorizations ∧
  c.clientPaths.rows.length + probes.length ≤ maxLocalPathLeases ∧
  ∃ paths leases finalizeId authBearer authCommitment encoded,
    probes.foldlM (selectPath intent hold) [] = .ok paths ∧
    probes.foldlM (generateLease intent provider) c.retainedLeases = .ok leases ∧
    draws.finalizeIds.find? (fun candidate => decide (candidate ≠ .zero 16 ∧
      c.pendingNativeAuthorizations.lookup candidate = none)) = some finalizeId ∧
    generateNativeRouteBearer draws.entropy = .ok authBearer ∧
    nativeRouteAuthCommitment crypto authBearer = .ok authCommitment ∧
    c.sign crypto (c.finalizeRequest intent hold leases.generated createdAtMs expiresAtMs finalizeId
      authCommitment draws.nonce) createdAtMs expiresAtMs draws.nonce = .ok encoded

/-- The checks of an extension: it is an authorization under the original grant, the lease is for
its route context and its path and has the key that is authorized, nothing is retained under its
key, and there is room for it. -/
def AllowsExtension (original : VerifiedFinalizedExitBundle) (extension : VerifiedRouteExtension)
    (endpoint : ClientEndpointLease) (createdAtMs expiresAtMs : ℕ) (nonce : FixedBytes 32) : Prop :=
  ∃ scope parent reservationId encoded, ∃ envelope : SignedEnvelope,
    ∃ authorization : RelayAuthorization,
    extension.message.scope = some scope ∧ scope.parent crypto = .ok parent ∧
    extension.message.phase = RouteExtensionPhase.authorize.number ∧
    scope.signedExitReservation = original.signedExitReservation ∧
    scope.finalizedBundleHash = original.finalizedBundleHash.toBytes ∧
    endpoint.routeContextId.toBytes = parent.routeContextId ∧ endpoint.pathId = scope.pathId ∧
    c.clientPaths.rows.length < maxLocalPathLeases ∧
    FixedBytes.ofBytes 16 parent.reservationId = some reservationId ∧
    c.clientPaths.lookup ⟨reservationId, scope.pathId⟩ = none ∧
    decodeCanonical extension.message.signedRelayAuthorization maxControlMessageSize =
      .ok envelope ∧
    decodeCanonical envelope.payload maxControlPayloadSize = .ok authorization ∧
    authorization.clientWireguardPublicKey = endpoint.publicEndpoint.publicKey.toBytes ∧
    c.sign crypto
      (c.extensionRelayRequest original extension endpoint createdAtMs expiresAtMs nonce)
      createdAtMs expiresAtMs nonce = .ok encoded

end Checks

/-- A finalization succeeds when it passes its checks. -/
theorem allowsFinalize_iff :
    c.AllowsFinalize crypto intent hold probes createdAtMs expiresAtMs provider draws ↔
      ∃ prepared, c.prepareFinalize crypto intent hold probes createdAtMs expiresAtMs provider
        draws = .ok prepared := by
  simp only [AllowsFinalize, prepareFinalize, fromProtocol, ok_iff, exists_const, Bool.not_eq_false,
    not_le, not_lt, ge_iff_le, gt_iff_lt]
  constructor
  · rintro ⟨hphase, hpending, hroom, paths, leases, finalizeId, authBearer, authCommitment, encoded,
      hpaths, hleases, hid, hbearer, hcommitment, hsign⟩
    exact ⟨_, hphase, hpending, hroom, paths, hpaths, leases, hleases, finalizeId, hid, authBearer,
      hbearer, authCommitment, hcommitment, encoded, hsign, rfl⟩
  · rintro ⟨prepared, hphase, hpending, hroom, paths, hpaths, leases, hleases, finalizeId, hid,
      authBearer, hbearer, authCommitment, hcommitment, encoded, hsign, -⟩
    exact ⟨hphase, hpending, hroom, paths, leases, finalizeId, authBearer, authCommitment, encoded,
      hpaths, hleases, hid, hbearer, hcommitment, hsign⟩

/-- An extension succeeds when it passes its checks. -/
theorem allowsExtension_iff :
    c.AllowsExtension crypto original extension endpoint createdAtMs expiresAtMs nonce ↔
      ∃ prepared, c.prepareExtension crypto original extension endpoint createdAtMs expiresAtMs
        nonce = .ok prepared := by
  simp only [AllowsExtension, prepareExtension, fromProtocol, fixed, ok_iff, exists_const, not_or,
    ne_eq, not_not, not_le, ge_iff_le]
  constructor
  · rintro ⟨scope, parent, reservationId, encoded, envelope, authorization, hscope, hparent, hphase,
      hexit, hbundle, hcontext, hpath, hroom, hid, hfree, henvelope, hauthorization, hkey, hsign⟩
    exact ⟨_, scope, hscope, parent, hparent, ⟨hphase, hexit, hbundle, hcontext, hpath, hroom⟩,
      reservationId, hid, hfree, envelope, henvelope, authorization, hauthorization, hkey, encoded,
      hsign, rfl⟩
  · rintro ⟨prepared, scope, hscope, parent, hparent, ⟨hphase, hexit, hbundle, hcontext, hpath,
      hroom⟩, reservationId, hid, hfree, envelope, henvelope, authorization, hauthorization, hkey,
      encoded, hsign, -⟩
    exact ⟨scope, parent, reservationId, encoded, envelope, authorization, hscope, hparent, hphase,
      hexit, hbundle, hcontext, hpath, hroom, hid, hfree, henvelope, hauthorization, hkey, hsign⟩

/-! ## What an operation does to the leases -/

/-- The operation retains leases. -/
def Retains (crypto : Crypto) (c : ReservationCoordinator) : Call → Prop
  | .signFinalizeRequest intent hold probes createdAtMs expiresAtMs provider draws =>
    c.AllowsFinalize crypto intent hold probes createdAtMs expiresAtMs provider draws
  | .signExtensionRelayRequest original extension endpoint createdAtMs expiresAtMs nonce =>
    c.AllowsExtension crypto original extension endpoint createdAtMs expiresAtMs nonce
  | _ => False

/-- The operation drops a lease: its reservation is released, it has expired, or a bearer of its
reservation has expired before it was handed out. -/
def Drops (c : ReservationCoordinator) (state : ClientPathState) : Call → Prop
  | .release reservationId => state.key.reservationId = reservationId
  | .purgeExpired nowMs => state.expiresAtMs ≤ nowMs
  | .takeNativeRouteAuthorization finalizeId nowMs =>
    ∃ pending, c.pendingNativeAuthorizations.lookup finalizeId = some pending ∧
      pending.expiresAtMs ≤ nowMs ∧ state.key.reservationId = pending.reservationId
  | _ => False

/-- The leases after an operation. -/
inductive LeaseChange (crypto : Crypto) (c : ReservationCoordinator) : Call → Table key → Prop
  | kept {call : Call} (hretains : ¬c.Retains crypto call) (hdrops : ∀ state, ¬c.Drops state call) :
      LeaseChange crypto c call c.clientPaths
  | dropped {call : Call} {p : ClientPathState → Bool} (hretains : ¬c.Retains crypto call)
      (h : ∀ state, p state = false ↔ c.Drops state call) :
      LeaseChange crypto c call (c.clientPaths.filter p)
  | finalized {intent : ExitReservationIntent} {hold : VerifiedExitCapacityHold}
      {probes : List VerifiedRelayProbe} {createdAtMs expiresAtMs : ℕ}
      {provider : ℕ → Option ClientEndpointLease} {draws : FinalizeDraws}
      {prepared : PreparedFinalize}
      (h : c.prepareFinalize crypto intent hold probes createdAtMs expiresAtMs provider draws =
        .ok prepared) :
      LeaseChange crypto c
        (.signFinalizeRequest intent hold probes createdAtMs expiresAtMs provider draws)
        (prepared.leases.foldl (fun leases state => leases.put state) c.clientPaths)
  | extended {original : VerifiedFinalizedExitBundle} {extension : VerifiedRouteExtension}
      {endpoint : ClientEndpointLease} {createdAtMs expiresAtMs : ℕ} {nonce : FixedBytes 32}
      {encoded : Bytes} {state : ClientPathState}
      (h : c.prepareExtension crypto original extension endpoint createdAtMs expiresAtMs nonce =
        .ok (encoded, state)) :
      LeaseChange crypto c
        (.signExtensionRelayRequest original extension endpoint createdAtMs expiresAtMs nonce)
        (c.clientPaths.put state)

/-- An operation that verifies a response leaves the leases alone. -/
theorem leaseChange_of_verifies {call : Call} {nowMs : ℕ} (h : call.verifiesAt = some nowMs) :
    LeaseChange crypto c call (c.call crypto call).2.clientPaths := by
  rw [(frame_of_verifies h).2]
  cases call with
  | signFinalizeRequest | signExtensionRelayRequest | takeNativeRouteAuthorization | release
  | purgeExpired => cases h
  | _ => exact .kept id fun _ => id

theorem leaseChange_takeNativeRouteAuthorization (crypto : Crypto) (c : ReservationCoordinator)
    (finalizeId : FixedBytes 16) (nowMs : ℕ) :
    LeaseChange crypto c (.takeNativeRouteAuthorization finalizeId nowMs)
      (c.takeNativeRouteAuthorization crypto finalizeId nowMs).2.clientPaths := by
  unfold takeNativeRouteAuthorization
  cases hpending : c.pendingNativeAuthorizations.lookup finalizeId with
  | none => exact .kept id (by simp [Drops, hpending])
  | some pending =>
    dsimp only
    split
    · next hexpired => exact .dropped id (by simp [Drops, hpending, hexpired])
    next hlive =>
    have hkept : ∀ state, ¬c.Drops state (.takeNativeRouteAuthorization finalizeId nowMs) := by
      simp [Drops, hpending, hlive]
    split
    · exact .kept id hkept
    · split <;> exact .kept id hkept

/-- **What an operation does to the leases.** -/
theorem leaseChange (crypto : Crypto) (c : ReservationCoordinator) (call : Call) :
    LeaseChange crypto c call (c.call crypto call).2.clientPaths := by
  cases hverifies : call.verifiesAt with
  | some nowMs => exact leaseChange_of_verifies hverifies
  | none =>
    cases call with
    | signFinalizeRequest intent hold probes createdAtMs expiresAtMs provider draws =>
      simp only [ReservationCoordinator.call, signFinalizeRequest]
      cases h : c.prepareFinalize crypto intent hold probes createdAtMs expiresAtMs provider
        draws with
      | error e => exact .kept (by simp [Retains, allowsFinalize_iff, h]) fun _ => id
      | ok prepared => exact .finalized h
    | signExtensionRelayRequest original extension endpoint createdAtMs expiresAtMs nonce =>
      simp only [ReservationCoordinator.call, signExtensionRelayRequest]
      cases h : c.prepareExtension crypto original extension endpoint createdAtMs expiresAtMs
        nonce with
      | error e => exact .kept (by simp [Retains, allowsExtension_iff, h]) fun _ => id
      | ok prepared => exact .extended h
    | takeNativeRouteAuthorization finalizeId nowMs =>
      exact leaseChange_takeNativeRouteAuthorization ..
    | release reservationId | purgeExpired nowMs => exact .dropped id (by simp [Drops])
    | _ => cases hverifies

/-! ## The leases of a finalization -/

/-- Leases that share neither public key, listen port nor lease handle. -/
def Distinct (lease lease' : ClientEndpointLease) : Prop :=
  lease.publicEndpoint.publicKey ≠ lease'.publicEndpoint.publicKey ∧
  lease.publicEndpoint.listenPort ≠ lease'.publicEndpoint.listenPort ∧
  lease.leaseHandle ≠ lease'.leaseHandle

instance : DecidableRel Distinct := fun _ _ => inferInstanceAs (Decidable (_ ∧ _))

/-- What the checks of a finalization have established after some of its paths: everything that the
next lease must differ from is collected, and the generated leases are distinct from each other and
from the old ones. -/
structure GeneratedLeases.Unique (old : List ClientEndpointLease) (leases : GeneratedLeases) :
    Prop where
  publicKeys : ∀ lease ∈ old ++ leases.generated.map Prod.fst,
    lease.publicEndpoint.publicKey ∈ leases.publicKeys
  listenPorts : ∀ lease ∈ old ++ leases.generated.map Prod.fst,
    lease.publicEndpoint.listenPort ∈ leases.listenPorts
  leaseHandles : ∀ lease ∈ old ++ leases.generated.map Prod.fst,
    lease.leaseHandle ∈ leases.helperHandles
  distinct : (leases.generated.map Prod.fst).Pairwise Distinct
  new : ∀ lease ∈ old, ∀ lease' ∈ leases.generated.map Prod.fst, Distinct lease lease'

theorem unique_retainedLeases (c : ReservationCoordinator) :
    c.retainedLeases.Unique (c.clientPaths.rows.map (·.endpoint)) := by
  constructor <;> simp only [retainedLeases, List.map_nil, List.append_nil, List.not_mem_nil,
    List.Pairwise.nil, List.mem_map, List.mem_flatMap, List.mem_cons, or_false, forall_exists_index,
    and_imp, forall_apply_eq_imp_iff₂, IsEmpty.forall_iff, implies_true]
  · exact fun state hstate => ⟨state, hstate, rfl⟩
  · exact fun state hstate => ⟨state, hstate, rfl⟩
  · exact fun state hstate => ⟨state, hstate, .inr rfl⟩

theorem subset_of_contextHandles {leases : GeneratedLeases} {handles : List HelperHandle}
    (h : contextHandles leases endpoint = .ok handles) :
    leases.helperHandles ⊆ handles := by
  unfold contextHandles at h
  split at h <;> simp only [ok_iff] at h
  · obtain ⟨-, -, rfl⟩ := h
    exact List.Subset.refl _
  · obtain ⟨-, -, rfl⟩ := h
    exact List.subset_cons_self _ _

/-- A lease that is generated shares nothing with those before it. -/
theorem GeneratedLeases.Unique.generateLease {leases leases' : GeneratedLeases}
    {probe : VerifiedRelayProbe} {old : List ClientEndpointLease} (hunique : leases.Unique old)
    (h : ReservationCoordinator.generateLease intent provider leases probe = .ok leases') :
    leases'.Unique old ∧ leases'.generated.map Prod.snd =
      leases.generated.map Prod.snd ++ [probe] := by
  simp only [ReservationCoordinator.generateLease, ok_iff, exists_const, not_or] at h
  obtain ⟨endpoint, -, -, handles, hhandles, hhandle, ⟨hkey, hport⟩, rfl⟩ := h
  have hsubset := subset_of_contextHandles hhandles
  have hdistinct : ∀ lease ∈ old ++ leases.generated.map Prod.fst, Distinct lease endpoint :=
    fun lease hlease => ⟨fun heq => hkey (heq ▸ hunique.publicKeys lease hlease),
      fun heq => hport (heq ▸ hunique.listenPorts lease hlease),
      fun heq => hhandle (heq ▸ hsubset (hunique.leaseHandles lease hlease))⟩
  have hcollects : ∀ {α : Type} {f : ClientEndpointLease → α} {seen : List α},
      (∀ lease ∈ old ++ leases.generated.map Prod.fst, f lease ∈ seen) →
      ∀ lease ∈ old ++ leases.generated.map Prod.fst ++ [endpoint],
        f lease ∈ f endpoint :: seen := by
    intro α f seen hseen
    exact forall_mem_concat (fun lease hlease => List.mem_cons_of_mem _ (hseen lease hlease))
      List.mem_cons_self
  refine ⟨⟨?_, ?_, ?_, ?_, ?_⟩, by simp⟩ <;>
    simp only [List.map_append, List.map_cons, List.map_nil, ← List.append_assoc]
  · exact hcollects hunique.publicKeys
  · exact hcollects hunique.listenPorts
  · exact hcollects fun lease hlease => hsubset (hunique.leaseHandles lease hlease)
  · refine List.pairwise_append.mpr
      ⟨hunique.distinct, List.pairwise_singleton _ _, fun lease hlease lease' hlease' => ?_⟩
    rw [List.mem_singleton.mp hlease']
    exact hdistinct lease (List.mem_append_right _ hlease)
  · exact fun lease hlease => forall_mem_concat (hunique.new lease hlease)
      (hdistinct lease (List.mem_append_left _ hlease))

/-- The leases of a finalization belong to its paths, in their order, and share nothing. -/
theorem generated_of_foldlM {leases : GeneratedLeases}
    (h : probes.foldlM (generateLease intent provider) c.retainedLeases = .ok leases) :
    leases.generated.map Prod.snd = probes ∧
      leases.Unique (c.clientPaths.rows.map (·.endpoint)) := by
  refine foldlM_invariant (fun past leases => leases.generated.map Prod.snd = past ∧
    leases.Unique (c.clientPaths.rows.map (·.endpoint))) ?_ ⟨rfl, unique_retainedLeases c⟩ h
  intro past probe leases leases' hleases hstep
  obtain ⟨hunique, hprobes⟩ := hleases.2.generateLease hstep
  exact ⟨by rw [hprobes, hleases.1], hunique⟩

/-- What a finalization retains: as many leases as there is room for, under the keys of its paths,
which are distinct from each other and from the retained ones. -/
theorem leases_of_prepareFinalize
    (h : c.prepareFinalize crypto intent hold probes createdAtMs expiresAtMs provider draws =
      .ok prepared) :
    c.clientPaths.rows.length + prepared.leases.length ≤ maxLocalPathLeases ∧
    prepared.leases.map (·.key) =
      probes.map (fun probe => ⟨intent.reservationId, probe.permit.permit.pathId⟩) ∧
    prepared.leases.Pairwise (fun state state' => Distinct state.endpoint state'.endpoint) ∧
    ∀ state ∈ c.clientPaths.rows, ∀ state' ∈ prepared.leases,
      Distinct state.endpoint state'.endpoint := by
  simp only [prepareFinalize, ok_iff, exists_const] at h
  obtain ⟨-, -, hcapacity, paths, -, leases, hleases, finalizeId, -, authBearer, -, authCommitment,
    -, encoded, -, rfl⟩ := h
  obtain ⟨hprobes, hunique⟩ := generated_of_foldlM hleases
  have hendpoints : (leases.generated.map fun path => ClientPathState.mk
      ⟨intent.reservationId, path.2.permit.permit.pathId⟩ path.1 intent.reservationExpiresAtMs).map
        (·.endpoint) = leases.generated.map Prod.fst := by
    rw [List.map_map]; rfl
  refine ⟨?_, ?_, ?_, fun state hstate state' hstate' => ?_⟩
  · rw [List.length_map, ← List.length_map (f := Prod.snd), hprobes]
    omega
  · rw [← hprobes, List.map_map, List.map_map]
    rfl
  · rw [← List.pairwise_map, hendpoints]
    exact hunique.distinct
  · refine hunique.new _ (List.mem_map_of_mem hstate) _ ?_
    rw [← hendpoints]
    exact List.mem_map_of_mem hstate'

/-- What an extension retains: one lease, the one that it was given, under a key that was free. -/
theorem lease_of_prepareExtension {encoded : Bytes} {state : ClientPathState}
    (h : c.prepareExtension crypto original extension endpoint createdAtMs expiresAtMs nonce =
      .ok (encoded, state)) :
    c.clientPaths.rows.length < maxLocalPathLeases ∧ state.endpoint = endpoint ∧
      c.clientPaths.lookup state.key = none := by
  simp only [prepareExtension, ok_iff, Prod.mk.injEq, exists_const, not_or, ne_eq, not_not,
    ge_iff_le, not_le] at h
  obtain ⟨scope, -, parent, -, ⟨-, -, -, -, -, hroom⟩, reservationId, -, hfree, envelope, -,
    authorization, -, -, encoded', -, -, rfl⟩ := h
  exact ⟨hroom, rfl, hfree⟩

end Volparossa.Reservation.ReservationCoordinator
