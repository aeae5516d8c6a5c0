import Volparossa.Reservation.Coordinator.Session

/-!
# Failed verifications

A response that the coordinator refuses must not use up the envelope it came in. `SameReplay` says
that nothing of an operation is left in the replay caches: every later message is judged as if the
operation had not been called (`ReplayCache.Alike.verifyControlMessage`).

`failed_verification` is the result, for the nine operations that verify a response, whatever their
arguments and the state: an operation that fails leaves the replay caches as they were, except that
`verifyMptcpPathsState` keeps a genuine snapshot that does not answer the query
(`Call.unansweredQuery`).
-/

namespace Volparossa.Reservation.ReservationCoordinator

open Protocol Attempt

open Transaction (Crypto)

variable {crypto : Crypto} {c c' : ReservationCoordinator} {nowMs : ℕ}

/-! ## Attempts -/

theorem restores_verifying {T : Type} [ControlPayload T] {encoded : Bytes} :
    Restores nowMs (verifying crypto T encoded nowMs) :=
  restores_verify crypto T encoded _ _

theorem restores_holdAttempt {intent : ExitReservationIntent}
    {signedCapability signedHold authenticatedExitPeerId : Bytes} :
    Restores nowMs (c.holdAttempt crypto intent signedCapability signedHold authenticatedExitPeerId
      nowMs) :=
  restores_verifying.bind fun _ => (restores_lift _).bind fun _ =>
    restores_verifying.bind fun _ => (restores_lift _).bind fun _ => restores_pure _

theorem restores_permitAttempt {request : SignedProbePermitRequest} {signedPermit : Bytes} :
    Restores nowMs (permitAttempt crypto request signedPermit nowMs) :=
  restores_verifying.bind fun _ => (restores_lift _).bind fun _ => restores_pure _

theorem restores_resultAttempt {permit : VerifiedProbePermit} {signedResult : Bytes} :
    Restores nowMs (resultAttempt crypto permit signedResult nowMs) :=
  restores_verifying.bind fun _ => (restores_lift _).bind fun _ => (restores_lift _).bind fun _ =>
    (restores_lift _).bind fun _ => (restores_lift _).bind fun _ => (restores_lift _).bind fun _ =>
      restores_pure _

theorem restores_finalizeAttempt {intent : ExitReservationIntent} {hold : VerifiedExitCapacityHold}
    {request : SignedExitFinalizeRequest} {signedExitReservation : Bytes}
    {relayAuthorizations : List Bytes} :
    Restores nowMs (c.finalizeAttempt crypto intent hold request signedExitReservation
      relayAuthorizations nowMs) := by
  refine restores_verifying.bind fun exit => (restores_lift _).bind fun _ =>
    (restores_forM (fun (encoded, path) => ?_) _).bind fun _ => (restores_lift _).bind fun _ =>
      (restores_lift _).bind fun _ => restores_pure _
  exact restores_verifying.bind fun _ => (restores_lift _).bind fun _ => restores_lift _

theorem restores_extensionAttempt {scope : RouteExtensionScope} {parent : ExitReservation}
    {capability : ClientSessionCapability} {request : RouteExtensionRequest} {encoded : Bytes} :
    Restores nowMs (extensionAttempt crypto scope parent capability request encoded nowMs) :=
  restores_verifying.bind fun _ => (restores_lift _).bind fun _ => (restores_lift _).bind fun _ =>
    (restores_lift _).bind fun _ => (restores_lift _).bind fun _ => restores_pure _

/-! ## Relay grants -/

section RelayReservations

variable {encoded : Bytes} {policy : TimePolicy} {cache cache' : ReplayCache}

theorem alike_of_verifyRelayReservation_error {e : ProtocolError}
    (h : verifyRelayReservation crypto encoded nowMs policy cache = (.error e, cache')) :
    cache'.Alike nowMs cache := by
  unfold verifyRelayReservation at h
  rcases hrelay : verifyControlMessage (T := RelayReservation) crypto encoded nowMs policy
    cache with ⟨e₁ | relay, cache₁⟩
  · simp only [hrelay, Prod.mk.injEq] at h
    obtain ⟨-, rfl⟩ := h
    exact alike_of_verify_error hrelay
  · rcases hexit : verifyControlMessage (T := RelayAuthorization) crypto
      relay.message.exitAuthorization nowMs policy cache₁ with ⟨e₂ | exit, cache₂⟩
    · simp only [hrelay, hexit, Prod.mk.injEq] at h
      obtain ⟨-, rfl⟩ := h
      exact ((alike_of_verify_error hexit).rollback _).trans (alike_of_verify_ok hrelay)
    · simp only [hrelay, hexit] at h
      split at h
      · cases h
      · simp only [Prod.mk.injEq] at h
        obtain ⟨-, rfl⟩ := h
        -- the source takes the outer key back first
        rw [ReplayCache.rollback_comm]
        exact ((alike_of_verify_ok hexit).rollback _).trans (alike_of_verify_ok hrelay)

theorem alike_of_verifyRelayReservation_ok {relay : VerifiedControlMessage RelayReservation}
    {exit : VerifiedControlMessage RelayAuthorization}
    (h : verifyRelayReservation crypto encoded nowMs policy cache = (.ok (relay, exit), cache')) :
    (cache'.rollbackAll [relay.key, exit.key]).Alike nowMs cache := by
  unfold verifyRelayReservation at h
  rcases hrelay : verifyControlMessage (T := RelayReservation) crypto encoded nowMs policy
    cache with ⟨e₁ | relay', cache₁⟩
  · simp only [hrelay, Prod.mk.injEq, reduceCtorEq, false_and] at h
  · rcases hexit : verifyControlMessage (T := RelayAuthorization) crypto
      relay'.message.exitAuthorization nowMs policy cache₁ with ⟨e₂ | exit', cache₂⟩
    · simp only [hrelay, hexit, Prod.mk.injEq, reduceCtorEq, false_and] at h
    · simp only [hrelay, hexit] at h
      split at h
      · simp only [Prod.mk.injEq, Except.ok.injEq] at h
        obtain ⟨⟨rfl, rfl⟩, rfl⟩ := h
        exact ((alike_of_verify_ok hexit).rollback _).trans (alike_of_verify_ok hrelay)
      · cases h

end RelayReservations

/-! ## Operations -/

/-- No later message is judged differently by one coordinator than by the other. -/
structure SameReplay (nowMs : ℕ) (c c' : ReservationCoordinator) : Prop where
  exit : c.exitReplay.Alike nowMs c'.exitReplay
  probe : c.probeReplay.Alike nowMs c'.probeReplay
  relay : c.relayReplay.Alike nowMs c'.relayReplay

theorem SameReplay.refl (nowMs : ℕ) (c : ReservationCoordinator) : SameReplay nowMs c c :=
  ⟨.refl _ _, .refl _ _, .refl _ _⟩

/-- An operation that fails leaves no trace in the replay caches. -/
def Traceless {α : Type} (nowMs : ℕ) (c : ReservationCoordinator) (outcome : Outcome α) : Prop :=
  ∀ e, outcome.1 = .error e → SameReplay nowMs outcome.2 c

section Traceless

variable {α : Type} {e : CoordinatorError}

theorem traceless_ok {a : α} : Traceless nowMs c (.ok a, c') := fun _ h => by cases h

/-- An operation that fails before it verifies anything. -/
theorem traceless_refused : Traceless nowMs c ((.error e, c) : Outcome α) := fun _ _ => .refl _ _

theorem traceless_of_exit {cache : ReplayCache} (h : cache.Alike nowMs c.exitReplay) :
    Traceless nowMs c ((.error e, { c with exitReplay := cache }) : Outcome α) :=
  fun _ _ => ⟨h, .refl _ _, .refl _ _⟩

/-- An operation that ends with an attempt on the exit cache. -/
theorem traceless_settle_exit {x : Attempt CoordinatorError α} (hx : Restores nowMs x) :
    Traceless nowMs c ((x.settle c.exitReplay).1,
      { c with exitReplay := (x.settle c.exitReplay).2 }) :=
  fun _ h => ⟨settle_error hx h, .refl _ _, .refl _ _⟩

end Traceless

theorem traceless_verifyFinalizeResponse {intent : ExitReservationIntent}
    {hold : VerifiedExitCapacityHold} {request : SignedExitFinalizeRequest}
    {signedExit peer : Bytes} {authorizations : List Bytes} : Traceless nowMs c
      (c.verifyFinalizeResponse crypto intent hold request signedExit authorizations peer
        nowMs) := by
  unfold verifyFinalizeResponse
  split
  · exact traceless_refused
  · split
    · exact traceless_refused
    · next hpending =>
      rcases hrun : (c.finalizeAttempt crypto intent hold request signedExit authorizations
        nowMs).settle c.exitReplay with ⟨e | ⟨bundle, identity⟩, cache⟩
      · have hsettle := settle_error restores_finalizeAttempt (congrArg Prod.fst hrun)
        rw [hrun] at hsettle
        exact traceless_of_exit hsettle
      · -- the attempt succeeded, so the pending entry must be gone: but it matched
        cases hlookup : c.pendingNativeAuthorizations.lookup request.finalizeId with
        | none => simp only [pendingMatches, hlookup, not_true_eq_false] at hpending
        | some pending => exact traceless_ok

theorem traceless_verifyRelayResponseInner {authorization signedRelay peer : Bytes}
    {bundleHash relayNodeId : FixedBytes 32} : Traceless nowMs c (c.verifyRelayResponseInner crypto
      authorization bundleHash signedRelay relayNodeId peer nowMs) := by
  unfold verifyRelayResponseInner
  rcases hverify : verifyRelayReservation crypto signedRelay nowMs .default c.relayReplay with
    ⟨e | ⟨relay, exit⟩, cache⟩
  · exact fun _ _ => ⟨.refl _ _, .refl _ _, alike_of_verifyRelayReservation_error hverify⟩
  · dsimp only
    split
    · exact fun _ _ => ⟨.refl _ _, .refl _ _, alike_of_verifyRelayReservation_ok hverify⟩
    · exact traceless_ok

theorem traceless_verifyConfirmationReceipt {grant : VerifiedRelayGrant}
    {signedConfirmation signedReceipt : Bytes} : Traceless nowMs c
      (c.verifyConfirmationReceipt crypto grant signedConfirmation signedReceipt nowMs) := by
  unfold verifyConfirmationReceipt
  rcases hverify : verifyControlMessage (T := ExitConfirmationReceipt) crypto signedReceipt nowMs
    .default c.exitReplay with ⟨e | receipt, cache⟩
  · exact traceless_of_exit (alike_of_verify_error hverify)
  · have hrolled := alike_of_verify_ok hverify
    dsimp only
    split
    · exact traceless_of_exit hrolled
    · split
      · split
        · exact traceless_of_exit hrolled
        · split
          · exact traceless_of_exit hrolled
          · exact traceless_ok
      · exact traceless_of_exit hrolled

/-! ## Queries of the active paths -/

/-- A query of the active paths that is genuine, with a snapshot that is genuine and new but does
not answer it. -/
def Call.unansweredQuery (crypto : Crypto) (c : ReservationCoordinator) : Call → Bool
  | .verifyMptcpPathsState original signedRequest encoded nowMs =>
    match c.mptcpQuery crypto original signedRequest nowMs,
      openControlMessage (T := MptcpPathsState) crypto encoded nowMs .default with
    | .ok (query, parent), .ok state => decide ((c.exitReplay.live nowMs).lookup state.key = none ∧
        (c.exitReplay.live nowMs).rows.length < c.exitReplay.maximumEntries ∧
        answersQuery crypto query parent signedRequest state = false)
    | _, _ => false
  | _ => false

section

variable {original : VerifiedFinalizedExitBundle} {signedRequest encoded : Bytes}

theorem unansweredQuery_iff :
    (Call.verifyMptcpPathsState original signedRequest encoded nowMs).unansweredQuery crypto c =
      true ↔
      ∃ query parent state cache, c.mptcpQuery crypto original signedRequest nowMs =
        .ok (query, parent) ∧
        verifyControlMessage (T := MptcpPathsState) crypto encoded nowMs .default c.exitReplay =
          (.ok state, cache) ∧
        answersQuery crypto query parent signedRequest state = false := by
  simp only [Call.unansweredQuery, verify_eq_ok]
  rcases c.mptcpQuery crypto original signedRequest nowMs with e | ⟨query, parent⟩ <;>
    cases openControlMessage (T := MptcpPathsState) crypto encoded nowMs .default <;>
      simp [and_assoc]

/-- A snapshot that does not answer the query is refused, and stays recorded. -/
theorem verifyMptcpPathsState_of_unanswered
    (h : (Call.verifyMptcpPathsState original signedRequest encoded nowMs).unansweredQuery crypto
      c = true) :
    ∃ (state : VerifiedControlMessage MptcpPathsState) (cache : ReplayCache),
      verifyControlMessage crypto encoded nowMs .default c.exitReplay = (.ok state, cache) ∧
      c.verifyMptcpPathsState crypto original signedRequest encoded nowMs =
        (.error (.scope "MPTCP path-state response"), { c with exitReplay := cache }) := by
  obtain ⟨query, parent, state, cache, hquery, hverify, hanswers⟩ := unansweredQuery_iff.mp h
  exact ⟨state, cache,
    hverify, by simp only [verifyMptcpPathsState, hquery, hverify, hanswers, if_pos]⟩

theorem traceless_verifyMptcpPathsState
    (h : (Call.verifyMptcpPathsState original signedRequest encoded nowMs).unansweredQuery crypto
      c = false) :
    Traceless nowMs c (c.verifyMptcpPathsState crypto original signedRequest encoded nowMs) := by
  unfold verifyMptcpPathsState
  cases hquery : c.mptcpQuery crypto original signedRequest nowMs with
  | error e => exact traceless_refused
  | ok query =>
    rcases hverify : verifyControlMessage (T := MptcpPathsState) crypto encoded nowMs .default
      c.exitReplay with ⟨e | state, cache⟩
    · exact traceless_of_exit (alike_of_verify_error hverify)
    · dsimp only
      split
      · next hanswers =>
        rw [unansweredQuery_iff.mpr ⟨_, _, _, _, hquery, hverify, hanswers⟩] at h
        cases h
      · exact traceless_ok

end

/-! ## A query in the run

The run goes on: the relay's grant is verified, its confirmation completes the attempt, the bearer
is handed out, and the active paths are queried. -/

namespace Sample

/-- The grant of the relay. -/
def relayMessage : RelayReservation := {
  reservationId := List.replicate 16 1, routeContextId := List.replicate 16 2, pathId := 1
  relayNodeId := relay.node.toBytes, exitNodeId := exit.node.toBytes
  clientSessionId := client.node.toBytes, allowedTransports := [1], maximumUpMbps := 10
  maximumDownMbps := 10, clientWireguardPublicKey := List.replicate 32 23
  relayClientWireguardEndpoint := some ⟨List.replicate 32 28, [9, 9, 9, 8], 51822, 0⟩
  relayExitWireguardEndpoint := some ⟨List.replicate 32 29, [9, 9, 9, 8], 51823, 0⟩
  exitWireguardEndpoint := some exitEndpoint, policyHash := List.replicate 32 6, createdAtMs := 1000
  expiresAtMs := 901000, nonce := List.replicate 32 117, exitAuthorization := signedAuthorization
  relayPeerId := [12], capabilityId := List.replicate 16 31
  clientSessionPublicKey := client.key.toBytes, exitBootId := List.replicate 16 32
  holdId := List.replicate 16 33, finalizeId := List.replicate 16 41
  controlRelayNodeId := List.replicate 32 5, controlRelayPeerId := [11], exitPeerId := [10]
  signedClientRelayRequestSha256 := List.replicate 32 65 }

def signedRelay : Bytes := signed 117 relayMessage 1000 901000

def grant : VerifiedRelayGrant :=
  ⟨signedRelay, .replicate 16 1, .replicate 16 2, 1, relay.node, exit.node, .replicate 32 6,
    .replicate 16 31, .replicate 16 32, .replicate 16 33, .replicate 16 41, .replicate 32 5, [11],
    [10], bundleHash, ⟨.replicate 32 28, .v4 9 9 9 8, 51822⟩, 901000⟩

/-- The client's confirmation of the grant, and the exit's receipt for it. -/
def confirmationMessage : ExitReservationConfirmation := {
  reservationId := List.replicate 16 1, routeContextId := List.replicate 16 2, pathId := 1
  relayNodeId := relay.node.toBytes, exitNodeId := exit.node.toBytes
  clientSessionId := client.node.toBytes, policyHash := List.replicate 32 6
  relayReservation := signedRelay, createdAtMs := 2000, expiresAtMs := 31000
  nonce := List.replicate 32 118, capabilityId := List.replicate 16 31
  clientSessionPublicKey := client.key.toBytes, exitBootId := List.replicate 16 32
  holdId := List.replicate 16 33, finalizeId := List.replicate 16 41
  controlRelayNodeId := List.replicate 32 5, controlRelayPeerId := [11], exitPeerId := [10] }

def confirmation : Bytes := signed 118 confirmationMessage 2000 31000

def receiptMessage : ExitConfirmationReceipt := {
  reservationId := List.replicate 16 1, routeContextId := List.replicate 16 2
  clientSessionId := client.node.toBytes, capabilityId := List.replicate 16 31
  holdId := List.replicate 16 33, finalizeId := List.replicate 16 41, pathId := 1
  finalizedBundleHash := bundleHash.toBytes, controlRelayNodeId := List.replicate 32 5
  controlRelayPeerId := [11], exitNodeId := exit.node.toBytes, exitPeerId := [10]
  exitBootId := List.replicate 16 32, createdAtMs := 2000, expiresAtMs := 31000
  nonce := List.replicate 32 119
  confirmationEnvelopeHash := FixedBytes.toBytes
    (.ofNat 32 0xc955af2147e230ace4581594bc5c74505ac9d964ce38d78eafc792cae72afbc4) }

def signedReceipt : Bytes := signed 119 receiptMessage 2000 31000

/-- A query of the active paths. -/
def query (number : ℕ) : Bytes :=
  signed number (⟨signedExit⟩ : MptcpPathsRequest) 2000 7000

/-- The snapshot that answers the first query. -/
def snapshot : MptcpPathsState where
  requestSha256 := (mptcpPathsRequestHash signatures.primitives (query 110)).toBytes
  routeContextId := List.replicate 16 2
  reservationId := List.replicate 16 1
  exitNodeId := exit.node.toBytes
  hardExpiresAtMs := 901000
  revision := 1
  activePathIds := [1, 2]

def signedSnapshot : Bytes := signed 112 snapshot 2000 7000

/-- The calls up to the hand-out of the bearer. -/
def confirmed : List Call :=
  [.verifyRelayResponse bundle signedRelay 0 relay.node [12] 2000,
    .verifyConfirmationReceipt grant confirmation signedReceipt 2000,
    .takeNativeRouteAuthorization (.replicate 16 41) 2000]

/-- The run. The snapshot answers query 110, and is checked against query 111. -/
def calls : List Call := finalized ++ confirmed ++
  [.verifyMptcpPathsState bundle (query 111) signedSnapshot 2000]

/-- The coordinator after the bearer was handed out. -/
def afterConfirmed : ReservationCoordinator := { start with
  exitReplay := ⟨16, [entry exit 101 901000, entry exit 102 31000, entry exit 104 31000,
    entry exit 108 901000, entry exit 109 901000, entry exit 119 31000], by decide +kernel⟩
  probeReplay := afterFinalized.probeReplay
  relayReplay := ⟨16, [entry relay 117 901000, entry exit 109 901000], by decide +kernel⟩
  clientPaths := afterFinalized.clientPaths }

/-- The run to the hand-out of the bearer, evaluated. -/
theorem run_confirmed :
    (∀ e ∈ (machine signatures.primitives).events start (finalized ++ confirmed),
      ∃ answer, e.output = .ok answer) ∧
    (machine signatures.primitives).run start (finalized ++ confirmed) = afterConfirmed := by
  have hleads : leadsTo signatures.primitives afterConfirmed afterFinalized confirmed = true := by
    decide +kernel
  obtain ⟨hevents, hrun⟩ := run_of_leadsTo hleads ⟨rfl, rfl⟩
  rw [Machine.events_append, Machine.run_append, run_finalized.2, List.forall_mem_append]
  exact ⟨⟨run_finalized.1, hevents⟩, hrun⟩

/-- A hold whose terms are not those that were asked for: both its envelopes are genuine. -/
def mistaken : Call :=
  .verifyHoldResponse { intent with holdExpiresAtMs := 30000 } signedCapability signedHold [10] 2000

end Sample

/-! ## The result -/

section

variable {α : Type} {outcome : Outcome α} {f : α → Answer} {e : CoordinatorError}

theorem answer_eq_error : (outcome.answer f).1 = .error e ↔ outcome.1 = .error e := by
  rcases outcome with ⟨_ | _, _⟩ <;> simp [Outcome.answer, Except.map]

theorem Traceless.answer (h : Traceless nowMs c outcome)
    (herror : (outcome.answer f).1 = .error e) : SameReplay nowMs (outcome.answer f).2 c :=
  h e (answer_eq_error.mp herror)

end

/-- **What a failed verification leaves behind.** An operation that verifies a response and fails
leaves the live entries of every replay cache as they were, and then every later message is judged
as if it had not been called; the exception is a genuine snapshot of the active paths that does not
answer the query. -/
theorem failed_verification (crypto : Crypto) (c : ReservationCoordinator) (call : Call) (nowMs : ℕ)
    (e : CoordinatorError) (hverifies : call.verifiesAt = some nowMs)
    (herror : (c.call crypto call).1 = .error e) :
    (SameReplay nowMs (c.call crypto call).2 c ↔ call.unansweredQuery crypto c = false) ∧
    (SameReplay nowMs (c.call crypto call).2 c →
      ∀ cache ∈ [exitReplay, probeReplay, relayReplay],
        ∀ (T : Type) (_ : ControlPayload T) (encoded : Bytes) (laterMs : ℕ), nowMs ≤ laterMs →
          (verifyControlMessage (T := T) crypto encoded laterMs .default
            (cache (c.call crypto call).2)).1 =
          (verifyControlMessage (T := T) crypto encoded laterMs .default (cache c)).1) := by
  constructor
  · cases call with cases hverifies
    | verifyHoldResponse =>
      exact iff_of_true ((traceless_settle_exit restores_holdAttempt).answer herror) rfl
    | verifyProbePermit =>
      exact iff_of_true ((traceless_settle_exit restores_permitAttempt).answer herror) rfl
    | verifyProbeResult =>
      exact iff_of_true ⟨.refl _ _,
        settle_error restores_resultAttempt (answer_eq_error.mp herror), .refl _ _⟩ rfl
    | verifyFinalizeResponse =>
      exact iff_of_true (traceless_verifyFinalizeResponse.answer herror) rfl
    | verifyConfirmationReceipt =>
      exact iff_of_true (traceless_verifyConfirmationReceipt.answer herror) rfl
    | verifyRouteExtensionResponse =>
      refine iff_of_true (Traceless.answer ?_ herror) rfl
      unfold verifyRouteExtensionResponse
      split
      · exact traceless_refused
      · exact traceless_settle_exit restores_extensionAttempt
    | verifyRelayResponse | verifyExtensionRelayResponse =>
      refine iff_of_true (Traceless.answer ?_ herror) rfl
      simp only [verifyRelayResponse, verifyExtensionRelayResponse]
      split
      · exact traceless_refused
      · exact traceless_verifyRelayResponseInner
    | verifyMptcpPathsState original signedRequest encoded =>
      rw [← Bool.not_eq_true]
      refine ⟨fun hsame hunanswered => ?_, fun h => ?_⟩
      · obtain ⟨state, cache, hverify, houtcome⟩ := verifyMptcpPathsState_of_unanswered hunanswered
        have hlive := hsame.exit.live
        simp only [ReservationCoordinator.call, Outcome.answer, houtcome] at hlive
        exact not_alike_of_verify_ok hverify hlive
      · exact (traceless_verifyMptcpPathsState (Bool.eq_false_of_not_eq_true h)).answer herror
  · intro hsame cache hcache T payload encoded laterMs hle
    simp only [List.mem_cons, List.not_mem_nil, or_false] at hcache
    rcases hcache with rfl | rfl | rfl
    · exact hsame.exit.verifyControlMessage hle crypto T encoded .default
    · exact hsame.probe.verifyControlMessage hle crypto T encoded .default
    · exact hsame.relay.verifyControlMessage hle crypto T encoded .default

open Sample in
/-- A hold response that is refused after both its envelopes were verified leaves the caches as they
were, and both are accepted in a use that is right. -/
theorem failed_verification_hold :
    (start.call signatures.primitives mistaken).1 = .error (.scope "exit capacity hold") ∧
    SameReplay 2000 (start.call signatures.primitives mistaken).2 start ∧
    (verifyControlMessage (T := ClientSessionCapability) signatures.primitives signedCapability 2000
      .default (start.call signatures.primitives mistaken).2.exitReplay).1.isOk = true ∧
    (verifyControlMessage (T := ExitCapacityHold) signatures.primitives signedHold 2000
      .default (start.call signatures.primitives mistaken).2.exitReplay).1.isOk = true := by
  have herror : (start.call signatures.primitives mistaken).1 =
      .error (.scope "exit capacity hold") := by decide +kernel
  obtain ⟨hsame, hlater⟩ :=
    failed_verification signatures.primitives start mistaken 2000 _ rfl herror
  have hreplay := hlater (hsame.mpr rfl) exitReplay List.mem_cons_self
  refine ⟨herror, hsame.mpr rfl, ?_, ?_⟩
  · rw [hreplay ClientSessionCapability _ _ 2000 le_rfl]
    decide +kernel
  · rw [hreplay ExitCapacityHold _ _ 2000 le_rfl]
    decide +kernel

open Sample in
/-- In the sample run, a snapshot that is checked against the wrong query stays recorded: the check
fails, the live entries are others than before, and the snapshot is refused from then on. -/
theorem unanswered_query_recorded :
    ∃ past e later, (machine signatures.primitives).events start calls = past ++ e :: later ∧
      (∀ f ∈ past, ∃ answer, f.output = .ok answer) ∧
      e.input = .verifyMptcpPathsState bundle (query 111) signedSnapshot 2000 ∧
      e.output = .error (.scope "MPTCP path-state response") ∧
      e.after.exitReplay.live 2000 ≠ e.before.exitReplay.live 2000 ∧
      (verifyControlMessage (T := MptcpPathsState) signatures.primitives signedSnapshot 2000
        .default e.after.exitReplay).1 = .error .replay := by
  have hunanswered : (Call.verifyMptcpPathsState bundle (query 111) signedSnapshot
      2000).unansweredQuery signatures.primitives afterConfirmed = true := by decide +kernel
  obtain ⟨state, cache, hverify, houtcome⟩ := verifyMptcpPathsState_of_unanswered hunanswered
  refine ⟨(machine signatures.primitives).events start (finalized ++ confirmed),
    (machine signatures.primitives).event afterConfirmed
      (.verifyMptcpPathsState bundle (query 111) signedSnapshot 2000), [], ?_, run_confirmed.1,
    rfl, ?_⟩
  · rw [calls, Machine.events_append, run_confirmed.2]
    rfl
  · simp only [Machine.event, Machine.next, machine, ReservationCoordinator.call, Outcome.answer,
      houtcome]
    exact ⟨rfl, not_alike_of_verify_ok hverify, verify_again hverify⟩

end Volparossa.Reservation.ReservationCoordinator
