import Volparossa.Reservation.Coordinator.Leases
import Volparossa.Reservation.Coordinator.Rollback

/-!
# The native route bearer

A finalization draws a route bearer and commits to it in the request that it signs. The bearer waits
with the coordinator until the exit's response and the receipts of all paths have been verified, and
is then handed out, which takes it away.

`pendingChange` says what an operation does to the attempts that wait. `PendingOrigin` ties an
attempt to the history: the finalization that opened it, and what has been verified for it since. It
holds of every attempt in every run (`traced_run`), and what a hand-out needs of the attempt
is then what must have happened before it (`native_route_authorization`).
-/

namespace Volparossa.Reservation.ReservationCoordinator

open Protocol ReservationCoordinator

open Transaction (Crypto)

open Wireguard (ClientEndpointLease)

variable {crypto : Crypto} {c : ReservationCoordinator}

/-- A step of a run. -/
abbrev Step := Machine.Event ReservationCoordinator Call (Except CoordinatorError Answer)

/-! ## What an operation does to the attempts -/

/-- The attempts after an operation. -/
inductive PendingChange (crypto : Crypto) (c : ReservationCoordinator) :
    Call → Except CoordinatorError Answer →
      Table PendingNativeRouteAuthorization.finalizeId → Prop
  | filtered {call : Call} {output : Except CoordinatorError Answer}
      {p : PendingNativeRouteAuthorization → Bool}
      (hfinalize : ∀ signed, output ≠ .ok (.finalize signed))
      (htake : ∀ authorization, output ≠ .ok (.authorization authorization)) :
      PendingChange crypto c call output (c.pendingNativeAuthorizations.filter p)
  | opened {intent : ExitReservationIntent} {hold : VerifiedExitCapacityHold}
      {probes : List VerifiedRelayProbe} {createdAtMs expiresAtMs : ℕ}
      {provider : ℕ → Option ClientEndpointLease} {draws : FinalizeDraws}
      {prepared : PreparedFinalize}
      (h : c.prepareFinalize crypto intent hold probes createdAtMs expiresAtMs provider draws =
        .ok prepared) :
      PendingChange crypto c
        (.signFinalizeRequest intent hold probes createdAtMs expiresAtMs provider draws)
        (.ok (.finalize prepared.signed)) (c.pendingNativeAuthorizations.put prepared.pending)
  | answered {intent : ExitReservationIntent} {hold : VerifiedExitCapacityHold}
      {request : SignedExitFinalizeRequest} {signedExitReservation : Bytes}
      {relayAuthorizations : List Bytes} {authenticatedExitPeerId : Bytes} {nowMs : ℕ}
      {bundle : VerifiedFinalizedExitBundle} {identity : NativeRouteIdentity} :
      PendingChange crypto c
        (.verifyFinalizeResponse intent hold request signedExitReservation relayAuthorizations
          authenticatedExitPeerId nowMs) (.ok (.bundle bundle))
        (c.pendingNativeAuthorizations.modify request.finalizeId (fun pending => { pending with
          finalizedBundleHash := some bundle.finalizedBundleHash
          identity := some identity }) fun _ => rfl)
  | confirmed {grant : VerifiedRelayGrant} {signedConfirmation signedReceipt : Bytes} {nowMs : ℕ} :
      PendingChange crypto c
        (.verifyConfirmationReceipt grant signedConfirmation signedReceipt nowMs) (.ok .confirmed)
        (c.pendingNativeAuthorizations.modify grant.finalizeId (fun pending => { pending with
          confirmedPathIds := insert grant.pathId pending.confirmedPathIds }) fun _ => rfl)
  | taken {finalizeId : FixedBytes 16} {nowMs : ℕ} {pending : PendingNativeRouteAuthorization}
      {identity : NativeRouteIdentity}
      (hpending : c.pendingNativeAuthorizations.lookup finalizeId = some pending)
      (hexpiry : nowMs < pending.expiresAtMs) (hconfirmed : fullyConfirmed crypto pending = true)
      (hidentity : pending.identity = some identity) :
      PendingChange crypto c (.takeNativeRouteAuthorization finalizeId nowMs)
        (.ok (.authorization ⟨pending.reservationId, pending.routeContextId, finalizeId,
          pending.exitNodeId, pending.authBearer, identity, pending.expiresAtMs⟩))
        (c.pendingNativeAuthorizations.erase finalizeId)

/-- A call whose operation leaves the attempts alone. -/
theorem PendingChange.of_eq {call : Call} {output : Except CoordinatorError Answer}
    {pending : Table PendingNativeRouteAuthorization.finalizeId}
    (hfinalize : ∀ signed, output ≠ .ok (.finalize signed))
    (htake : ∀ authorization, output ≠ .ok (.authorization authorization))
    (hpending : pending = c.pendingNativeAuthorizations) :
    PendingChange crypto c call output pending := by
  have hfilter : pending = c.pendingNativeAuthorizations.filter fun _ => true := by
    rw [hpending]
    exact Table.ext (List.filter_true _).symm
  rw [hfilter]
  exact .filtered hfinalize htake

/-- An answer of another kind. -/
theorem answer_ne {α : Type} {outcome : Outcome α} {f : α → Answer} {answer : Answer}
    (h : ∀ a, f a ≠ answer) : (outcome.answer f).1 ≠ .ok answer := by
  rcases outcome with ⟨_ | a, _⟩
  · exact nofun
  · exact fun heq => h a (Except.ok.inj heq)

/-- An operation that answers with something else, and leaves the attempts alone. -/
theorem PendingChange.of_answer {α : Type} {call : Call} {outcome : Outcome α} {f : α → Answer}
    (hf : ∀ a, (∀ signed, f a ≠ .finalize signed) ∧
      ∀ authorization, f a ≠ .authorization authorization)
    (hpending : outcome.2.pendingNativeAuthorizations = c.pendingNativeAuthorizations) :
    PendingChange crypto c call (outcome.answer f).1 outcome.2.pendingNativeAuthorizations :=
  .of_eq (fun signed => answer_ne fun a => (hf a).1 signed)
    (fun authorization => answer_ne fun a => (hf a).2 authorization) hpending

theorem pendingChange_takeNativeRouteAuthorization (crypto : Crypto) (c : ReservationCoordinator)
    (finalizeId : FixedBytes 16) (nowMs : ℕ) :
    PendingChange crypto c (.takeNativeRouteAuthorization finalizeId nowMs)
      ((c.takeNativeRouteAuthorization crypto finalizeId nowMs).answer .authorization).1
      (c.takeNativeRouteAuthorization crypto finalizeId nowMs).2.pendingNativeAuthorizations := by
  unfold takeNativeRouteAuthorization
  cases hpending : c.pendingNativeAuthorizations.lookup finalizeId with
  | none => exact .of_eq nofun nofun rfl
  | some pending =>
    dsimp only
    split
    · exact .filtered nofun nofun
    next hexpiry =>
    split
    · exact .of_eq nofun nofun rfl
    next hconfirmed =>
    rw [Bool.not_eq_false] at hconfirmed
    cases hidentity : pending.identity with
    | none =>
      -- An attempt that is fully confirmed has an identity.
      rw [fullyConfirmed, decide_eq_true_eq] at hconfirmed
      have hmatches := hconfirmed.2.1
      rw [PendingNativeRouteAuthorization.identityMatches, hidentity] at hmatches
      cases hmatches
    | some identity => exact .taken hpending (Nat.lt_of_not_le hexpiry) hconfirmed hidentity

/-- **What an operation does to the attempts.** -/
theorem pendingChange (crypto : Crypto) (c : ReservationCoordinator) (call : Call) :
    PendingChange crypto c call (c.call crypto call).1
      (c.call crypto call).2.pendingNativeAuthorizations := by
  cases call with
  | signFinalizeRequest intent hold probes createdAtMs expiresAtMs provider draws =>
    cases h : c.prepareFinalize crypto intent hold probes createdAtMs expiresAtMs provider
      draws with
    | error e =>
      simp only [call, signFinalizeRequest, h]
      exact .of_eq (by rintro _ ⟨⟩) (by rintro _ ⟨⟩) rfl
    | ok prepared =>
      simp only [call, signFinalizeRequest, h]
      exact .opened h
  | verifyFinalizeResponse =>
    simp only [call, verifyFinalizeResponse]
    repeat' split
    any_goals exact .of_answer (fun _ => ⟨by simp, by simp⟩) rfl
    exact .answered
  | verifyConfirmationReceipt =>
    simp only [call, verifyConfirmationReceipt]
    repeat' split
    any_goals exact .of_answer (fun _ => ⟨by simp, by simp⟩) rfl
    exact .confirmed
  | takeNativeRouteAuthorization => exact pendingChange_takeNativeRouteAuthorization ..
  | release reservationId => exact .filtered (by rintro _ ⟨⟩) (by rintro _ ⟨⟩)
  | purgeExpired nowMs => exact .filtered (by rintro _ ⟨⟩) (by rintro _ ⟨⟩)
  | verifyHoldResponse | verifyProbePermit | verifyProbeResult =>
    exact .of_answer (fun _ => ⟨by simp, by simp⟩) rfl
  | _ =>
    refine .of_answer (fun _ => ⟨by simp, by simp⟩) ?_
    simp only [signExtensionRelayRequest, verifyRelayResponse, verifyRelayResponseInner,
      verifyExtensionRelayResponse, verifyRouteExtensionResponse, verifyMptcpPathsState]
    repeat' split
    all_goals rfl

/-! ## What a finalization commits to -/

/-- The request that was signed: it carries the identifier, the commitment, the two native instance
values and the paths that the finalization reports. -/
def Signs (crypto : Crypto) (c : ReservationCoordinator) (signed : SignedExitFinalizeRequest) :
    Prop :=
  ∃ (request : ExitReservationFinalizeRequest) (createdAtMs expiresAtMs : ℕ)
    (nonce : FixedBytes 32),
    c.sign crypto request createdAtMs expiresAtMs nonce = .ok signed.encoded ∧
    request.finalizeId = signed.finalizeId.toBytes ∧
    request.authCommitment = signed.authCommitment.toBytes ∧
    request.masqueContextId = signed.masqueContextId ∧
    request.clientNativeInstanceId = signed.clientNativeInstanceId.toBytes ∧
    request.relayPaths.map (·.pathId) = signed.paths.map (·.pathId)

variable {intent : ExitReservationIntent} {probes : List VerifiedRelayProbe}

theorem pathIds_of_selectPath {hold : VerifiedExitCapacityHold} {paths : List RelayPathIntent}
    (h : probes.foldlM (selectPath intent hold) [] = .ok paths) :
    paths.map (·.pathId) = probes.map (·.permit.permit.pathId) := by
  refine foldlM_invariant
    (fun past paths => paths.map (·.pathId) = past.map (·.permit.permit.pathId)) ?_ rfl h
  intro past probe paths paths' hpaths hstep
  simp only [selectPath, ok_iff, exists_const] at hstep
  obtain ⟨relayNodeId, -, -, -, rfl⟩ := hstep
  rw [List.map_append, List.map_append, hpaths]
  rfl

/-- An attempt as a finalization opened it, up to what has been verified since. -/
structure Opens (intent : ExitReservationIntent) (signed : SignedExitFinalizeRequest)
    (pending : PendingNativeRouteAuthorization) : Prop where
  finalizeId : pending.finalizeId = signed.finalizeId
  authCommitment : pending.authCommitment = signed.authCommitment
  masqueContextId : pending.masqueContextId = signed.masqueContextId
  clientNativeInstanceId : pending.clientNativeInstanceId = signed.clientNativeInstanceId
  expiresAtMs : pending.expiresAtMs = intent.reservationExpiresAtMs
  expectedPathIds : pending.expectedPathIds = (signed.paths.map (·.pathId)).toFinset

/-- What a finalization opens: an attempt for which nothing has been verified. -/
theorem pending_of_prepareFinalize {hold : VerifiedExitCapacityHold} {createdAtMs expiresAtMs : ℕ}
    {provider : ℕ → Option ClientEndpointLease} {draws : FinalizeDraws}
    {prepared : PreparedFinalize}
    (h : c.prepareFinalize crypto intent hold probes createdAtMs expiresAtMs provider draws =
      .ok prepared) :
    Signs crypto c prepared.signed ∧ Opens intent prepared.signed prepared.pending ∧
      prepared.pending.identity = none ∧ prepared.pending.confirmedPathIds = ∅ := by
  simp only [prepareFinalize, ok_iff, exists_const] at h
  obtain ⟨-, -, -, paths, hpaths, leases, hleases, finalizeId, -, authBearer, -, authCommitment,
    -, encoded, hencoded, rfl⟩ := h
  refine ⟨⟨_, _, _, _, hencoded, rfl, rfl, rfl, rfl, ?_⟩, ⟨rfl, rfl, rfl, rfl, rfl, rfl⟩, rfl, rfl⟩
  rw [pathIds_of_selectPath hpaths, ← (generated_of_foldlM hleases).1]
  simp only [finalizeRequest, List.map_map]
  rfl

/-! ## The history of an attempt -/

/-- A step that signs a finalization. -/
def Finalizes (intent : ExitReservationIntent) (signed : SignedExitFinalizeRequest) (e : Step) :
    Prop :=
  (∃ hold probes createdAtMs expiresAtMs provider draws, e.input =
    .signFinalizeRequest intent hold probes createdAtMs expiresAtMs provider draws) ∧
  e.output = .ok (.finalize signed)

/-- A step that verifies the response to a finalization. -/
def VerifiesResponse (finalizeId : FixedBytes 16) (e : Step) : Prop :=
  (∃ intent hold request signedExitReservation relayAuthorizations authenticatedExitPeerId nowMs,
    e.input = .verifyFinalizeResponse intent hold request signedExitReservation relayAuthorizations
      authenticatedExitPeerId nowMs ∧ request.finalizeId = finalizeId) ∧
  ∃ bundle, e.output = .ok (.bundle bundle)

/-- A step that verifies the receipt for a path of a finalization. -/
def VerifiesReceipt (finalizeId : FixedBytes 16) (pathId : ℕ) (e : Step) : Prop :=
  (∃ grant signedConfirmation signedReceipt nowMs,
    e.input = .verifyConfirmationReceipt grant signedConfirmation signedReceipt nowMs ∧
      grant.finalizeId = finalizeId ∧ grant.pathId = pathId) ∧
  e.output = .ok .confirmed

/-- A step that hands out the bearer of a finalization. -/
def HandsOut (finalizeId : FixedBytes 16) (nowMs : ℕ)
    (authorization : ClientNativeRouteAuthorization) (e : Step) : Prop :=
  e.input = .takeNativeRouteAuthorization finalizeId nowMs ∧
    e.output = .ok (.authorization authorization)

/-- A step that neither opens nor closes an attempt with this identifier. -/
def LeavesOpen (finalizeId : FixedBytes 16) (e : Step) : Prop :=
  (∀ intent signed, Finalizes intent signed e → signed.finalizeId ≠ finalizeId) ∧
    ∀ nowMs authorization, ¬HandsOut finalizeId nowMs authorization e

/-- Where an attempt comes from: the finalization `f` that opened it, and the steps since then,
which neither opened nor closed one with its identifier, and among which is everything that has been
verified for it. -/
structure PendingOrigin (crypto : Crypto) (f : Step) (since : List Step)
    (intent : ExitReservationIntent) (signed : SignedExitFinalizeRequest)
    (pending : PendingNativeRouteAuthorization) : Prop where
  finalizes : Finalizes intent signed f
  signs : Signs crypto f.before signed
  opens : Opens intent signed pending
  leavesOpen : ∀ e ∈ since, LeavesOpen signed.finalizeId e
  answered : pending.identity ≠ none → ∃ e ∈ since, VerifiesResponse signed.finalizeId e
  confirmed : ∀ pathId ∈ pending.confirmedPathIds,
    ∃ e ∈ since, VerifiesReceipt signed.finalizeId pathId e

/-- Every attempt has an origin in the steps so far. -/
def Traced (crypto : Crypto) (past : List Step) (c : ReservationCoordinator) : Prop :=
  ∀ pending ∈ c.pendingNativeAuthorizations.rows, ∃ earlier f since intent signed,
    past = earlier ++ f :: since ∧ PendingOrigin crypto f since intent signed pending

/-- An origin stays one after a step that neither opens nor closes the attempt. -/
theorem PendingOrigin.concat {f e : Step} {since : List Step} {signed : SignedExitFinalizeRequest}
    {pending : PendingNativeRouteAuthorization}
    (h : PendingOrigin crypto f since intent signed pending) (he : LeavesOpen signed.finalizeId e) :
    PendingOrigin crypto f (since ++ [e]) intent signed pending where
  finalizes := h.finalizes
  signs := h.signs
  opens := h.opens
  leavesOpen := forall_mem_concat h.leavesOpen he
  answered hidentity := by
    obtain ⟨g, hg, hverifies⟩ := h.answered hidentity
    exact ⟨g, List.mem_append_left _ hg, hverifies⟩
  confirmed pathId hpathId := by
    obtain ⟨g, hg, hverifies⟩ := h.confirmed pathId hpathId
    exact ⟨g, List.mem_append_left _ hg, hverifies⟩

variable {finalizeId : FixedBytes 16}

/-- A step that returns neither a finalization nor a bearer. -/
theorem leavesOpen_of_output {e : Step} (hfinalize : ∀ signed, e.output ≠ .ok (.finalize signed))
    (htake : ∀ authorization, e.output ≠ .ok (.authorization authorization)) :
    LeavesOpen finalizeId e :=
  ⟨fun _ signed h => (hfinalize signed h.2).elim, fun _ authorization h => htake authorization h.2⟩

/-- Attempts stay traced: a step closes an attempt, opens one, or adds what it verified. -/
theorem PendingChange.traced {past : List Step} {e : Step} (htraced : Traced crypto past e.before)
    (h : PendingChange crypto e.before e.input e.output e.after.pendingNativeAuthorizations) :
    Traced crypto (past ++ [e]) e.after := by
  have hold : ∀ pending ∈ e.before.pendingNativeAuthorizations.rows,
      LeavesOpen pending.finalizeId e → ∃ earlier f since intent signed,
        past ++ [e] = earlier ++ f :: since ∧ e ∈ since ∧
        PendingOrigin crypto f since intent signed pending := by
    intro pending hpending hleaves
    obtain ⟨earlier, f, since, intent, signed, rfl, horigin⟩ := htraced pending hpending
    rw [horigin.opens.finalizeId] at hleaves
    exact ⟨earlier, f, since ++ [e], intent, signed, by simp, by simp, horigin.concat hleaves⟩
  have hkept : ∀ pending ∈ e.before.pendingNativeAuthorizations.rows,
      LeavesOpen pending.finalizeId e → ∃ earlier f since intent signed,
        past ++ [e] = earlier ++ f :: since ∧
        PendingOrigin crypto f since intent signed pending := by
    intro pending hpending hleaves
    obtain ⟨earlier, f, since, intent, signed, hpast, -, horigin⟩ := hold pending hpending hleaves
    exact ⟨earlier, f, since, intent, signed, hpast, horigin⟩
  obtain ⟨c, call, output, c'⟩ := e
  unfold Traced
  dsimp only at h hold hkept ⊢
  generalize c'.pendingNativeAuthorizations = table at h ⊢
  intro pending hpending
  cases h with
  | filtered hfinalize htake =>
    exact hkept pending (Table.mem_filter.mp hpending).1 (leavesOpen_of_output hfinalize htake)
  | opened h =>
    obtain ⟨hsigns, hopens, hidentity, hconfirmed⟩ := pending_of_prepareFinalize h
    rcases Table.mem_put.mp hpending with rfl | ⟨hpending, hne⟩
    · refine ⟨past, _, [], _, _, rfl, ⟨⟨_, _, _, _, _, _, rfl⟩, rfl⟩, hsigns, hopens, by simp,
        fun h => (h hidentity).elim, fun pathId h => ?_⟩
      rw [hconfirmed] at h
      exact absurd h (Finset.notMem_empty _)
    · exact hkept pending hpending ⟨fun intent' signed' hfinalizes heq => hne (by
        rw [hopens.finalizeId, ← heq, Answer.finalize.inj (Except.ok.inj hfinalizes.2)]), nofun⟩
  | answered =>
    obtain ⟨old, hmem, rfl⟩ := Table.mem_modify.mp hpending
    split
    · next hkey =>
      obtain ⟨earlier, f, since, intent, signed, hpast, he, horigin⟩ :=
        hold old hmem (leavesOpen_of_output nofun nofun)
      have hid := hkey.symm.trans horigin.opens.finalizeId
      exact ⟨earlier, f, since, intent, signed, hpast, { horigin with
        opens := { horigin.opens with }
        answered := fun _ => ⟨_, he, ⟨_, _, _, _, _, _, _, rfl, hid⟩, _, rfl⟩ }⟩
    · exact hkept old hmem (leavesOpen_of_output nofun nofun)
  | confirmed =>
    obtain ⟨old, hmem, rfl⟩ := Table.mem_modify.mp hpending
    split
    · next hkey =>
      obtain ⟨earlier, f, since, intent, signed, hpast, he, horigin⟩ :=
        hold old hmem (leavesOpen_of_output nofun nofun)
      have hid := hkey.symm.trans horigin.opens.finalizeId
      refine ⟨earlier, f, since, intent, signed, hpast, { horigin with
        opens := { horigin.opens with }
        confirmed := fun pathId h => ?_ }⟩
      rcases Finset.mem_insert.mp h with rfl | h
      · exact ⟨_, he, ⟨_, _, _, _, rfl, hid, rfl⟩, rfl⟩
      · exact horigin.confirmed pathId h
    · exact hkept old hmem (leavesOpen_of_output nofun nofun)
  | taken hpending' hexpiry hconfirmed hidentity =>
    obtain ⟨hpending, hne⟩ := Table.mem_erase.mp hpending
    exact hkept pending hpending ⟨nofun, fun nowMs authorization h => hne (by cases h.1; rfl)⟩

theorem traced_run (crypto : Crypto) {sessionKey : SigningKey} {replayCapacity : ℕ}
    (hnew : new crypto sessionKey replayCapacity = .ok c)
    (calls : List Call) :
    Traced crypto ((machine crypto).events c calls) ((machine crypto).run c calls) := by
  refine Machine.history_invariant (fun pending hpending => ?_) (fun past c call htraced => ?_)
    calls
  · simp only [new, ok_iff] at hnew
    obtain ⟨cache, -, rfl⟩ := hnew
    exact absurd hpending List.not_mem_nil
  · exact PendingChange.traced (e := (machine crypto).event c call) htraced
      (pendingChange crypto c call)

/-- What stands behind a hand-out: the finalization `f` with its signed request, and since then its
verified response and a verified receipt for each of its paths. The bearer is the one that the
request commits to, the identity is the one of the request, and the attempt has not expired. -/
structure Entitled (crypto : Crypto) (f : Step) (since : List Step) (intent : ExitReservationIntent)
    (signed : SignedExitFinalizeRequest) (nowMs : ℕ)
    (authorization : ClientNativeRouteAuthorization) : Prop where
  finalizes : Finalizes intent signed f
  signs : Signs crypto f.before signed
  answered : ∃ e ∈ since, VerifiesResponse signed.finalizeId e
  confirmed : ∀ path ∈ signed.paths, ∃ e ∈ since, VerifiesReceipt signed.finalizeId path.pathId e
  unexpired : nowMs < intent.reservationExpiresAtMs
  expiresAtMs : authorization.expiresAtMs = intent.reservationExpiresAtMs
  authCommitment : authorization.identity.authCommitment = signed.authCommitment.toBytes
  masqueContextId : authorization.identity.masqueContextId = signed.masqueContextId
  clientNativeInstanceId :
    authorization.identity.clientNativeInstanceId = signed.clientNativeInstanceId.toBytes
  authBearer : nativeRouteAuthCommitment crypto authorization.authBearer = .ok signed.authCommitment

/-- A hand-out is of an attempt that is fully confirmed, so that its origin is all that it needs. -/
theorem PendingChange.entitled {past : List Step} {e : Step} {nowMs : ℕ}
    {authorization : ClientNativeRouteAuthorization} (htraced : Traced crypto past e.before)
    (h : PendingChange crypto e.before e.input e.output e.after.pendingNativeAuthorizations)
    (hhands : HandsOut finalizeId nowMs authorization e) :
    ∃ earlier f since intent signed, past = earlier ++ f :: since ∧ signed.finalizeId = finalizeId ∧
      (∀ g ∈ since, LeavesOpen finalizeId g) ∧
      Entitled crypto f since intent signed nowMs authorization := by
  obtain ⟨c, call, output, c'⟩ := e
  obtain ⟨hinput, houtput⟩ := hhands
  dsimp only at h hinput houtput htraced
  generalize c'.pendingNativeAuthorizations = table at h
  subst hinput houtput
  cases h with
  | filtered hfinalize htake => exact (htake _ rfl).elim
  | taken hpending hexpiry hconfirmed hidentity =>
    obtain ⟨earlier, f, since, intent, signed, hpast, horigin⟩ :=
      htraced _ (Table.mem_of_lookup hpending)
    have hid := horigin.opens.finalizeId.symm.trans (Table.key_of_lookup hpending)
    rw [fullyConfirmed, decide_eq_true_eq] at hconfirmed
    obtain ⟨-, hmatches, hbearer, -, hpaths⟩ := hconfirmed
    rw [PendingNativeRouteAuthorization.identityMatches, hidentity, decide_eq_true_eq] at hmatches
    obtain ⟨hcommitment, hmasque, hinstance⟩ := hmatches
    refine ⟨earlier, f, since, intent, signed, hpast, hid, hid ▸ horigin.leavesOpen, ?_⟩
    exact {
      finalizes := horigin.finalizes
      signs := horigin.signs
      answered := horigin.answered (by rw [hidentity]; exact Option.some_ne_none _)
      confirmed := fun path hpath => horigin.confirmed _ (by
        rw [hpaths, horigin.opens.expectedPathIds, List.mem_toFinset]
        exact List.mem_map_of_mem hpath)
      unexpired := horigin.opens.expiresAtMs ▸ hexpiry
      expiresAtMs := horigin.opens.expiresAtMs
      authCommitment := horigin.opens.authCommitment ▸ hcommitment
      masqueContextId := horigin.opens.masqueContextId ▸ hmasque
      clientNativeInstanceId := horigin.opens.clientNativeInstanceId ▸ hinstance
      authBearer := horigin.opens.authCommitment ▸ hbearer }

/-- In a list that splits at `e` and at `f`, the second comes after the first, unless the first is
among those after it. -/
theorem mem_of_append_cons_eq {past mid earlier since : List Step} {e f : Step}
    (h : past ++ e :: mid = earlier ++ f :: since) (hne : e ≠ f) (he : e ∉ since) : f ∈ mid := by
  rcases List.append_eq_append_iff.mp h with ⟨rest, -, hrest⟩ | ⟨rest, -, hrest⟩
  · cases rest with
    | nil => exact (hne (List.cons.inj hrest).1).elim
    | cons g rest =>
      rw [(List.cons.inj hrest).2]
      exact List.mem_append_right _ List.mem_cons_self
  · cases rest with
    | nil => exact (hne (List.cons.inj hrest).1.symm).elim
    | cons g rest =>
      rw [List.cons_append, List.cons.injEq] at hrest
      rw [hrest.2] at he
      exact (he (List.mem_append_right _ List.mem_cons_self)).elim

/-- What a successful call for a bearer answers. -/
theorem answer_of_take {nowMs : ℕ} {answer : Answer}
    (h : ((machine crypto).event c (.takeNativeRouteAuthorization finalizeId nowMs)).output =
      .ok answer) : ∃ authorization, answer = .authorization authorization := by
  change ((c.takeNativeRouteAuthorization crypto finalizeId nowMs).answer .authorization).1 = _ at h
  generalize c.takeNativeRouteAuthorization crypto finalizeId nowMs = outcome at h
  rcases outcome with ⟨_ | authorization, _⟩
  · cases h
  · exact ⟨authorization, (Except.ok.inj h).symm⟩

/-- **The route bearer is affine.** In every run of a new coordinator, whatever its operations and
their order, the bearer of a finalization is handed out only when the finalization has been
answered, all its paths have been confirmed, it has not expired and the identity is the one it
commits to; and after a hand-out there is no other one for the same identifier, unless the
identifier is drawn again by a later finalization. -/
theorem native_route_authorization (crypto : Crypto) (sessionKey : SigningKey) (replayCapacity : ℕ)
    (c : ReservationCoordinator)
    (hnew : new crypto sessionKey replayCapacity = .ok c)
    (calls : List Call) (past : List Step) (e : Step) (later : List Step)
    (hevents : (machine crypto).events c calls = past ++ e :: later)
    (finalizeId : FixedBytes 16) (nowMs : ℕ) (authorization : ClientNativeRouteAuthorization)
    (hhands : HandsOut finalizeId nowMs authorization e) :
    (∃ earlier f since intent signed, past = earlier ++ f :: since ∧
      signed.finalizeId = finalizeId ∧ Entitled crypto f since intent signed nowMs authorization) ∧
    ∀ mid e' rest nowMs' authorization', later = mid ++ e' :: rest →
      HandsOut finalizeId nowMs' authorization' e' →
      ∃ f ∈ mid, ∃ intent signed, Finalizes intent signed f ∧ signed.finalizeId = finalizeId := by
  have hentitled : ∀ past e later nowMs authorization,
      (machine crypto).events c calls = past ++ e :: later →
      HandsOut finalizeId nowMs authorization e →
      ∃ earlier f since intent signed, past = earlier ++ f :: since ∧
        signed.finalizeId = finalizeId ∧ (∀ g ∈ since, LeavesOpen finalizeId g) ∧
        Entitled crypto f since intent signed nowMs authorization := by
    intro past e later nowMs authorization hevents hhands
    obtain ⟨before, i, after, -, rfl, rfl, -⟩ := Machine.exists_inputs_of_events_eq _ hevents
    exact PendingChange.entitled (traced_run crypto hnew before) (pendingChange crypto _ i) hhands
  refine ⟨?_, fun mid e' rest nowMs' authorization' hlater hhands' => ?_⟩
  · obtain ⟨earlier, f, since, intent, signed, hpast, hid, -, hentitled⟩ :=
      hentitled past e later nowMs authorization hevents hhands
    exact ⟨earlier, f, since, intent, signed, hpast, hid, hentitled⟩
  · rw [hlater, ← List.cons_append, ← List.append_assoc] at hevents
    obtain ⟨earlier, f, since, intent, signed, hpast, hid, hleaves, hentitled⟩ :=
      hentitled _ e' rest nowMs' authorization' hevents hhands'
    refine ⟨f, mem_of_append_cons_eq hpast ?_ ?_, intent, signed, hentitled.finalizes, hid⟩
    · rintro rfl
      obtain ⟨-, houtput⟩ := hentitled.finalizes
      rw [hhands.2] at houtput
      cases houtput
    · exact fun hmem => (hleaves e hmem).2 _ _ hhands

/-- In the sample run the bearer of the first finalization is handed out. -/
theorem native_route_authorization_sample :
    ∃ past e later authorization,
      (machine Sample.signatures.primitives).events Sample.start Sample.calls = past ++ e :: later ∧
      HandsOut (.replicate 16 41) 2000 authorization e ∧
      ∃ earlier f since intent signed, past = earlier ++ f :: since ∧
        signed.finalizeId = .replicate 16 41 ∧
        Entitled Sample.signatures.primitives f since intent signed 2000 authorization := by
  obtain ⟨before, hbefore⟩ : ∃ before, before = Sample.finalized ++ Sample.confirmed.take 2 :=
    ⟨_, rfl⟩
  have hconfirmed : Sample.finalized ++ Sample.confirmed =
      before ++ [.takeNativeRouteAuthorization (.replicate 16 41) 2000] := by rw [hbefore]; rfl
  have hcalls : Sample.calls = before ++
      .takeNativeRouteAuthorization (.replicate 16 41) 2000 :: Sample.calls.drop 8 := by
    rw [hbefore]; rfl
  have hevents := (machine Sample.signatures.primitives).events_append Sample.start before
    (.takeNativeRouteAuthorization (.replicate 16 41) 2000 :: Sample.calls.drop 8)
  rw [← hcalls] at hevents
  obtain ⟨answer, hanswer⟩ := Sample.run_confirmed.1
    ((machine _).event ((machine _).run Sample.start before) _) (by
      rw [hconfirmed, Machine.events_append]
      exact List.mem_append_right _ (List.mem_singleton.mpr rfl))
  obtain ⟨authorization, rfl⟩ := answer_of_take hanswer
  have hhands : HandsOut (.replicate 16 41) 2000 authorization _ := ⟨rfl, hanswer⟩
  exact ⟨_, _, _, authorization, hevents, hhands,
    (native_route_authorization _ _ _ _ Sample.new_start _ _ _ _ hevents _ _ _ hhands).1⟩

end Volparossa.Reservation.ReservationCoordinator
