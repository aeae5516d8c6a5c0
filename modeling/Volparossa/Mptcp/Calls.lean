import Volparossa.Mptcp.Slots

/-!
# The calls on one context

What a call in progress does to the one context that there is. A call about an endpoint goes on or
returns, and keeps the slots (`stepEndpoint_ok`). A context that is cleaned keeps a record of
every endpoint of the manager that is left in the kernel (`CleaningOk`), and the one call that
cleans it has in hand what is recorded (`Cleaner`).
-/

namespace Volparossa.Mptcp

open Contexts State Machine Table

/-! ## Calls about an endpoint -/

section Steps

variable {c : Bytes} {endpoints : Table ManagedEndpoint.id} {k : Kernel} {calls : List Call}
variable {endpoint : MptcpEndpoint} {stage : Stage}

theorem Contexts.activeWith_only {phase : EndpointPhase}
    (h : endpoints.lookup endpoint.id = some ⟨phase, endpoint⟩) :
    (only c (.active endpoints)).activeWith c ⟨phase, endpoint⟩ = some endpoints := by
  simp [activeWith, get_only_self, h]

/-- What a call about an endpoint does: it goes on, with a new kernel, or it returns, with a new
record. -/
def EndpointOutcome (c : Bytes) (endpoints : Table ManagedEndpoint.id) (k : Kernel)
    (limits : Option (Bytes × MptcpLimits)) (calls : List Call) (outcome : Progress × Shared) :
    Prop :=
  (∃ call k', outcome = (.next call, ⟨.only c (.active endpoints), k', limits⟩) ∧
    ActiveOk c endpoints k' (call :: calls)) ∨
  ∃ answer endpoints', outcome = (.done answer, ⟨.only c (.active endpoints'), k, limits⟩) ∧
    ActiveOk c endpoints' k calls

theorem stepEndpoint_ok (kind : Kind) (limits : Option (Bytes × MptcpLimits)) (fault : Option Fault)
    (h : ActiveOk c endpoints k (.endpoint c endpoint stage :: calls)) :
    EndpointOutcome c endpoints k limits calls
      (Shared.stepEndpoint kind ⟨.only c (.active endpoints), k, limits⟩ c endpoint fault
        stage) := by
  obtain ⟨-, hrecord, hholds, -⟩ := h.head
  have habandon : stage.phase = .adding →
      (only c (.active endpoints)).abandonAdd c endpoint =
        .only c (.active (endpoints.erase endpoint.id)) := fun hphase => by
    rw [abandonAdd, activeWith_only (hphase ▸ hrecord)]
    exact insert_only
  cases stage with
  | adding => exact .inl ⟨_, _, rfl, h.add fault⟩
  | added result =>
    cases result with
    | ok _ =>
      refine .inr ⟨.ok (), endpoints.put ⟨.active, endpoint⟩, ?_, ?_⟩
      · have hadding : endpoints.lookup endpoint.id = some ⟨.adding, endpoint⟩ := hrecord
        simp only [Shared.stepEndpoint, commitAdd, activeWith_only hadding,
          Option.map_some, insert_only]
      · exact h.settle (fun _ => lookup_put _ _) (.inr (.inr ⟨rfl, hholds⟩))
    | error e =>
      by_cases herrno : isErrno e eexist = true
      · refine .inr ⟨.error e, _, ?_, h.abandon (hholds herrno)⟩
        simp only [Shared.stepEndpoint, herrno, if_true, habandon rfl]
      · refine .inl ⟨.endpoint c endpoint (.rollingBack e), k, ?_,
          h.proceed rfl trivial⟩
        simp only [Shared.stepEndpoint, herrno]
        rfl
  | rollingBack e =>
    exact .inl ⟨_, _, rfl, h.delete (.rolledBack e) (fun _ => rfl) rfl (fun _ _ => trivial) fault⟩
  | rolledBack e result =>
    cases result with
    | ok _ =>
      have hgone : k.endpoints.lookup endpoint.id = none := hholds
      refine .inr ⟨.error e, _, ?_, h.abandon (by simp [hgone])⟩
      simp only [Shared.stepEndpoint, habandon rfl]
    | error _ =>
      refine .inr ⟨.error (.cleanupIncomplete "failed endpoint add could not be rolled back"), _,
        ?_, h.retain⟩
      simp only [Shared.stepEndpoint, Shared.retain, markAddCleanupRequired,
        get_only_self, insert_only]
  | undoing => exact hholds.elim
  | undone _ => exact hholds.elim
  | removing =>
    exact .inl ⟨_, _, rfl, h.delete .removed (fun _ => rfl) rfl (fun _ _ => trivial) fault⟩
  | removed result =>
    have hremoving : endpoints.lookup endpoint.id = some ⟨.removing, endpoint⟩ := hrecord
    cases result with
    | ok _ =>
      have hgone : k.endpoints.lookup endpoint.id = none := hholds
      refine .inr ⟨.ok (), _, ?_, h.abandon (by simp [hgone])⟩
      simp only [Shared.stepEndpoint, finishRemove, get_only_self, hremoving,
        ne_eq, not_true_eq_false, if_false, insert_only]
    | error _ =>
      refine .inr ⟨.error (.cleanupIncomplete "endpoint removal failed and remains owned"), _,
        ?_, h.retain⟩
      simp only [Shared.stepEndpoint, finishRemove, get_only_self, hremoving,
        ne_eq, not_true_eq_false, if_false, insert_only]

end Steps

/-! ## A context that is cleaned -/

/-- The kernel has no endpoint of the manager. -/
def Kernel.Clear (k : Kernel) : Prop := ∀ entry ∈ k.endpoints.rows, entry.ours = false

/-- The endpoints that are left in a context that is cleaned. -/
structure CleaningOk (endpoints : Table MptcpEndpoint.id) (k : Kernel) : Prop where
  ours : ∀ id endpoint, k.endpoints.lookup id = some ⟨endpoint, true⟩ →
    endpoints.lookup id = some endpoint
  range : ∀ id endpoint, endpoints.lookup id = some endpoint → 1 ≤ id ∧ id ≤ maxPaths

/-- The one call that cleans a context has in hand what the context records. -/
inductive Cleaner (c : Bytes) (endpoints : Table MptcpEndpoint.id) (k : Kernel) : List Call → Prop
  | idle : Cleaner c endpoints k []
  | between (rest : List MptcpEndpoint) (h : rest.Perm endpoints.rows) :
    Cleaner c endpoints k [.cleanup c rest none]
  | deleted (endpoint : MptcpEndpoint) (rest : List MptcpEndpoint) (result : Except MptcpError Unit)
    (h : (endpoint :: rest).Perm endpoints.rows)
    (hgone : result = .ok () → k.endpoints.lookup endpoint.id = none) :
    Cleaner c endpoints k [.cleanup c rest (some (endpoint, result))]

section Cleaning

variable {c : Bytes} {endpoints : Table MptcpEndpoint.id} {k : Kernel} {calls : List Call}
variable {endpoint : MptcpEndpoint} {rest : List MptcpEndpoint}
variable {limits : Option (Bytes × MptcpLimits)}

theorem CleaningOk.without (h : CleaningOk endpoints k) :
    CleaningOk endpoints (k.without endpoint) where
  ours id owned hentry := by
    rw [Kernel.lookup_without] at hentry
    split_ifs at hentry
    exact h.ours id owned hentry
  range := h.range

theorem CleaningOk.forget (h : CleaningOk endpoints k)
    (hgone : k.endpoints.lookup endpoint.id = none) :
    CleaningOk (endpoints.erase endpoint.id) k where
  ours id owned hentry := by
    have hid : id ≠ endpoint.id := by
      rintro rfl
      simp [hgone] at hentry
    rw [lookup_erase, if_neg hid]
    exact h.ours id owned hentry
  range id owned hrecord := by
    rw [lookup_erase] at hrecord
    split_ifs at hrecord
    exact h.range id owned hrecord

theorem CleaningOk.clear (h : CleaningOk endpoints k) (hempty : endpoints.rows = []) : k.Clear := by
  intro entry hentry
  by_contra hours
  have hours : entry = ⟨entry.endpoint, true⟩ := by
    cases entry
    simpa using hours
  have hrecord := mem_of_lookup
    (h.ours entry.id entry.endpoint (hours ▸ k.endpoints.lookup_key hentry))
  simp [hempty] at hrecord

theorem forgetCleaned_only (h : endpoints.lookup endpoint.id = some endpoint) :
    (only c (.cleaning endpoints)).forgetCleaned c endpoint =
      .ok (.only c (.cleaning (endpoints.erase endpoint.id))) := by
  simp only [forgetCleaned, get_only_self, h, ne_eq, not_true_eq_false, if_false,
    insert_only]

theorem lookup_of_perm (h : (endpoint :: rest).Perm endpoints.rows) :
    endpoints.lookup endpoint.id = some endpoint :=
  endpoints.lookup_key (h.mem_iff.mp List.mem_cons_self)

theorem erase_of_perm (h : (endpoint :: rest).Perm endpoints.rows) :
    rest.Perm (endpoints.erase endpoint.id).rows :=
  List.Perm.cons_inv (h.trans (perm_erase (lookup_of_perm h)))

theorem finishCleanup_only (h : endpoints.rows = []) :
    (only c (.cleaning endpoints)).finishCleanup c = (.ok (), .empty) := by
  simp only [finishCleanup, get_only_self, h, if_true, erase_only]

end Cleaning

theorem lookup_ownedEndpoints (endpoints : Table ManagedEndpoint.id) (id : ℕ) :
    (ownedEndpoints endpoints).lookup id =
      (endpoints.lookup id).map ManagedEndpoint.endpoint := by
  simp only [lookup, ownedEndpoints, List.find?_map, Function.comp_def]

variable {k : Kernel}

/-- An active context without a pending endpoint has no call in progress, and can be cleaned. -/
theorem ActiveOk.cleaning {c : Bytes} {endpoints : Table ManagedEndpoint.id} {calls : List Call}
    (h : ActiveOk c endpoints k calls)
    (hidle : ∀ managed ∈ endpoints.rows, managed.phase ≠ .adding ∧ managed.phase ≠ .removing) :
    calls = [] ∧ CleaningOk (ownedEndpoints endpoints) k := by
  refine ⟨?_, fun id endpoint hentry => ?_, fun id endpoint hrecord => ?_⟩
  · refine List.eq_nil_iff_forall_not_mem.mpr fun call hcall => ?_
    obtain ⟨endpoint, stage, -, hrecord, -⟩ := h.each call hcall
    have hphase := hidle _ (mem_of_lookup hrecord)
    exact stage.phase_pending.elim hphase.1 hphase.2
  · obtain ⟨phase, hphase⟩ := (h.slots id).ours endpoint hentry
    rw [lookup_ownedEndpoints, hphase]
    rfl
  · rw [lookup_ownedEndpoints] at hrecord
    exact (h.slots id).range fun hnone => by simp [hnone] at hrecord

end Volparossa.Mptcp
