import Volparossa.Mptcp.Manager

/-!
# The two managers

There are a synchronous and an asynchronous manager, which treat the limits differently and the
endpoints alike. `Shared.Same` relates states that differ in the limits only, and every step keeps
it: in every run both managers have the same contexts, kernel endpoints and calls
(`State.view_run`).
-/

namespace Volparossa.Mptcp

open Contexts State Machine Table

namespace State

/-- What the two kinds of manager share: everything but the limits. -/
structure View where
  contexts : Contexts
  endpoints : Table KernelEntry.id
  calls : List Call

def view (s : State) : View := ⟨s.shared.contexts, s.shared.kernel.endpoints, s.calls⟩

end State

namespace Shared

variable {sh sh' : Shared} {kind kind' : Kind} {c : Bytes} {endpoint : MptcpEndpoint}

/-- Shared states that differ in the limits only. -/
def Same (sh sh' : Shared) : Prop :=
  sh.contexts = sh'.contexts ∧ sh.kernel.endpoints = sh'.kernel.endpoints

theorem Same.retain (h : Same sh sh') :
    Same (sh.retain kind c endpoint) (sh'.retain kind' c endpoint) := by
  obtain ⟨contexts, k, limits⟩ := sh
  obtain ⟨contexts', k', limits'⟩ := sh'
  obtain ⟨rfl, hk⟩ := h
  simp only [Shared.retain, markAddCleanupRequired]
  cases contexts.get c with
  | none => cases kind <;> cases kind' <;> exact ⟨rfl, hk⟩
  | some context => cases context <;> cases kind <;> cases kind' <;> exact ⟨rfl, hk⟩

/-- A call does the same in both kinds of manager. -/
theorem Same.stepCall (kind kind' : Kind) (h : Same sh sh') (fault : Option Fault) (call : Call) :
    (sh.stepCall kind fault call).1 = (sh'.stepCall kind' fault call).1 ∧
      Same (sh.stepCall kind fault call).2 (sh'.stepCall kind' fault call).2 := by
  obtain ⟨contexts, ⟨entries, old⟩, limits⟩ := sh
  obtain ⟨contexts', ⟨entries', old'⟩, limits'⟩ := sh'
  obtain ⟨rfl, rfl⟩ : contexts = contexts' ∧ entries = entries' := h
  cases call with
  | prepare c l result =>
    cases result with
    | none => rcases fault with _ | _ | _ <;> exact ⟨rfl, rfl, rfl⟩
    | some result => exact ⟨rfl, rfl, rfl⟩
  | endpoint c endpoint stage =>
    cases stage with
    | adding =>
      rcases fault with _ | _ | _ <;>
        dsimp only [Shared.stepCall, Shared.stepEndpoint, Kernel.addEndpoint] <;> try split_ifs
      all_goals exact ⟨rfl, rfl, rfl⟩
    | added result =>
      cases result with
      | ok _ =>
        simp only [Shared.stepCall, Shared.stepEndpoint]
        split <;> exact ⟨rfl, rfl, rfl⟩
      | error e =>
        simp only [Shared.stepCall, Shared.stepEndpoint]
        split_ifs <;> exact ⟨rfl, rfl, rfl⟩
    | rollingBack | undoing | removing => rcases fault with _ | _ | _ <;> exact ⟨rfl, rfl, rfl⟩
    | rolledBack _ result | undone result =>
      cases result with
      | ok _ => exact ⟨rfl, rfl, rfl⟩
      | error _ => exact ⟨rfl, Same.retain ⟨rfl, rfl⟩⟩
    | removed result => exact ⟨rfl, rfl, rfl⟩
  | cleanup c rest deleted =>
    rcases deleted with _ | ⟨endpoint, _ | _⟩
    · cases rest with
      | nil => exact ⟨rfl, rfl, rfl⟩
      | cons endpoint rest => rcases fault with _ | _ | _ <;> exact ⟨rfl, rfl, rfl⟩
    · cases rest <;> exact ⟨rfl, rfl, rfl⟩
    · simp only [Shared.stepCall, Shared.stepCleanup]
      split <;> exact ⟨rfl, rfl, rfl⟩

end Shared

namespace State

/-- A step does the same to what both kinds of manager have. -/
theorem view_step {s s' : State} (h : s.view = s'.view) (step : Step) :
    (s.step .synchronous step).2.view = (s'.step .asynchronous step).2.view := by
  obtain ⟨sh, calls⟩ := s
  obtain ⟨sh', calls'⟩ := s'
  simp only [view, View.mk.injEq] at h
  obtain ⟨hcontexts, hendpoints, rfl⟩ := h
  cases step with
  | advance i fault =>
    simp only [step]
    cases calls[i]? with
    | none => simp only [view, hcontexts, hendpoints]
    | some call =>
      obtain ⟨hprogress, hsame⟩ :=
        Shared.Same.stepCall .synchronous .asynchronous ⟨hcontexts, hendpoints⟩ fault call
      rcases houtcome : sh.stepCall .synchronous fault call with ⟨progress, shared⟩
      rcases houtcome' : sh'.stepCall .asynchronous fault call with ⟨progress', shared'⟩
      rw [houtcome, houtcome'] at hprogress hsame
      obtain rfl : progress = progress' := hprogress
      obtain ⟨hcontexts', hendpoints'⟩ : shared.Same shared' := hsame
      cases progress <;> simp only [houtcome, houtcome', view, hcontexts', hendpoints']
  | start request =>
    simp only [step]
    cases request with
    | prepareContext | addPath | removePath | cleanupContext =>
      simp only [start, hcontexts]
      split <;> simp only [view, hcontexts, hendpoints]
    | updateContextLimits c l fault =>
      obtain ⟨k, limits, hk, heq⟩ := sh.updateContextLimits_eq c l fault
      change view ⟨(sh.updateContextLimits c l fault).2, calls⟩ = _
      rw [heq]
      simp only [start, view, hk, hcontexts, hendpoints]

/-- **Both kinds of manager take the same states.** -/
theorem view_run (foreign : List MptcpEndpoint) (steps : List Step) :
    ((machine .synchronous).run (initial foreign) steps).view =
      ((machine .asynchronous).run (initial foreign) steps).view := by
  induction steps using List.reverseRecOn with
  | nil => rfl
  | append_singleton steps step ih =>
    rw [run_append, run_append]
    exact view_step ih step

end State

end Volparossa.Mptcp
