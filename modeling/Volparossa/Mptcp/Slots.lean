import Volparossa.Mptcp.Manager

/-!
# The slots of an active context

An active context and the calls in progress on it are accounted for identifier by identifier: what
is recorded, what the kernel has, and whether a call is about it (`SlotOk`). `ActiveOk` puts the
slots together. A call changes one slot, and the others are framed (`Frame`), so that each kind of
change is one lemma about one slot.
-/

namespace Volparossa.Mptcp

open Contexts State Machine Table

/-! ## One context -/

/-- The contexts that hold a single one. -/
def Contexts.only (routeContextId : Bytes) (context : ManagedContext) : Contexts :=
  ⟨[⟨routeContextId, context⟩], by simp⟩

namespace Contexts

variable {c c' : Bytes} {context context' : ManagedContext}

theorem get_only : (only c context).get c' = if c = c' then some context else none := by
  by_cases h : c = c' <;> simp [get, only, lookup, h]

theorem get_only_self : (only c context).get c = some context := by
  rw [get_only, if_pos rfl]

theorem eq_of_get_only (h : (only c context).get c' = some context') :
    c' = c ∧ context' = context := by
  rw [get_only] at h
  split_ifs at h with hc
  exact ⟨hc.symm, (Option.some.inj h).symm⟩

theorem insert_only : (only c context).insert c context' = only c context' := by
  ext1
  simp [insert, only, put, erase]

theorem insert_empty : insert .empty c context = only c context := by
  ext1
  simp [insert, only, put, erase]

theorem erase_only : erase (only c context) c = .empty := by
  ext1
  simp [only, erase]

end Contexts

/-! ## Kernel calls -/

namespace Kernel

variable (k : Kernel) (endpoint : MptcpEndpoint) (fault : Option Fault)

/-- Delete an endpoint, without failing. -/
def without : Kernel := { k with endpoints := k.endpoints.erase endpoint.id }

/-- Add an endpoint, without failing. -/
def withOurs : Kernel := { k with endpoints := k.endpoints.put ⟨endpoint, true⟩ }

theorem deleteEndpoint_cases :
    k.deleteEndpoint endpoint fault = (.ok (), k.without endpoint) ∨
      ∃ e, k.deleteEndpoint endpoint fault = (.error e, k) ∨
        k.deleteEndpoint endpoint fault = (.error e, k.without endpoint) := by
  rcases fault with _ | failure | failure
  · exact .inl rfl
  · exact .inr ⟨failure.1, .inl rfl⟩
  · exact .inr ⟨failure.1, .inr rfl⟩

theorem deleteEndpoint_none : k.deleteEndpoint endpoint none = (.ok (), k.without endpoint) := rfl

theorem addEndpoint_cases :
    k.addEndpoint endpoint fault = (.ok (), k.withOurs endpoint) ∨
      (∃ e, k.addEndpoint endpoint fault = (.error e, k)) ∨
      ∃ e, isErrno e eexist = false ∧
        k.addEndpoint endpoint fault = (.error e, k.withOurs endpoint) := by
  by_cases hfree : k.endpoints.lookup endpoint.id = none
  · rcases fault with _ | failure | failure
    · exact .inl (by simp [addEndpoint, hfree, Fault.result, withOurs])
    · exact .inr (.inl ⟨failure.1, rfl⟩)
    · exact .inr (.inr ⟨failure.1, failure.2, by simp [addEndpoint, hfree, Fault.result, withOurs]⟩)
  · rcases fault with _ | failure | failure
    all_goals exact .inr (.inl ⟨_, by simp [addEndpoint, hfree]; rfl⟩)

variable {k endpoint} {id : ℕ}

theorem lookup_without : (k.without endpoint).endpoints.lookup id =
    if id = endpoint.id then none else k.endpoints.lookup id :=
  lookup_erase _ _

theorem lookup_without_self : (k.without endpoint).endpoints.lookup endpoint.id = none := by
  rw [lookup_without, if_pos rfl]

end Kernel

/-! ## The slots of an active context -/

/-- The endpoint that a call is about. -/
def Call.endpointId : Call → ℕ
  | .endpoint _ owned _ => owned.id
  | _ => 0

/-- The phase in which a call has put its endpoint. -/
def Stage.phase : Stage → EndpointPhase
  | .removing | .removed _ => .removing
  | _ => .adding

/-- What a call knows of the kernel at its stage; the stages after a commit that failed are never
reached. -/
def Stage.Holds (endpoint : MptcpEndpoint) (entry : Option KernelEntry) : Stage → Prop
  | .adding => entry ≠ some ⟨endpoint, true⟩
  | .added (.ok ()) => entry = some ⟨endpoint, true⟩
  | .added (.error e) => isErrno e eexist = true → entry ≠ some ⟨endpoint, true⟩
  | .rolledBack _ (.ok ()) | .removed (.ok ()) => entry = none
  | .rollingBack _ | .rolledBack _ (.error _) | .removing | .removed (.error _) => True
  | .undoing | .undone _ => False

/-- An identifier is accounted for: by what is recorded, what the kernel has, and whether a call is
about it. -/
structure SlotOk (id : ℕ) (managed : Option ManagedEndpoint) (entry : Option KernelEntry)
    (busy : Prop) : Prop where
  range : managed ≠ none → 1 ≤ id ∧ id ≤ maxPaths
  active : ∀ endpoint, managed = some ⟨.active, endpoint⟩ → entry = some ⟨endpoint, true⟩
  ours : ∀ endpoint, entry = some ⟨endpoint, true⟩ → ∃ phase, managed = some ⟨phase, endpoint⟩
  pending : ∀ m, managed = some m → m.phase = .adding ∨ m.phase = .removing → busy

theorem Stage.phase_pending (stage : Stage) : stage.phase = .adding ∨ stage.phase = .removing := by
  cases stage <;> simp [Stage.phase]

/-- The identifier of a call. -/
theorem SlotOk.of_call {endpoint : MptcpEndpoint} {stage : Stage} {managed : Option ManagedEndpoint}
    {entry : Option KernelEntry} (hrecord : managed = some ⟨stage.phase, endpoint⟩)
    (hrange : 1 ≤ endpoint.id ∧ endpoint.id ≤ maxPaths)
    (hours : ∀ e, entry = some ⟨e, true⟩ → e = endpoint) :
    SlotOk endpoint.id managed entry True where
  range _ := hrange
  active e he := by
    have hsame := hrecord.symm.trans he
    rcases stage.phase_pending with hpending | hpending <;> simp [hpending] at hsame
  ours e he := ⟨stage.phase, hours e he ▸ hrecord⟩
  pending _ _ _ := trivial

section Active

variable (c : Bytes) (endpoints : Table ManagedEndpoint.id) (k : Kernel)

/-- A call is about an endpoint of the context, in the phase that is recorded. -/
def CallOk (call : Call) : Prop :=
  ∃ endpoint stage, call = .endpoint c endpoint stage ∧
    endpoints.lookup endpoint.id = some ⟨stage.phase, endpoint⟩ ∧
    stage.Holds endpoint (k.endpoints.lookup endpoint.id)

/-- An active context with the calls in progress. -/
structure ActiveOk (calls : List Call) : Prop where
  slots : ∀ id, SlotOk id (endpoints.lookup id) (k.endpoints.lookup id)
    (id ∈ calls.map Call.endpointId)
  each : ∀ call ∈ calls, CallOk c endpoints k call
  distinct : (calls.map Call.endpointId).Nodup

/-- Everything about an active context but one identifier. -/
structure Frame (id : ℕ) (calls : List Call) : Prop where
  slots : ∀ id', id' ≠ id → SlotOk id' (endpoints.lookup id') (k.endpoints.lookup id')
    (id' ∈ calls.map Call.endpointId)
  each : ∀ call ∈ calls, call.endpointId ≠ id ∧ CallOk c endpoints k call
  distinct : (calls.map Call.endpointId).Nodup

end Active

section Active

variable {c : Bytes} {endpoints endpoints' : Table ManagedEndpoint.id} {k k' : Kernel}
variable {call : Call} {calls calls' : List Call} {endpoint : MptcpEndpoint} {stage : Stage}

theorem ActiveOk.perm (h : ActiveOk c endpoints k calls) (hperm : calls.Perm calls') :
    ActiveOk c endpoints k calls' where
  slots id := by
    rw [← (hperm.map Call.endpointId).mem_iff.eq]
    exact h.slots id
  each call hcall := h.each call (hperm.mem_iff.mpr hcall)
  distinct := (hperm.map Call.endpointId).nodup_iff.mp h.distinct

/-- What another identifier holds does not matter to the frame. -/
theorem Frame.change {id : ℕ} (h : Frame c endpoints k id calls)
    (hendpoints : ∀ id', id' ≠ id → endpoints'.lookup id' = endpoints.lookup id')
    (hk : ∀ id', id' ≠ id → k'.endpoints.lookup id' = k.endpoints.lookup id') :
    Frame c endpoints' k' id calls where
  slots id' hid := by
    rw [hendpoints id' hid, hk id' hid]
    exact h.slots id' hid
  each call hcall := by
    obtain ⟨hid, endpoint, stage, rfl, hrecord, hholds⟩ := h.each call hcall
    refine ⟨hid, endpoint, stage, rfl, ?_, ?_⟩
    · rw [hendpoints endpoint.id hid, hrecord]
    · rw [hk endpoint.id hid]
      exact hholds
  distinct := h.distinct

theorem activeOk_cons : ActiveOk c endpoints k (call :: calls) ↔
    Frame c endpoints k call.endpointId calls ∧
      SlotOk call.endpointId (endpoints.lookup call.endpointId)
        (k.endpoints.lookup call.endpointId) True ∧ CallOk c endpoints k call := by
  constructor
  · intro h
    have hdistinct := List.nodup_cons.mp h.distinct
    refine ⟨⟨fun id hid => ?_, fun other hother => ⟨fun heq => ?_, ?_⟩, hdistinct.2⟩, ?_, ?_⟩
    · simpa [hid] using h.slots id
    · exact hdistinct.1 (heq ▸ List.mem_map_of_mem hother)
    · exact h.each other (List.mem_cons_of_mem _ hother)
    · simpa using h.slots call.endpointId
    · exact h.each call List.mem_cons_self
  · rintro ⟨hframe, hslot, hcall⟩
    refine ⟨fun id => ?_, fun other hother => ?_, ?_⟩
    · by_cases hid : id = call.endpointId
      · subst hid
        simpa using hslot
      · simpa [hid] using hframe.slots id hid
    · rcases List.mem_cons.mp hother with rfl | hother
      · exact hcall
      · exact (hframe.each other hother).2
    · rw [List.map_cons, List.nodup_cons]
      refine ⟨fun hmem => ?_, hframe.distinct⟩
      obtain ⟨other, hother, heq⟩ := List.mem_map.mp hmem
      exact (hframe.each other hother).1 heq

/-- Without a call about an identifier. -/
theorem Frame.idle {id : ℕ} (h : Frame c endpoints k id calls)
    (hslot : SlotOk id (endpoints.lookup id) (k.endpoints.lookup id) False) :
    ActiveOk c endpoints k calls where
  slots id' := by
    by_cases hid : id' = id
    · subst hid
      exact ⟨hslot.range, hslot.active, hslot.ours, fun m hm hphase =>
        (hslot.pending m hm hphase).elim⟩
    · exact h.slots id' hid
  each call hcall := (h.each call hcall).2
  distinct := h.distinct

theorem ActiveOk.frame {id : ℕ} (h : ActiveOk c endpoints k calls)
    (hid : id ∉ calls.map Call.endpointId) : Frame c endpoints k id calls where
  slots id' _ := h.slots id'
  each call hcall := ⟨fun heq => hid (heq ▸ List.mem_map_of_mem hcall), h.each call hcall⟩
  distinct := h.distinct

/-- The phases in which no call is about the endpoint. -/
theorem ActiveOk.not_busy {id : ℕ} (h : ActiveOk c endpoints k calls)
    (hphase : ∀ m, endpoints.lookup id = some m → m.phase = .active ∨ m.phase = .cleanupRequired) :
    id ∉ calls.map Call.endpointId := by
  intro hmem
  obtain ⟨call, hcall, rfl⟩ := List.mem_map.mp hmem
  obtain ⟨endpoint, stage, rfl, hrecord, -⟩ := h.each call hcall
  rcases hphase _ hrecord with hphase | hphase <;>
    cases stage <;> simp [Stage.phase] at hphase

/-- A call starts: what is recorded of its endpoint has changed. -/
theorem ActiveOk.enter (h : ActiveOk c endpoints k calls)
    (hidle : ∀ m, endpoints.lookup endpoint.id = some m →
      (m.phase = .active ∨ m.phase = .cleanupRequired) ∧ m.endpoint = endpoint)
    (hrange : 1 ≤ endpoint.id ∧ endpoint.id ≤ maxPaths)
    (hendpoints : ∀ id, endpoints'.lookup id =
      if id = endpoint.id then some ⟨stage.phase, endpoint⟩ else endpoints.lookup id)
    (hholds : stage.Holds endpoint (k.endpoints.lookup endpoint.id)) :
    ActiveOk c endpoints' k (.endpoint c endpoint stage :: calls) := by
  have hframe := h.frame (h.not_busy fun m hm => (hidle m hm).1)
  have hrecord : endpoints'.lookup endpoint.id = some ⟨stage.phase, endpoint⟩ := by
    rw [hendpoints, if_pos rfl]
  refine activeOk_cons.mpr ⟨hframe.change (fun id hid => by rw [hendpoints, if_neg hid])
    fun _ _ => rfl, .of_call hrecord hrange fun e he => ?_, endpoint, stage, rfl, hrecord, hholds⟩
  obtain ⟨phase, hphase⟩ := (h.slots endpoint.id).ours e he
  exact (hidle _ hphase).2

variable (h : ActiveOk c endpoints k (.endpoint c endpoint stage :: calls))
include h

/-- The record of a call, and what else may be in the kernel under its identifier. -/
theorem ActiveOk.head : (1 ≤ endpoint.id ∧ endpoint.id ≤ maxPaths) ∧
    endpoints.lookup endpoint.id = some ⟨stage.phase, endpoint⟩ ∧
    stage.Holds endpoint (k.endpoints.lookup endpoint.id) ∧
    ∀ e, k.endpoints.lookup endpoint.id = some ⟨e, true⟩ → e = endpoint := by
  obtain ⟨-, hslot, owned, stage', heq, hrecord, hholds⟩ := activeOk_cons.mp h
  obtain ⟨-, rfl, rfl⟩ := Call.endpoint.inj heq
  refine ⟨hslot.range (hrecord ▸ nofun), hrecord, hholds, fun e he => ?_⟩
  obtain ⟨phase, hphase⟩ := hslot.ours e he
  have hsame := hrecord.symm.trans hphase
  simp only [Option.some.injEq, ManagedEndpoint.mk.injEq] at hsame
  exact hsame.2.symm

/-- A call goes on: the kernel may have changed under its identifier. -/
theorem ActiveOk.progress {stage' : Stage} {entry : Option KernelEntry}
    (hphase : stage'.phase = stage.phase)
    (hk : ∀ id, k'.endpoints.lookup id = if id = endpoint.id then entry else k.endpoints.lookup id)
    (hours : ∀ e, entry = some ⟨e, true⟩ → e = endpoint) (hholds : stage'.Holds endpoint entry) :
    ActiveOk c endpoints k' (.endpoint c endpoint stage' :: calls) := by
  obtain ⟨hrange, hrecord, -, -⟩ := h.head
  rw [← hphase] at hrecord
  have hentry : k'.endpoints.lookup endpoint.id = entry := by rw [hk, if_pos rfl]
  exact activeOk_cons.mpr ⟨(activeOk_cons.mp h).1.change (fun _ _ => rfl) fun id hid =>
    (hk id).trans (if_neg hid), .of_call hrecord hrange (hentry ▸ hours), endpoint, stage', rfl,
    hrecord, hentry ▸ hholds⟩

/-- A call goes on, with the same kernel. -/
theorem ActiveOk.proceed {stage' : Stage} (hphase : stage'.phase = stage.phase)
    (hholds : stage'.Holds endpoint (k.endpoints.lookup endpoint.id)) :
    ActiveOk c endpoints k (.endpoint c endpoint stage' :: calls) :=
  h.progress hphase (fun id => by split_ifs with hid <;> simp [hid]) h.head.2.2.2 hholds

/-- A kernel call that deletes the endpoint. -/
theorem ActiveOk.delete (next : Except MptcpError Unit → Stage)
    (hphase : ∀ result, (next result).phase = stage.phase)
    (hok : (next (.ok ())).Holds endpoint none)
    (herror : ∀ e entry, (next (.error e)).Holds endpoint entry) (fault : Option Fault) :
    ActiveOk c endpoints (k.deleteEndpoint endpoint fault).2
      (.endpoint c endpoint (next (k.deleteEndpoint endpoint fault).1) :: calls) := by
  obtain hdelete | ⟨e, hdelete | hdelete⟩ := k.deleteEndpoint_cases endpoint fault <;> rw [hdelete]
  · exact h.progress (hphase _) (fun _ => Kernel.lookup_without) nofun hok
  · exact h.proceed (hphase _) (herror _ _)
  · exact h.progress (hphase _) (fun _ => Kernel.lookup_without) nofun (herror _ _)

/-- A call returns: what is recorded of its endpoint has changed. -/
theorem ActiveOk.settle {managed : Option ManagedEndpoint}
    (hendpoints : ∀ id, endpoints'.lookup id =
      if id = endpoint.id then managed else endpoints.lookup id)
    (hslot : managed = none ∧ k.endpoints.lookup endpoint.id ≠ some ⟨endpoint, true⟩ ∨
      managed = some ⟨.cleanupRequired, endpoint⟩ ∨
      managed = some ⟨.active, endpoint⟩ ∧
        k.endpoints.lookup endpoint.id = some ⟨endpoint, true⟩) :
    ActiveOk c endpoints' k calls := by
  obtain ⟨hrange, -, -, hours⟩ := h.head
  refine ((activeOk_cons.mp h).1.change (fun id hid => (hendpoints id).trans (if_neg hid))
    fun _ _ => rfl).idle ?_
  simp only [Call.endpointId, hendpoints, if_true]
  refine ⟨fun _ => hrange, fun e he => ?_, fun e he => ?_, fun m hm hpending => ?_⟩
  · rcases hslot with ⟨rfl, -⟩ | rfl | ⟨rfl, hentry⟩ <;> cases he
    exact hentry
  · obtain rfl := hours e he
    rcases hslot with ⟨-, hentry⟩ | hslot | ⟨hslot, -⟩
    · exact absurd he hentry
    · exact ⟨_, hslot⟩
    · exact ⟨_, hslot⟩
  · rcases hslot with ⟨rfl, -⟩ | rfl | ⟨rfl, -⟩ <;> cases hm <;> simp at hpending

/-- Forget the endpoint of a call that returns, once it is not in the kernel. -/
theorem ActiveOk.abandon (hentry : k.endpoints.lookup endpoint.id ≠ some ⟨endpoint, true⟩) :
    ActiveOk c (endpoints.erase endpoint.id) k calls :=
  h.settle (fun _ => lookup_erase _ _) (.inl ⟨rfl, hentry⟩)

/-- Keep the endpoint of a call that returns, to be cleaned up. -/
theorem ActiveOk.retain : ActiveOk c (endpoints.put ⟨.cleanupRequired, endpoint⟩) k calls :=
  h.settle (fun _ => lookup_put _ _) (.inr (.inl rfl))

omit h in
/-- The kernel call that adds the endpoint. -/
theorem ActiveOk.add (h : ActiveOk c endpoints k (.endpoint c endpoint .adding :: calls))
    (fault : Option Fault) :
    ActiveOk c endpoints (k.addEndpoint endpoint fault).2
      (.endpoint c endpoint (.added (k.addEndpoint endpoint fault).1) :: calls) := by
  have hours : ∀ e, some (⟨endpoint, true⟩ : KernelEntry) = some ⟨e, true⟩ → e = endpoint := by
    simp
  obtain hadd | ⟨e, hadd⟩ | ⟨e, herrno, hadd⟩ := k.addEndpoint_cases endpoint fault <;> rw [hadd]
  · exact h.progress rfl (fun _ => lookup_put _ _) hours rfl
  · exact h.proceed rfl fun _ => h.head.2.2.1
  · exact h.progress rfl (fun _ => lookup_put _ _) hours fun herrno' => by simp [herrno] at herrno'

end Active

end Volparossa.Mptcp
