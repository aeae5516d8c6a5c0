import Volparossa.Mptcp.Calls

/-!
# The shapes of the system

The system takes one of four shapes (`State.Shaped`): free, with a context that one call prepares,
with an active context all of whose calls are about different endpoints, or with a context that at
most one call cleans. A call in progress goes on in a shape (`State.Shaped.advance`), and so does
the system when a call starts (`State.Shaped.start`), unless the call cleans a context that is being
cleaned: two calls may then have the same endpoint in hand.
-/

namespace Volparossa.Mptcp

open Contexts State Machine Table

variable {k : Kernel}

/-! ## The shapes of the system -/

/-- The shapes that the system takes. -/
inductive State.Shaped : State → Prop
  | free (k : Kernel) (limits : Option (Bytes × MptcpLimits)) (h : k.Clear) :
    Shaped ⟨⟨.empty, k, limits⟩, []⟩
  | preparing (c : Bytes) (l : MptcpLimits) (k : Kernel) (limits : Option (Bytes × MptcpLimits))
    (result : Option (Except MptcpError Unit)) (hid : validateContextId c = .ok ()) (h : k.Clear) :
    Shaped ⟨⟨.only c (.preparing l), k, limits⟩, [.prepare c l result]⟩
  | active (c : Bytes) (endpoints : Table ManagedEndpoint.id) (k : Kernel)
    (limits : Option (Bytes × MptcpLimits)) (calls : List Call)
    (hid : validateContextId c = .ok ()) (h : ActiveOk c endpoints k calls) :
    Shaped ⟨⟨.only c (.active endpoints), k, limits⟩, calls⟩
  | cleaning (c : Bytes) (endpoints : Table MptcpEndpoint.id) (k : Kernel)
    (limits : Option (Bytes × MptcpLimits)) (calls : List Call)
    (hid : validateContextId c = .ok ()) (h : CleaningOk endpoints k)
    (hcalls : Cleaner c endpoints k calls) :
    Shaped ⟨⟨.only c (.cleaning endpoints), k, limits⟩, calls⟩

/-- A context that was just prepared. -/
theorem ActiveOk.of_clear {c : Bytes} (h : k.Clear) : ActiveOk c .empty k [] where
  slots id := by
    refine ⟨by simp [lookup], by simp [lookup], fun endpoint hentry => ?_,
      by simp [lookup]⟩
    simpa using h _ (mem_of_lookup hentry)
  each := by simp
  distinct := by simp

/-! ### Calls in progress -/

theorem Kernel.clear_setLimits (h : k.Clear) (l : MptcpLimits) (fault : Option Fault) :
    (k.setLimits l fault).2.Clear := by
  rcases fault with _ | failure | failure <;> exact h

theorem eq_of_getElem?_singleton {call call' : Call} {i : ℕ} (h : [call][i]? = some call') :
    i = 0 ∧ call' = call := by
  rw [List.getElem?_singleton] at h
  split_ifs at h with hi
  exact ⟨hi, (Option.some.inj h).symm⟩

namespace State

/-- A call in progress goes on, in a shape. -/
theorem Shaped.advance {s : State} (h : s.Shaped) (kind : Kind) (i : ℕ) (fault : Option Fault) :
    (s.step kind (.advance i fault)).2.Shaped := by
  rw [step]
  cases hcall : s.calls[i]? with
  | none => exact h
  | some call =>
    cases h with
    | free k limits h => simp at hcall
    | preparing c l k limits result hid h =>
      obtain ⟨rfl, rfl⟩ := eq_of_getElem?_singleton hcall
      cases result with
      | none =>
        exact .preparing c l _ limits _ hid (Kernel.clear_setLimits h l fault)
      | some result =>
        cases result with
        | ok _ =>
          simp only [Shared.stepCall, Shared.stepPrepare, finishPrepare,
            get_only_self, if_true, insert_only]
          exact .active c .empty k _ [] hid (.of_clear h)
        | error e =>
          simp only [Shared.stepCall, Shared.stepPrepare, finishPrepare,
            get_only_self, if_true, erase_only]
          exact .free k _ h
    | active c endpoints k limits calls hid h =>
      have hperm : calls.Perm (call :: calls.eraseIdx i) := by
        obtain ⟨hi, rfl⟩ := List.getElem?_eq_some_iff.mp hcall
        exact (List.getElem_cons_eraseIdx_perm hi).symm
      have hhead := h.perm hperm
      obtain ⟨endpoint, stage, rfl, -⟩ := hhead.each call List.mem_cons_self
      obtain ⟨call', k', houtcome, hok⟩ | ⟨answer, endpoints', houtcome, hok⟩ :=
        stepEndpoint_ok kind limits fault hhead
      · simp only [Shared.stepCall, houtcome]
        refine .active c endpoints k' limits _ hid (hok.perm ?_)
        exact (List.set_perm_cons_eraseIdx (List.getElem?_eq_some_iff.mp hcall).1 call').symm
      · simp only [Shared.stepCall, houtcome]
        exact .active c endpoints' k limits _ hid hok
    | cleaning c endpoints k limits calls hid h hcalls =>
      cases hcalls with
      | idle => simp at hcall
      | between rest hrest =>
        obtain ⟨rfl, rfl⟩ := eq_of_getElem?_singleton hcall
        cases rest with
        | nil =>
          have hempty : endpoints.rows = [] := hrest.nil_eq.symm
          simp only [Shared.stepCall, Shared.stepCleanup, finishCleanup_only hempty]
          exact .free k limits (h.clear hempty)
        | cons endpoint rest =>
          simp only [Shared.stepCall, Shared.stepCleanup]
          obtain hdelete | ⟨e, hdelete | hdelete⟩ := k.deleteEndpoint_cases endpoint fault <;>
            rw [hdelete]
          · exact .cleaning c endpoints _ limits _ hid h.without
              (.deleted endpoint rest _ hrest fun _ => Kernel.lookup_without_self)
          · exact .cleaning c endpoints k limits _ hid h (.deleted endpoint rest _ hrest nofun)
          · exact .cleaning c endpoints _ limits _ hid h.without
              (.deleted endpoint rest _ hrest nofun)
      | deleted endpoint rest result hrest hgone =>
        obtain ⟨rfl, rfl⟩ := eq_of_getElem?_singleton hcall
        cases result with
        | ok _ =>
          simp only [Shared.stepCall, Shared.stepCleanup,
            forgetCleaned_only (lookup_of_perm hrest)]
          exact .cleaning c _ k limits _ hid (h.forget (hgone rfl))
            (.between rest (erase_of_perm hrest))
        | error e =>
          simp only [Shared.stepCall, Shared.stepCleanup]
          exact .cleaning c endpoints k limits _ hid h .idle

end State

/-! ### Calls that start -/

/-- The manager records an endpoint as active. -/
def Contexts.ReportsActive (contexts : Contexts) (endpoint : MptcpEndpoint) : Prop :=
  ∃ routeContextId endpoints, contexts.get routeContextId = some (.active endpoints) ∧
    endpoints.lookup endpoint.id = some ⟨.active, endpoint⟩

namespace Contexts

variable {contexts contexts' : Contexts} {c : Bytes} {endpoint : MptcpEndpoint}

theorem beginPrepare_eq_ok {l : MptcpLimits} (h : contexts.beginPrepare c l = .ok contexts') :
    validateContextId c = .ok () ∧ contexts.rows = [] ∧
      contexts' = contexts.insert c (.preparing l) := by
  simp only [beginPrepare, ok_iff] at h
  obtain ⟨_, hid, _, -, _, hrows, rfl⟩ := h
  exact ⟨hid, by simpa using hrows, rfl⟩

theorem beginAdd_eq_some (h : contexts.beginAdd c endpoint = .ok (some contexts')) :
    endpoint.validate = .ok () ∧ ∃ endpoints, contexts.get c = some (.active endpoints) ∧
      endpoints.lookup endpoint.id = none ∧
      contexts' = contexts.insert c (.active (endpoints.put ⟨.adding, endpoint⟩)) := by
  simp only [beginAdd, bind_eq_ok] at h
  obtain ⟨_, -, _, hvalid, h⟩ := h
  refine ⟨hvalid, ?_⟩
  split at h
  · rename_i endpoints hget
    split at h
    · split_ifs at h
      simp [pure, Except.pure] at h
    · rename_i hfree
      simp only [ok_iff, Option.some.injEq] at h
      obtain ⟨_, -, rfl⟩ := h
      exact ⟨endpoints, hget, hfree, rfl⟩
  · simp at h

theorem beginAdd_eq_none (h : contexts.beginAdd c endpoint = .ok none) :
    contexts.ReportsActive endpoint := by
  simp only [beginAdd, bind_eq_ok] at h
  obtain ⟨_, -, _, -, h⟩ := h
  split at h
  · rename_i endpoints hget
    split at h
    · rename_i current hcurrent
      split_ifs at h with hsame
      exact ⟨c, endpoints, hget, hsame ▸ hcurrent⟩
    · simp only [ok_iff, reduceCtorEq, and_false, exists_false] at h
  · simp at h

theorem get_insert_self (contexts : Contexts) (c : Bytes) (context : ManagedContext) :
    (contexts.insert c context).get c = some context := by
  simp [get, insert, lookup_put]

theorem commitAdd_eq_some (h : contexts.commitAdd c endpoint = some contexts') :
    contexts'.ReportsActive endpoint := by
  rw [commitAdd, Option.map_eq_some_iff] at h
  obtain ⟨endpoints, -, rfl⟩ := h
  exact ⟨c, _, get_insert_self _ _ _, by rw [lookup_put, if_pos rfl]⟩

theorem beginRemove_eq_some {id : ℕ}
    (h : contexts.beginRemove c id = .ok (some (endpoint, contexts'))) :
    ∃ endpoints phase, contexts.get c = some (.active endpoints) ∧
      endpoints.lookup id = some ⟨phase, endpoint⟩ ∧
      (phase = .active ∨ phase = .cleanupRequired) ∧
      contexts' = contexts.insert c (.active (endpoints.put ⟨.removing, endpoint⟩)) := by
  simp only [beginRemove, ok_iff] at h
  obtain ⟨_, -, _, -, h⟩ := h
  split at h
  · rename_i endpoints hget
    split at h
    · simp [pure, Except.pure] at h
    all_goals
      rename_i hrecord
      simp only [pure_eq_ok, Option.some.injEq, Prod.mk.injEq, reduceCtorEq] at h
    all_goals
      obtain ⟨rfl, rfl⟩ := h
      exact ⟨endpoints, _, hget, hrecord, by simp, rfl⟩
  · simp at h

/-- The endpoints to delete are the ones that a context which is cleaned records. -/
theorem beginCleanup_eq_some {rest : List MptcpEndpoint}
    (h : contexts.beginCleanup c = .ok (some (rest, contexts'))) :
    ∃ owned, rest.Perm owned.rows ∧
      ((contexts.get c = some (.cleaning owned) ∧ contexts' = contexts) ∨
        ∃ endpoints, contexts.get c = some (.active endpoints) ∧ owned = ownedEndpoints endpoints ∧
          (∀ managed ∈ endpoints.rows, managed.phase ≠ .adding ∧ managed.phase ≠ .removing) ∧
          contexts' = contexts.insert c (.cleaning owned)) := by
  simp only [beginCleanup, bind_eq_ok] at h
  obtain ⟨_, -, h⟩ := h
  split at h
  · simp [pure, Except.pure] at h
  · simp at h
  · rename_i endpoints hget
    simp only [ok_iff, Option.some.injEq, Prod.mk.injEq] at h
    obtain ⟨_, hidle, rfl, rfl⟩ := h
    exact ⟨_, orderBy_perm _ _ _, .inr ⟨endpoints, hget, rfl, by simpa using hidle, rfl⟩⟩
  · rename_i owned hget
    simp only [pure_eq_ok, Option.some.injEq, Prod.mk.injEq] at h
    obtain ⟨rfl, rfl⟩ := h
    exact ⟨owned, orderBy_perm _ _ _, .inl ⟨hget, rfl⟩⟩

end Contexts

theorem MptcpEndpoint.validate_range {endpoint : MptcpEndpoint} (h : endpoint.validate = .ok ()) :
    1 ≤ endpoint.id ∧ endpoint.id ≤ maxPaths := by
  simp only [MptcpEndpoint.validate, ok_iff] at h
  obtain ⟨_, hzero, _, hmax, -⟩ := h
  omega

/-- A state has its shape whatever the limits are. -/
theorem State.Shaped.of_limits {s : State} (h : s.Shaped)
    (hk : k.endpoints = s.shared.kernel.endpoints) (limits : Option (Bytes × MptcpLimits)) :
    State.Shaped ⟨⟨s.shared.contexts, k, limits⟩, s.calls⟩ := by
  obtain ⟨entries, old⟩ := k
  cases h with
  | free k _ h =>
    cases hk
    exact .free _ limits h
  | preparing c l k _ result hid h =>
    cases hk
    exact .preparing c l _ limits result hid h
  | active c endpoints k _ calls hid h =>
    cases hk
    exact .active c endpoints _ limits calls hid ⟨h.slots, h.each, h.distinct⟩
  | cleaning c endpoints k _ calls hid h hcalls =>
    cases hk
    refine .cleaning c endpoints _ limits calls hid ⟨h.ours, h.range⟩ ?_
    cases hcalls with
    | idle => exact .idle
    | between rest hrest => exact .between rest hrest
    | deleted endpoint rest result hrest hgone => exact .deleted endpoint rest result hrest hgone

/-- A call that cleans a context. -/
def Call.cleans (c : Bytes) : Call → Bool
  | .cleanup c' _ _ => c' = c
  | _ => false

namespace State

/-- No cleanup of a context starts while another one is in progress. -/
def Careful (s : State) : Step → Prop
  | .start (.cleanupContext c) => ∀ call ∈ s.calls, call.cleans c = false
  | _ => True

/-- The shape of a state with an active context. -/
theorem Shaped.of_get_active {s : State} (h : s.Shaped) {c : Bytes}
    {endpoints : Table ManagedEndpoint.id}
    (hget : s.shared.contexts.get c = some (.active endpoints)) :
    ∃ k limits calls, s = ⟨⟨.only c (.active endpoints), k, limits⟩, calls⟩ ∧
      validateContextId c = .ok () ∧ ActiveOk c endpoints k calls := by
  cases h with
  | active c' endpoints' k limits calls hid h =>
    obtain ⟨rfl, hsame⟩ := eq_of_get_only hget
    cases hsame
    exact ⟨k, limits, calls, rfl, hid, h⟩
  | free => simp [Contexts.get, lookup] at hget
  | _ => cases (Contexts.eq_of_get_only hget).2

/-- A request starts, in a shape. -/
theorem Shaped.start {s : State} (h : s.Shaped) (kind : Kind) {request : Request}
    (hcareful : s.Careful (.start request)) : (s.start kind request).2.Shaped := by
  cases request with
  | prepareContext c l =>
    rw [State.start]
    cases hbegin : s.shared.contexts.beginPrepare c l with
    | error e => exact h
    | ok contexts =>
      obtain ⟨hid, hrows, rfl⟩ := beginPrepare_eq_ok hbegin
      cases h with
      | free k limits h =>
        simp only [insert_empty]
        exact .preparing c l k limits none hid h
      | _ => simp [only] at hrows
  | addPath c endpoint =>
    rw [State.start]
    rcases hbegin : s.shared.contexts.beginAdd c endpoint with e | _ | contexts
    · exact h
    · exact h
    · obtain ⟨hvalid, endpoints, hget, hfree, rfl⟩ := beginAdd_eq_some hbegin
      obtain ⟨k, limits, calls, rfl, hid, h⟩ := h.of_get_active hget
      simp only [insert_only]
      refine .active c _ k limits _ hid (ActiveOk.perm ?_ (List.perm_append_singleton _ _).symm)
      refine h.enter (fun m hm => by simp [hfree] at hm) (MptcpEndpoint.validate_range hvalid)
        (fun id => by rw [lookup_put]; rfl) fun hentry => ?_
      obtain ⟨phase, hphase⟩ := (h.slots endpoint.id).ours endpoint hentry
      simp [hfree] at hphase
  | removePath c id =>
    rw [State.start]
    rcases hbegin : s.shared.contexts.beginRemove c id with e | _ | ⟨endpoint, contexts⟩
    · exact h
    · exact h
    · obtain ⟨endpoints, phase, hget, hrecord, hphase, rfl⟩ := beginRemove_eq_some hbegin
      obtain ⟨k, limits, calls, rfl, hid, h⟩ := h.of_get_active hget
      have hkey := key_of_lookup hrecord
      obtain rfl : endpoint.id = id := hkey
      simp only [insert_only]
      refine .active c _ k limits _ hid (ActiveOk.perm ?_ (List.perm_append_singleton _ _).symm)
      refine h.enter (fun m hm => ?_) ((h.slots endpoint.id).range (by simp [hrecord]))
        (fun id => by rw [lookup_put]; rfl) trivial
      obtain rfl := Option.mem_unique hrecord hm
      exact ⟨hphase, rfl⟩
  | cleanupContext c =>
    rw [State.start]
    rcases hbegin : s.shared.contexts.beginCleanup c with e | _ | ⟨rest, contexts⟩
    · exact h
    · exact h
    · obtain ⟨owned, hrest, ⟨hget, rfl⟩ | ⟨endpoints, hget, rfl, hidle, rfl⟩⟩ :=
        beginCleanup_eq_some hbegin
      · cases h with
        | cleaning c' endpoints' k limits calls hid h hcalls =>
          obtain ⟨rfl, hsame⟩ := eq_of_get_only hget
          cases hsame
          cases hcalls with
          | idle => exact .cleaning c owned k limits _ hid h (.between rest hrest)
          | _ => simp [Careful, Call.cleans] at hcareful
        | free => simp [Contexts.get, lookup] at hget
        | _ => cases (Contexts.eq_of_get_only hget).2
      · obtain ⟨k, limits, calls, rfl, hid, h⟩ := h.of_get_active hget
        obtain ⟨rfl, hcleaning⟩ := h.cleaning hidle
        simp only [Contexts.insert_only]
        exact .cleaning c _ k limits _ hid hcleaning (.between rest hrest)
  | updateContextLimits c l fault =>
    cases kind with
    | asynchronous => exact h
    | synchronous =>
      obtain ⟨k, limits, hk, heq⟩ := s.shared.updateContextLimits_eq c l fault
      change State.Shaped ⟨(s.shared.updateContextLimits c l fault).2, s.calls⟩
      rw [heq]
      exact h.of_limits hk limits

end State

end Volparossa.Mptcp
