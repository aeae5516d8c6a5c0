import Volparossa.Mptcp.Managers
import Volparossa.Mptcp.Shapes

/-!
# Ownership of the endpoints

What holds of the manager in any interleaving of its calls, with a kernel whose calls may fail
before or after they took effect: an endpoint that the manager put into the kernel is recorded by it
until it is gone, an endpoint recorded as active is in the kernel, one context at most owns the
namespace, with at most eight endpoints, and once no call is in progress one more cleanup removes
them all. The shapes of the system guarantee this (`State.Shaped.owned`).

The shapes break down when two calls clean one context: the later one goes on deleting endpoints, by
their identifier, after the earlier one has given the namespace back, and so deletes an endpoint
that a new context added (`State.cleanup_overtaken`). The sibling call that removes a single
endpoint is not exposed to this, since it marks the endpoint as being removed. **`State.ownership`**
says that everything holds in a run in which no cleanup of a context starts during another one.
-/

namespace Volparossa.Mptcp

open Contexts State Machine Table

variable {k : Kernel}

/-! ## What is recorded -/

/-- The endpoints that a context records, whatever their phase. -/
def ManagedContext.endpoints : ManagedContext → List MptcpEndpoint
  | .preparing _ => []
  | .active endpoints => endpoints.rows.map ManagedEndpoint.endpoint
  | .cleaning endpoints => endpoints.rows

/-- The endpoints that the manager records. -/
def Contexts.records (contexts : Contexts) : List MptcpEndpoint :=
  contexts.rows.flatMap fun row => row.context.endpoints

/-- The endpoints of the manager in the kernel. -/
def Kernel.owned (k : Kernel) : List KernelEntry := k.endpoints.rows.filter KernelEntry.ours

/-- One call that cleans a context, with a kernel that works. -/
def cleanupSteps (routeContextId : Bytes) (records : ℕ) : List Step :=
  .start (.cleanupContext routeContextId) :: List.replicate (2 * records + 1) (.advance 0 none)

/-- What the manager guarantees in a state. -/
structure State.Owned (kind : Kind) (s : State) : Prop where
  recorded : ∀ entry ∈ s.shared.kernel.endpoints.rows, entry.ours = true →
    entry.endpoint ∈ s.shared.contexts.records
  active : ∀ endpoint, s.shared.contexts.ReportsActive endpoint →
    s.shared.kernel.endpoints.lookup endpoint.id = some ⟨endpoint, true⟩
  single : s.shared.contexts.rows.length ≤ 1
  bounded : s.shared.contexts.records.length ≤ maxPaths ∧ s.shared.kernel.owned.length ≤ maxPaths
  distinct : (s.shared.contexts.records.map MptcpEndpoint.id).Nodup
  released : s.calls = [] → ∀ row ∈ s.shared.contexts.rows,
    let s' := (machine kind).run s
      (cleanupSteps row.routeContextId s.shared.contexts.records.length)
    s'.shared.contexts.rows = [] ∧ s'.calls = [] ∧ s'.shared.kernel.Clear

theorem Contexts.records_only {c : Bytes} {context : ManagedContext} :
    (only c context).records = context.endpoints := by
  simp [records, only]

/-! ## What the shapes guarantee -/

/-- Endpoints with different identifiers from one to eight are at most eight. -/
theorem length_le_maxPaths {records : List MptcpEndpoint}
    (hdistinct : (records.map MptcpEndpoint.id).Nodup)
    (hrange : ∀ endpoint ∈ records, 1 ≤ endpoint.id ∧ endpoint.id ≤ maxPaths) :
    records.length ≤ maxPaths := by
  have hsubset : records.map MptcpEndpoint.id ⊆ List.range' 1 maxPaths := by
    intro id hid
    obtain ⟨endpoint, hmem, rfl⟩ := List.mem_map.mp hid
    have := hrange endpoint hmem
    simp only [List.mem_range'_1]
    omega
  simpa using (List.subperm_of_subset hdistinct hsubset).length_le

/-- The kernel has no more endpoints of the manager than are recorded. -/
theorem Kernel.length_owned_le {records : List MptcpEndpoint}
    (h : ∀ entry ∈ k.endpoints.rows, entry.ours = true → entry.endpoint ∈ records) :
    k.owned.length ≤ records.length := by
  have hdistinct : (k.owned.map KernelEntry.id).Nodup :=
    k.endpoints.nodup.sublist (List.filter_sublist.map KernelEntry.id)
  have hdistinct' : (k.owned.map KernelEntry.endpoint).Nodup := by
    refine List.Nodup.of_map MptcpEndpoint.id ?_
    rwa [List.map_map]
  have hsubset : k.owned.map KernelEntry.endpoint ⊆ records := by
    intro endpoint hmem
    obtain ⟨entry, hentry, rfl⟩ := List.mem_map.mp hmem
    obtain ⟨hentry, hours⟩ := List.mem_filter.mp hentry
    exact h entry hentry hours
  simpa using (List.subperm_of_subset hdistinct' hsubset).length_le

/-- What a context has to record. -/
structure ContextOk (context : ManagedContext) (k : Kernel) : Prop where
  recorded : ∀ entry ∈ k.endpoints.rows, entry.ours = true → entry.endpoint ∈ context.endpoints
  range : ∀ endpoint ∈ context.endpoints, 1 ≤ endpoint.id ∧ endpoint.id ≤ maxPaths
  distinct : (context.endpoints.map MptcpEndpoint.id).Nodup

theorem contextOk_preparing (l : MptcpLimits) (h : k.Clear) :
    ContextOk (.preparing l) k where
  recorded entry hentry hours := by simp [h entry hentry] at hours
  range := by simp [ManagedContext.endpoints]
  distinct := by simp [ManagedContext.endpoints]

theorem CleaningOk.contextOk {endpoints : Table MptcpEndpoint.id} (h : CleaningOk endpoints k) :
    ContextOk (.cleaning endpoints) k where
  recorded entry hentry hours := by
    obtain ⟨endpoint, ours⟩ := entry
    simp only at hours
    subst hours
    exact mem_of_lookup (h.ours _ endpoint (k.endpoints.lookup_key hentry))
  range endpoint hmem := h.range _ endpoint (endpoints.lookup_key hmem)
  distinct := endpoints.nodup

theorem ActiveOk.contextOk {c : Bytes} {endpoints : Table ManagedEndpoint.id} {calls : List Call}
    (h : ActiveOk c endpoints k calls) : ContextOk (.active endpoints) k where
  recorded entry hentry hours := by
    obtain ⟨endpoint, ours⟩ := entry
    simp only at hours
    subst hours
    obtain ⟨phase, hphase⟩ := (h.slots endpoint.id).ours endpoint (k.endpoints.lookup_key hentry)
    exact List.mem_map.mpr ⟨_, mem_of_lookup hphase, rfl⟩
  range endpoint hmem := by
    obtain ⟨managed, hmanaged, rfl⟩ := List.mem_map.mp hmem
    refine (h.slots managed.id).range ?_
    rw [endpoints.lookup_key hmanaged]
    simp
  distinct := (ownedEndpoints endpoints).nodup

/-! ### One more cleanup -/

section Release

variable {c : Bytes} {endpoints : Table MptcpEndpoint.id} {k : Kernel}
variable {limits : Option (Bytes × MptcpLimits)}

/-- With a kernel that works, a cleanup in progress removes what is left and frees the namespace. -/
theorem State.run_cleanup (kind : Kind) (rest : List MptcpEndpoint) (h : CleaningOk endpoints k)
    (hrest : rest.Perm endpoints.rows) :
    ∃ k', k'.Clear ∧ (machine kind).run
      ⟨⟨.only c (.cleaning endpoints), k, limits⟩, [.cleanup c rest none]⟩
      (List.replicate (2 * rest.length + 1) (.advance 0 none)) = ⟨⟨.empty, k', limits⟩, []⟩ := by
  -- by induction on the endpoints in hand: each takes a kernel call and a section under the lock
  induction rest generalizing endpoints k with
  | nil =>
    have hempty : endpoints.rows = [] := hrest.nil_eq.symm
    refine ⟨k, h.clear hempty, ?_⟩
    simp only [List.length_nil, Nat.mul_zero, Nat.zero_add, List.replicate_one, run,
      next, machine, step, List.getElem?_cons_zero, Shared.stepCall,
      Shared.stepCleanup,
      finishCleanup_only hempty, List.eraseIdx_cons_zero]
  | cons endpoint rest ih =>
    obtain ⟨k', hclear, hrun⟩ :=
      ih (h.without.forget Kernel.lookup_without_self) (erase_of_perm hrest)
    refine ⟨k', hclear, ?_⟩
    have hlength : 2 * (endpoint :: rest).length + 1 = 2 * rest.length + 1 + 1 + 1 := by
      rw [List.length_cons]
      omega
    rw [← hrun, hlength, List.replicate_succ, List.replicate_succ]
    simp only [run]
    congr 1
    simp only [next, machine, step, List.getElem?_cons_zero, Shared.stepCall,
      Shared.stepCleanup, Kernel.deleteEndpoint_none, List.set_cons_zero,
      forgetCleaned_only (lookup_of_perm hrest)]

/-- A call that starts to clean a context removes its endpoints and frees the namespace. -/
theorem State.run_cleanupSteps (kind : Kind) {context : ManagedContext} {rest : List MptcpEndpoint}
    (hbegin : (only c context).beginCleanup c =
      .ok (some (rest, .only c (.cleaning endpoints))))
    (h : CleaningOk endpoints k) (hrest : rest.Perm endpoints.rows)
    (hlength : endpoints.rows.length = context.endpoints.length) :
    let s' := (machine kind).run ⟨⟨.only c context, k, limits⟩, []⟩
      (cleanupSteps c (only c context).records.length)
    s'.shared.contexts.rows = [] ∧ s'.calls = [] ∧ s'.shared.kernel.Clear := by
  intro s'
  obtain ⟨k', hclear, hrun⟩ := run_cleanup (c := c) kind rest h hrest
  have hs' : s' = ⟨⟨.empty, k', limits⟩, []⟩ := by
    rw [← hrun, hrest.length_eq, hlength, ← records_only]
    simp only [s', cleanupSteps, run]
    congr 1
    simp only [next, machine, step, start, hbegin, List.nil_append]
  rw [hs']
  exact ⟨rfl, rfl, hclear⟩

theorem beginCleanup_active {endpoints : Table ManagedEndpoint.id}
    (hid : validateContextId c = .ok ())
    (hidle : ∀ managed ∈ endpoints.rows, managed.phase ≠ .adding ∧ managed.phase ≠ .removing) :
    (only c (.active endpoints)).beginCleanup c =
      .ok (some ((ownedEndpoints endpoints).orderBy MptcpEndpoint.id (· ≤ ·),
        .only c (.cleaning (ownedEndpoints endpoints)))) := by
  have hrefuse : ¬(endpoints.rows.any fun managed =>
      managed.phase = .adding || managed.phase = .removing) = true := by
    simpa using hidle
  simp only [beginCleanup, hid, get_only_self, insert_only, ok_bind,
    refuse_of_not hrefuse, pure_ok]

theorem beginCleanup_cleaning (hid : validateContextId c = .ok ()) :
    (only c (.cleaning endpoints)).beginCleanup c =
      .ok (some (endpoints.orderBy MptcpEndpoint.id (· ≤ ·), .only c (.cleaning endpoints))) := by
  simp only [beginCleanup, hid, get_only_self, ok_bind, pure_ok]

end Release

namespace State

/-- What a single context has to guarantee. -/
theorem Owned.of_only {kind : Kind} {c : Bytes} {context : ManagedContext} {k : Kernel}
    {limits : Option (Bytes × MptcpLimits)} {calls : List Call} (h : ContextOk context k)
    (hactive : ∀ endpoints endpoint, context = .active endpoints →
      endpoints.lookup endpoint.id = some ⟨.active, endpoint⟩ →
      k.endpoints.lookup endpoint.id = some ⟨endpoint, true⟩)
    (hreleased : calls = [] →
      let s' := (machine kind).run ⟨⟨.only c context, k, limits⟩, []⟩
        (cleanupSteps c (only c context).records.length)
      s'.shared.contexts.rows = [] ∧ s'.calls = [] ∧ s'.shared.kernel.Clear) :
    Owned kind ⟨⟨.only c context, k, limits⟩, calls⟩ where
  recorded entry hentry hours := by
    rw [records_only]
    exact h.recorded entry hentry hours
  active endpoint := by
    rintro ⟨c', endpoints, hget, hrecord⟩
    exact hactive endpoints endpoint (eq_of_get_only hget).2.symm hrecord
  single := by simp [only]
  bounded := by
    have hlength := length_le_maxPaths h.distinct h.range
    refine ⟨?_, (Kernel.length_owned_le h.recorded).trans hlength⟩
    rwa [records_only]
  distinct := by
    rw [records_only]
    exact h.distinct
  released hcalls row hrow := by
    obtain rfl : row = ⟨c, context⟩ := by simpa [only] using hrow
    cases hcalls
    exact hreleased rfl

/-- **Every shape guarantees the ownership.** -/
theorem Shaped.owned {s : State} (h : s.Shaped) (kind : Kind) : s.Owned kind := by
  cases h with
  | free k limits h =>
    have hnone : ∀ entry ∈ k.endpoints.rows, entry.ours = true → entry.endpoint ∈ [] :=
      fun entry hentry hours => by simp [h entry hentry] at hours
    refine ⟨hnone, fun endpoint => ?_, by simp, ⟨by simp [Contexts.records], ?_⟩,
      by simp [Contexts.records], by simp⟩
    · rintro ⟨c, endpoints, hget, -⟩
      simp [Contexts.get, lookup] at hget
    · exact (Kernel.length_owned_le hnone).trans (Nat.zero_le _)
  | preparing c l k limits result hid h =>
    exact .of_only (contextOk_preparing l h) (fun _ _ hcontext => by cases hcontext)
      fun hcalls => by cases hcalls
  | active c endpoints k limits calls hid h =>
    refine .of_only h.contextOk (fun endpoints' endpoint hcontext hrecord => ?_) fun hcalls => ?_
    · cases hcontext
      exact (h.slots endpoint.id).active endpoint hrecord
    · subst hcalls
      have hidle : ∀ managed ∈ endpoints.rows,
          managed.phase ≠ .adding ∧ managed.phase ≠ .removing := fun managed hmem => by
        have hpending := (h.slots managed.id).pending managed (endpoints.lookup_key hmem)
        exact ⟨fun hphase => by simpa using hpending (.inl hphase),
          fun hphase => by simpa using hpending (.inr hphase)⟩
      refine run_cleanupSteps kind (beginCleanup_active hid hidle) (h.cleaning hidle).2
        (orderBy_perm _ _ _) ?_
      simp [ownedEndpoints, ManagedContext.endpoints]
  | cleaning c endpoints k limits calls hid h hcalls =>
    exact .of_only h.contextOk (fun _ _ hcontext => by cases hcontext) fun _ =>
      run_cleanupSteps kind (beginCleanup_cleaning hid) h (orderBy_perm _ _ _) rfl

/-! ## Whole runs -/

/-- No cleanup of a context starts while another one is in progress, in a whole run. -/
def CarefulRun (kind : Kind) (s : State) (steps : List Step) : Prop :=
  ∀ e ∈ (machine kind).events s steps, e.before.Careful e.input

instance (s : State) (step : Step) : Decidable (s.Careful step) :=
  match step with
  | .start (.cleanupContext c) =>
    inferInstanceAs (Decidable (∀ call ∈ s.calls, call.cleans c = false))
  | .start (.prepareContext ..) | .start (.addPath ..) | .start (.removePath ..)
  | .start (.updateContextLimits ..) | .advance .. => isTrue trivial

instance (kind : Kind) (s : State) (steps : List Step) : Decidable (CarefulRun kind s steps) :=
  inferInstanceAs (Decidable (∀ e ∈ (machine kind).events s steps, e.before.Careful e.input))

/-- A step in which a call returns that the endpoint is added. -/
def ReportsAdded (e : Machine.Event State Step (Option (Except MptcpError Unit)))
    (endpoint : MptcpEndpoint) : Prop :=
  e.output = some (.ok ()) ∧
    ((∃ c, e.input = .start (.addPath c endpoint)) ∨
      ∃ i fault c stage, e.input = .advance i fault ∧
        e.before.calls[i]? = some (.endpoint c endpoint stage) ∧ stage.phase = .adding)

/-- What a call says it added is recorded as active. -/
theorem reportsActive_of_reportsAdded {kind : Kind} {s : State} {step : Step}
    {endpoint : MptcpEndpoint} (h : ReportsAdded ((machine kind).event s step) endpoint) :
    ((machine kind).next s step).shared.contexts.ReportsActive endpoint := by
  obtain ⟨houtput, ⟨c, hinput⟩ | ⟨i, fault, c, stage, hinput, hcall, hphase⟩⟩ := h
  · obtain rfl : step = .start (.addPath c endpoint) := hinput
    simp only [event, next, machine, step, start] at houtput ⊢
    cases hbegin : s.shared.contexts.beginAdd c endpoint with
    | error e => simp [hbegin] at houtput
    | ok entered =>
      cases entered with
      | none => exact beginAdd_eq_none hbegin
      | some contexts => simp [hbegin] at houtput
  · obtain rfl : step = .advance i fault := hinput
    have hcall : s.calls[i]? = some (.endpoint c endpoint stage) := hcall
    simp only [event, next, machine, step, hcall,
      Shared.stepCall] at houtput ⊢
    -- the only stage of an addition from which a call returns without an error
    cases stage with
    | added result =>
      cases result with
      | ok _ =>
        simp only [Shared.stepEndpoint] at houtput ⊢
        cases hcommit : s.shared.contexts.commitAdd c endpoint with
        | none => simp [hcommit] at houtput
        | some contexts => exact commitAdd_eq_some hcommit
      | error e =>
        simp only [Shared.stepEndpoint] at houtput
        split_ifs at houtput
        simp at houtput
    | rolledBack e result => cases result <;> simp [Shared.stepEndpoint] at houtput
    | undone result => cases result <;> simp [Shared.stepEndpoint] at houtput
    | removing => cases hphase
    | removed _ => cases hphase
    | _ => simp [Shared.stepEndpoint] at houtput

theorem clear_initial (foreign : List MptcpEndpoint) : (initial foreign).shared.kernel.Clear := by
  suffices h : ∀ t : Table KernelEntry.id, (∀ entry ∈ t.rows, entry.ours = false) →
      ∀ entry ∈ (foreign.foldl (fun t endpoint => t.put ⟨endpoint, false⟩) t).rows,
        entry.ours = false from h .empty (by simp)
  induction foreign with
  | nil => exact fun t ht => ht
  | cons endpoint foreign ih =>
    refine fun t ht => ih _ fun entry hentry => ?_
    rcases mem_put.mp hentry with rfl | ⟨hentry, -⟩
    · rfl
    · exact ht entry hentry

theorem Shaped.next {s : State} (h : s.Shaped) (kind : Kind) {step : Step}
    (hcareful : s.Careful step) : ((machine kind).next s step).Shaped := by
  cases step with
  | start request => exact h.start kind hcareful
  | advance i fault => exact h.advance kind i fault

/-- A careful run keeps to the shapes, and reports as added what is in the kernel. -/
theorem shaped_run (kind : Kind) (foreign : List MptcpEndpoint) (steps : List Step)
    (hcareful : CarefulRun kind (initial foreign) steps) :
    ((machine kind).run (initial foreign) steps).Shaped ∧
      ∀ e ∈ (machine kind).events (initial foreign) steps, e.after.Shaped := by
  induction steps using List.reverseRecOn with
  | nil => exact ⟨.free _ _ (clear_initial foreign), by simp [events]⟩
  | append_singleton steps step ih =>
    simp only [CarefulRun, events_append, events, List.forall_mem_append,
      List.forall_mem_singleton] at hcareful
    obtain ⟨hrun, hevents⟩ := ih hcareful.1
    have hnext := hrun.next kind hcareful.2
    rw [run_append, events_append]
    exact ⟨hnext, forall_mem_concat hevents hnext⟩

/-- **The ownership of the endpoints**: in a run of either manager, whatever the interleaving of its
calls and the failures of the kernel, in which no cleanup of a context starts during another one,
every endpoint that the manager put into the kernel is recorded, what is recorded or was reported as
active is in the kernel, one context at most has at most eight endpoints with different identifiers,
and without a call in progress one cleanup removes them all and frees the namespace. The two
managers take the same states. -/
theorem ownership (kind : Kind) (foreign : List MptcpEndpoint) (steps : List Step) :
    (CarefulRun kind (initial foreign) steps →
      ((machine kind).run (initial foreign) steps).Owned kind ∧
      ∀ e ∈ (machine kind).events (initial foreign) steps, ∀ endpoint, ReportsAdded e endpoint →
        e.after.shared.kernel.endpoints.lookup endpoint.id = some ⟨endpoint, true⟩) ∧
    ((machine .synchronous).run (initial foreign) steps).view =
      ((machine .asynchronous).run (initial foreign) steps).view := by
  refine ⟨fun hcareful => ?_, view_run foreign steps⟩
  obtain ⟨hrun, hevents⟩ := shaped_run kind foreign steps hcareful
  refine ⟨hrun.owned kind, fun e he endpoint hreport => ?_⟩
  obtain ⟨-, heq⟩ := events_invariant (P := fun _ => True) (fun _ _ _ => trivial) trivial
    steps e he
  have hafter : e.after = (machine kind).next e.before e.input := congrArg Machine.Event.after heq
  refine ((hevents e he).owned kind).active endpoint ?_
  rw [hafter]
  exact reportsActive_of_reportsAdded (heq ▸ hreport)

/-! ## Samples -/

def sampleContext : Bytes := "route-1".toUTF8.toList

def sampleLimits : MptcpLimits := ⟨8, 8⟩

def sampleEndpoint : MptcpEndpoint :=
  ⟨1, .v6 ⟨[0xfd, 0x76, 0x6f, 0x6c, 0x70, 0x61, 0, 0, 0, 0, 0, 1, 0, 0, 0, 1], rfl⟩, 4,
    EndpointFlags.subflow, none⟩

/-- Prepare a context and add an endpoint, with `others` calls in progress. -/
def sampleSetup (others : ℕ) : List Step :=
  [.start (.prepareContext sampleContext sampleLimits), .advance others none, .advance others none,
    .start (.addPath sampleContext sampleEndpoint), .advance others none, .advance others none]

/-- Two calls clean one context; the first finishes while the second has an endpoint in hand. The
context is set up once more, and then the second call deletes the endpoint. -/
def sampleOvertaken : List Step :=
  sampleSetup 0 ++
    [.start (.cleanupContext sampleContext), .start (.cleanupContext sampleContext),
      .advance 0 none, .advance 0 none, .advance 0 none] ++
    sampleSetup 1 ++ [.advance 0 none]

/-- **A cleanup that was overtaken deletes the endpoint of the next context**: the manager records
as active what is not in the kernel. -/
theorem cleanup_overtaken :
    let s := (machine .asynchronous).run (initial []) sampleOvertaken
    s.shared.contexts.ReportsActive sampleEndpoint ∧
      s.shared.kernel.endpoints.lookup sampleEndpoint.id = none := by
  refine ⟨⟨sampleContext, ⟨[⟨.active, sampleEndpoint⟩], by decide⟩, ?_, ?_⟩, ?_⟩
  all_goals decide +kernel

/-- A failed addition, whose endpoint is left in the kernel, and the cleanup of the context. -/
def sampleCareful : List Step :=
  [.start (.prepareContext sampleContext sampleLimits), .advance 0 none, .advance 0 none,
    .start (.addPath sampleContext sampleEndpoint),
    .advance 0 (some (.after ⟨.io (some 5), rfl⟩)), .advance 0 none,
    .advance 0 (some (.before ⟨.io (some 5), rfl⟩)), .advance 0 none]

theorem ownership_retained :
    CarefulRun .synchronous (initial []) sampleCareful ∧
      ((machine .synchronous).run (initial []) sampleCareful).shared.kernel.owned =
        [⟨sampleEndpoint, true⟩] ∧
      ((machine .synchronous).run (initial []) sampleCareful).Owned .synchronous :=
  ⟨by decide +kernel, by decide +kernel, ((ownership _ _ _).1 (by decide +kernel)).1⟩

end State

end Volparossa.Mptcp
