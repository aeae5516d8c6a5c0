import Volparossa.Abci.Proposal

/-!
# The lifecycle of the application

A run of the application is any sequence of requests, in whatever order they come. Its durable state
changes in two ways only: the first `InitChain` creates the store, and a `Commit` puts on top of the
latest block the one that an earlier `FinalizeBlock` of the run staged, with no change of the store
in between (`lifecycle_safety`). After the first error nothing changes any more.
-/

namespace Volparossa.Abci

open Protobuf Transaction Ordered

/-- The requests that only read. -/
def RequestValue.readsOnly : RequestValue → Bool
  | .info | .checkTx _ | .prepareProposal _ | .processProposal _ | .query _ => true
  | _ => false

namespace Application

variable {lib : Libraries}

/-! ## Steps of a run -/

/-- The step answers a `FinalizeBlock` of `block`. -/
structure Finalizes (e : Event) (block : Block) : Prop where
  request : ∃ q, e.input.value = some (.finalizeBlock q) ∧ finalizedBlock q = .ok block
  answered : ∃ response, e.output = .ok response

/-- The last steps of `past` are a `FinalizeBlock` of `block`, after which the store is `s`, and
steps that change neither its durable nor its staged state. -/
def FinalizedLast (past : List Event) (block : Block) (s : OrderedStore) : Prop :=
  ∃ pre f mid, past = pre ++ f :: mid ∧ Finalizes f block ∧ f.after.store = some s ∧
    ∀ e ∈ mid, e.before.store = some s ∧ e.after.store = some s

/-- The step after `past` commits `block` on top of the latest block. -/
structure Commits (lib : Libraries) (past : List Event) (e : Event) (block : Block) : Prop where
  request : e.input.value = some .commit
  answered : e.output = .ok (.commit 0)
  finalized : ∃ s, e.before.store = some s ∧ FinalizedLast past block s ∧
    ∃ latest, Ordered.info lib.crypto s.database s.handle = .ok latest ∧
      block.height = latest.height + 1
  durable : ∃ s genesis record, e.after.store = some s ∧
    load lib.crypto s.database s.handle.ledgerId = .ok (genesis, record) ∧
    record.block = some (.ofBlock block)

/-! ## The staged block -/

/-- A staged block was finalized by the run, and nothing changed the store since. -/
def StagedByRun (past : List Event) (app : Application) : Prop :=
  ∀ s pending, app.store = some s → s.handle.staged = some pending →
    ∃ block, FinalizedLast past block s ∧ pending.record.block = some (.ofBlock block)

variable {past : List Event} {app : Application}

/-- A step that leaves the store as it is. -/
theorem StagedByRun.extend {app' : Application} (h : StagedByRun past app)
    {e : Event} (hbefore : e.before.store = app.store) (hafter : e.after.store = app.store)
    (happ : app'.store = app.store) : StagedByRun (past ++ [e]) app' := by
  intro s pending hstore hstaged
  rw [happ] at hstore
  obtain ⟨block, ⟨pre, f, mid, rfl, hf, hs, hmid⟩, hblock⟩ := h s pending hstore hstaged
  refine ⟨block, ⟨pre, f, mid ++ [e], by simp, hf, hs, forall_mem_concat hmid ?_⟩, hblock⟩
  rw [hbefore, hafter]
  exact ⟨hstore, hstore⟩

/-- With nothing staged there is nothing to show. -/
theorem StagedByRun.of_none (h : ∀ s, app.store = some s → s.handle.staged = none) : StagedByRun
    past app := by
  intro s pending hstore hstaged
  rw [h s hstore] at hstaged
  cases hstaged

theorem openStore_staged {crypto : Crypto} {d : Database} {h : Handle}
    (hopen : openStore crypto d = .ok h) : h.staged = none := by
  simp only [openStore, ok_iff] at hopen
  obtain ⟨-, -, -, -, rfl⟩ := hopen
  rfl

theorem createStore_staged {genesis : Genesis} {s : OrderedStore}
    (h : createStore lib genesis = .ok s) : s.handle.staged = none := by
  simp only [createStore, create, ok_iff, Prod.exists, Prod.mk.injEq, ofStore_eq_ok] at h
  obtain ⟨-, -, -, -, -, -, -, -, ⟨-, -, -, -, -, rfl⟩, rfl⟩ := h
  rfl

/-- After a commit nothing is staged. -/
theorem commit_staged {o : Origin lib.crypto} {s₀ head : Head} {p₀ p : Block}
    {log : List (Block × BlockReceipt)} {s : OrderedStore} {id : FixedBytes 32} {x : BlockReceipt}
    {database : Database} {handle : Handle} (hs : OrderedStore.Session o s₀ p₀ log head p s)
    (hcommit : Ordered.commit lib.crypto s.database s.handle id = .ok (x, database, handle)) :
    handle.staged = none := by
  rw [(commit_eq_ok hs.sound hs.stored hs.handle_sound hcommit).1]
  rfl

/-- **One request**: a staged block remains one that the run finalized. -/
theorem StagedByRun.step (h : StagedByRun past app) (hsound : app.Sound lib) (request : Request) :
    StagedByRun (past ++ [(machine lib).event app request]) ((machine lib).next app request) := by
  obtain ⟨app', heffect, hstore, -⟩ := next_effect lib app request
  generalize hvalue : request.value = value at heffect
  generalize hresult : (handle lib app request).1 = result at heffect
  cases heffect with
  | read => exact h.extend rfl hstore hstore
  | create hnone hcreate =>
    refine .of_none fun s hs => ?_
    rw [hstore] at hs
    cases hs
    exact createStore_staged hcreate
  | @commit id s x database handle hpending hs hcommit =>
    obtain ⟨o, s₀, p₀, log, head, p, hsession⟩ := hsound s hs
    refine .of_none fun s' hs' => ?_
    rw [hstore] at hs'
    cases hs'
    exact commit_staged hsession hcommit
  | @stage q s block x handle hs hblock hstage =>
    intro s' pending hs' hstaged
    rw [hstore] at hs'
    cases hs'
    obtain ⟨o, s₀, p₀, log, head, p, hsession⟩ := hsound s hs
    rcases hsession.stage_cases hstage with ⟨head', hf, hstep, hpending, -⟩ | ⟨hnone, -⟩
    · rw [hpending, Option.some.injEq] at hstaged
      refine ⟨block, ⟨past, _, [], rfl, ⟨⟨q, hvalue, hblock⟩, ⟨_, hresult⟩⟩, hstore, by simp⟩, ?_⟩
      rw [← hstaged]
      exact (Ordered.next_sound hsession.sound hf hstep).record.block
    · rw [hnone] at hstaged
      cases hstaged

/-! ## What one request changes -/

/-- **A request that changes the database** creates it, or commits a block that the run
finalized. -/
theorem change_cases (h : StagedByRun past app) (hsound : app.Sound lib) {request : Request}
    (hchange : ((machine lib).next app request).database ≠ app.database) :
    (app.database = none ∧ ∃ q, request.value = some (.initChain q)) ∨
      ∃ block, Commits lib past ((machine lib).event app request) block := by
  obtain ⟨app', heffect, hstore, -⟩ := next_effect lib app request
  generalize hvalue : request.value = value at heffect
  generalize hresult : (handle lib app request).1 = result at heffect
  cases heffect with
  | read =>
    rw [database, database, hstore] at hchange
    exact absurd rfl hchange
  | @create q s _ hnone hcreate => exact Or.inl ⟨by rw [database, hnone]; rfl, q, rfl⟩
  | @stage q s block x handle hs hblock hstage =>
    rw [database, database, hstore, hs] at hchange
    exact absurd rfl hchange
  | @commit id s x d' handle hpending hs hcommit =>
    right
    obtain ⟨o, s₀, p₀, log, head, p, hsession⟩ := hsound s hs
    obtain ⟨hhandle, ⟨-, -, rfl, -⟩ | ⟨b, head', -, hf, hstep, hstaged, hd', -⟩⟩ :=
      commit_eq_ok hsession.sound hsession.stored hsession.handle_sound hcommit
    · -- the latest block again
      rw [database, database, hstore, hs] at hchange
      exact absurd rfl hchange
    · have hhead := Ordered.next_sound hsession.sound hf hstep
      obtain ⟨block, hlast, hblock⟩ := h s _ hs hstaged
      rw [hhead.record.block, Option.some.injEq] at hblock
      obtain rfl := BlockWire.ofBlock_injective hblock
      obtain ⟨latest, hlatest, hheight, -⟩ := exists_storeInfo hsession
      refine ⟨b, hvalue, hresult, ⟨s, hs, hlast, latest, ofStore_eq_ok.mp hlatest, ?_⟩,
        ⟨_, o.genesis, head'.record, hstore, ?_, hhead.record.block⟩⟩
      · rw [hheight, hf.height]
      · rw [hhandle, discardStaged, hsession.ledger]
        exact hhead.load hd'

/-- A store does not go away. -/
theorem database_ne_none (h : app.database ≠ none) (request : Request) :
    ((machine lib).next app request).database ≠ none := by
  obtain ⟨app', heffect, hstore, -⟩ := next_effect lib app request
  rw [database, hstore]
  generalize request.value = value at heffect
  generalize (handle lib app request).1 = result at heffect
  cases heffect with
  | read => exact h
  | create | stage | commit => simp

/-- A request that only reads changes neither the store nor the block to commit. -/
theorem next_of_readsOnly (app : Application) {request : Request} {value : RequestValue}
    (hvalue : request.value = some value) (hreads : value.readsOnly = true) :
    ((machine lib).next app request).store = app.store ∧
      ((machine lib).next app request).pending = app.pending := by
  obtain ⟨app', heffect, hstore, hpending⟩ := next_effect lib app request
  rw [hvalue] at heffect
  generalize (handle lib app request).1 = result at heffect
  cases heffect with
  | read => exact ⟨hstore, hpending⟩
  | create | stage | commit => cases hreads

/-- The latch is set after an error, and after an error only. -/
theorem failed_next_iff (app : Application) (request : Request) :
    ((machine lib).next app request).failed = true ↔
      ∃ e, ((machine lib).event app request).output = .error e := by
  simp only [Machine.next, Machine.event, machine]
  cases hfailed : app.failed with
  | true =>
    rw [handle_of_failed hfailed]
    exact ⟨fun _ => ⟨_, rfl⟩, fun _ => hfailed⟩
  | false =>
    obtain ⟨app', -, hnext⟩ := handle_effect lib hfailed request
    rw [hnext]
    cases (handle lib app request).1 with
    | ok response => simp [Except.isOk, Except.toBool]
    | error e => simp [Except.isOk, Except.toBool]

/-- **Once failed, always failed.** -/
theorem events_of_failed (h : app.failed = true) (requests : List Request) :
    ∀ e ∈ (machine lib).events app requests,
      e.output = .error .protocol ∧ e.before = app ∧ e.after = app := by
  have hstep : ∀ (app' : Application) (request : Request), app' = app →
      (machine lib).next app' request = app := by
    rintro app' request rfl
    simp only [Machine.next, machine, handle_of_failed h]
  intro e he
  obtain ⟨hbefore, hevent⟩ := Machine.events_invariant (P := (· = app)) hstep rfl requests e he
  rw [hbefore] at hevent
  refine ⟨?_, hbefore, ?_⟩
  · rw [hevent]
    simp only [Machine.event, machine, handle_of_failed h]
  · rw [hevent]
    exact hstep app _ rfl

/-! ## Runs -/

/-- **Lifecycle safety.** Let an application be opened, without a store or on the one that an
earlier process left, and let it handle any sequence of requests. At each step `e` of the run:

* if the durable state changes, there was no store and the request is an `InitChain`, or the request
  is a `Commit` and the block that it puts on top of the latest one is that of the last
  `FinalizeBlock`, with no change of the durable or staged state in between;
* once there is a store, every later request finds one, so it is created at most once;
* `Info`, `CheckTx`, `PrepareProposal`, `ProcessProposal` and `Query` change neither the durable nor
  the staged state;
* an error sets the latch, and after it every request is refused and changes nothing. -/
theorem lifecycle_safety {durable : Option Database} {genesis : Genesis} {app₀ : Application}
    (hdurable : durable = none ∨ ∃ app, Reachable lib app ∧ app.database = durable)
    (hopen : openApplication lib durable genesis = .ok app₀) (requests : List Request)
    {past later : List Event} {e : Event}
    (hsplit : (machine lib).events app₀ requests = past ++ e :: later) :
    (e.after.database ≠ e.before.database →
      (e.before.database = none ∧ ∃ q, e.input.value = some (.initChain q)) ∨
        ∃ block, Commits lib past e block) ∧
    (e.after.database ≠ none → ∀ e' ∈ later, e'.before.database ≠ none) ∧
    (∀ value, e.input.value = some value → value.readsOnly = true →
      e.after.store = e.before.store ∧ e.after.pending = e.before.pending) ∧
    (e.after.failed = true ↔ ∃ err, e.output = .error err) ∧
    (e.after.failed = true → ∀ e' ∈ later,
      (∃ err, e'.output = .error err) ∧ e'.before = e.after ∧ e'.after = e.after) := by
  obtain ⟨before, request, after, rfl, rfl, rfl, rfl⟩ :=
    (machine lib).exists_inputs_of_events_eq hsplit
  have hreachable : Reachable lib app₀ := by
    rcases hdurable with rfl | ⟨app, hr, rfl⟩
    · exact .opened hopen
    · exact hr.restarted hopen
  have hstart : StagedByRun [] app₀ :=
    .of_none fun s hs => openStore_staged ((openApplication_eq_ok hopen).2.2.2 s hs)
  obtain ⟨hsound, hstaged⟩ := Machine.history_invariant (m := machine lib)
    (P := fun past app => app.Sound lib ∧ StagedByRun past app) ⟨hreachable.sound, hstart⟩
    (fun past app request h => ⟨handle_sound h.1 request, h.2.step h.1 request⟩) before
  refine ⟨change_cases hstaged hsound, fun hsome e' he' => ?_,
    fun value hvalue hreads => next_of_readsOnly _ hvalue hreads, failed_next_iff _ request,
    fun hfailed e' he' => ?_⟩
  · exact (Machine.events_invariant (P := fun app => app.database ≠ none)
      (fun app request h => database_ne_none h request) hsome after e' he').1
  · obtain ⟨houtput, hbefore, hafter⟩ := events_of_failed hfailed after e' he'
    exact ⟨⟨_, houtput⟩, hbefore, hafter⟩

/-- The first block, with a question between its `FinalizeBlock` and its `Commit`. -/
def sampleRequests : List Request :=
  [⟨798, some (.initChain sampleInitChain)⟩, ⟨46, some (.finalizeBlock sampleFinalizeBlock)⟩,
    ⟨2, some .info⟩, ⟨2, some .commit⟩]

/-- The application before the `Commit`. -/
def sampleFinalized : Application :=
  (machine sampleLibraries).run sampleApplication (sampleRequests.take 3)

theorem sampleFinalized_eval :
    openApplication sampleLibraries none sampleGenesis = .ok sampleApplication ∧
    sampleFinalized.database ≠ none ∧
    ((machine sampleLibraries).next sampleFinalized ⟨2, some .commit⟩).database ≠
      sampleFinalized.database := by
  decide +kernel

/-- The steps of the sample requests, on any machine. -/
theorem events_sampleRequests (m : Machine Application Request (Except Error Response))
    (app : Application) : m.events app sampleRequests =
      m.events app (sampleRequests.take 2) ++
        [m.event (m.run app (sampleRequests.take 2)) ⟨2, some .info⟩,
          m.event (m.run app (sampleRequests.take 3)) ⟨2, some .commit⟩] :=
  m.events_append app (sampleRequests.take 2) [⟨2, some .info⟩, ⟨2, some .commit⟩]

theorem lifecycle_safety_commit :
    ((machine sampleLibraries).next sampleFinalized ⟨2, some .commit⟩).database ≠
      sampleFinalized.database ∧
    ∃ past block, Commits sampleLibraries past
      ((machine sampleLibraries).event sampleFinalized ⟨2, some .commit⟩) block := by
  obtain ⟨hopen, hsome, hchange⟩ := sampleFinalized_eval
  refine ⟨hchange, ?_⟩
  have hsplit := events_sampleRequests (machine sampleLibraries) sampleApplication
  rw [List.append_cons] at hsplit
  change _ = _ ++ [(machine sampleLibraries).event sampleFinalized ⟨2, some .commit⟩] at hsplit
  generalize sampleFinalized = app at hsome hchange hsplit ⊢
  obtain ⟨hcases, -⟩ := lifecycle_safety (Or.inl rfl) hopen sampleRequests hsplit
  exact ⟨_, (hcases hchange).resolve_left fun h => hsome h.1⟩

/-- **Other requests can come between.** A `Commit` changes the durable state although the request
directly before it is no `FinalizeBlock`. -/
theorem commit_directly_after_info :
    ∃ past i e, (machine sampleLibraries).events sampleApplication sampleRequests = past ++ [i, e] ∧
      openApplication sampleLibraries none sampleGenesis = .ok sampleApplication ∧
      i.input.value = some .info ∧ e.input.value = some .commit ∧ e.before.database ≠ none ∧
      e.after.database ≠ e.before.database := by
  obtain ⟨hopen, hsome, hchange⟩ := sampleFinalized_eval
  have hsplit := events_sampleRequests (machine sampleLibraries) sampleApplication
  change _ = _ ++ [_, (machine sampleLibraries).event sampleFinalized ⟨2, some .commit⟩] at hsplit
  generalize sampleFinalized = app at hsome hchange hsplit
  generalize sampleApplication = app₀ at hopen hsplit ⊢
  exact ⟨_, _, _, hsplit, hopen, rfl, rfl, hsome, hchange⟩

end Application

end Volparossa.Abci
