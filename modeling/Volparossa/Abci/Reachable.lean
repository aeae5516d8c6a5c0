import Volparossa.Abci.Application

/-!
# The states of the application

What a request does is said once (`Effect`, `next_effect`): it reads, or it creates the store, or
it stages a block, or it commits the staged block. From this every statement about runs follows. The
store of an application, over any number of requests and restarts, is one of a run of the ordered
store (`Reachable.sound`), so what is proved of those holds here.
-/

namespace Volparossa.Abci

open Protobuf Transaction Ordered

namespace Application

variable {lib : Libraries}

/-! ## What a request does -/

theorem ofStore_eq_ok {α : Type} {x : Except Transaction.Error α} {a : α} :
    ofStore x = .ok a ↔ x = .ok a := mapError_eq_ok

variable {app : Application}

theorem getStore_eq_ok {s : OrderedStore} :
    getStore app = .ok s ↔ app.store = some s := orFail_eq_ok

/-- **What a request does to an application that has not failed.** -/
inductive Effect (lib : Libraries) (app : Application) :
    Option RequestValue → Except Error Response → Application → Prop
  | read {value : Option RequestValue} {result : Except Error Response} :
      Effect lib app value result app
  | create {value : RequestInitChain} {s : OrderedStore} {result : Except Error Response}
      (hnone : app.store = none) (hcreate : createStore lib app.genesis = .ok s) :
      Effect lib app (some (.initChain value)) result { app with store := some s }
  | stage {value : RequestFinalizeBlock} {s : OrderedStore} {block : Block} {x : StagedBlock}
      {handle : Handle} (hstore : app.store = some s) (hblock : finalizedBlock value = .ok block)
      (hstage : Ordered.stage lib.crypto s.database s.handle block = .ok (x, handle)) :
      Effect lib app (some (.finalizeBlock value))
        (.ok (.finalizeBlock (x.outcomes.map execTxResult) x.appHash.toBytes))
        { app with store := some { s with handle }, pending := some x.blockId }
  | commit {id : FixedBytes 32} {s : OrderedStore} {x : BlockReceipt} {database : Database}
      {handle : Handle} (hpending : app.pending = some id) (hstore : app.store = some s)
      (hcommit : Ordered.commit lib.crypto s.database s.handle id = .ok (x, database, handle)) :
      Effect lib app (some .commit) (.ok (.commit 0))
        { app with store := some ⟨database, handle⟩, pending := none }

theorem initChain_effect (app : Application) (value : RequestInitChain) :
    Effect lib app (some (.initChain value)) ((initChain lib app value).1.map .initChain)
      (initChain lib app value).2 := by
  cases h : initStore lib app value with
  | error e =>
    rw [initChain, h]
    exact .read
  | ok s =>
    rw [initChain, h]
    simp only [initStore, bind_eq_ok] at h
    obtain ⟨-, -, h⟩ := h
    cases hstore : app.store with
    | none =>
      rw [hstore] at h
      exact .create hstore h
    | some s' =>
      rw [hstore] at h
      cases h
      have happ : { app with store := some s } = app := by rw [← hstore]
      dsimp only
      rw [happ]
      exact .read

theorem finalize_effect (app : Application) (value : RequestFinalizeBlock) :
    Effect lib app (some (.finalizeBlock value)) (finalize lib app value).1
      (finalize lib app value).2 := by
  cases h : stageRequest lib app value with
  | error e =>
    rw [finalize, h]
    exact .read
  | ok result =>
    obtain ⟨x, s'⟩ := result
    rw [finalize, h]
    simp only [stageRequest, ok_iff, Prod.mk.injEq, Prod.exists, ofStore_eq_ok, getStore_eq_ok] at h
    obtain ⟨block, hblock, s, hstore, x', handle, hstage, rfl, rfl⟩ := h
    exact .stage hstore hblock hstage

theorem commit_effect (app : Application) :
    Effect lib app (some .commit) (commit lib app).1 (commit lib app).2 := by
  cases h : commitPending lib app with
  | error e =>
    rw [commit, h]
    exact .read
  | ok s' =>
    rw [commit, h]
    simp only [commitPending, ok_iff, Prod.exists, ofStore_eq_ok, getStore_eq_ok] at h
    obtain ⟨id, hpending, s, hstore, x, database, handle, hcommit, rfl⟩ := h
    exact .commit hpending hstore hcommit

theorem handleInner_effect (app : Application) (request : Request) :
    Effect lib app request.value (handleInner lib app request).1
      (handleInner lib app request).2 := by
  unfold handleInner
  split
  · exact .read
  · split
    · exact .read
    · rename_i value hvalue
      rw [hvalue]
      cases value with
      | initChain value => exact initChain_effect app value
      | finalizeBlock value => exact finalize_effect app value
      | commit => exact commit_effect app
      | _ => exact .read

/-- A failed application answers no request. -/
theorem handle_of_failed (h : app.failed = true) (request : Request) :
    handle lib app request = (.error .protocol, app) := by
  rw [handle, if_pos h]

theorem Effect.failed_eq {app' : Application} {value : Option RequestValue}
    {result : Except Error Response} (h : Effect lib app value result app') :
    app'.failed = app.failed := by
  cases h <;> rfl

/-- **What `handle` does**: the effect of the request, and the latch after an error. -/
theorem handle_effect (lib : Libraries) (h : app.failed = false) (request : Request) :
    ∃ app', Effect lib app request.value (handle lib app request).1 app' ∧
      (handle lib app request).2 = { app' with failed := !(handle lib app request).1.isOk } := by
  have heffect : Effect lib app request.value _ _ := handleInner_effect app request
  rw [handle, if_neg (by simp [h])]
  generalize handleInner lib app request = inner at heffect ⊢
  obtain ⟨result, app'⟩ := inner
  refine ⟨app', ?_⟩
  cases result with
  | ok response =>
    refine ⟨heffect, ?_⟩
    have hfailed := heffect.failed_eq
    rw [h] at hfailed
    simp only [Except.isOk, Except.toBool, Bool.not_true, ← hfailed]
  | error e => exact ⟨heffect, rfl⟩

/-- The store and the block to commit after a request; a failed application keeps its own. -/
theorem next_effect (lib : Libraries) (app : Application) (request : Request) :
    ∃ app', Effect lib app request.value (handle lib app request).1 app' ∧
      ((machine lib).next app request).store = app'.store ∧
      ((machine lib).next app request).pending = app'.pending := by
  simp only [Machine.next, machine]
  cases hfailed : app.failed with
  | true =>
    rw [handle_of_failed hfailed]
    exact ⟨app, .read, rfl, rfl⟩
  | false =>
    obtain ⟨app', heffect, hnext⟩ := handle_effect lib hfailed request
    exact ⟨app', heffect, by rw [hnext], by rw [hnext]⟩

/-! ## Reachable applications -/

/-- **The states of an application**, over any number of requests and restarts. A restart opens the
application on the database that the process before it left. -/
inductive Reachable (lib : Libraries) : Application → Prop
  | opened {genesis : Genesis} {app : Application}
      (hopen : openApplication lib none genesis = .ok app) : Reachable lib app
  | handled {app : Application} (request : Request) (h : Reachable lib app) :
      Reachable lib ((machine lib).next app request)
  | restarted {app app' : Application} {genesis : Genesis} (h : Reachable lib app)
      (hopen : openApplication lib app.database genesis = .ok app') : Reachable lib app'

theorem Reachable.run (h : Reachable lib app) (requests : List Request) :
    Reachable lib ((machine lib).run app requests) :=
  Machine.run_invariant (fun _ request h => h.handled request) h requests

/-- The store is one of a run of the ordered store. -/
def Sound (lib : Libraries) (app : Application) : Prop :=
  ∀ s, app.store = some s → ∃ (o : Origin lib.crypto) (s₀ : Head) (p₀ : Block)
    (log : List (Block × BlockReceipt)) (head : Head) (p : Block),
    OrderedStore.Session o s₀ p₀ log head p s

theorem Effect.sound {app' : Application} {value : Option RequestValue}
    {result : Except Error Response} (h : Effect lib app value result app') (hs : app.Sound lib) :
    app'.Sound lib := by
  cases h with
  | read => exact hs
  | create hnone hcreate =>
    intro s hstore
    cases hstore
    simp only [createStore, ok_iff, Prod.exists, ofStore_eq_ok] at hcreate
    obtain ⟨authority, -, accounts, -, time, -, database, handle, hcreate, rfl⟩ := hcreate
    obtain ⟨o, head, hcreated⟩ := create_eq_ok hcreate
    exact ⟨o, head, _, _, head, _, OrderedStore.Session.of_created hcreated⟩
  | stage hstore hblock hstage =>
    intro s' hstore'
    cases hstore'
    obtain ⟨o, s₀, p₀, log, head, p, hsession⟩ := hs _ hstore
    exact ⟨o, s₀, p₀, log, head, p, hsession.stage hstage⟩
  | @commit id s x database handle hpending hstore hcommit =>
    intro s' hstore'
    cases hstore'
    obtain ⟨o, s₀, p₀, log, head, p, hsession⟩ := hs _ hstore
    have hnext : (OrderedStore.machine lib.crypto).next s (.commit id) = ⟨database, handle⟩ := by
      simp only [Machine.next, OrderedStore.machine, OrderedStore.call, hcommit]
    rcases hsession.step_cases (.commit id) with ⟨-, -, hsame⟩ | ⟨b, y, head', -, -, -, -, hchain⟩
    · exact ⟨o, s₀, p₀, log, head, p, hnext ▸ hsame⟩
    · exact ⟨o, s₀, p₀, _, head', b, hnext ▸ hchain⟩

/-- Handling a request keeps the store sound. -/
theorem handle_sound (hs : app.Sound lib) (request : Request) :
    ((machine lib).next app request).Sound lib := by
  obtain ⟨app', heffect, hstore, -⟩ := next_effect lib app request
  intro s hs'
  exact heffect.sound hs s (hstore ▸ hs')

/-- A database that was opened, and the handle on it. -/
theorem openApplication_eq_ok {durable : Option Database} {genesis : Genesis}
    (h : openApplication lib durable genesis = .ok app) :
    app.database = durable ∧ app.pending = none ∧ app.failed = false ∧
      ∀ s, app.store = some s → openStore lib.crypto s.database = .ok s.handle := by
  cases durable with
  | none =>
    simp only [openApplication, ok_iff] at h
    obtain ⟨normal, -, rfl⟩ := h
    exact ⟨rfl, rfl, rfl, fun s hs => by cases hs⟩
  | some d =>
    simp only [openApplication, ok_iff, ofStore_eq_ok] at h
    obtain ⟨normal, -, handle, hopen, -, -, -, -, -, -, -, -, -, -, rfl⟩ := h
    refine ⟨rfl, rfl, rfl, fun s hs => ?_⟩
    cases hs
    exact hopen

/-- Opening an application on the database of a sound one. -/
theorem Sound.restarted {app' : Application} {genesis : Genesis} (hs : app.Sound lib)
    (h : openApplication lib app.database genesis = .ok app') : app'.Sound lib := by
  obtain ⟨hdatabase, -, -, hopen⟩ := openApplication_eq_ok h
  intro s' hstore'
  rw [database, database, hstore', Option.map_some] at hdatabase
  obtain ⟨s, hstore, hs'⟩ := Option.map_eq_some_iff.mp hdatabase.symm
  obtain ⟨o, s₀, p₀, log, head, p, hsession⟩ := hs s hstore
  have hhandle := hopen s' hstore'
  rw [← hs', hsession.sound.openStore hsession.stored, Except.ok.injEq] at hhandle
  refine ⟨o, s₀, p₀, log, head, p, ?_⟩
  have heq : s' = { s with handle := ⟨o.ledger, none⟩ } := by rw [hhandle, hs']
  rw [heq]
  exact hsession.unstaged

/-- **The store of a reachable application is one of a run of the ordered store.** -/
theorem Reachable.sound (h : Reachable lib app) : app.Sound lib := by
  induction h with
  | opened hopen =>
    obtain ⟨hdatabase, -⟩ := openApplication_eq_ok hopen
    intro s hstore
    rw [database, hstore] at hdatabase
    cases hdatabase
  | handled request _ ih => exact handle_sound ih request
  | restarted _ hopen ih => exact ih.restarted hopen

end Application

end Volparossa.Abci
