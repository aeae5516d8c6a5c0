import Volparossa.Ordered.Session

/-!
# Many handles on one ordered store

Any number of handles share one database, and their calls interleave in any way; each call is one
transaction of the database, so it is atomic. A handle may have staged its block on a head that
another handle has replaced since. Its commit finds out: the base of the staged block is the whole
record of the head it was staged on, and the block is executed again on the durable tables.

`single_chain` says what follows for every run. The databases form one chain. A successful commit
extends it by the staged block, or returns the receipt of the latest block, if it was asked for that
one; every other call leaves the database as it was.
-/

namespace Volparossa.Ordered

open Protobuf Protocol Transaction

/-- A database, and the handles that are open on it. -/
structure SharedStore where
  database : Database
  handles : List Handle
  deriving DecidableEq

namespace SharedStore

/-- Open another handle, or use the handle with a number. -/
inductive Call
  | openStore
  | use (i : ℕ) (call : OrderedStore.Call)
  deriving DecidableEq

inductive Response
  | opened (result : Except Error Unit)
  | used (response : OrderedStore.Response)
  | noHandle
  deriving DecidableEq

/-- One call. -/
def call (crypto : Crypto) (s : SharedStore) : Call → Response × SharedStore
  | .openStore =>
    match openStore crypto s.database with
    | .ok h => (.opened (.ok ()), { s with handles := s.handles ++ [h] })
    | .error e => (.opened (.error e), s)
  | .use i c =>
    match s.handles[i]? with
    | none => (.noHandle, s)
    | some h =>
      let (response, store) := OrderedStore.call crypto ⟨s.database, h⟩ c
      (.used response, ⟨store.database, s.handles.set i store.handle⟩)

/-- A shared store, as a machine. -/
def machine (crypto : Crypto) : Machine SharedStore Call Response := ⟨call crypto⟩

/-- One step of a run of a shared store. -/
abbrev Event := Machine.Event SharedStore Call Response

/-- The block that the handle with a number has staged. -/
def staged (s : SharedStore) (i : ℕ) : Option Pending := s.handles[i]?.bind (·.staged)

/-- The block that a call committed, with its receipt. -/
def commitment (e : Event) : Option (Block × BlockReceipt) :=
  match e.input, e.output with
  | .use i _, .used (.committed (.ok x)) =>
    committedBlock e.before.database e.after.database (e.before.staged i) x
  | _, _ => none

/-- The blocks that a run committed, with their receipts. -/
def committed (events : List Event) : List (Block × BlockReceipt) := events.filterMap commitment

/-- The database `d'` extends `d` by the block that was staged as `pending`: by one height, not back
in time, from the app hash that the block was computed on, with the whole block executed. -/
structure Extension (crypto : Crypto) (ledger : LedgerId) (pending : Pending) (x : BlockReceipt)
    (d d' : Database) : Prop where
  latest : ∃ latest, info crypto d ⟨ledger, none⟩ = .ok latest ∧ x.height = latest.height + 1 ∧
    latest.time ≤ x.time ∧ pending.record.previousHash = latest.appHash.toBytes
  info : info crypto d' ⟨ledger, none⟩ = .ok x
  base : d.checkpoint.map (·.record) = some pending.base
  record : d'.checkpoint.map (·.record) = some (encode pending.record)
  execute : ∃ block, pending.record.block = some block ∧
    execute crypto d.tables ledger block = .ok (pending.record.outcomes, d'.tables)

/-- What a step does to the chain. -/
structure Linear (crypto : Crypto) (ledger : LedgerId) (e : Event) : Prop where
  commit : ∀ i id x, e.input = .use i (.commit id) → e.output = .used (.committed (.ok x)) →
    x.blockId = id ∧
      ((0 < x.height ∧ Ordered.info crypto e.before.database ⟨ledger, none⟩ = .ok x ∧
          e.after.database = e.before.database) ∨
        ∃ pending, e.before.staged i = some pending ∧
          Extension crypto ledger pending x e.before.database e.after.database)
  other : (∀ i id x, ¬(e.input = .use i (.commit id) ∧ e.output = .used (.committed (.ok x)))) →
    e.after.database = e.before.database

/-! ## The invariant -/

/-- The store after a run that committed `log` since the head `s₀` of `p₀`. -/
structure Sound {crypto : Crypto} (o : Origin crypto) (s₀ : Head) (p₀ : Block)
    (log : List (Block × BlockReceipt)) (head : Head) (p : Block) (s : SharedStore) : Prop where
  chain : Chain o s₀ p₀ log head p
  sound : head.Sound o p
  stored : head.Stored o s.database
  handles : ∀ h ∈ s.handles, h.Sound o

section

variable {crypto : Crypto} {o : Origin crypto} {s₀ head : Head} {p₀ p : Block}
  {log : List (Block × BlockReceipt)}

/-- One call of a handle that may have staged its block on an earlier head. -/
theorem call_cases {s : OrderedStore} (hs : head.Sound o p) (hd : head.Stored o s.database)
    (hh : s.handle.Sound o) (c : OrderedStore.Call) :
    (OrderedStore.call crypto s c).2.handle.Sound o ∧
      (((OrderedStore.call crypto s c).2.database = s.database ∧
          ∀ x, (OrderedStore.call crypto s c).1 = .committed (.ok x) →
            c = .commit p.blockId ∧ 0 < p.height ∧ publicReceipt head.record o.ledger = .ok x) ∨
        ∃ b x head', c = .commit b.blockId ∧
          (OrderedStore.call crypto s c).1 = .committed (.ok x) ∧ Follows p b ∧
          head.next o b = .ok head' ∧
          s.handle.staged = some ⟨encode head.record, head'.record⟩ ∧
          head'.Stored o (OrderedStore.call crypto s c).2.database ∧
          publicReceipt head'.record o.ledger = .ok x ∧
          committedBlock s.database (OrderedStore.call crypto s c).2.database s.handle.staged x =
            some (b, x)) := by
  cases c with
  | stage block =>
    cases hstage : stage crypto s.database s.handle block with
    | ok result =>
      obtain ⟨x, handle⟩ := result
      simp only [OrderedStore.call, hstage]
      exact ⟨stage_sound hs hd hh hstage, Or.inl ⟨trivial, fun x hx => by cases hx⟩⟩
    | error e =>
      simp only [OrderedStore.call, hstage]
      exact ⟨hh, Or.inl ⟨trivial, fun x hx => by cases hx⟩⟩
  | discardStaged =>
    exact ⟨discardStaged_sound hh, Or.inl ⟨rfl, fun x hx => by cases hx⟩⟩
  | reopen =>
    simp only [OrderedStore.call, hs.openStore hd]
    exact ⟨⟨rfl, fun _ hpending => by cases hpending⟩, Or.inl ⟨trivial, fun x hx => by cases hx⟩⟩
  | commit id =>
    cases hcommit : commit crypto s.database s.handle id with
    | error e =>
      simp only [OrderedStore.call, hcommit]
      exact ⟨hh, Or.inl ⟨trivial, fun x hx => by cases hx⟩⟩
    | ok result =>
      obtain ⟨x, d', handle⟩ := result
      simp only [OrderedStore.call, hcommit]
      obtain ⟨rfl, ⟨hpos, rfl, rfl, hx, -⟩ | ⟨b, head', rfl, hf, hnext, hstaged, hd', hx, hsome⟩⟩ :=
        commit_eq_ok hs hd hh hcommit
      · exact ⟨discardStaged_sound hh, Or.inl ⟨rfl, fun y hy => by cases hy; exact ⟨rfl, hpos, hx⟩⟩⟩
      · exact ⟨discardStaged_sound hh,
          Or.inr ⟨b, x, head', rfl, rfl, hf, hnext, hstaged, hd', hx, hsome⟩⟩

/-- The next head extends the database. -/
theorem Extension.of_next {head' : Head} {b : Block} {d d' : Database} {x : BlockReceipt}
    (hs : head.Sound o p) (hd : head.Stored o d) (hf : Follows p b)
    (hnext : head.next o b = .ok head')
    (hd' : head'.Stored o d') (hx : publicReceipt head'.record o.ledger = .ok x) :
    Extension crypto o.ledger ⟨encode head.record, head'.record⟩ x d d' := by
  have hs' := next_sound hs hf hnext
  obtain ⟨latest, hlatest, hheight, -, htime, happ, -⟩ := hs.exists_receipt
  obtain ⟨y, hy, hheight', -, htime', -, -⟩ := hs'.exists_receipt
  obtain rfl := ok_unique hx hy
  refine ⟨⟨latest, by rw [hs.info hd, hlatest], by rw [hheight', hf.height, hheight],
    by rw [htime, htime']; exact hf.time, ?_⟩, by rw [hs'.info hd', hx],
    by rw [hd.checkpoint]; rfl, by rw [hd'.checkpoint]; rfl, .ofBlock b, hs'.record.block, ?_⟩
  · obtain ⟨_, _, _, -, -, rfl⟩ := next_eq_ok.mp hnext
    exact happ.symm
  · obtain ⟨_, _, _, hexec, -, rfl⟩ := next_eq_ok.mp hnext
    rw [hd.tables, hd'.tables]
    exact hexec

/-- A step that leaves the database as it is. -/
theorem linear_of_eq {ledger : LedgerId} {e : Event}
    (hdatabase : e.after.database = e.before.database)
    (houtput : ∀ x, e.output ≠ .used (.committed (.ok x))) : Linear crypto ledger e :=
  ⟨fun _ _ x _ h => absurd h (houtput x), fun _ => hdatabase⟩

/-- **One step**: it is linear, and the store after it is on the chain with the block that the step
committed. -/
theorem Sound.step {s : SharedStore} (h : Sound o s₀ p₀ log head p s) (c : Call) :
    Linear crypto o.ledger ((machine crypto).event s c) ∧
      ∃ head' p', Sound o s₀ p₀ (log ++ (commitment ((machine crypto).event s c)).toList) head' p'
        ((machine crypto).next s c) := by
  simp only [Machine.event, Machine.next, machine]
  cases c with
  | openStore =>
    simp only [call, h.sound.openStore h.stored]
    refine ⟨linear_of_eq rfl fun x hx => (by cases hx), head, p, ?_⟩
    exact ⟨by simpa [commitment] using h.chain, h.sound, h.stored,
      forall_mem_concat h.handles ⟨rfl, fun _ hpending => by cases hpending⟩⟩
  | use i c =>
    cases hi : s.handles[i]? with
    | none =>
      simp only [call, hi]
      exact ⟨linear_of_eq rfl fun x hx => (by cases hx), head, p,
        by simpa [commitment] using h.chain, h.sound, h.stored, h.handles⟩
    | some handle =>
      have hhandle := h.handles handle (List.mem_of_getElem? hi)
      obtain ⟨hafter, hcases⟩ := call_cases (s := ⟨s.database, handle⟩) h.sound h.stored hhandle c
      rcases hresult : OrderedStore.call crypto ⟨s.database, handle⟩ c with ⟨response, store⟩
      rw [hresult] at hafter hcases
      simp only [call, hi, hresult]
      have hhandles : ∀ h' ∈ s.handles.set i store.handle, h'.Sound o := by
        intro h' hmem
        rcases List.mem_or_eq_of_mem_set hmem with hmem | rfl
        · exact h.handles h' hmem
        · exact hafter
      rcases hcases with ⟨hdatabase, hrepeat⟩ | ⟨b, x, head', hc, hx, hf, hnext, hstaged, hd',
        hreceipt, hsome⟩
      · refine ⟨⟨fun i' id x hinput houtput => ?_, fun _ => hdatabase⟩, head, p, ?_, h.sound,
          hdatabase ▸ h.stored, hhandles⟩
        · cases hinput
          cases houtput
          obtain ⟨hid, hpos, hreceipt⟩ := hrepeat x rfl
          cases hid
          obtain ⟨y, hy, hheight, hid, -⟩ := h.sound.exists_receipt
          obtain rfl := ok_unique hreceipt hy
          exact ⟨hid, Or.inl ⟨by omega, by rw [h.sound.info h.stored, hreceipt], hdatabase⟩⟩
        · have hnone : commitment ⟨s, .use i c, .used response,
              ⟨store.database, s.handles.set i store.handle⟩⟩ = none := by
            unfold commitment
            split
            · exact if_pos hdatabase
            · rfl
          rw [hnone, Option.toList_none, List.append_nil]
          exact h.chain
      · have hs' := next_sound h.sound hf hnext
        have hextension := Extension.of_next h.sound h.stored hf hnext hd' hreceipt
        have hstaged' : s.staged i = some ⟨encode head.record, head'.record⟩ := by
          rw [staged, hi]
          exact hstaged
        cases hc
        cases hx
        refine ⟨⟨fun i' id y hinput houtput => ?_, fun hother => absurd ⟨rfl, rfl⟩ (hother _ _ _)⟩,
          head', b, ?_, hs', hd', hhandles⟩
        · cases hinput
          cases houtput
          obtain ⟨z, hz, -, hid, -⟩ := hs'.exists_receipt
          obtain rfl := ok_unique hreceipt hz
          exact ⟨hid, Or.inr ⟨_, hstaged', hextension⟩⟩
        · have hcommitment : commitment ⟨s, .use i (.commit b.blockId), .used (.committed (.ok x)),
              ⟨store.database, s.handles.set i store.handle⟩⟩ = some (b, x) := by
            rw [← hsome, hstaged, ← hstaged']
            rfl
          rw [hcommitment, Option.toList_some]
          exact h.chain.next hf hnext hreceipt

end

/-- **One chain under concurrent handles.** However the calls of any number of handles interleave, a
successful commit returns the receipt of the latest block again and changes nothing, if that is the
block it was asked for, or it extends the database by the block its handle staged; every other call,
and every failed one, leaves the database as it was. The blocks that a run committed have the
heights from one on, so none was applied twice. -/
theorem single_chain {crypto : Crypto} {authority : FixedBytes 32} {accounts : List GenesisAccount}
    {time : BlockTime} {d₀ : Database} {h₀ : Handle}
    (hc : create crypto authority accounts time = .ok (d₀, h₀)) (calls : List Call) :
    let events := (machine crypto).events ⟨d₀, [h₀]⟩ calls
    (∀ e ∈ events, Linear crypto h₀.ledgerId e) ∧
    (committed events).map (fun entry => entry.2.height) = List.range' 1 (committed events).length ∧
    ∃ latest, info crypto ((machine crypto).run ⟨d₀, [h₀]⟩ calls).database ⟨h₀.ledgerId, none⟩ =
      .ok latest ∧ latest.height = (committed events).length := by
  intro events
  obtain ⟨o, s₀, hcreated⟩ := create_eq_ok hc
  have hledger : h₀.ledgerId = o.ledger := by rw [hcreated.handle]
  have hstart : Sound o s₀ (genesisBlock time) [] s₀ (genesisBlock time) ⟨d₀, [h₀]⟩ := by
    refine ⟨.start, hcreated.sound, hcreated.stored, fun h hmem => ?_⟩
    obtain rfl := List.mem_singleton.mp hmem
    exact ⟨hledger, fun pending hpending => by rw [hcreated.handle] at hpending; cases hpending⟩
  obtain ⟨hlinear, head, p, hs⟩ := Machine.history_invariant (m := machine crypto)
    (P := fun events s => (∀ e ∈ events, Linear crypto o.ledger e) ∧ ∃ head p,
      Sound o s₀ (genesisBlock time) (committed events) head p s)
    ⟨fun e he => (by cases he), s₀, genesisBlock time, hstart⟩ (by
      rintro past s c ⟨hpast, head, p, hs⟩
      obtain ⟨hstep, head', p', hs'⟩ := hs.step c
      refine ⟨forall_mem_concat hpast hstep, head', p', ?_⟩
      · rw [committed, List.filterMap_append]
        cases hcommitment : commitment ((machine crypto).event s c) with
        | none => simpa [committed, hcommitment] using hs'
        | some entry => simpa [committed, hcommitment] using hs') calls
  obtain ⟨latest, hlatest, hheight, -⟩ := hs.sound.exists_receipt
  rw [hledger]
  refine ⟨hlinear, hs.chain.heights hcreated.sound,
    latest, by rw [hs.sound.info hs.stored, hlatest], ?_⟩
  rw [hheight, hs.chain.height]
  exact Nat.zero_add _

/-- A block with one command that is no message. -/
def sampleBlock : Block := ⟨1, .replicate 32 3, ⟨150, 0⟩, [[255]]⟩

/-- Two handles stage the same block, and both commit it. -/
def sampleCalls : List Call :=
  [.openStore, .use 0 (.stage sampleBlock), .use 1 (.stage sampleBlock),
    .use 0 (.commit sampleBlock.blockId), .use 1 (.commit sampleBlock.blockId)]

theorem single_chain_of_two_handles :
    ∃ latest, info sampleCrypto ((machine sampleCrypto).run
        ⟨OrderedStore.sampleStore.1, [OrderedStore.sampleStore.2]⟩ sampleCalls).database
        ⟨OrderedStore.sampleStore.2.ledgerId, none⟩ = .ok latest ∧ latest.height = 1 := by
  have hcreate : create sampleCrypto (.replicate 32 7) sampleAccounts ⟨120, 0⟩ =
      .ok OrderedStore.sampleStore := by decide +kernel
  have hlength : (committed ((machine sampleCrypto).events ⟨OrderedStore.sampleStore.1,
      [OrderedStore.sampleStore.2]⟩ sampleCalls)).length = 1 := by decide +kernel
  generalize OrderedStore.sampleStore = store at hcreate hlength ⊢
  obtain ⟨-, -, latest, hlatest, hheight⟩ := single_chain hcreate sampleCalls
  exact ⟨latest, hlatest, hheight.trans hlength⟩

/-- A successful commit need not raise the height: the second of the two handles gets the receipt of
the block that the first one committed. -/
theorem commit_keeps_height :
    let s := (machine sampleCrypto).run ⟨OrderedStore.sampleStore.1, [OrderedStore.sampleStore.2]⟩
      (sampleCalls.take 4)
    create sampleCrypto (.replicate 32 7) sampleAccounts ⟨120, 0⟩ =
      .ok OrderedStore.sampleStore ∧
    ∃ x s', (machine sampleCrypto).step s (.use 1 (.commit sampleBlock.blockId)) =
        (.used (.committed (.ok x)), s') ∧
      (info sampleCrypto s.database ⟨OrderedStore.sampleStore.2.ledgerId, none⟩).map (·.height) =
        .ok 1 ∧
      (info sampleCrypto s'.database ⟨OrderedStore.sampleStore.2.ledgerId, none⟩).map (·.height) =
        .ok 1 := by
  intro s
  -- the second handle gets the receipt that is stored
  have heval : (info sampleCrypto s.database ⟨OrderedStore.sampleStore.2.ledgerId, none⟩).map
        (fun x => Response.used (.committed (.ok x))) =
        .ok ((machine sampleCrypto).step s (.use 1 (.commit sampleBlock.blockId))).1 ∧
      (info sampleCrypto s.database ⟨OrderedStore.sampleStore.2.ledgerId, none⟩).map (·.height) =
        .ok 1 ∧
      (info sampleCrypto ((machine sampleCrypto).step s
        (.use 1 (.commit sampleBlock.blockId))).2.database
        ⟨OrderedStore.sampleStore.2.ledgerId, none⟩).map (·.height) = .ok 1 := by
    decide +kernel
  refine ⟨by decide +kernel, ?_⟩
  generalize (machine sampleCrypto).step s (.use 1 (.commit sampleBlock.blockId)) =
    result at heval ⊢
  obtain ⟨answer, s'⟩ := result
  obtain ⟨hanswer, hheights⟩ := heval
  cases hinfo : info sampleCrypto s.database ⟨OrderedStore.sampleStore.2.ledgerId, none⟩ with
  | error e =>
    rw [hinfo] at hanswer
    cases hanswer
  | ok x =>
    rw [hinfo] at hanswer hheights
    cases hanswer
    exact ⟨x, s', rfl, hheights⟩

end SharedStore

end Volparossa.Ordered
