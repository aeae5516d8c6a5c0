import Volparossa.Foundations.Machine
import Volparossa.Ordered.Chain

/-!
# One handle on an ordered store

A store that one process uses: any sequence of `stage`, `discard_staged` and `commit` calls, and of
reopening it. In every state of such a run the database stores the head of a chain from the genesis,
and a staged block is the next head of that head (`Session`). A call either leaves the database as
it is or commits the staged block (`Session.step_cases`).

The theorems of this module follow. No block makes the execution fail (`no_poison_block`). What
`stage` returns, `commit` persists (`stage_commit`). Two stores of the same genesis that commit the
same blocks agree, however their calls were interleaved (`replicas_agree`).
-/

namespace Volparossa.Ordered

open Protobuf Protocol Transaction Ordered

/-- An opened ordered store. -/
structure OrderedStore where
  database : Database
  handle : Handle
  deriving DecidableEq

namespace OrderedStore

/-- The calls that can change a store or its handle. -/
inductive Call
  | stage (block : Block)
  | discardStaged
  | commit (blockId : FixedBytes 32)
  | reopen
  deriving DecidableEq

inductive Response
  | staged (result : Except Error StagedBlock)
  | discarded
  | committed (result : Except Error BlockReceipt)
  | reopened (result : Except Error Unit)
  deriving DecidableEq

/-- One call. The store after a failed one is the one before it. -/
def call (crypto : Crypto) (s : OrderedStore) : Call → Response × OrderedStore
  | .stage block =>
    match stage crypto s.database s.handle block with
    | .ok (x, handle) => (.staged (.ok x), { s with handle })
    | .error e => (.staged (.error e), s)
  | .discardStaged => (.discarded, { s with handle := discardStaged s.handle })
  | .commit blockId =>
    match commit crypto s.database s.handle blockId with
    | .ok (x, database, handle) => (.committed (.ok x), ⟨database, handle⟩)
    | .error e => (.committed (.error e), s)
  | .reopen =>
    match openStore crypto s.database with
    | .ok handle => (.reopened (.ok ()), { s with handle })
    | .error e => (.reopened (.error e), s)

/-- A store, as a machine. -/
def machine (crypto : Crypto) : Machine OrderedStore Call Response := ⟨call crypto⟩

/-- One step of a run of a store. -/
abbrev Event := Machine.Event OrderedStore Call Response

/-- The block that a call committed, with its receipt. -/
def commitment (e : Event) : Option (Block × BlockReceipt) :=
  match e.output with
  | .committed (.ok x) =>
    committedBlock e.before.database e.after.database e.before.handle.staged x
  | _ => none

/-- The blocks that a run committed, with their receipts. -/
def committed (events : List Event) : List (Block × BlockReceipt) := events.filterMap commitment

/-! ## The invariant -/

/-- The store after a run that committed `log` since the head `s₀` of `p₀`. -/
structure Session {crypto : Crypto} (o : Origin crypto) (s₀ : Head) (p₀ : Block)
    (log : List (Block × BlockReceipt)) (head : Head) (p : Block) (s : OrderedStore) : Prop where
  chain : Chain o s₀ p₀ log head p
  sound : head.Sound o p
  stored : head.Stored o s.database
  ledger : s.handle.ledgerId = o.ledger
  staged : ∀ pending, s.handle.staged = some pending → ∃ b head', Follows p b ∧
    head.next o b = .ok head' ∧ pending = ⟨encode head.record, head'.record⟩

namespace Session

variable {crypto : Crypto} {o : Origin crypto} {s₀ head : Head} {p₀ p : Block}
  {log : List (Block × BlockReceipt)} {s : OrderedStore}

theorem handle_sound (h : Session o s₀ p₀ log head p s) : s.handle.Sound o := by
  refine ⟨h.ledger, fun pending hpending => ?_⟩
  obtain ⟨b, head', hf, hnext, rfl⟩ := h.staged pending hpending
  exact ⟨head, p, b, head', h.sound, hf, hnext, rfl, rfl⟩

theorem of_created {authority : FixedBytes 32} {accounts : List GenesisAccount} {time : BlockTime}
    {d : Database} {h : Handle} (hc : Created authority accounts time o s₀ d h) :
    Session o s₀ (genesisBlock time) [] s₀ (genesisBlock time) ⟨d, h⟩ := by
  obtain rfl := hc.handle
  exact ⟨.start, hc.sound, hc.stored, rfl, fun _ h => by cases h⟩

section

variable (h : Session o s₀ p₀ log head p s)

include h

/-- Staging leaves the database as it is. -/
theorem stage {b : Block} {x : StagedBlock} {handle : Handle}
    (hstage : stage crypto s.database s.handle b = .ok (x, handle)) :
    Session o s₀ p₀ log head p { s with handle } := by
  obtain ⟨-, ⟨-, -, -, -, rfl⟩ | ⟨-, -, -, rfl⟩ | ⟨-, hf, head', hnext, -, rfl⟩⟩ :=
    stage_eq_ok h.sound h.stored h.ledger hstage
  · exact h
  · exact h
  · refine ⟨h.chain, h.sound, h.stored, h.ledger, fun pending hpending => ?_⟩
    cases hpending
    exact ⟨b, head', hf, hnext, rfl⟩

/-- A handle with nothing staged. -/
theorem unstaged : Session o s₀ p₀ log head p { s with handle := ⟨o.ledger, none⟩ } :=
  ⟨h.chain, h.sound, h.stored, rfl, fun _ hpending => by cases hpending⟩

theorem discardStaged_eq : discardStaged s.handle = ⟨o.ledger, none⟩ := by
  rw [discardStaged, h.ledger]

/-- **What one call does**: it leaves the database and the chain as they are, or it commits the
staged block. -/
theorem step_cases (c : Call) : ((machine crypto).next s c).database = s.database ∧
        commitment ((machine crypto).event s c) = none ∧
        Session o s₀ p₀ log head p ((machine crypto).next s c) ∨
      ∃ b x head', c = .commit b.blockId ∧ Follows p b ∧ head.next o b = .ok head' ∧
        commitment ((machine crypto).event s c) = some (b, x) ∧
        Session o s₀ p₀ (log ++ [(b, x)]) head' b ((machine crypto).next s c) := by
  simp only [Machine.event, Machine.next, machine]
  cases c with
  | stage block =>
    left
    cases hstage : Ordered.stage crypto s.database s.handle block with
    | ok result =>
      obtain ⟨x, handle⟩ := result
      simp only [call, hstage]
      exact ⟨trivial, rfl, h.stage hstage⟩
    | error e =>
      simp only [call, hstage]
      exact ⟨trivial, rfl, h⟩
  | discardStaged =>
    left
    simp only [call, h.discardStaged_eq]
    exact ⟨trivial, rfl, h.unstaged⟩
  | reopen =>
    left
    simp only [call, h.sound.openStore h.stored]
    exact ⟨trivial, rfl, h.unstaged⟩
  | commit id =>
    cases hcommit : commit crypto s.database s.handle id with
    | error e =>
      left
      simp only [call, hcommit]
      exact ⟨trivial, rfl, h⟩
    | ok result =>
      obtain ⟨x, d', handle⟩ := result
      obtain ⟨rfl, ⟨-, -, rfl, -, hnone⟩ | ⟨b, head', rfl, hf, hnext, hstaged, hd', hx, hsome⟩⟩ :=
        commit_eq_ok h.sound h.stored h.handle_sound hcommit
      · left
        simp only [call, hcommit, h.discardStaged_eq]
        exact ⟨trivial, hnone, h.unstaged⟩
      · right
        refine ⟨b, x, head', rfl, hf, hnext, ?_, ?_⟩
        · simp only [call, hcommit, commitment]
          exact hsome
        · simp only [call, hcommit, h.discardStaged_eq]
          exact ⟨h.chain.next hf hnext hx, next_sound h.sound hf hnext, hd', rfl,
            fun _ hpending => by cases hpending⟩

end

/-- The head before the latest block was stored in the database at some step of the run. -/
def Reached {crypto : Crypto} (o : Origin crypto) (events : List Event) (head : Head) (p : Block) :
    Prop :=
  0 < p.height → ∃ e ∈ events, ∃ prev q, Head.Sound o prev q ∧ prev.Stored o e.before.database ∧
    Follows q p ∧ prev.next o p = .ok head

/-- **The store after every run** is on the chain of the blocks that the run committed. -/
theorem of_run {authority : FixedBytes 32} {accounts : List GenesisAccount} {time : BlockTime}
    {d : Database} {h : Handle} (hc : Created authority accounts time o s₀ d h)
    (calls : List Call) :
    ∃ head p, Session o s₀ (genesisBlock time) (committed ((machine crypto).events ⟨d, h⟩ calls))
        head p ((machine crypto).run ⟨d, h⟩ calls) ∧
      Reached o ((machine crypto).events ⟨d, h⟩ calls) head p := by
  refine Machine.history_invariant (P := fun events s => ∃ head p,
    Session o s₀ (genesisBlock time) (committed events) head p s ∧ Reached o events head p)
    ⟨s₀, genesisBlock time, of_created hc, fun hpos => absurd hpos (lt_irrefl 0)⟩ ?_ calls
  rintro past s c ⟨head, p, hs, hreached⟩
  rcases hs.step_cases c with ⟨-, hnone, hnext⟩ | ⟨b, x, head', -, hf, hstep, hsome, hnext⟩
  · refine ⟨head, p, ?_, fun hpos => ?_⟩
    · rw [committed, List.filterMap_append, List.filterMap_cons_none hnone, List.filterMap_nil,
        List.append_nil]
      exact hnext
    · obtain ⟨e, he, hprev⟩ := hreached hpos
      exact ⟨e, List.mem_append_left _ he, hprev⟩
  · refine ⟨head', b, ?_, fun _ => ?_⟩
    · rw [committed, List.filterMap_append, List.filterMap_cons_some hsome, List.filterMap_nil]
      exact hnext
    · exact ⟨_, List.mem_append_right _ (List.mem_singleton_self _), head, p, hs.sound, hs.stored,
        hf, hstep⟩

theorem info_eq (h : Session o s₀ p₀ log head p s) :
    info crypto s.database s.handle = publicReceipt head.record o.ledger := by
  have hhandle : s.handle = ⟨o.ledger, s.handle.staged⟩ := by rw [← h.ledger]
  rw [hhandle]
  exact h.sound.info h.stored _

end Session

/-! ## No block is fatal -/

/-- **No poison block.** In every state of a store, a valid block executes on the tables and on
their copy in memory, whatever the bytes of its commands: every command has a receipt or a failure
code. If nothing is staged, a valid block with the next height, a time that does not go back and
another identifier than the latest block is staged, with an outcome for each command. -/
theorem no_poison_block {crypto : Crypto} {authority : FixedBytes 32}
    {accounts : List GenesisAccount}
    {time : BlockTime} {d₀ : Database} {h₀ : Handle}
    (hc : create crypto authority accounts time = .ok (d₀, h₀)) (calls : List Call) {block : Block}
    (hvalid : validateBlock block = .ok ()) :
    let s := (machine crypto).run ⟨d₀, h₀⟩ calls
    (∃ outcomes tables memory,
      execute crypto s.database.tables s.handle.ledgerId (.ofBlock block) = .ok (outcomes, tables) ∧
      executeInMemory crypto s.database.tables s.handle.ledgerId (.ofBlock block) =
        .ok (outcomes, memory) ∧
      List.Forall₂ (OutcomeWire.Valid crypto) block.commands outcomes) ∧
    ∃ latest, info crypto s.database s.handle = .ok latest ∧
      (s.handle.staged = none → block.height = latest.height + 1 → latest.time ≤ block.time →
        block.blockId ≠ latest.blockId →
        ∃ staged handle, stage crypto s.database s.handle block = .ok (staged, handle) ∧
          staged.outcomes.map (·.commandSha256) = block.commands.map crypto.sha256) := by
  intro s
  obtain ⟨o, s₀, hcreated⟩ := create_eq_ok hc
  obtain ⟨head, p, hs, -⟩ := Session.of_run hcreated calls
  change Session o s₀ (genesisBlock time) _ head p s at hs
  constructor
  · obtain ⟨outcomes, tables, hexec, houtcomes, -⟩ :=
      execute_spec crypto hs.sound.invariant (.ofBlock block) rfl
    obtain ⟨memory, hmemory, -⟩ := executeInMemory_eq_ok hs.sound.invariant hexec
    rw [hs.stored.tables, hs.ledger]
    exact ⟨outcomes, tables, memory, hexec, hmemory, houtcomes⟩
  · obtain ⟨latest, hlatest, hheight, hid, htime, -⟩ := hs.sound.exists_receipt
    refine ⟨latest, by rw [hs.info_eq, hlatest], fun hnone hnext hle hne => ?_⟩
    have hf : Follows p block :=
      ⟨hvalid, by rw [hnext, hheight], htime ▸ hle, fun heq => hne (by rw [hid, heq])⟩
    obtain ⟨head', x, hstep, hx, hstage⟩ := stage_of_follows hs.sound hs.stored hs.ledger hnone hf
    obtain ⟨y, hy, -, -, -, -, hhashes⟩ := (next_sound hs.sound hf hstep).exists_receipt
    obtain ⟨y', hy', rfl⟩ := stagedReceipt_eq_ok.mp hx
    obtain rfl := ok_unique hy hy'
    exact ⟨_, _, hstage, hhashes⟩

/-- A created store of two accounts. -/
def sampleStore : Database × Handle :=
  (create sampleCrypto (.replicate 32 7) sampleAccounts ⟨120, 0⟩).toOption.getD
    (⟨0, 0, .empty, none⟩, ⟨.zero 32, none⟩)

/-- A block with a reserve of the first account and a command that is no message. -/
def sampleBlock : Block :=
  ⟨1, .replicate 32 3, ⟨150, 0⟩, [sampleCommand .orderedStore sampleStore.2.ledgerId 3 4
    (.reserve sampleRecipient 7), [255]]⟩

theorem no_poison_block_first :
    create sampleCrypto (.replicate 32 7) sampleAccounts ⟨120, 0⟩ = .ok sampleStore ∧
    ∃ staged handle, stage sampleCrypto sampleStore.1 sampleStore.2 sampleBlock =
        .ok (staged, handle) ∧
      staged.outcomes.map (·.commandSha256) = sampleBlock.commands.map sampleCrypto.sha256 := by
  have hcreate : create sampleCrypto (.replicate 32 7) sampleAccounts ⟨120, 0⟩ =
      .ok sampleStore := by
    decide +kernel
  have hnone : sampleStore.2.staged = none := by decide +kernel
  have hinfo : (info sampleCrypto sampleStore.1 sampleStore.2).map
      (fun x => (x.height, x.time, x.blockId)) = .ok (0, ⟨120, 0⟩, .zero 32) := by decide +kernel
  refine ⟨hcreate, ?_⟩
  generalize sampleStore = store at hcreate hnone hinfo ⊢
  obtain ⟨-, latest, hlatest, hstage⟩ :=
    no_poison_block hcreate [] (show validateBlock sampleBlock = .ok () by decide +kernel)
  rw [Machine.run_nil] at hlatest hstage
  rw [hlatest] at hinfo
  simp only [Except.map, Except.ok.injEq, Prod.mk.injEq] at hinfo
  obtain ⟨hheight, htime, hid⟩ := hinfo
  exact hstage hnone (by rw [hheight]; rfl) (by rw [htime]; decide) (by rw [hid]; decide)

/-! ## What is staged is committed -/

section

variable {crypto : Crypto} {o : Origin crypto} {s₀ head : Head} {p₀ p : Block}
  {log : List (Block × BlockReceipt)} {s : OrderedStore}

/-- The store after a successful `stage`: the block is staged, or it is the latest block. -/
theorem Session.stage_cases (h : Session o s₀ p₀ log head p s) {b : Block} {x : StagedBlock}
    {handle : Handle} (hstage : Ordered.stage crypto s.database s.handle b = .ok (x, handle)) :
    (∃ head', Follows p b ∧ head.next o b = .ok head' ∧
        handle.staged = some ⟨encode head.record, head'.record⟩ ∧
        stagedReceipt head'.record o.ledger = .ok x) ∨
      handle.staged = none ∧ b = p ∧ 0 < p.height ∧ stagedReceipt head.record o.ledger = .ok x := by
  obtain ⟨hvalid, ⟨pending, hstaged, hblock, hx, rfl⟩ | ⟨hnone, rfl, hx, rfl⟩ |
    ⟨-, hf, head', hnext, hx, rfl⟩⟩ := stage_eq_ok h.sound h.stored h.ledger hstage
  · obtain ⟨b', head', hf, hnext, rfl⟩ := h.staged pending hstaged
    rw [(next_sound h.sound hf hnext).record.block, Option.some.injEq] at hblock
    obtain rfl := BlockWire.ofBlock_injective hblock
    exact Or.inl ⟨head', hf, hnext, hstaged, hx⟩
  · exact Or.inr ⟨hnone, rfl, (validateBlock_eq_ok.mp hvalid).2.1, hx⟩
  · exact Or.inl ⟨head', hf, hnext, rfl, hx⟩

/-- The receipt of a block that `stage` returned a result for. -/
theorem receipt_of_staged (hs : head.Sound o p) {x : StagedBlock} {y : BlockReceipt}
    (hx : stagedReceipt head.record o.ledger = .ok x)
    (hy : publicReceipt head.record o.ledger = .ok y) :
    y = ⟨x.height, x.blockId, p.time, x.appHash, x.outcomes⟩ := by
  obtain ⟨z, hz, rfl⟩ := stagedReceipt_eq_ok.mp hx
  obtain ⟨z', hz', -, -, htime, -⟩ := hs.exists_receipt
  rw [hy, Except.ok.injEq] at hz hz'
  rw [← hz', ← hz] at *
  rw [← htime]

/-- The commit of a staged block. -/
theorem Session.commit_staged (h : Session o s₀ p₀ log head p s) {b : Block} {head' : Head}
    {x : StagedBlock} (hf : Follows p b) (hnext : head.next o b = .ok head')
    (hstaged : s.handle.staged = some ⟨encode head.record, head'.record⟩)
    (hx : stagedReceipt head'.record o.ledger = .ok x) :
    ∃ d', (machine crypto).step s (.commit b.blockId) =
      (.committed (.ok ⟨x.height, x.blockId, b.time, x.appHash, x.outcomes⟩),
        ⟨d', ⟨o.ledger, none⟩⟩) ∧ head'.Stored o d' := by
  obtain ⟨y, d', hcommit, hy, hd'⟩ := commit_of_next h.sound h.stored h.ledger hf hnext hstaged
  obtain rfl := receipt_of_staged (next_sound h.sound hf hnext) hx hy
  exact ⟨d', by simp only [machine, call, hcommit, h.discardStaged_eq], hd'⟩

/-- The commit of the latest block again. -/
theorem Session.commit_again (h : Session o s₀ p₀ log head p s) {x : StagedBlock}
    (hpos : 0 < p.height) (hnone : s.handle.staged = none)
    (hx : stagedReceipt head.record o.ledger = .ok x) :
    (machine crypto).step s (.commit p.blockId) =
      (.committed (.ok ⟨x.height, x.blockId, p.time, x.appHash, x.outcomes⟩),
        ⟨s.database, ⟨o.ledger, none⟩⟩) := by
  obtain ⟨y, hcommit, hy⟩ := commit_latest h.sound h.stored h.ledger hpos hnone
  obtain rfl := receipt_of_staged h.sound hx hy
  simp only [machine, call, hcommit, h.discardStaged_eq]

/-- The execution of the next block in memory. -/
theorem exists_executeInMemory (hs : head.Sound o p) {b : Block} {head' : Head}
    (hnext : head.next o b = .ok head') :
    ∃ outcomes memory, executeInMemory crypto head.tables o.ledger (.ofBlock b) =
      .ok (outcomes, memory) ∧ head'.tables.Same memory := by
  obtain ⟨outcomes, t, hash, hexec, -, rfl⟩ := next_eq_ok.mp hnext
  exact ⟨outcomes, executeInMemory_eq_ok hs.invariant hexec⟩

/-- While a block is staged, `stage` changes nothing. -/
theorem next_stage_of_staged {pending : Pending} (h : s.handle.staged = some pending) (b : Block) :
    (machine crypto).next s (.stage b) = s := by
  simp only [Machine.next, machine, call]
  cases hstage : stage crypto s.database s.handle b with
  | error e => rfl
  | ok result =>
    obtain ⟨x, handle⟩ := result
    simp only [stage, h, restage, ok_iff, Prod.mk.injEq] at hstage
    obtain ⟨-, -, -, -, y, -, -, rfl⟩ := hstage
    rfl

theorem run_stage_of_staged {pending : Pending} (h : s.handle.staged = some pending)
    (blocks : List Block) : (machine crypto).run s (blocks.map .stage) = s := by
  induction blocks with
  | nil => rfl
  | cons b blocks ih => rw [List.map_cons, Machine.run_cons, next_stage_of_staged h, ih]

/-- Only a commit changes the database. -/
theorem run_database_of_not_commit (h : Session o s₀ p₀ log head p s) (calls : List Call)
    (hcalls : ∀ c ∈ calls, ∀ id, c ≠ .commit id) :
    ((machine crypto).run s calls).database = s.database := by
  induction calls generalizing s with
  | nil => rfl
  | cons c calls ih =>
    rcases h.step_cases c with ⟨hdatabase, -, hnext⟩ | ⟨b, -, -, rfl, -⟩
    · rw [Machine.run_cons, ih hnext fun c hc => hcalls c (List.mem_cons_of_mem _ hc), hdatabase]
    · exact absurd rfl (hcalls _ List.mem_cons_self b.blockId)

end

/-- **What is staged is committed.** Let `stage` return a result for a block, in any state of a
store. Until a commit the database stays as it was, whatever is called. A commit of the block
succeeds, directly or after further `stage` calls if the block is staged, and its receipt has the
height, the identifier, the app hash and the outcomes that `stage` returned. The tables are then
those of the execution in memory, on the tables that the run had at the height before the block. -/
theorem stage_commit {crypto : Crypto} {authority : FixedBytes 32} {accounts : List GenesisAccount}
    {time : BlockTime} {d₀ : Database} {h₀ : Handle}
    (hc : create crypto authority accounts time = .ok (d₀, h₀)) (calls : List Call) {block : Block}
    {x : StagedBlock}
    (hstage : ((machine crypto).step ((machine crypto).run ⟨d₀, h₀⟩ calls) (.stage block)).1 =
      .staged (.ok x)) :
    let s := (machine crypto).run ⟨d₀, h₀⟩ calls
    let staged := (machine crypto).next s (.stage block)
    (∀ calls', (∀ c ∈ calls', ∀ id, c ≠ .commit id) →
      ((machine crypto).run staged calls').database = s.database) ∧
    ∀ others : List Block, others = [] ∨ staged.handle.staged ≠ none →
      ∃ d', (machine crypto).step ((machine crypto).run staged (others.map .stage))
          (.commit block.blockId) =
        (.committed (.ok ⟨x.height, x.blockId, block.time, x.appHash, x.outcomes⟩),
          ⟨d', ⟨s.handle.ledgerId, none⟩⟩) ∧
      ∃ d ∈ s.database :: ((machine crypto).events ⟨d₀, h₀⟩ calls).map (·.before.database),
        (∃ latest, info crypto d s.handle = .ok latest ∧ block.height = latest.height + 1) ∧
        ∃ outcomes memory, executeInMemory crypto d.tables s.handle.ledgerId (.ofBlock block) =
          .ok (outcomes, memory) ∧ d'.tables.Same memory := by
  intro s staged
  obtain ⟨o, s₀, hcreated⟩ := create_eq_ok hc
  obtain ⟨head, p, hs, hreached⟩ := Session.of_run hcreated calls
  change Session o s₀ (genesisBlock time) _ head p s at hs
  change (call crypto s (.stage block)).1 = _ at hstage
  cases hresult : stage crypto s.database s.handle block with
  | error e => simp [call, hresult] at hstage
  | ok result =>
    obtain ⟨y, handle⟩ := result
    obtain rfl : y = x := by simpa [call, hresult] using hstage
    have hstaged : staged = { s with handle } := by
      simp [staged, Machine.next, machine, call, hresult]
    have hsession := hs.stage hresult
    rw [hstaged]
    refine ⟨fun calls' hcalls => run_database_of_not_commit hsession calls' hcalls,
      fun others hothers => ?_⟩
    have hinfo : ∀ {d : Database} {prev : Head} {q : Block}, prev.Sound o q → prev.Stored o d →
        Follows q block →
        ∃ latest, info crypto d s.handle = .ok latest ∧ block.height = latest.height + 1 := by
      intro d prev q hprev hd hf
      obtain ⟨latest, hlatest, hheight, -⟩ := hprev.exists_receipt
      refine ⟨latest, ?_, by rw [hf.height, hheight]⟩
      rw [← hlatest, ← hprev.info hd s.handle.staged, ← hs.ledger]
    rcases hs.stage_cases hresult with ⟨head', hf, hnext, hpending, hx⟩ | ⟨hnone, rfl, hpos, hx⟩
    · -- the block is staged, and later `stage` calls leave it so
      have hrun : (machine crypto).run { s with handle } (others.map .stage) = _ :=
        run_stage_of_staged hpending others
      obtain ⟨d', hcommit, hd'⟩ := hsession.commit_staged hf hnext hpending hx
      obtain ⟨outcomes, memory, hmemory, hsame⟩ := exists_executeInMemory hs.sound hnext
      rw [hrun, hcommit, hs.ledger]
      refine ⟨d', rfl, s.database, List.mem_cons_self, hinfo hs.sound hs.stored hf, outcomes,
        memory, ?_, hd'.tables ▸ hsame⟩
      rw [hs.stored.tables, hmemory]
    · -- the block is the latest one, committed at an earlier step of the run
      obtain rfl : others = [] := hothers.resolve_right fun h => h hnone
      obtain ⟨e, he, prev, q, hprev, hd, hf, hnext⟩ := hreached hpos
      obtain ⟨outcomes, memory, hmemory, hsame⟩ := exists_executeInMemory hprev hnext
      rw [List.map_nil, Machine.run_nil, hsession.commit_again hpos hnone hx, hs.ledger]
      refine ⟨s.database, rfl, e.before.database,
        List.mem_cons_of_mem _ (List.mem_map_of_mem he), hinfo hprev hd hf, outcomes, memory, ?_,
        hs.stored.tables ▸ hsame⟩
      rw [hd.tables, hmemory]

/-- What staging the sample block returns. -/
def sampleStaged : StagedBlock :=
  ((stage sampleCrypto sampleStore.1 sampleStore.2 sampleBlock).toOption.map Prod.fst).getD
    ⟨0, .zero 32, .zero 32, []⟩

theorem stage_commit_first :
    sampleStaged.outcomes.length = 2 ∧
    ∃ d', (machine sampleCrypto).step
        ((machine sampleCrypto).next ⟨sampleStore.1, sampleStore.2⟩ (.stage sampleBlock))
        (.commit sampleBlock.blockId) =
      (.committed (.ok ⟨sampleStaged.height, sampleStaged.blockId, sampleBlock.time,
        sampleStaged.appHash, sampleStaged.outcomes⟩), ⟨d', ⟨sampleStore.2.ledgerId, none⟩⟩) := by
  have hcreate : create sampleCrypto (.replicate 32 7) sampleAccounts ⟨120, 0⟩ =
      .ok sampleStore := by
    decide +kernel
  have hstage : ((machine sampleCrypto).step ⟨sampleStore.1, sampleStore.2⟩
      (.stage sampleBlock)).1 = .staged (.ok sampleStaged) := by decide +kernel
  refine ⟨by decide +kernel, ?_⟩
  generalize sampleStore = store at hcreate hstage ⊢
  obtain ⟨-, hcommit⟩ := stage_commit hcreate [] hstage
  obtain ⟨d', hd', -⟩ := hcommit [] (Or.inl rfl)
  exact ⟨d', hd'⟩

/-! ## Replicas -/

/-- **Replica agreement.** Two stores created from the same accounts, in any order, the same
authority and the same time, that committed the same blocks, have the same ledger identifier, the
same receipt for every block (so the same outcomes and app hashes at every height) and the same
checkpoint, however the calls of the two runs were interleaved with discarded, repeated and failed
ones. -/
theorem replicas_agree {crypto : Crypto} {authority : FixedBytes 32}
    {accounts₁ accounts₂ : List GenesisAccount} (hperm : accounts₁.Perm accounts₂)
    {time : BlockTime}
    {d₁ d₂ : Database} {h₁ h₂ : Handle}
    (hc₁ : create crypto authority accounts₁ time = .ok (d₁, h₁))
    (hc₂ : create crypto authority accounts₂ time = .ok (d₂, h₂)) (calls₁ calls₂ : List Call)
    (hblocks : (committed ((machine crypto).events ⟨d₁, h₁⟩ calls₁)).map Prod.fst =
      (committed ((machine crypto).events ⟨d₂, h₂⟩ calls₂)).map Prod.fst) :
    let s₁ := (machine crypto).run ⟨d₁, h₁⟩ calls₁
    let s₂ := (machine crypto).run ⟨d₂, h₂⟩ calls₂
    s₁.handle.ledgerId = s₂.handle.ledgerId ∧
    committed ((machine crypto).events ⟨d₁, h₁⟩ calls₁) =
      committed ((machine crypto).events ⟨d₂, h₂⟩ calls₂) ∧
    ∃ latest, info crypto s₁.database s₁.handle = .ok latest ∧
      info crypto s₂.database s₂.handle = .ok latest := by
  intro s₁ s₂
  obtain ⟨o, head₁, hcreated₁⟩ := create_eq_ok hc₁
  obtain ⟨o', head₂, hcreated₂⟩ := create_eq_ok hc₂
  obtain ⟨rfl, hsame⟩ := hcreated₁.agree hcreated₂ hperm
  obtain ⟨head₁', p₁, hs₁, -⟩ := Session.of_run hcreated₁ calls₁
  obtain ⟨head₂', p₂, hs₂, -⟩ := Session.of_run hcreated₂ calls₂
  obtain ⟨hlog, hsame', -⟩ := hs₁.chain.agree hs₂.chain hcreated₁.sound hsame hblocks
  obtain ⟨latest, hlatest, -⟩ := hs₁.sound.exists_receipt
  refine ⟨by rw [hs₁.ledger, hs₂.ledger], hlog, latest, ?_, ?_⟩
  · rw [hs₁.info_eq, hlatest]
  · rw [hs₂.info_eq, ← hsame'.1, hlatest]

/-- The sample store, created from the accounts in the other order. -/
def sampleReplica : Database × Handle :=
  (create sampleCrypto (.replicate 32 7) sampleAccounts.reverse ⟨120, 0⟩).toOption.getD
    (⟨0, 0, .empty, none⟩, ⟨.zero 32, none⟩)

theorem replicas_agree_after_discard :
    (committed ((machine sampleCrypto).events ⟨sampleStore.1, sampleStore.2⟩
      [.stage ⟨1, .replicate 32 3, ⟨150, 0⟩, [[255]]⟩, .commit (.replicate 32 3)])).length = 1 ∧
    committed ((machine sampleCrypto).events ⟨sampleStore.1, sampleStore.2⟩
        [.stage ⟨1, .replicate 32 3, ⟨150, 0⟩, [[255]]⟩, .commit (.replicate 32 3)]) =
      committed ((machine sampleCrypto).events ⟨sampleReplica.1, sampleReplica.2⟩
        [.stage ⟨1, .replicate 32 4, ⟨150, 0⟩, []⟩, .discardStaged,
          .stage ⟨1, .replicate 32 3, ⟨150, 0⟩, [[255]]⟩, .commit (.replicate 32 3)]) := by
  have hcreate : create sampleCrypto (.replicate 32 7) sampleAccounts ⟨120, 0⟩ =
      .ok (sampleStore.1, sampleStore.2) := by decide +kernel
  have hcreate' : create sampleCrypto (.replicate 32 7) sampleAccounts.reverse ⟨120, 0⟩ =
      .ok (sampleReplica.1, sampleReplica.2) := by decide +kernel
  exact ⟨by decide +kernel, (replicas_agree (List.reverse_perm _).symm hcreate hcreate' _ _
    (by decide +kernel)).2.1⟩

end OrderedStore

end Volparossa.Ordered
