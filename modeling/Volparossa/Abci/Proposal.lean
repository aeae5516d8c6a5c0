import Volparossa.Abci.Reachable

/-!
# Proposals and the blocks they become

A validator accepts a proposal before it knows whether the block will be decided, and it must be
able to execute every block that is. `process` accepts exactly the blocks that could follow the
latest one but for their identifier (`process_eq_accept`); `finalize` also refuses the identifier of
the latest block (`finalize_isOk_iff`). What `prepare` proposes is what the greedy rule keeps of the
candidates, and it is within every limit and accepted (`prepared_admissible`).
-/

namespace Volparossa.Abci

open Protobuf Transaction Ordered

/-! ## Decoded fields -/

theorem toNat_le_maxUnits {n : Int64} {height : ℕ} (h : n.toInt.toNat? = some height) :
    height ≤ maxUnits := by
  have hlt := n.toInt_lt
  rw [Int.mem_toNat?] at h
  unfold maxUnits
  omega

theorem agreedTime_valid {value : Option Timestamp} {time : BlockTime}
    (h : agreedTime value = .ok time) : time.validate = .ok () := by
  simp only [agreedTime, BlockTime.fromUnix, ok_iff] at h
  obtain ⟨_, -, -, -, -, -, ⟨⟩, hvalid, rfl⟩ := h
  exact hvalid

theorem blockId_eq_ok {b : Bytes} {id : FixedBytes 32} :
    blockId b = .ok id ↔ b = id.toBytes ∧ id ≠ .zero 32 := by
  simp only [blockId, ok_iff, FixedBytes.ofBytes_eq_some, exists_const]
  constructor
  · rintro ⟨id', hb, hne, rfl⟩
    exact ⟨hb, hne⟩
  · rintro ⟨hb, hne⟩
    exact ⟨id, hb, hne, rfl⟩

namespace Application

variable {lib : Libraries}

theorem finalizedBlock_eq_ok {q : RequestFinalizeBlock} {block : Block} :
    finalizedBlock q = .ok block ↔ q.height.toInt.toNat? = some block.height ∧
      blockId q.hash = .ok block.blockId ∧ agreedTime q.time = .ok block.time ∧
      q.txs = block.commands := by
  simp only [finalizedBlock, ok_iff]
  constructor
  · rintro ⟨height, hheight, id, hid, time, htime, rfl⟩
    exact ⟨hheight, hid, htime, rfl⟩
  · rintro ⟨hheight, hid, htime, htxs⟩
    exact ⟨_, hheight, _, hid, _, htime, by rw [htxs]⟩

/-! ## Accepted proposals -/

/-- A valid block with the next height, and a time that does not go back. -/
structure Continues (p b : Block) : Prop where
  valid : validateBlock b = .ok ()
  height : b.height = p.height + 1
  time : p.time ≤ b.time

section

variable {o : Origin lib.crypto} {s₀ head : Head} {p₀ p : Block} {log : List (Block × BlockReceipt)}
  {s : OrderedStore} {app : Application}

section

variable (hs : OrderedStore.Session o s₀ p₀ log head p s)

include hs

theorem exists_storeInfo : ∃ latest, storeInfo lib s = .ok latest ∧ latest.height = p.height ∧
      latest.blockId = p.blockId ∧ latest.time = p.time := by
  obtain ⟨latest, hlatest, hheight, hid, htime, -⟩ := hs.sound.exists_receipt
  exact ⟨latest, by rw [storeInfo, ofStore_eq_ok, hs.info_eq, hlatest], hheight, hid, htime⟩

theorem proposalPosition_eq_true (hstore : app.store = some s) {height : Int64}
    {time : Option Timestamp} : proposalPosition lib app height time = .ok true ↔
      height.toInt.toNat? = some (p.height + 1) ∧
        ∃ agreed, agreedTime time = .ok agreed ∧ p.time ≤ agreed := by
  obtain ⟨latest, hlatest, hheight, -, htime⟩ := exists_storeInfo hs
  have hnext : checkedAdd p.height 1 = some (p.height + 1) := by
    have hle := hs.sound.record.sized.height_le
    unfold maxUnits at hle
    exact checkedAdd_of_lt (by omega)
  rw [proposalPosition, getStore_eq_ok.mpr hstore, ok_bind, hlatest, ok_bind, hheight, htime, hnext]
  cases agreedTime time with
  | error e => simp
  | ok agreed => simp

/-- **The proposals that are accepted.** -/
theorem process_eq_accept (hstore : app.store = some s) {q : RequestProcessProposal} :
    process lib app q = .ok .accept ↔
      ∃ block, finalizedBlock ⟨q.txs, q.hash, q.height, q.time⟩ = .ok block ∧
        Continues p block := by
  have haccept : process lib app q = .ok .accept ↔
      proposalPosition lib app q.height q.time = .ok true ∧ (blockId q.hash).isOk = true ∧
        boundedCommands q.txs = true := by
    simp only [process, ok_iff, ite_eq_left_iff, reduceCtorEq, imp_false, not_not, Bool.and_eq_true]
    constructor
    · rintro ⟨position, hposition, ⟨rfl, hid⟩, hbounded⟩
      exact ⟨hposition, hid, hbounded⟩
    · rintro ⟨hposition, hid, hbounded⟩
      exact ⟨true, hposition, ⟨rfl, hid⟩, hbounded⟩
  rw [haccept, proposalPosition_eq_true hs hstore]
  simp only [boundedCommands, decide_eq_true_eq]
  constructor
  · rintro ⟨⟨hheight, time, htime, hle⟩, hid, hlength, hcommand, htotal⟩
    obtain ⟨id, hid⟩ := exists_eq_ok hid
    have hvalid := validate_eq_ok.mp (agreedTime_valid htime)
    refine ⟨⟨p.height + 1, id, time, q.txs⟩, finalizedBlock_eq_ok.mpr ⟨hheight, hid, htime, rfl⟩,
      ⟨?_, rfl, hle⟩⟩
    exact validateBlock_eq_ok.mpr
      ⟨⟨toNat_le_maxUnits hheight, hvalid.1, hvalid.2, hlength, hcommand,
      htotal⟩, Nat.succ_pos _, (blockId_eq_ok.mp hid).2⟩
  · rintro ⟨block, hblock, hc⟩
    obtain ⟨hheight, hid, htime, htxs⟩ := finalizedBlock_eq_ok.mp hblock
    obtain ⟨hsized, -, -⟩ := validateBlock_eq_ok.mp hc.valid
    dsimp only at hheight hid htime htxs
    rw [hheight, hid, htxs, hc.height]
    exact ⟨⟨rfl, block.time, htime, hc.time⟩, rfl, hsized.length_le, hsized.command_le,
      hsized.total_le⟩

/-- **The continuing blocks that can be finalized**: those with another identifier than the latest
block. -/
theorem finalize_isOk_iff (hstore : app.store = some s) (hnone : s.handle.staged = none)
    {q : RequestFinalizeBlock} {block : Block} (hblock : finalizedBlock q = .ok block)
    (hc : Continues p block) : (finalize lib app q).1.isOk = true ↔ block.blockId ≠ p.blockId := by
  have hok : (finalize lib app q).1.isOk = true ↔
      ∃ x handle, stage lib.crypto s.database s.handle block = .ok (x, handle) := by
    rw [finalize, stageRequest, hblock, ok_bind, getStore_eq_ok.mpr hstore, ok_bind]
    cases stage lib.crypto s.database s.handle block with
    | ok result =>
      obtain ⟨x, handle⟩ := result
      simp [ofStore, Except.mapError, Except.isOk, Except.toBool]
    | error e => simp [ofStore, Except.mapError, Except.isOk, Except.toBool]
  rw [hok]
  constructor
  · rintro ⟨x, handle, hstage⟩
    obtain ⟨-, ⟨pending, hstaged, -⟩ | ⟨-, rfl, -⟩ | ⟨-, hf, -⟩⟩ :=
      stage_eq_ok hs.sound hs.stored hs.ledger hstage
    · rw [hnone] at hstaged
      cases hstaged
    · exact absurd hc.height (by omega)
    · exact hf.id_ne.symm
  · intro hne
    have hf : Follows p block := ⟨hc.valid, hc.height, hc.time, hne.symm⟩
    obtain ⟨_, x, -, -, hstage⟩ := stage_of_follows hs.sound hs.stored hs.ledger hnone hf
    exact ⟨x, _, hstage⟩

end

end

/-! ## Prepared proposals -/

/-- The greedy rule: a command is kept if the block of those kept before has room for it. -/
def keep (limit : ℕ) (kept : List Bytes) (b : Bytes) : List Bytes :=
  if kept.length < maxBlockCommands ∧ b.length ≤ 4096 ∧
    (kept.map (·.length)).sum + b.length ≤ limit then kept ++ [b] else kept

/-- The loop of `prepare` with the subtraction of machine integers: none if it underflows. -/
def checkedFitting (maxBytes : ℕ) : List Bytes → ℕ → List Bytes → Option (List Bytes)
  | [], _, txs => some txs
  | b :: rest, used, txs =>
    if txs.length = maxBlockCommands then some txs
    else if b.length ≤ 4096 then do
      let left ← checkedSub maxBytes used
      if b.length ≤ left then checkedFitting maxBytes rest (used + b.length) (txs ++ [b])
      else checkedFitting maxBytes rest used txs
    else checkedFitting maxBytes rest used txs

/-- The subtraction does not underflow: what is used is within the limit in every iteration. -/
theorem checkedFitting_eq (maxBytes : ℕ) (commands : List Bytes) {used : ℕ} {txs : List Bytes}
    (hle : used ≤ maxBytes) :
    checkedFitting maxBytes commands used txs = some (fitting maxBytes commands used txs) := by
  induction commands generalizing used txs with
  | nil => rfl
  | cons b commands ih =>
    unfold checkedFitting fitting
    by_cases hcount : txs.length = maxBlockCommands
    · rw [if_pos hcount, if_pos hcount]
    rw [if_neg hcount, if_neg hcount]
    by_cases hlength : b.length ≤ 4096
    · rw [if_pos hlength, checkedSub_of_le hle, Option.bind_eq_bind, Option.bind_some]
      by_cases hfits : b.length ≤ maxBytes - used
      · rw [if_pos hfits, if_pos ⟨hlength, hfits⟩]
        exact ih (by omega)
      · rw [if_neg hfits, if_neg fun h => hfits h.2]
        exact ih hle
    · rw [if_neg hlength, if_neg fun h => hlength h.1]
      exact ih hle

/-- The loop keeps what the greedy rule keeps: once the block is full, the rule keeps nothing more
and the loop ends. -/
theorem fitting_eq_foldl (maxBytes : ℕ) (commands : List Bytes) {used : ℕ} {txs : List Bytes}
    (hlength : txs.length ≤ maxBlockCommands) (hused : (txs.map (·.length)).sum = used)
    (hle : used ≤ maxBytes) :
    fitting maxBytes commands used txs = commands.foldl (keep maxBytes) txs := by
  induction commands generalizing used txs with
  | nil => rfl
  | cons b commands ih =>
    rw [List.foldl_cons, fitting, keep, hused]
    split
    · rename_i hfull
      rw [if_neg (by omega), ← ih hlength hused hle]
      cases commands with
      | nil => rfl
      | cons c commands => rw [fitting, if_pos hfull]
    · split
      · rename_i hfits
        rw [if_pos ⟨by omega, hfits.1, by omega⟩]
        refine ih ?_ ?_ (by omega)
        · rw [List.length_append, List.length_singleton]
          omega
        · rw [List.map_append, List.sum_append, hused]
          simp
      · rename_i hfits
        rw [if_neg (by omega)]
        exact ih hlength hused hle

theorem foldl_keep_sublist (limit : ℕ) (commands kept : List Bytes) :
    ∃ new, commands.foldl (keep limit) kept = kept ++ new ∧ new.Sublist commands := by
  induction commands generalizing kept with
  | nil => exact ⟨[], (List.append_nil _).symm, .slnil⟩
  | cons b commands ih =>
    rw [List.foldl_cons, keep]
    split
    · obtain ⟨new, hnew, hsub⟩ := ih (kept ++ [b])
      exact ⟨b :: new, by rw [hnew, List.append_assoc]; rfl, hsub.cons_cons b⟩
    · obtain ⟨new, hnew, hsub⟩ := ih kept
      exact ⟨new, hnew, hsub.cons b⟩

/-- What the greedy rule keeps is within the limits. -/
theorem foldl_keep_bounded (limit : ℕ) (commands : List Bytes) {kept : List Bytes}
    (h : kept.length ≤ maxBlockCommands ∧ (∀ tx ∈ kept, tx.length ≤ 4096) ∧
      (kept.map (·.length)).sum ≤ limit) :
    let all := commands.foldl (keep limit) kept
    all.length ≤ maxBlockCommands ∧ (∀ tx ∈ all, tx.length ≤ 4096) ∧
      (all.map (·.length)).sum ≤ limit := by
  induction commands generalizing kept with
  | nil => exact h
  | cons b commands ih =>
    refine ih ?_
    unfold keep
    split
    · rename_i hfits
      rw [List.length_append, List.map_append, List.sum_append, List.forall_mem_append]
      exact ⟨hfits.1, ⟨h.2.1, by simpa using hfits.2.1⟩, by simpa using hfits.2.2⟩
    · exact h

/-! ## Accepted proposals and blocks -/

/-- The requests that are answered. -/
theorem handle_eq_ok {app : Application} {request : Request} {response : Response} :
    (handle lib app request).1 = .ok response ↔
      app.failed = false ∧ request.encodedLen ≤ maxFrameBytes ∧
        ∃ value, request.value = some value ∧ (answer lib app value).1 = .ok response := by
  have hinner : (handle lib app request).1 = .ok response ↔
      app.failed = false ∧ (handleInner lib app request).1 = .ok response := by
    unfold handle
    cases app.failed with
    | true => simp
    | false =>
      obtain ⟨result, app'⟩ := handleInner lib app request
      cases result with
      | ok response' => simp
      | error e => simp
  rw [hinner, handleInner]
  split
  · simp only [reduceCtorEq, and_false, false_iff, not_and]
    omega
  · cases request.value with
    | none => simp
    | some value =>
      simp only [Option.some.injEq, exists_eq_left']
      exact and_congr_right fun _ => ⟨fun h => ⟨by omega, h⟩, fun h => h.2⟩

/-- **Accepted proposals and blocks.** In every reachable state with no staged block, a proposal
that `ProcessProposal` accepts can be finalized, as a block with the same height, time, hash and
transactions, exactly if its hash is not the identifier of the latest committed block. -/
theorem accepted_finalizes_iff {app : Application} (hr : Reachable lib app)
    (hnone : app.staged = none)
    {txs : List Bytes} {hash : Bytes} {height : Int64} {time : Option Timestamp} {n m : ℕ}
    (haccept : (handle lib app ⟨n, some (.processProposal ⟨txs, hash, height, time⟩)⟩).1 =
      .ok (.processProposal .accept)) (hm : m ≤ maxFrameBytes) :
    ∃ s latest, app.store = some s ∧ Ordered.info lib.crypto s.database s.handle = .ok latest ∧
      ((∃ response, (handle lib app ⟨m, some (.finalizeBlock ⟨txs, hash, height, time⟩)⟩).1 =
        .ok response) ↔ hash ≠ latest.blockId.toBytes) := by
  obtain ⟨hfailed, -, value, hvalue, hprocess⟩ := handle_eq_ok.mp haccept
  cases hvalue
  simp only [answer] at hprocess
  have hprocess : process lib app ⟨txs, hash, height, time⟩ = .ok .accept := by
    cases h : process lib app ⟨txs, hash, height, time⟩ with
    | ok status => simpa [h, Except.map] using hprocess
    | error e => simp [h, Except.map] at hprocess
  cases hstore : app.store with
  | none => simp [process, proposalPosition, getStore, hstore] at hprocess
  | some s =>
    obtain ⟨o, s₀, p₀, log, head, p, hs⟩ := hr.sound s hstore
    obtain ⟨block, hblock, hc⟩ := (process_eq_accept hs hstore).mp hprocess
    obtain ⟨latest, hlatest, -, hid, -⟩ := exists_storeInfo hs
    have hstaged : s.handle.staged = none := by simpa [staged, hstore] using hnone
    have hfinalize : (∃ response,
        (handle lib app ⟨m, some (.finalizeBlock ⟨txs, hash, height, time⟩)⟩).1 = .ok response) ↔
        (finalize lib app ⟨txs, hash, height, time⟩).1.isOk = true := by
      constructor
      · rintro ⟨response, hresponse⟩
        obtain ⟨-, -, value, hvalue, hanswer⟩ := handle_eq_ok.mp hresponse
        cases hvalue
        simp only [answer] at hanswer
        rw [hanswer]
        rfl
      · intro hok
        obtain ⟨response, hresponse⟩ := exists_eq_ok hok
        exact ⟨response, handle_eq_ok.mpr ⟨hfailed, hm, _, rfl, hresponse⟩⟩
    have hhash : hash = block.blockId.toBytes :=
      (blockId_eq_ok.mp (finalizedBlock_eq_ok.mp hblock).2.1).1
    refine ⟨s, latest, rfl, ofStore_eq_ok.mp hlatest, ?_⟩
    rw [hfinalize, finalize_isOk_iff hs hstore hstaged hblock hc, hid, hhash]
    simp

/-! ## A chain of one block -/

/-- Four validators and two accounts. -/
def sampleGenesis : Genesis where
  version := 1
  chainId := ascii "volparossa-test-abci"
  seconds := 90
  nanos := 0
  validators := sampleValidators.map fun key => hexEncode key.toBytes
  accounts := [⟨hexEncode samplePayer.toBytes, 100⟩, ⟨hexEncode sampleRecipient.toBytes, 0⟩]

/-- The JSON text of the sample genesis. -/
def sampleJson : Bytes :=
  ascii "\x7b\"version\":1,\"chain_id\":\"volparossa-test-abci\",\"seconds\":90,\"nanos\":0," ++
  ascii "\"validators\":[\"" ++
  (ascii "\",\"").intercalate (sampleValidators.map fun key => hexEncode key.toBytes) ++
  ascii "\"],\"accounts\":[\x7b\"public_key\":\"" ++ hexEncode samplePayer.toBytes ++
  ascii "\",\"units\":100\x7d,\x7b\"public_key\":\"" ++ hexEncode sampleRecipient.toBytes ++
  ascii "\",\"units\":0\x7d]\x7d"

/-- The sample primitives, and the JSON reader on the text of the sample genesis. -/
def sampleLibraries : Libraries where
  crypto := sampleCrypto
  fromSlice b := if b = sampleJson then some sampleGenesis else none
  toVec _ := none

def sampleInitChain : RequestInitChain where
  time := some ⟨90, 0⟩
  chainId := ascii "volparossa-test-abci"
  consensusParams := some consensusParams
  validators := sampleValidators.map fun key => ⟨some ⟨some (.ed25519 key.toBytes)⟩, 10⟩
  appStateBytes := sampleJson
  initialHeight := 1

/-- The block of the sample chain. -/
def sampleFinalizeBlock : RequestFinalizeBlock := ⟨[[255]], List.replicate 32 3, 1, some ⟨110, 0⟩⟩

/-- An application without a store. -/
def sampleApplication : Application :=
  (openApplication sampleLibraries none sampleGenesis).toOption.getD
    ⟨sampleGenesis, none, none, true⟩

/-- The application after the first block. -/
def sampleCommitted : Application :=
  (machine sampleLibraries).run sampleApplication
    [⟨798, some (.initChain sampleInitChain)⟩, ⟨46, some (.finalizeBlock sampleFinalizeBlock)⟩,
      ⟨2, some .commit⟩]

theorem sampleCommitted_reachable : Reachable sampleLibraries sampleCommitted :=
  Reachable.run (.opened (show openApplication sampleLibraries none sampleGenesis =
    .ok sampleApplication by decide +kernel)) _

/-- The second block, proposed under a hash. -/
def sampleProposal (hash : UInt8) : Request :=
  ⟨43, some (.processProposal ⟨[], List.replicate 32 hash, 2, some ⟨111, 0⟩⟩)⟩

/-- The second block, decided under a hash. -/
def sampleDecision (hash : UInt8) : Request :=
  ⟨43, some (.finalizeBlock ⟨[], List.replicate 32 hash, 2, some ⟨111, 0⟩⟩)⟩

/-- The first block has the hash `3`. The second one is accepted under this and another hash. -/
theorem sampleCommitted_eval :
    sampleCommitted.staged = none ∧
    (sampleCommitted.store.bind fun s => (Ordered.info sampleLibraries.crypto s.database
      s.handle).toOption.map (·.blockId)) = some (.replicate 32 3) ∧
    (handle sampleLibraries sampleCommitted (sampleProposal 4)).1 = .ok (.processProposal .accept) ∧
    (handle sampleLibraries sampleCommitted (sampleProposal 3)).1 = .ok (.processProposal .accept) ∧
    (handle sampleLibraries sampleCommitted (sampleDecision 3)).1 = .error (.store .state) := by
  decide +kernel

theorem accepted_finalizes_next :
    (handle sampleLibraries sampleCommitted (sampleProposal 4)).1 = .ok (.processProposal .accept) ∧
    ∃ response, (handle sampleLibraries sampleCommitted (sampleDecision 4)).1 = .ok response := by
  obtain ⟨hnone, hlatest, haccept, -, -⟩ := sampleCommitted_eval
  obtain ⟨s, latest, hstore, hinfo, hiff⟩ :=
    accepted_finalizes_iff (m := 43) sampleCommitted_reachable hnone haccept (by decide)
  rw [hstore, Option.bind_some, hinfo] at hlatest
  have hid : latest.blockId = .replicate 32 3 := Option.some.inj hlatest
  refine ⟨haccept, hiff.mpr ?_⟩
  rw [hid]
  decide

/-- **An accepted proposal that halts the application.** The second block is proposed under the hash
of the first one: it is accepted, and finalizing it is fatal. -/
theorem accepted_proposal_halts :
    Reachable sampleLibraries sampleCommitted ∧ sampleCommitted.staged = none ∧
    (handle sampleLibraries sampleCommitted (sampleProposal 3)).1 = .ok (.processProposal .accept) ∧
    (handle sampleLibraries sampleCommitted (sampleDecision 3)).1 = .error (.store .state) := by
  obtain ⟨hnone, -, -, haccept, hfatal⟩ := sampleCommitted_eval
  exact ⟨sampleCommitted_reachable, hnone, haccept, hfatal⟩

/-! ## Prepared proposals are admissible -/

/-- **What is prepared is admissible.** At a valid position and for every nonnegative limit of the
request a list is returned, and only then. It is what the greedy rule keeps of the candidates, in
their order; its size is within the limits of the request and of the application; it passes the
checks of `ProcessProposal` and of `FinalizeBlock` on a list of commands; and computing it, the
remaining budget is never negative. -/
theorem prepared_admissible (lib : Libraries) (app : Application) (q : RequestPrepareProposal) :
    (proposalPosition lib app q.height q.time = .ok true → 0 ≤ q.maxTxBytes.toInt →
      ∃ txs, prepare lib app q = .ok txs) ∧
    ∀ txs, prepare lib app q = .ok txs → ∃ limit : ℕ, q.maxTxBytes.toInt = limit ∧
      txs = q.txs.foldl (keep (min limit maxBlockBytes)) [] ∧ txs.Sublist q.txs ∧
      (txs.map (·.length)).sum ≤ limit ∧ (txs.map (·.length)).sum ≤ maxBlockBytes ∧
      boundedCommands txs = true ∧
      (∀ block : Block, validateBlock { block with commands := [] } = .ok () →
        validateBlock { block with commands := txs } = .ok ()) ∧
      checkedFitting (min limit maxBlockBytes) q.txs 0 [] = some txs := by
  constructor
  · intro hposition hlimit
    obtain ⟨limit, hlimit⟩ := Int.eq_ofNat_of_zero_le hlimit
    refine ⟨fitting (min limit maxBlockBytes) q.txs 0 [], ?_⟩
    rw [prepare, hposition, ok_bind, refuse_of_not (by simp), ok_bind, hlimit]
    rfl
  · intro txs h
    simp only [prepare, ok_iff] at h
    obtain ⟨position, -, -, -, limit, hlimit, rfl⟩ := h
    have hgreedy : fitting (min limit maxBlockBytes) q.txs 0 [] =
        q.txs.foldl (keep (min limit maxBlockBytes)) [] :=
      fitting_eq_foldl _ _ (Nat.zero_le _) List.sum_nil (Nat.zero_le _)
    obtain ⟨hlength, hcommand, htotal⟩ :=
      @foldl_keep_bounded (min limit maxBlockBytes) q.txs [] (by simp)
    obtain ⟨new, hnew, hsub⟩ := foldl_keep_sublist (min limit maxBlockBytes) q.txs []
    have hblock := htotal.trans (min_le_right _ _)
    rw [hgreedy]
    refine ⟨limit, ?_, rfl, hnew ▸ hsub, htotal.trans (min_le_left _ _), hblock,
      decide_eq_true ⟨hlength, hcommand, hblock⟩, ?_,
      (checkedFitting_eq _ _ (Nat.zero_le _)).trans (congrArg some hgreedy)⟩
    · rwa [Int.mem_toNat?] at hlimit
    · intro block hvalid
      obtain ⟨hsized, hpos, hid⟩ := validateBlock_eq_ok.mp hvalid
      exact validateBlock_eq_ok.mpr ⟨{ hsized with
        length_le := hlength, command_le := hcommand, total_le := hblock }, hpos, hid⟩

/-- Two of three candidates are prepared: the second one is too long for a command. -/
theorem prepared_admissible_second :
    ∃ txs, prepare sampleLibraries sampleCommitted
        ⟨5000, [[1, 2], List.replicate 4097 0, [3]], 2, some ⟨111, 0⟩⟩ = .ok txs ∧
      txs = [[1, 2], [3]] ∧ boundedCommands txs = true := by
  have hposition : proposalPosition sampleLibraries sampleCommitted 2 (some ⟨111, 0⟩) =
      .ok true := by
    decide +kernel
  obtain ⟨hreturns, hadmissible⟩ := prepared_admissible sampleLibraries sampleCommitted
    ⟨5000, [[1, 2], List.replicate 4097 0, [3]], 2, some ⟨111, 0⟩⟩
  obtain ⟨txs, htxs⟩ := hreturns hposition (by decide)
  obtain ⟨limit, hlimit, hgreedy, -, -, -, hbounded, -⟩ := hadmissible txs htxs
  obtain rfl : limit = 5000 := Int.ofNat.inj hlimit.symm
  exact ⟨txs, htxs, hgreedy.trans (by decide +kernel), hbounded⟩

end Application

end Volparossa.Abci
