import Volparossa.Ordered.Checkpoint

/-!
# The chain of blocks

What one block does to a head, apart from how the store computes it: `Head.next` executes the
commands on the tables and hashes the result into the next record. From a sound head every block
that follows the latest one has a next head, and it is sound (`exists_next`, `next_sound`); heads
with the same rows have next heads with the same rows and equal records (`next_same`).

The store refines this. Staging a block computes its next head on a copy of the tables
(`stage_of_follows`, `stage_eq_ok`), and a commit stores the next head of the durable one, or
repeats the latest block (`commit_of_next`, `commit_eq_ok`). A `Chain` is the sequence of the blocks
since a head, each with its receipt; two chains with the same blocks have the same receipts
(`Chain.agree`).
-/

namespace Volparossa.Ordered

open Protobuf Protocol Transaction

/-! ## Steps of a chain -/

/-- A valid block that can come after `p`. -/
structure Follows (p b : Block) : Prop where
  valid : validateBlock b = .ok ()
  height : b.height = p.height + 1
  time : p.time ≤ b.time
  id_ne : p.blockId ≠ b.blockId

/-- **What a block does**: its commands are executed, and the result is hashed into the next
record. -/
def Head.next {crypto : Crypto} (o : Origin crypto) (s : Head) (b : Block) : Except Error Head := do
  let (outcomes, tables) ← execute crypto s.tables o.ledger (.ofBlock b)
  let hash ← stateHash crypto tables o.genesis ⟨some (.ofBlock b), s.record.appHash, outcomes, []⟩
  pure ⟨tables, ⟨some (.ofBlock b), s.record.appHash, outcomes, hash.toBytes⟩⟩

section Next

variable {crypto : Crypto} {o : Origin crypto} {s s' : Head} {p b : Block}

theorem next_eq_ok : s.next o b = .ok s' ↔ ∃ outcomes t hash,
    execute crypto s.tables o.ledger (.ofBlock b) = .ok (outcomes, t) ∧
    stateHash crypto t o.genesis ⟨some (.ofBlock b), s.record.appHash, outcomes, []⟩ = .ok hash ∧
    s' = ⟨t, ⟨some (.ofBlock b), s.record.appHash, outcomes, hash.toBytes⟩⟩ := by
  simp only [Head.next, ok_iff, Prod.exists]
  constructor
  · rintro ⟨outcomes, t, hexec, hash, hhash, rfl⟩
    exact ⟨outcomes, t, hash, hexec, hhash, rfl⟩
  · rintro ⟨outcomes, t, hash, hexec, hhash, rfl⟩
    exact ⟨outcomes, t, hexec, hash, hhash, rfl⟩

section

variable (hs : s.Sound o p)

include hs

theorem Head.Sound.app_length : s.record.appHash.length = 32 := by
  obtain ⟨hash, -, happ⟩ := hs.hash
  rw [happ, FixedBytes.length_toBytes]

/-- The latest block is determined by the record. -/
theorem Head.Sound.block_unique {p' : Block} (hs' : s'.Sound o p') (h : s.record = s'.record) :
    p = p' := by
  have hblock := hs.record.block
  rw [h, hs'.record.block, Option.some.injEq] at hblock
  exact (BlockWire.ofBlock_injective hblock).symm

/-- The record of the next block, before it is hashed. -/
theorem unhashed_valid (hf : Follows p b) {outcomes : List OutcomeWire}
    (houtcomes : List.Forall₂ (OutcomeWire.Valid crypto) b.commands outcomes) :
    Record.Valid crypto ⟨some (.ofBlock b), s.record.appHash, outcomes, []⟩ b :=
  ⟨rfl, (validateBlock_eq_ok.mp hf.valid).1, houtcomes, hs.app_length, by simp⟩

/-- **Every block that follows the latest one has a next head.** -/
theorem exists_next (hf : Follows p b) : ∃ s', s.next o b = .ok s' := by
  obtain ⟨outcomes, t, hexec, houtcomes, hinv⟩ :=
    execute_spec crypto hs.invariant (.ofBlock b) rfl
  obtain ⟨hash, hhash⟩ := exists_stateHash hinv (unhashed_valid hs hf houtcomes) o.genesis
  exact ⟨_, next_eq_ok.mpr ⟨outcomes, t, hash, hexec, hhash, rfl⟩⟩

/-- **The next head is sound.** -/
theorem next_sound (hf : Follows p b) (h : s.next o b = .ok s') : s'.Sound o b := by
  obtain ⟨outcomes, t, hash, hexec, hhash, rfl⟩ := next_eq_ok.mp h
  obtain ⟨outcomes', t', hexec', houtcomes, hinv⟩ :=
    execute_spec crypto hs.invariant (.ofBlock b) rfl
  rw [hexec, Except.ok.injEq, Prod.mk.injEq] at hexec'
  obtain ⟨rfl, rfl⟩ := hexec'
  obtain ⟨-, hpos, hid⟩ := validateBlock_eq_ok.mp hf.valid
  exact ⟨hinv, (unhashed_valid hs hf houtcomes).withAppHash hash, ⟨hash, hhash, rfl⟩,
    fun h => absurd h (by omega), fun _ => hid, BlockTime.le_trans hs.time_le hf.time⟩

end

/-- Two heads with the same record, and the same rows in whatever order. -/
def Head.Same (s s' : Head) : Prop := s.record = s'.record ∧ s.tables.Same s'.tables

/-- The next head does not depend on the order of the rows. -/
theorem next_same (hs : s.Sound o p) (h : s.Same s') {u u' : Head} (hu : s.next o b = .ok u)
    (hu' : s'.next o b = .ok u') : u.Same u' := by
  obtain ⟨outcomes, t, hexec, -, hinv⟩ :=
    execute_spec crypto hs.invariant (.ofBlock b) rfl
  have hagrees := execute_same h.2 crypto o.ledger (.ofBlock b)
  rw [hexec] at hagrees
  obtain ⟨⟨outcomes', t'⟩, hexec', heq, hsame⟩ := hagrees.ok_left
  cases heq
  rw [Head.next, hexec, ok_bind] at hu
  rw [Head.next, hexec', ok_bind, ← h.1] at hu'
  dsimp only at hu hu'
  rw [stateHash_same hinv hsame] at hu
  obtain ⟨hash, hhash, hpure⟩ := bind_eq_ok.mp hu
  rw [hhash, ok_bind, pure_eq_ok] at hu'
  rw [pure_eq_ok] at hpure
  rw [← hpure, ← hu']
  exact ⟨rfl, hsame⟩

end Next

/-! ## Staging -/

/-- The staged block of a handle is the next head of some head, whose record is its base. -/
structure Pending.Computed {crypto : Crypto} (o : Origin crypto) (pending : Pending) (s : Head)
    (p b : Block) (s' : Head) : Prop where
  sound : s.Sound o p
  follows : Follows p b
  next : s.next o b = .ok s'
  base : pending.base = encode s.record
  record : pending.record = s'.record

/-- A handle of the store, possibly with a block staged on an earlier head. -/
structure Handle.Sound {crypto : Crypto} (o : Origin crypto) (h : Handle) : Prop where
  ledger : h.ledgerId = o.ledger
  staged : ∀ pending, h.staged = some pending → ∃ s p b s', pending.Computed o s p b s'

section Stage

variable {crypto : Crypto} {o : Origin crypto} {s : Head} {p b : Block} {d : Database} {h : Handle}

theorem stagedReceipt_eq_ok {r : Record} {ledger : LedgerId} {x : StagedBlock} :
    stagedReceipt r ledger = .ok x ↔ ∃ y, publicReceipt r ledger = .ok y ∧
      ⟨y.height, y.blockId, y.appHash, y.outcomes⟩ = x := by
  simp only [stagedReceipt, ok_iff]

theorem Head.Sound.exists_stagedReceipt (hs : s.Sound o p) :
    ∃ x, stagedReceipt s.record o.ledger = .ok x := by
  obtain ⟨y, hy, -⟩ := hs.exists_receipt
  exact ⟨_, stagedReceipt_eq_ok.mpr ⟨y, hy, rfl⟩⟩

/-- **The execution in memory** has the outcomes of an execution on the tables, and comes to the
same rows. -/
theorem executeInMemory_eq_ok {ledger : LedgerId} {supply : ℕ} {t t' : Tables} {w : BlockWire}
    {outcomes : List OutcomeWire} (hi : Invariant ledger supply t)
    (h : execute crypto t ledger w = .ok (outcomes, t')) :
    ∃ memory, executeInMemory crypto t ledger w = .ok (outcomes, memory) ∧ t'.Same memory := by
  obtain ⟨copy, hcopy, hsame⟩ := memoryCopy_spec hi
  have hagrees := execute_same hsame crypto ledger w
  rw [h] at hagrees
  obtain ⟨⟨outcomes', memory⟩, hexec, heq, hsame'⟩ := hagrees.ok_left
  cases heq
  exact ⟨memory, by rw [executeInMemory, capture_eq_ok hi, ok_bind, hcopy, ok_bind, hexec], hsame'⟩

theorem stageNext_eq_ok (hs : s.Sound o p) (hf : Follows p b) {s' : Head}
    (hnext : s.next o b = .ok s') {x : StagedBlock}
    (hx : stagedReceipt s'.record o.ledger = .ok x) :
    stageNext crypto s.tables o.ledger o.genesis s.record (.ofBlock b) =
      .ok (x, ⟨encode s.record, s'.record⟩) := by
  have hsound := next_sound hs hf hnext
  obtain ⟨outcomes, t, hash, hexec, hhash, rfl⟩ := next_eq_ok.mp hnext
  obtain ⟨memory, hmemory, hsame⟩ := executeInMemory_eq_ok hs.invariant hexec
  rw [stageNext, hmemory, ok_bind]
  dsimp only at hx ⊢
  rw [← stateHash_same hsound.invariant hsame, hhash, ok_bind, hx, ok_bind,
    hs.record.recordBytes_eq_ok, ok_bind, pure_ok]

/-- **Staging a block that follows the latest one succeeds**, with the next head. -/
theorem stage_of_follows (hs : s.Sound o p) (hd : s.Stored o d) (hl : h.ledgerId = o.ledger)
    (hnone : h.staged = none) (hf : Follows p b) :
    ∃ s' x, s.next o b = .ok s' ∧ stagedReceipt s'.record o.ledger = .ok x ∧
      stage crypto d h b = .ok (x, { h with staged := some ⟨encode s.record, s'.record⟩ }) := by
  obtain ⟨s', hnext⟩ := exists_next hs hf
  obtain ⟨x, hx⟩ := (next_sound hs hf hnext).exists_stagedReceipt
  refine ⟨s', x, hnext, hx, ?_⟩
  have hheight := hs.record.sized.height_le
  unfold maxUnits at hheight
  have hne : ¬(BlockWire.ofBlock p).height = b.height := by
    rw [hf.height]
    exact Nat.ne_of_lt (Nat.lt_succ_self p.height)
  have hguard : ¬checkedAdd (BlockWire.ofBlock p).height 1 ≠ some b.height := by
    rw [not_not, hf.height]
    exact checkedAdd_of_lt (show p.height + 1 < 2 ^ 64 by omega)
  have hguard' : ¬(¬p.time ≤ b.time ∨ (BlockWire.ofBlock p).id = b.blockId.toBytes) := by
    rw [not_or, not_not]
    exact ⟨hf.time, fun heq => hf.id_ne (FixedBytes.toBytes_injective heq)⟩
  rw [stage, hf.valid, ok_bind, hnone]
  dsimp only
  rw [stageFresh, hl, hs.load hd, ok_bind]
  dsimp only
  rw [hs.record.block, orFail_some, ok_bind, if_neg hne, refuse_of_not hguard, ok_bind,
    show (BlockWire.ofBlock p).time = some p.time from rfl, orFail_some, ok_bind,
    refuse_of_not hguard', ok_bind, hd.tables, stageNext_eq_ok hs hf hnext hx, ok_bind, pure_ok]

/-- **What a successful `stage` did**: it returned the staged block again, or the latest committed
block again, or it staged the next head. -/
theorem stage_eq_ok (hs : s.Sound o p) (hd : s.Stored o d) (hl : h.ledgerId = o.ledger)
    {x : StagedBlock} {h' : Handle} (hstage : stage crypto d h b = .ok (x, h')) :
    validateBlock b = .ok () ∧
      ((∃ pending, h.staged = some pending ∧ pending.record.block = some (.ofBlock b) ∧
          stagedReceipt pending.record o.ledger = .ok x ∧ h' = h) ∨
        (h.staged = none ∧ b = p ∧ stagedReceipt s.record o.ledger = .ok x ∧ h' = h) ∨
        (h.staged = none ∧ Follows p b ∧ ∃ s', s.next o b = .ok s' ∧
          stagedReceipt s'.record o.ledger = .ok x ∧
          h' = { h with staged := some ⟨encode s.record, s'.record⟩ })) := by
  have hwhole := hstage
  simp only [stage, bind_eq_ok] at hstage
  obtain ⟨⟨⟩, hvalid, hstage⟩ := hstage
  refine ⟨hvalid, ?_⟩
  cases hstaged : h.staged with
  | some pending =>
    rw [hstaged] at hstage
    simp only [restage, ok_iff, not_not, Prod.mk.injEq, hl] at hstage
    obtain ⟨-, hblock, y, hy, rfl, rfl⟩ := hstage
    exact Or.inl ⟨pending, rfl, hblock, hy, rfl⟩
  | none =>
    rw [hstaged] at hstage
    simp only [stageFresh, hl, hs.load hd, ok_bind, hs.record.block, orFail_some] at hstage
    split at hstage
    · simp only [ok_iff, not_not, Prod.mk.injEq] at hstage
      obtain ⟨-, hblock, y, hy, rfl, rfl⟩ := hstage
      exact Or.inr (Or.inl ⟨rfl, (BlockWire.ofBlock_injective hblock).symm, hy, rfl⟩)
    · simp only [ok_iff, not_not, not_or] at hstage
      obtain ⟨-, hheight, time, htime, -, ⟨hle, hid⟩, -⟩ := hstage
      cases htime
      have hf : Follows p b :=
        ⟨hvalid, (checkedAdd_eq_some.mp hheight).2.symm, hle, fun heq => hid (by rw [← heq]; rfl)⟩
      obtain ⟨s', y, hnext, hy, hok⟩ := stage_of_follows hs hd hl hstaged hf
      rw [hwhole, Except.ok.injEq, Prod.mk.injEq] at hok
      obtain ⟨rfl, rfl⟩ := hok
      exact Or.inr (Or.inr ⟨rfl, hf, s', hnext, hy, rfl⟩)

/-- Staging keeps the handle sound. -/
theorem stage_sound (hs : s.Sound o p) (hd : s.Stored o d) (hh : h.Sound o) {x : StagedBlock}
    {h' : Handle} (hstage : stage crypto d h b = .ok (x, h')) : h'.Sound o := by
  obtain ⟨-, ⟨-, -, -, -, rfl⟩ | ⟨-, -, -, rfl⟩ | ⟨-, hf, s', hnext, -, rfl⟩⟩ :=
    stage_eq_ok hs hd hh.ledger hstage
  · exact hh
  · exact hh
  · refine ⟨hh.ledger, fun pending hpending => ?_⟩
    cases hpending
    exact ⟨s, p, b, s', hs, hf, hnext, rfl, rfl⟩

end Stage

theorem discardStaged_sound {crypto : Crypto} {o : Origin crypto} {h : Handle} (hh : h.Sound o) :
    (discardStaged h).Sound o :=
  ⟨hh.ledger, fun _ hpending => by cases hpending⟩

/-! ## Committing -/

/-- The commands of a staged block. -/
def Pending.commands (pending : Pending) : List Bytes :=
  (pending.record.block.map (·.commands)).getD []

/-- The block that a commit with the receipt `x` persisted, from the databases before and after it
and the staged block. A commit that returned the receipt of the latest block again left the database
as it was, and persisted none. -/
def committedBlock (d d' : Database) (staged : Option Pending) (x : BlockReceipt) :
    Option (Block × BlockReceipt) :=
  if d' = d then none
  else staged.map fun pending => (⟨x.height, x.blockId, x.time, pending.commands⟩, x)

section Commit

variable {crypto : Crypto} {o : Origin crypto} {s s' : Head} {p b : Block} {d : Database}
  {h : Handle}

/-- The database after a commit. -/
theorem setRecord_eq_ok (hs : s'.Sound o b) (hd : s.Stored o d) :
    ∃ d', setRecord { d with tables := s'.tables } (encode s'.record) = .ok d' ∧
      s'.Stored o d' := by
  refine ⟨{ d with tables := s'.tables, checkpoint := some ⟨o.genesis, encode s'.record⟩ }, ?_,
    rfl, rfl, hd.applicationId, hd.userVersion⟩
  have hlen := hs.record.length_encode
  have hpos := hs.record.length_encode_pos
  have hgenesis := o.length_pos
  have hgenesis' := o.length_le
  unfold maxRecordBytes at hlen
  simp only [setRecord, hd.checkpoint, orFail_some, ok_bind, checkpointRow]
  rw [refuse_of_not (by omega), ok_bind, pure_ok, ok_bind, pure_ok]

/-- The conditions of a commit of the staged block, and its result. -/
theorem commitNext_eq_ok {blockId : FixedBytes 32} {genesis : Bytes} {current : Record}
    {x : BlockReceipt} {d' : Database} {h' : Handle} :
    commitNext crypto d h blockId genesis current = .ok (x, d', h') ↔
      ∃ pending, h.staged = some pending ∧ ∃ block, pending.record.block = some block ∧
        block.id = blockId.toBytes ∧ recordBytes current = .ok pending.base ∧
        ∃ t, execute crypto d.tables h.ledgerId block = .ok (pending.record.outcomes, t) ∧
        ∃ hash, stateHash crypto t genesis pending.record = .ok hash ∧
          hash.toBytes = pending.record.appHash ∧
          publicReceipt pending.record h.ledgerId = .ok x ∧
        ∃ bytes, recordBytes pending.record = .ok bytes ∧
          setRecord { d with tables := t } bytes = .ok d' ∧ h' = discardStaged h := by
  simp only [commitNext, ok_iff, not_not, Prod.mk.injEq, Prod.exists, exists_const]
  constructor
  · rintro ⟨pending, hstaged, block, hblock, hid, base, hbase, rfl, outcomes, t, hexec, rfl, hash,
      hhash, happ, y, hy, bytes, hbytes, d₁, hset, rfl, rfl, rfl⟩
    exact ⟨pending, hstaged, block, hblock, hid, hbase, t, hexec, hash, hhash, happ, hy, bytes,
      hbytes, hset, rfl⟩
  · rintro ⟨pending, hstaged, block, hblock, hid, hbase, t, hexec, hash, hhash, happ, hx, bytes,
      hbytes, hset, rfl⟩
    exact ⟨pending, hstaged, block, hblock, hid, _, hbase, rfl, _, t, hexec, rfl, hash, hhash, happ,
      x, hx, bytes, hbytes, d', hset, rfl, rfl, rfl⟩

section

variable (hs : s.Sound o p) (hd : s.Stored o d) (hl : h.ledgerId = o.ledger)

include hs hd hl

/-- The two kinds of commit: of the latest block again, or of the staged block. -/
theorem commit_eq (id : FixedBytes 32) : commit crypto d h id =
      if 0 < p.height ∧ p.blockId = id then recommit d h s.record
      else commitNext crypto d h id o.genesis s.record := by
  rw [commit, hl, hs.load hd, ok_bind]
  dsimp only
  rw [hs.record.block, orFail_some, ok_bind]
  simp only [BlockWire.ofBlock, gt_iff_lt, FixedBytes.toBytes_inj]

/-- **A commit of the staged block succeeds**, if the durable head is the one it was staged on. -/
theorem commit_of_next (hf : Follows p b) (hnext : s.next o b = .ok s')
    (hstaged : h.staged = some ⟨encode s.record, s'.record⟩) :
    ∃ x d', commit crypto d h b.blockId = .ok (x, d', discardStaged h) ∧
      publicReceipt s'.record o.ledger = .ok x ∧ s'.Stored o d' := by
  have hsound := next_sound hs hf hnext
  obtain ⟨x, hx, -⟩ := hsound.exists_receipt
  obtain ⟨d', hset, hd'⟩ := setRecord_eq_ok hsound hd
  obtain ⟨hash, hhash, happ⟩ := hsound.hash
  refine ⟨x, d', ?_, hx, hd'⟩
  have hexec : execute crypto s.tables o.ledger (.ofBlock b) =
      .ok (s'.record.outcomes, s'.tables) := by
    obtain ⟨_, _, _, hexec, -, rfl⟩ := next_eq_ok.mp hnext
    exact hexec
  rw [commit_eq hs hd hl, if_neg fun hboth => hf.id_ne hboth.2]
  exact commitNext_eq_ok.mpr ⟨_, hstaged, _, hsound.record.block, rfl, hs.record.recordBytes_eq_ok,
    _, by rw [hd.tables, hl]; exact hexec, hash, hhash, happ.symm, by rw [hl]; exact hx, _,
    hsound.record.recordBytes_eq_ok, hset, rfl⟩

/-- A commit of the latest block again succeeds, and changes nothing durable. -/
theorem commit_latest (hpos : 0 < p.height) (hnone : h.staged = none) :
    ∃ x, commit crypto d h p.blockId = .ok (x, d, discardStaged h) ∧
      publicReceipt s.record o.ledger = .ok x := by
  obtain ⟨x, hx, -⟩ := hs.exists_receipt
  refine ⟨x, ?_, hx⟩
  rw [commit_eq hs hd hl, if_pos ⟨hpos, rfl⟩, recommit, hnone, refuse_of_not (by simp), ok_bind, hl,
    hx, ok_bind, pure_ok]

end

/-- Heads with different blocks are stored in different databases. -/
theorem stored_ne {d' : Database} (hs : s.Sound o p) (hs' : s'.Sound o b) (hd : s.Stored o d)
    (hd' : s'.Stored o d') (hf : Follows p b) : d' ≠ d := by
  rintro rfl
  have hcheckpoint := hd.checkpoint
  rw [hd'.checkpoint, Option.some.injEq, Checkpoint.mk.injEq] at hcheckpoint
  have hrecord := hs'.record.encode_inj hs.record hcheckpoint.2
  obtain rfl := hs'.block_unique hs hrecord
  exact absurd hf.height (by omega)

/-- **What a successful `commit` did**: it returned the receipt of the latest block again, or it
stored the next head of the durable one, which is the staged block's. -/
theorem commit_eq_ok (hs : s.Sound o p) (hd : s.Stored o d) (hh : h.Sound o) {id : FixedBytes 32}
    {x : BlockReceipt} {d' : Database} {h' : Handle}
    (hcommit : commit crypto d h id = .ok (x, d', h')) :
    h' = discardStaged h ∧
      ((0 < p.height ∧ p.blockId = id ∧ d' = d ∧ publicReceipt s.record o.ledger = .ok x ∧
          committedBlock d d' h.staged x = none) ∨
        ∃ b s', b.blockId = id ∧ Follows p b ∧ s.next o b = .ok s' ∧
          h.staged = some ⟨encode s.record, s'.record⟩ ∧ s'.Stored o d' ∧
          publicReceipt s'.record o.ledger = .ok x ∧ committedBlock d d' h.staged x =
            some (b, x)) := by
  rw [commit_eq hs hd hh.ledger] at hcommit
  split at hcommit
  · rename_i hlatest
    simp only [recommit, ok_iff, Prod.mk.injEq, hh.ledger] at hcommit
    obtain ⟨-, -, y, hy, rfl, rfl, rfl⟩ := hcommit
    exact ⟨rfl, Or.inl ⟨hlatest.1, hlatest.2, rfl, hy, if_pos rfl⟩⟩
  · obtain ⟨pending, hstaged, block, hblock, hid, hbase, t, hexec, hash, hhash, happ, hx, bytes,
      hbytes, hset, rfl⟩ := commitNext_eq_ok.mp hcommit
    refine ⟨rfl, Or.inr ?_⟩
    obtain ⟨s₁, p₁, b, s₁', hcomputed⟩ := hh.staged pending hstaged
    -- the base is the durable record, so the block was staged on a head with this record
    rw [hs.record.recordBytes_eq_ok, Except.ok.injEq, hcomputed.base] at hbase
    have hrecord : s.record = s₁.record := hs.record.encode_inj hcomputed.sound.record hbase
    obtain rfl : p = p₁ := hs.block_unique hcomputed.sound hrecord
    obtain ⟨outcomes, t₁, hash₁, -, -, rfl⟩ := next_eq_ok.mp hcomputed.next
    obtain ⟨base, record⟩ := pending
    obtain ⟨rfl, rfl⟩ : base = _ ∧ record = _ := ⟨hcomputed.base, hcomputed.record⟩
    dsimp only at hblock hexec hhash happ hx hbytes
    cases hblock
    obtain rfl : hash = hash₁ := FixedBytes.toBytes_injective happ
    rw [hd.tables, hh.ledger] at hexec
    rw [hh.ledger, ← hrecord] at hx
    rw [← hrecord] at hhash hbytes hstaged
    have hnext := next_eq_ok.mpr ⟨outcomes, t, hash, hexec, hhash, rfl⟩
    have hsound := next_sound hs hcomputed.follows hnext
    obtain ⟨d₁, hset₁, hd₁⟩ := setRecord_eq_ok hsound hd
    obtain rfl := ok_unique hsound.record.recordBytes_eq_ok hbytes
    obtain rfl := ok_unique hset₁ hset
    refine ⟨b, _, FixedBytes.toBytes_injective hid, hcomputed.follows, hnext, hstaged, hd₁, hx, ?_⟩
    obtain ⟨y, hy, hheight, hid', htime, -, -⟩ := hsound.exists_receipt
    obtain rfl := ok_unique hx hy
    rw [committedBlock, if_neg (stored_ne hs hsound hd hd₁ hcomputed.follows), hstaged, hheight,
      hid', htime]
    rfl

end Commit

/-! ## Chains -/

/-- The blocks since the head `s₀` of `p₀`, each with its receipt, and the latest head and block. -/
inductive Chain {crypto : Crypto} (o : Origin crypto) (s₀ : Head) (p₀ : Block) :
    List (Block × BlockReceipt) → Head → Block → Prop
  | start : Chain o s₀ p₀ [] s₀ p₀
  | next {log : List (Block × BlockReceipt)} {s s' : Head} {p b : Block} {x : BlockReceipt}
      (h : Chain o s₀ p₀ log s p) (hf : Follows p b) (hnext : s.next o b = .ok s')
      (hx : publicReceipt s'.record o.ledger = .ok x) : Chain o s₀ p₀ (log ++ [(b, x)]) s' b

namespace Chain

variable {crypto : Crypto} {o : Origin crypto} {s₀ s : Head} {p₀ p : Block}
  {log : List (Block × BlockReceipt)}

theorem sound (h : Chain o s₀ p₀ log s p) (hs : s₀.Sound o p₀) : s.Sound o p := by
  induction h with
  | start => exact hs
  | next _ hf hnext _ ih => exact next_sound ih hf hnext

theorem height (h : Chain o s₀ p₀ log s p) : p.height = p₀.height + log.length := by
  induction h with
  | start => rfl
  | next _ hf _ _ ih => rw [hf.height, ih, List.length_append, List.length_singleton, Nat.add_assoc]

/-- The receipts of a chain have consecutive heights. -/
theorem heights (h : Chain o s₀ p₀ log s p) (hs : s₀.Sound o p₀) :
    log.map (fun entry => entry.2.height) = List.range' (p₀.height + 1) log.length := by
  induction h with
  | start => rfl
  | next h hf hnext hx ih =>
    obtain ⟨y, hy, hheight, -⟩ := (next_sound (h.sound hs) hf hnext).exists_receipt
    rw [hx, Except.ok.injEq] at hy
    rw [List.map_append, ih, List.length_append, List.length_singleton, List.range'_concat,
      Nat.one_mul, List.map_singleton, hy, hheight, hf.height, h.height]
    simp only [Nat.add_right_comm]

/-- **Chains with the same blocks have the same receipts**, from heads with the same rows. -/
theorem agree {s₀' s' : Head} {p' : Block} {log' : List (Block × BlockReceipt)}
    (h : Chain o s₀ p₀ log s p) (h' : Chain o s₀' p₀ log' s' p') (hs : s₀.Sound o p₀)
    (hsame : s₀.Same s₀') (hblocks : log.map Prod.fst = log'.map Prod.fst) :
    log = log' ∧ s.Same s' ∧ p = p' := by
  induction h generalizing log' s' p' with
  | start =>
    cases h' with
    | start => exact ⟨rfl, hsame, rfl⟩
    | next => simp at hblocks
  | next h hf hnext hx ih =>
    cases h' with
    | start => simp at hblocks
    | next h' hf' hnext' hx' =>
      simp only [List.map_append, List.map_cons, List.map_nil, List.append_singleton_inj] at hblocks
      obtain ⟨hblocks, rfl⟩ := hblocks
      obtain ⟨rfl, hsame', -⟩ := ih h' hblocks
      have hsame'' := next_same (h.sound hs) hsame' hnext hnext'
      rw [hsame''.1, hx', Except.ok.injEq] at hx
      exact ⟨by rw [hx], hsame'', rfl⟩

end Chain

end Volparossa.Ordered
