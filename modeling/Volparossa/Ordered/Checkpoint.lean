import Volparossa.Ordered.Execution

/-!
# Checkpoints

The checkpoint of a database is its genesis and the record of its latest block. The record of a
valid block fits its bound, decodes to itself, and has a receipt (`Record.Valid`); the state hash is
defined wherever the ledger invariant holds. So a database whose record agrees with its tables
passes the checks of `load` (`Head.Sound.load`), and a created database is one.
-/

namespace Volparossa.Ordered

open Protobuf Protocol Transaction BlockWire FixedBytes

/-! ## Blocks -/

/-- A block within the bounds on its numbers and its commands. -/
structure Block.Sized (b : Block) : Prop where
  height_le : b.height ≤ maxUnits
  seconds_le : b.time.seconds ≤ maxUnits
  nanos_lt : b.time.nanos < 1000000000
  length_le : b.commands.length ≤ maxBlockCommands
  command_le : ∀ c ∈ b.commands, c.length ≤ 4096
  total_le : (b.commands.map (·.length)).sum ≤ maxBlockBytes

theorem validate_eq_ok {t : BlockTime} {u : Unit} :
    t.validate = .ok u ↔ t.seconds ≤ maxUnits ∧ t.nanos < 1000000000 := by
  rw [BlockTime.validate, refuse_eq_ok]
  omega

theorem validateBlock_eq_ok {b : Block} {u : Unit} :
    validateBlock b = .ok u ↔ b.Sized ∧ 0 < b.height ∧ b.blockId ≠ .zero 32 := by
  simp only [validateBlock, ok_iff, validate_eq_ok, not_or, not_exists, not_and, not_lt,
    exists_const]
  constructor
  · rintro ⟨⟨hs, hn⟩, ⟨hpos, hheight, hid⟩, hlen, hcommand, htotal⟩
    exact ⟨⟨hheight, hs, hn, hlen, hcommand, htotal⟩, by omega, hid⟩
  · rintro ⟨h, hpos, hid⟩
    exact ⟨⟨h.seconds_le, h.nanos_lt⟩, ⟨by omega, h.height_le, hid⟩, h.length_le, h.command_le,
      h.total_le⟩

theorem BlockWire.ofBlock_injective : Function.Injective ofBlock := by
  rintro ⟨height, id, time, commands⟩ ⟨height', id', time', commands'⟩ h
  simp only [ofBlock, mk.injEq, toBytes_inj, Option.some.injEq] at h
  obtain ⟨rfl, rfl, rfl, rfl⟩ := h
  rfl

/-- The block of the genesis. -/
def genesisBlock (time : BlockTime) : Block := ⟨0, .zero 32, time, []⟩

variable {time : BlockTime}

theorem genesisBlock_sized (h : time.validate = .ok ()) :
    (genesisBlock time).Sized := by
  obtain ⟨hs, hn⟩ := validate_eq_ok.mp h
  exact ⟨Nat.zero_le _, hs, hn, by simp [genesisBlock], by simp [genesisBlock],
    by simp [genesisBlock]⟩

/-! ## Sizes -/

section Sizes

variable {crypto : Crypto}

theorem length_encode_receiptWire {r : Receipt} (h : r.sequence ≤ maxOperations) :
    (encode (ReceiptWire.ofReceipt r)).length ≤ 107 := by
  unfold maxOperations at h
  have hsequence : r.sequence < 128 ^ (1 + 1) := by omega
  have hstate : stateNumber r.state < 128 := by cases r.state <;> simp [stateNumber]
  exact le_trans (Takes.length_encode_le <| .cons (.bytes (by exact (length_toBytes _).le)) <|
    .cons (.bytes (by exact (length_toBytes _).le)) <| .cons (.uint64_of_lt 1 hsequence) <|
    .cons (.bytes (by exact (length_toBytes _).le)) <| .cons (.uint32 0 hstate) .nil) (by decide)

theorem OutcomeWire.Valid.code_le {b : Bytes} {o : OutcomeWire} (h : o.Valid crypto b) :
    o.code ≤ 10 := by
  rcases h.result with ⟨r, -, hcode, -⟩ | ⟨f, hcode, -⟩
  · omega
  · exact hcode ▸ f.code_le

theorem length_encode_outcome {b : Bytes} {o : OutcomeWire} (h : o.Valid crypto b) :
    (encode o).length ≤ 145 := by
  have hlen : o.hash.length = 32 := by rw [h.hash, length_toBytes]
  have hcode : o.code < 128 := by
    have := h.code_le
    omega
  have hreceipt : ∀ x, o.receipt = some x → (encode x).length ≤ 107 := by
    intro x hx
    rcases h.result with ⟨r, hr, -, hreceipt⟩ | ⟨f, -, hreceipt⟩
    · rw [hreceipt, Option.some.injEq] at hx
      exact hx ▸ length_encode_receiptWire hr
    · rw [hreceipt] at hx
      cases hx
  exact Takes.length_encode_le <| .cons (.bytes hlen.le) <| .cons (.uint32 0 hcode) <|
    .cons (.message hreceipt) .nil

theorem length_encode_time {t : BlockTime} (hs : t.seconds ≤ maxUnits) (hn : t.nanos < 1000000000) :
    (encode t).length ≤ 16 := by
  unfold maxUnits at hs
  exact Takes.length_encode_le <| .cons (.uint64_of_lt 8 (by omega)) <|
    .cons (.uint32 4 (by omega)) .nil

theorem length_encode_block {b : Block} (h : b.Sized) :
    (encode (ofBlock b)).length ≤ 65792 := by
  have hheight := h.height_le
  unfold maxUnits at hheight
  have htime : ∀ x, some b.time = some x → (encode x).length ≤ 16 := by
    rintro x ⟨⟩
    exact length_encode_time h.seconds_le h.nanos_lt
  have hcommand : ∀ c ∈ b.commands, c.length < 128 ^ (1 + 1) := by
    intro c hc
    have := h.command_le c hc
    omega
  have hle : (encode (ofBlock b)).length ≤ _ := Takes.length_encode_le <|
    .cons (.uint64_of_lt 8 (by exact lt_of_le_of_lt hheight (by decide))) <|
    .cons (.bytes (by exact (length_toBytes _).le)) <| .cons (.message (by exact htime)) <|
    .cons (.repeatedBytes 1 (by exact hcommand)) .nil
  have hlen := h.length_le
  have htotal := h.total_le
  unfold maxBlockCommands at hlen
  unfold maxBlockBytes at htotal
  refine hle.trans ?_
  simp only [ofBlock]
  omega

end Sizes

/-! ## Records -/

/-- The record `r` of the block `b`, with an outcome for every command. -/
structure Record.Valid (crypto : Crypto) (r : Record) (b : Block) : Prop where
  block : r.block = some (.ofBlock b)
  sized : b.Sized
  outcomes : List.Forall₂ (OutcomeWire.Valid crypto) b.commands r.outcomes
  previous_length : r.previousHash.length = 32
  app_length : r.appHash.length ≤ 32

variable {crypto : Crypto}

theorem OutcomeWire.Valid.fits {b : Bytes} {o : OutcomeWire} (h : o.Valid crypto b) : Fits o := by
  refine ⟨by have := h.code_le; omega, fun x hx => ?_⟩
  rcases h.result with ⟨r, hr, -, hreceipt⟩ | ⟨f, -, hreceipt⟩
  · obtain rfl := Option.mem_unique hreceipt hx
    unfold maxOperations at hr
    refine ⟨?_, ?_⟩
    · change r.sequence < 2 ^ 64
      omega
    · cases hs : r.state <;> simp [ReceiptWire.ofReceipt, stateNumber, hs]
  · rw [hreceipt] at hx
    cases hx

/-- Every outcome is that of a command. -/
theorem OutcomeWire.exists_valid {commands : List Bytes}
    {outcomes : List OutcomeWire} (h : List.Forall₂ (OutcomeWire.Valid crypto) commands outcomes)
    {o : OutcomeWire} (ho : o ∈ outcomes) : ∃ b ∈ commands, o.Valid crypto b := by
  induction h with
  | nil => cases ho
  | cons hb _ ih =>
    rcases List.mem_cons.mp ho with rfl | ho
    · exact ⟨_, List.mem_cons_self, hb⟩
    · obtain ⟨b, hmem, hb⟩ := ih ho
      exact ⟨b, List.mem_cons_of_mem _ hmem, hb⟩

theorem publicResult_receipt (ledger : LedgerId) (hash : Bytes) (r : Receipt) :
    publicResult ledger ⟨hash, 0, some (.ofReceipt r)⟩ =
      .ok (.ok { r with ledgerId := ledger }) := by
  simp only [publicResult, array, ReceiptWire.ofReceipt, ofBytes_toBytes, orFail_some,
    ok_bind, parseState_stateNumber, pure_ok]

theorem publicResult_failure (ledger : LedgerId) (hash : Bytes) (f : CommandFailure) :
    publicResult ledger ⟨hash, f.code, none⟩ = .ok (.error f) := by
  simp only [publicResult, CommandFailure.number_code, ok_bind, pure_ok]

/-- An outcome can be read back. -/
theorem OutcomeWire.Valid.exists_publicOutcome {b : Bytes} {o : OutcomeWire}
    (h : o.Valid crypto b) (ledger : LedgerId) :
    ∃ x, publicOutcome ledger o = .ok ⟨crypto.sha256 b, x⟩ := by
  have hresult : ∃ x, publicResult ledger o = .ok x := by
    obtain ⟨hash, code, receipt⟩ := o
    rcases h.result with ⟨r, -, hcode, hreceipt⟩ | ⟨f, hcode, hreceipt⟩
    · exact ⟨_, by rw [show code = 0 from hcode, show receipt = _ from hreceipt,
        publicResult_receipt]⟩
    · exact ⟨_, by rw [show code = f.code from hcode, show receipt = none from hreceipt,
        publicResult_failure]⟩
  obtain ⟨x, hx⟩ := hresult
  refine ⟨x, ?_⟩
  rw [publicOutcome, hx, ok_bind, h.hash, array, ofBytes_toBytes, orFail_some, ok_bind,
    pure_ok]

/-- The outcomes can be read back, one for each command. -/
theorem OutcomeWire.exists_publicOutcomes {commands : List Bytes}
    {outcomes : List OutcomeWire} (h : List.Forall₂ (OutcomeWire.Valid crypto) commands outcomes)
    (ledger : LedgerId) : ∃ xs, outcomes.mapM (publicOutcome ledger) = .ok xs ∧
      xs.map (·.commandSha256) = commands.map crypto.sha256 := by
  induction h with
  | nil => exact ⟨[], rfl, rfl⟩
  | cons hb _ ih =>
    obtain ⟨x, hx⟩ := hb.exists_publicOutcome ledger
    obtain ⟨xs, hxs, hhashes⟩ := ih
    exact ⟨_ :: xs, by rw [List.mapM_cons, hx, ok_bind, hxs, ok_bind, pure_ok],
      by simp [hhashes]⟩

namespace Record.Valid

variable {crypto : Crypto} {r : Record} {b : Block} (h : r.Valid crypto b)

include h

/-- **The record of a valid block is within its bound.** -/
theorem length_encode : (encode r).length ≤ maxRecordBytes := by
  have hblock : ∀ x, r.block = some x → (encode x).length ≤ 65792 := by
    intro x hx
    rw [h.block, Option.some.injEq] at hx
    exact hx ▸ length_encode_block h.sized
  have houtcome : ∀ o ∈ r.outcomes, (encode o).length ≤ 145 := by
    intro o ho
    obtain ⟨b, -, hb⟩ := OutcomeWire.exists_valid h.outcomes ho
    exact length_encode_outcome hb
  have hle : (encode r).length ≤ _ := Takes.length_encode_le <|
    .cons (.message hblock 2) <| .cons (.bytes h.previous_length.le) <|
    .cons (.repeatedMessage_of_le 1 houtcome) <| .cons (.bytes h.app_length) .nil
  have hlen := h.outcomes.length_eq
  have hcount := h.sized.length_le
  unfold maxBlockCommands at hcount
  unfold maxRecordBytes
  omega

theorem length_encode_pos : 0 < (encode r).length := by
  have hmem : ⟨1, .len (encode (ofBlock b))⟩ ∈ Message.fields r := by
    simp [Message.fields, FieldSpec.message, message, h.block]
  exact lt_of_lt_of_le (Field.length_encode_pos _) (length_le_encodeFields hmem)

theorem fits : Fits r := by
  refine ⟨fun w hw => ?_, fun o ho => ?_⟩
  · obtain rfl := Option.mem_unique h.block hw
    have hheight := h.sized.height_le
    have hseconds := h.sized.seconds_le
    have hnanos := h.sized.nanos_lt
    unfold maxUnits at hheight hseconds
    refine ⟨show b.height < 2 ^ 64 by omega, fun t ht => ?_⟩
    cases ht
    exact ⟨by omega, by omega⟩
  · obtain ⟨b, -, hb⟩ := OutcomeWire.exists_valid h.outcomes ho
    exact hb.fits

theorem recordBytes_eq_ok : recordBytes r = .ok (encode r) := by
  rw [recordBytes, mapError_eq_ok]
  exact encodeCanonical_eq_ok.mpr ⟨h.length_encode, rfl⟩

theorem decode_eq_ok : decodeCanonical (encode r) maxRecordBytes = .ok r :=
  decodeCanonical_encode h.fits h.length_encode (by decide)

/-- Valid records with the same bytes are equal. -/
theorem encode_inj {r' : Record} {b' : Block} (h' : r'.Valid crypto b')
    (heq : encode r = encode r') :
    r = r' := by
  have hdecode := h.decode_eq_ok
  rw [heq] at hdecode
  exact ok_unique hdecode h'.decode_eq_ok

/-- The receipt of a record can be read back. -/
theorem exists_publicReceipt {hash : FixedBytes 32} (happ : r.appHash = hash.toBytes)
    (ledger : LedgerId) : ∃ outcomes, outcomes.map (·.commandSha256) =
      b.commands.map crypto.sha256 ∧
      publicReceipt r ledger = .ok ⟨b.height, b.blockId, b.time, hash, outcomes⟩ := by
  obtain ⟨outcomes, houtcomes, hhashes⟩ := OutcomeWire.exists_publicOutcomes h.outcomes ledger
  refine ⟨outcomes, hhashes, ?_⟩
  simp only [publicReceipt, h.block, orFail_some, ok_bind, houtcomes, ofBlock, array,
    happ, ofBytes_toBytes, pure_ok]

theorem withAppHash (hash : FixedBytes 32) :
    Record.Valid crypto { r with appHash := hash.toBytes } b :=
  ⟨h.block, h.sized, h.outcomes, h.previous_length, by simp⟩

theorem unhashed : Record.Valid crypto { r with appHash := [] } b :=
  ⟨h.block, h.sized, h.outcomes, h.previous_length, by simp⟩

end Record.Valid

/-! ## The state hash -/

section StateHash

variable {crypto : Crypto} {ledger : LedgerId} {supply : ℕ} {t : Tables} {r : Record} {b : Block}

/-- The state hash is defined under the ledger invariant. -/
theorem exists_stateHash (hi : Invariant ledger supply t) (h : r.Valid crypto b) (genesis : Bytes) :
    ∃ hash, stateHash crypto t genesis r = .ok hash := by
  rw [stateHash, h.unhashed.recordBytes_eq_ok, ok_bind, capture_eq_ok hi, ok_bind, bytes_eq_ok hi,
    ok_bind]
  exact ⟨_, rfl⟩

/-- The state hash does not depend on the order of the rows. -/
theorem stateHash_same (hi : Invariant ledger supply t) {t' : Tables} (h : t.Same t')
    (genesis : Bytes)
    (r : Record) : stateHash crypto t genesis r = stateHash crypto t' genesis r := by
  simp only [stateHash, capture_same hi h]

end StateHash

/-! ## The genesis of a store -/

/-- A genesis that `load` accepts. -/
@[ext] structure Origin (crypto : Crypto) where
  ledger : LedgerId
  genesis : Bytes
  decoded : Genesis
  time : BlockTime
  supply : ℕ
  ledger_ne : ledger ≠ .zero 32
  check : checkGenesis crypto genesis ledger = .ok decoded
  time_eq : decoded.time = some time
  length_pos : 0 < genesis.length
  length_le : genesis.length ≤ 8192

namespace BlockTime

theorem le_iff {a b : BlockTime} :
    a ≤ b ↔ a.seconds < b.seconds ∨ a.seconds = b.seconds ∧ a.nanos ≤ b.nanos := Iff.rfl

protected theorem le_refl (a : BlockTime) : a ≤ a := Or.inr ⟨rfl, le_rfl⟩

protected theorem le_trans {a b c : BlockTime} (h : a ≤ b) (h' : b ≤ c) : a ≤ c := by
  rw [le_iff] at *
  omega

end BlockTime

/-- The accounts of a genesis, in the order of their owners. -/
def sortedAccounts (accounts : List GenesisAccount) : List GenesisAccount :=
  accounts.insertionSort fun a b => a.owner.toBytes ≤ b.owner.toBytes

variable {authority : FixedBytes 32} {accounts : List GenesisAccount}

theorem encodeGenesis_eq_ok {genesis : Bytes}
    (h : encodeGenesis authority accounts time = .ok genesis) :
    time.validate = .ok () ∧ authority ≠ .zero 32 ∧ genesis.length ≤ 8192 ∧
      genesis = encode (⟨1, authority.toBytes, some time,
        (sortedAccounts accounts).map fun a => ⟨a.owner.toBytes, a.units⟩⟩ : Genesis) := by
  simp only [encodeGenesis, ok_iff, encodeCanonical_eq_ok] at h
  obtain ⟨⟨⟩, htime, -, hguard, hlen, rfl⟩ := h
  exact ⟨htime, fun h => hguard (Or.inl h), hlen, rfl⟩

theorem sortedAccounts_perm (accounts : List GenesisAccount) :
    (sortedAccounts accounts).Perm accounts :=
  List.perm_insertionSort _ _

theorem sortedAccounts_pairwise (h : (accounts.map (·.owner)).Nodup) :
    (sortedAccounts accounts).Pairwise fun a b => a.owner.toBytes < b.owner.toBytes := by
  have : Std.Total fun a b : GenesisAccount => a.owner.toBytes ≤ b.owner.toBytes :=
    ⟨fun a b => Std.Total.total a.owner.toBytes b.owner.toBytes⟩
  have : IsTrans GenesisAccount fun a b => a.owner.toBytes ≤ b.owner.toBytes :=
    ⟨fun _ _ _ h h' => trans_of (α := Bytes) (· ≤ ·) h h'⟩
  have hsorted : (sortedAccounts accounts).Pairwise fun a b => a.owner.toBytes ≤ b.owner.toBytes :=
    List.pairwise_insertionSort _ _
  have hnodup :=
    List.pairwise_map.mp (((sortedAccounts_perm accounts).map (·.owner)).nodup_iff.mpr h)
  exact (hsorted.and hnodup).imp fun ⟨hle, hne⟩ =>
    (List.le_iff_lt_or_eq.mp hle).resolve_right fun heq => hne (toBytes_injective heq)

/-- An accepted genesis passes the checks of `load`. -/
theorem checkGenesis_eq_ok {genesis : Bytes}
    (h : encodeGenesis authority accounts time = .ok genesis)
    (ha : Admissible (genesisLedger crypto genesis) accounts) :
    checkGenesis crypto genesis (genesisLedger crypto genesis) =
      .ok ⟨1, authority.toBytes, some time,
        (sortedAccounts accounts).map fun a => ⟨a.owner.toBytes, a.units⟩⟩ := by
  obtain ⟨htime, hauthority, hlen, heq⟩ := encodeGenesis_eq_ok h
  obtain ⟨hseconds, hnanos⟩ := validate_eq_ok.mp htime
  have hperm := sortedAccounts_perm accounts
  have hfits : Fits (⟨1, authority.toBytes, some time,
      (sortedAccounts accounts).map fun a => ⟨a.owner.toBytes, a.units⟩⟩ : Genesis) := by
    refine ⟨by simp, fun t ht => ?_, fun x hx => ?_⟩
    · cases ht
      unfold maxUnits at hseconds
      exact ⟨by omega, by omega⟩
    · obtain ⟨a, hmem, rfl⟩ := List.mem_map.mp hx
      have hle : a.units ≤ totalUnits accounts :=
        List.le_sum_of_mem (List.mem_map_of_mem (hperm.mem_iff.mp hmem))
      have hsupply := ha.supply_le
      unfold maxUnits at hsupply
      exact show a.units < 2 ^ 64 by omega
  have hdecode := decodeCanonical_encode hfits (heq ▸ hlen) (by decide)
  rw [← heq] at hdecode
  have hchain : ((sortedAccounts accounts).map fun a =>
      (⟨a.owner.toBytes, a.units⟩ : InitialAccount)).IsChain fun a b => a.owner < b.owner := by
    refine List.Pairwise.isChain (List.pairwise_map.mpr ?_)
    exact sortedAccounts_pairwise ha.owners
  have hnil : sortedAccounts accounts ≠ [] := fun h => ha.nonempty (h ▸ hperm).nil_eq.symm
  rw [checkGenesis, hdecode]
  simp only [Except.mapError, ok_bind]
  rw [refuse_of_not, ok_bind, orFail_some, ok_bind, htime]
  · rfl
  · have hlength := ha.length_le
    simp only [not_or, not_not]
    refine ⟨trivial, by simp, by simpa using hauthority, by simpa using hnil, ?_, hchain, trivial⟩
    rw [List.length_map, hperm.length_eq]
    omega

/-! ## Heads -/

/-- The state of a chain: its tables, and the record of its latest block. -/
structure Head where
  tables : Tables
  record : Record

section

variable {crypto : Crypto} (o : Origin crypto)

/-- A head whose record is that of `b` and agrees with its tables. -/
structure Head.Sound (s : Head) (b : Block) : Prop where
  invariant : Invariant o.ledger o.supply s.tables
  record : s.record.Valid crypto b
  hash : ∃ hash, stateHash crypto s.tables o.genesis s.record = .ok hash ∧
    s.record.appHash = hash.toBytes
  first : b.height = 0 → b = genesisBlock o.time ∧
    s.record.previousHash = (zero 32).toBytes
  later : 0 < b.height → b.blockId ≠ .zero 32
  time_le : o.time ≤ b.time

/-- The database `d` stores the head `s`. -/
structure Head.Stored (s : Head) (d : Database) : Prop where
  tables : d.tables = s.tables
  checkpoint : d.checkpoint = some ⟨o.genesis, encode s.record⟩
  applicationId : d.applicationId = applicationId .orderedStore
  userVersion : d.userVersion = 1

end

namespace Head.Sound

variable {crypto : Crypto} {o : Origin crypto} {s : Head} {b : Block} (h : s.Sound o b)

include h

theorem checkBlock_eq_ok {receipt : BlockReceipt} (hid : receipt.blockId = b.blockId)
    (htime : receipt.time = b.time) :
    checkBlock o.decoded s.record (.ofBlock b) receipt = .ok () := by
  unfold checkBlock
  split
  · rename_i hzero
    obtain ⟨rfl, hprevious⟩ := h.first hzero
    rw [refuse_of_not]
    simp [ofBlock, genesisBlock, hprevious, o.time_eq]
  · rename_i hpos
    have hpos : 0 < b.height := Nat.pos_of_ne_zero hpos
    have hvalid : validateBlock b = .ok () :=
      validateBlock_eq_ok.mpr ⟨h.record.sized, hpos, h.later hpos⟩
    rw [hid, htime, show (⟨(ofBlock b).height, b.blockId, b.time,
      (ofBlock b).commands⟩ : Block) = b from rfl, hvalid]
    simp only [Except.mapError, ok_bind]
    rw [refuse_of_not]
    simpa [ofBlock, o.time_eq, BlockTime.before] using h.time_le

/-- **A database that stores a sound head passes the checks of `load`.** -/
theorem load {d : Database} (hd : s.Stored o d) :
    Ordered.load crypto d o.ledger = .ok (o.genesis, s.record) := by
  obtain ⟨hash, hstate, happ⟩ := h.hash
  obtain ⟨outcomes, -, hreceipt⟩ := h.record.exists_publicReceipt happ o.ledger
  rw [Ordered.load, hd.checkpoint, orFail_some, ok_bind, o.check, ok_bind, h.record.decode_eq_ok]
  simp only [Except.mapError, ok_bind]
  rw [h.record.block, orFail_some, ok_bind, hreceipt, ok_bind, refuse_of_not, ok_bind,
    h.checkBlock_eq_ok rfl rfl, ok_bind, refuse_of_not, ok_bind, hd.tables, hstate, ok_bind,
    refuse_of_not, ok_bind, pure_ok]
  · simpa using happ.symm
  · rintro ⟨⟨c, out⟩, hmem, hne⟩
    exact hne (List.forall₂_zip h.record.outcomes hmem).hash
  · have := h.record.previous_length
    have hlen := h.record.outcomes.length_eq
    simp [ofBlock, this, hlen]

/-- The receipt of the latest block. -/
theorem info {d : Database} (hd : s.Stored o d) (staged : Option Pending) :
    Ordered.info crypto d ⟨o.ledger, staged⟩ = publicReceipt s.record o.ledger := by
  rw [Ordered.info, h.load hd, ok_bind]

theorem exists_receipt : ∃ x, publicReceipt s.record o.ledger = .ok x ∧ x.height = b.height ∧
    x.blockId = b.blockId ∧ x.time = b.time ∧ x.appHash.toBytes = s.record.appHash ∧
    x.outcomes.map (·.commandSha256) = b.commands.map crypto.sha256 := by
  obtain ⟨hash, -, happ⟩ := h.hash
  obtain ⟨outcomes, hhashes, hreceipt⟩ := h.record.exists_publicReceipt happ o.ledger
  exact ⟨_, hreceipt, rfl, rfl, rfl, happ.symm, hhashes⟩

/-- The store can be reopened. -/
theorem openStore {d : Database} (hd : s.Stored o d) :
    Ordered.openStore crypto d = .ok ⟨o.ledger, none⟩ := by
  obtain ⟨x, hx, -⟩ := h.exists_receipt
  have hmode : openMode d .orderedStore = .ok o.ledger := by
    have hlookup : s.tables.metaRows.lookup 1 = some ⟨1, o.ledger.toBytes, testUnit, o.supply⟩ :=
      (Table.lookup_eq_some _ _ _).mpr ⟨by simp [h.invariant.metaRow], rfl⟩
    rw [openMode, refuse_of_not (by simp [hd.applicationId, hd.userVersion]), ok_bind, hd.tables,
      hlookup, orFail_some, ok_bind, refuse_of_not (by simp [o.ledger_ne]), ok_bind,
      h.invariant.validateAccounting, ok_bind, ofBytes_toBytes, orFail_some]
  rw [Ordered.openStore, hmode, ok_bind, h.info hd, hx, ok_bind, pure_ok]

end Head.Sound

/-! ## Creation -/

/-- The result of `create`: the database stores the head `s` of the genesis block. -/
structure Created {crypto : Crypto} (authority : FixedBytes 32) (accounts : List GenesisAccount)
    (time : BlockTime) (o : Origin crypto) (s : Head) (d : Database) (h : Handle) : Prop where
  handle : h = ⟨o.ledger, none⟩
  genesis : encodeGenesis authority accounts time = .ok o.genesis
  ledger : o.ledger = genesisLedger crypto o.genesis
  supply : o.supply = totalUnits accounts
  admissible : Admissible o.ledger accounts
  tables : s.tables.IsGenesis o.ledger accounts
  record : ∃ hash, stateHash crypto s.tables o.genesis (genesisRecord time) = .ok hash ∧
    s.record = { genesisRecord time with appHash := hash.toBytes }
  sound : s.Sound o (genesisBlock time)
  stored : s.Stored o d

/-- **What a created store is.** -/
theorem create_eq_ok {d : Database} {h : Handle}
    (hc : create crypto authority accounts time = .ok (d, h)) :
    ∃ (o : Origin crypto) (s : Head), Created authority accounts time o s d h := by
  simp only [create, ok_iff, Prod.mk.injEq] at hc
  obtain ⟨genesis, hgenesis, d', hmode, rfl, rfl⟩ := hc
  obtain ⟨hadm, htables, hinit, hid, hversion⟩ := createMode_eq_ok hmode
  simp only [initCheckpoint, checkpointRow, ok_iff] at hinit
  obtain ⟨hash, hhash, record, hrecord, checkpoint, ⟨-, hrow, rfl⟩, hcheckpoint⟩ := hinit
  obtain ⟨htime, -, hlen, -⟩ := encodeGenesis_eq_ok hgenesis
  have hvalid : (genesisRecord time).Valid crypto (genesisBlock time) :=
    ⟨rfl, genesisBlock_sized htime, .nil, by simp [genesisRecord], by simp [genesisRecord]⟩
  have hencode := (hvalid.withAppHash hash).recordBytes_eq_ok
  rw [hrecord, Except.ok.injEq] at hencode
  have hpos : 0 < genesis.length := by omega
  refine ⟨⟨genesisLedger crypto genesis, genesis, _, time, totalUnits accounts, hadm.ledger_ne,
    checkGenesis_eq_ok hgenesis hadm, rfl, hpos, hlen⟩,
    ⟨d'.tables, { genesisRecord time with appHash := hash.toBytes }⟩, rfl, hgenesis, rfl, rfl, hadm,
    htables, ⟨hash, hhash, rfl⟩,
    ⟨htables.invariant hadm, hvalid.withAppHash hash, ⟨hash, hhash, rfl⟩, fun _ => ⟨rfl, rfl⟩, ?_,
      time.le_refl⟩, ⟨rfl, ?_, hid, hversion⟩⟩
  · simp [genesisBlock]
  · rw [← hcheckpoint, hencode]

variable {accounts' : List GenesisAccount}

/-- The tables of two permuted genesis lists have the same rows. -/
theorem isGenesis_same {ledger : LedgerId} {t t' : Tables}
    (h : t.IsGenesis ledger accounts) (h' : t'.IsGenesis ledger accounts')
    (hperm : accounts.Perm accounts') : t.Same t' := by
  have htotal : totalUnits accounts = totalUnits accounts' := (hperm.map _).sum_eq
  refine ⟨?_, ?_, ?_, ?_⟩
  · rw [Table.Same, h.metaRow, h'.metaRow, htotal]
  · rw [Table.Same, h.accounts, h'.accounts]
    exact hperm.map _
  · rw [Table.Same, h.reservations, h'.reservations]
  · rw [Table.Same, h.operations, h'.operations]

theorem sortedAccounts_eq (h : (accounts.map (·.owner)).Nodup) (hperm : accounts.Perm accounts') :
    sortedAccounts accounts = sortedAccounts accounts' := by
  have h' : (accounts'.map (·.owner)).Nodup := (hperm.map _).nodup_iff.mp h
  refine List.Perm.eq_of_pairwise ?_ (sortedAccounts_pairwise h) (sortedAccounts_pairwise h')
    (((sortedAccounts_perm accounts).trans hperm).trans (sortedAccounts_perm accounts').symm)
  intro a b _ _ hab hba
  exact absurd (trans_of (α := Bytes) (· < ·) hab hba) (irrefl_of (α := Bytes) (· < ·) _)

/-- **Stores created from permuted genesis lists** have the same genesis, and heads with the same
rows. -/
theorem Created.agree {o o' : Origin crypto}
    {s s' : Head} {d d' : Database} {h h' : Handle} (hc : Created authority accounts time o s d h)
    (hc' : Created authority accounts' time o' s' d' h') (hperm : accounts.Perm accounts') :
    o = o' ∧ s.record = s'.record ∧ s.tables.Same s'.tables := by
  have hgenesis : o.genesis = o'.genesis := by
    obtain ⟨-, -, -, heq⟩ := encodeGenesis_eq_ok hc.genesis
    obtain ⟨-, -, -, heq'⟩ := encodeGenesis_eq_ok hc'.genesis
    rw [heq, heq', sortedAccounts_eq hc.admissible.owners hperm]
  have hledger : o.ledger = o'.ledger := by rw [hc.ledger, hc'.ledger, hgenesis]
  have hdecoded : o.decoded = o'.decoded := by
    have hcheck := o.check
    rw [hgenesis, hledger, o'.check, Except.ok.injEq] at hcheck
    exact hcheck.symm
  have htime : o.time = o'.time := by
    have := o.time_eq
    rw [hdecoded, o'.time_eq, Option.some.injEq] at this
    exact this.symm
  have hsupply : o.supply = o'.supply := by
    rw [hc.supply, hc'.supply]
    exact (hperm.map _).sum_eq
  obtain rfl := Origin.ext hledger hgenesis hdecoded htime hsupply
  have hsame := isGenesis_same hc.tables hc'.tables hperm
  obtain ⟨hash, hhash, hrecord⟩ := hc.record
  obtain ⟨hash', hhash', hrecord'⟩ := hc'.record
  rw [stateHash_same hc.sound.invariant hsame, hhash', Except.ok.injEq] at hhash
  exact ⟨rfl, by rw [hrecord, hrecord', hhash], hsame⟩

end Volparossa.Ordered
