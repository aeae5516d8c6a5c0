import Volparossa.Ordered.Store
import Volparossa.Transaction.Step

/-!
# Executing a block

From tables with the ledger invariant every block executes, whatever the bytes of its commands: each
command gets a receipt or one of the rejection codes, and the invariant holds after it
(`execute_spec`). The outcome does not depend on the order of the rows (`execute_same`).
-/

namespace Volparossa.Ordered

open Protobuf Protocol Transaction

/-! ## Outcomes -/

/-- What an outcome of the command `b` is: a receipt, or the code of a failure. -/
structure OutcomeWire.Valid (crypto : Crypto) (b : Bytes) (o : OutcomeWire) : Prop where
  hash : o.hash = (crypto.sha256 b).toBytes
  result : (∃ r : Receipt, r.sequence ≤ maxOperations ∧ o.code = 0 ∧
    o.receipt = some (.ofReceipt r)) ∨ ∃ f : CommandFailure, o.code = f.code ∧ o.receipt = none

theorem CommandFailure.exists_classify {e : Error} (h : e.IsRejection) :
    ∃ f, CommandFailure.classify e = .ok f := by
  simp only [Error.IsRejection, List.mem_cons, List.not_mem_nil, or_false] at h
  rcases h with rfl | rfl | rfl | rfl | rfl | rfl | rfl | rfl | rfl | rfl <;> exact ⟨_, rfl⟩

theorem CommandFailure.code_le (f : CommandFailure) : f.code ≤ 10 := by
  cases f <;> simp [code]

section Execute

variable {crypto : Crypto} {ledger : LedgerId} {supply : ℕ} {t : Tables}

/-- The sequence number of a receipt is within the operation budget. -/
theorem sequence_le_of_applyCommand {mode : Mode} {b : Bytes} {now : ℕ} {r : Receipt} {t' : Tables}
    (hi : Invariant ledger supply t) (h : applyCommand crypto t ledger mode b now = .ok (r, t')) :
    r.sequence ≤ maxOperations := by
  obtain ⟨v, ⟨hrep, -⟩ | ⟨hacc, hinv⟩⟩ := applyCommand_eq_ok hi h
  · obtain ⟨o, ho, -, hr⟩ := hrep.row
    have hmem := Table.mem_of_lookup ho
    obtain ⟨r', hr', -, -, -, hsequence, -⟩ := hi.exists_rowReceipt hmem v.command.operationId
    rw [ok_unique hr hr', hsequence]
    exact (hi.sequence_le hmem).2.trans hi.operations_le
  · have hle := hinv.operations_le
    rw [hacc.operations, List.length_append, List.length_singleton] at hle
    rw [hacc.receipt]
    exact hle

/-- One command of a block has an outcome, and preserves the invariant. -/
theorem executeCommand_spec (crypto : Crypto) (hi : Invariant ledger supply t) (now : ℕ)
    (outcomes : List OutcomeWire) (b : Bytes) :
    ∃ o t', executeCommand crypto ledger now (outcomes, t) b = .ok (outcomes ++ [o], t') ∧
      o.Valid crypto b ∧ Invariant ledger supply t' := by
  unfold executeCommand
  cases h : applyCommand crypto t ledger .orderedStore b now with
  | ok x =>
    obtain ⟨r, t'⟩ := x
    exact ⟨_, t', rfl, ⟨rfl, Or.inl ⟨r, sequence_le_of_applyCommand hi h, rfl, rfl⟩⟩,
      applyCommand_invariant hi h⟩
  | error e =>
    obtain ⟨f, hf⟩ := CommandFailure.exists_classify (applyCommand_eq_error hi h)
    refine ⟨⟨(crypto.sha256 b).toBytes, f.code, none⟩, t, ?_, ⟨rfl, Or.inr ⟨f, rfl, rfl⟩⟩, hi⟩
    dsimp only
    rw [hf]
    rfl

/-- **Every block executes.** -/
theorem execute_spec (crypto : Crypto) (hi : Invariant ledger supply t) (block : BlockWire)
    {time : BlockTime} (htime : block.time = some time) :
    ∃ outcomes t', execute crypto t ledger block = .ok (outcomes, t') ∧
      List.Forall₂ (OutcomeWire.Valid crypto) block.commands outcomes ∧
      Invariant ledger supply t' := by
  obtain ⟨⟨outcomes, t'⟩, h, hvalid, hinv⟩ := foldlM_exists
    (f := executeCommand crypto ledger time.seconds) (l := block.commands) (s := ([], t))
    (fun past s => List.Forall₂ (OutcomeWire.Valid crypto) past s.1 ∧ Invariant ledger supply s.2)
    ⟨.nil, hi⟩ (by
      rintro past b rest ⟨outcomes, t₁⟩ - ⟨hvalid, hinv⟩
      obtain ⟨o, t₂, hok, ho, hinv'⟩ := executeCommand_spec crypto hinv time.seconds outcomes b
      exact ⟨_, hok, List.rel_append hvalid (.cons ho .nil), hinv'⟩)
  exact ⟨outcomes, t', by rw [execute, htime, orFail_some, ok_bind, h], hvalid, hinv⟩

/-- **The outcomes do not depend on the order of the rows.** -/
theorem execute_same {t' : Tables} (h : t.Same t') (crypto : Crypto) (ledger : LedgerId)
    (block : BlockWire) :
    Agrees SameResult (execute crypto t ledger block) (execute crypto t' ledger block) := by
  unfold execute
  refine .bind_eq rfl fun time => ?_
  refine Agrees.foldlM ?_ block.commands ⟨rfl, h⟩
  rintro ⟨outcomes, u⟩ ⟨outcomes', u'⟩ b ⟨heq, hu⟩
  cases heq
  have happly := applyCommand_same hu crypto ledger .orderedStore b time.seconds
  unfold executeCommand
  dsimp only
  cases hx : applyCommand crypto u ledger .orderedStore b time.seconds with
  | ok x =>
    rw [hx] at happly
    obtain ⟨y, hy, hr, hs⟩ := happly.ok_left
    rw [hy]
    exact ⟨by rw [hr], hs⟩
  | error e =>
    cases hy : applyCommand crypto u' ledger .orderedStore b time.seconds with
    | ok y => simp [hx, hy, Agrees] at happly
    | error e' =>
      simp only [hx, hy, Agrees] at happly
      subst happly
      exact .bind_eq rfl fun f => ⟨rfl, hu⟩

end Execute

end Volparossa.Ordered
