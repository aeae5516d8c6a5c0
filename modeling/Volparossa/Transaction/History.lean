import Volparossa.Transaction.Conservation

/-!
# Exactly-once acceptance

The history of a local store: the calls that were accepted, in order, with what they said and the
receipt they got. The operations table is that history and nothing else, and the states of a
reservation are those its accepted commands brought it to, one after another (`History`). So a
command is accepted once, its bytes always get the same receipt back, and other bytes under its
identifier are refused.
-/

namespace Volparossa.Transaction

/-- A call of a store. -/
abbrev Call := Machine.Event Store (Bytes × ℕ) (Except Error Receipt)

/-- An accepted command, and the receipt it got. -/
structure Acceptance where
  signed : Bytes
  verified : Verified
  receipt : Receipt

/-- The acceptance that a call was, if it was one: it returned a receipt and changed the store. -/
def Call.acceptance (crypto : Crypto) (c : Call) : Option Acceptance :=
  match c.output, verifyMode crypto c.input.1 c.before.ledgerId .localStore with
  | .ok r, .ok v => if c.after = c.before then none else some ⟨c.input.1, v, r⟩
  | _, _ => none

/-- The accepted commands of a history, in the order of their acceptance. -/
def acceptances (crypto : Crypto) (past : List Call) : List Acceptance :=
  past.filterMap (Call.acceptance crypto)

theorem acceptances_append_singleton (crypto : Crypto) (past : List Call) (c : Call) :
    acceptances crypto (past ++ [c]) = acceptances crypto past ++ (c.acceptance crypto).toList := by
  rw [acceptances, List.filterMap_append, List.filterMap_cons, List.filterMap_nil]
  cases c.acceptance crypto <;> rfl

namespace Acceptance

/-- The record of an accepted command. -/
def row (crypto : Crypto) (a : Acceptance) : OperationRow :=
  ⟨a.receipt.sequence, a.verified.command.operationId.toBytes, a.verified.command.payer.toBytes,
    a.verified.nonce.toBytes, a.signed, (crypto.sha256 a.signed).toBytes,
    a.receipt.reservationId.toBytes, stateNumber a.receipt.state⟩

/-- The receipt of an accepted command says what its action did. -/
structure Genuine (crypto : Crypto) (ledger : LedgerId) (a : Acceptance) : Prop where
  verified : verifyMode crypto a.signed ledger .localStore = .ok a.verified
  receipt : a.receipt = ⟨ledger, a.verified.command.operationId, crypto.sha256 a.signed,
    a.receipt.sequence, a.receipt.reservationId, a.receipt.state⟩
  action : match a.verified.command.action with
    | .reserve _ _ =>
      a.receipt.reservationId = a.verified.command.operationId ∧ a.receipt.state = .reserved
    | .commit id => a.receipt.reservationId = id ∧ a.receipt.state = .committed
    | .cancel id => a.receipt.reservationId = id ∧ a.receipt.state = .cancelled

theorem Genuine.rowReceipt {crypto : Crypto} {ledger : LedgerId} {a : Acceptance}
    (h : a.Genuine crypto ledger) :
    rowReceipt ledger a.verified.command.operationId (a.row crypto) = .ok a.receipt := by
  rw [h.receipt]
  simp [Transaction.rowReceipt, row]

end Acceptance

/-- The states that a reservation has been in. -/
def lifecycle : Option ReservationRow → List ReservationState
  | none => []
  | some row =>
    if row.state = 1 then [.reserved]
    else if row.state = 2 then [.reserved, .committed]
    else [.reserved, .cancelled]

/-- **What the tables say about the past.** -/
structure History (crypto : Crypto) (ledger : LedgerId) (past : List Acceptance) (t : Tables) :
    Prop where
  rows : t.operations.rows = past.map (Acceptance.row crypto)
  genuine : ∀ a ∈ past, a.Genuine crypto ledger
  states : ∀ id : OperationId, (past.filter fun a => decide (a.receipt.reservationId = id)).map
    (·.receipt.state) = lifecycle (t.reservations.lookup id.toBytes)

/-! ## The step -/

section Step

variable {crypto : Crypto} {ledger : LedgerId} {supply : ℕ}

theorem lifecycle_close {row : ReservationRow} {s : ReservationState} (hs : s ≠ .reserved)
    (hrow : row.state = 1) : lifecycle (some { row with state := stateNumber s }) =
      lifecycle (some row) ++ [s] := by
  cases s <;> simp_all [lifecycle, stateNumber]

/-- An accepted command extends the history. -/
theorem History.extend {past : List Acceptance} {t t' : Tables} {b : Bytes} {now : ℕ} {v : Verified}
    {r : Receipt} (hh : History crypto ledger past t) (hi : Invariant ledger supply t)
    (ha : Accepted crypto ledger .localStore t b now v r t') :
    History crypto ledger (past ++ [⟨b, v, r⟩]) t' := by
  have hsequence : r.sequence = t.operations.rows.length + 1 := by rw [ha.receipt]
  refine ⟨?_, forall_mem_concat hh.genuine ⟨ha.verified, hsequence.symm ▸ ha.receipt, ?_⟩, ?_⟩
  · rw [ha.operations, hh.rows, List.map_append, List.map_singleton]
    simp [operationRow, Acceptance.row, hsequence, hh.rows]
  · have hmoves := ha.moves
    dsimp only
    generalize r.reservationId = rid, r.state = s at hmoves
    cases hmoves with
    | reserve haction _ => exact haction ▸ ⟨rfl, rfl⟩
    | close haction _ _ _ _ =>
      obtain ⟨haction, rfl⟩ | ⟨haction, rfl⟩ := haction <;> exact haction ▸ ⟨rfl, rfl⟩
  · intro id
    have hlast : (([⟨b, v, r⟩] : List Acceptance).filter fun a =>
        decide (a.receipt.reservationId = id)).map (·.receipt.state) =
          if r.reservationId = id then [r.state] else [] := by
      by_cases h : r.reservationId = id <;> simp [h]
    rw [List.filter_append, List.map_append, hh.states id, hlast]
    have hmoves := ha.moves
    have hfresh := hi.lookup_reservations_eq_none ha.fresh.id
    generalize r.reservationId = rid, r.state = s at hmoves
    cases hmoves with
    | reserve haction hinsert =>
      rw [Table.lookup_insert hinsert]
      by_cases hid : v.command.operationId = id
      · subst hid
        simp [hfresh, lifecycle]
      · simp [hid]
    | close haction hrow hstate _ hmodify =>
      have hs : s ≠ .reserved := by
        rcases haction with ⟨-, rfl⟩ | ⟨-, rfl⟩ <;> simp
      rw [hmodify]
      by_cases hid : rid = id
      · subst hid
        rw [Table.lookup_modify_self hrow, lifecycle_close hs hstate, hrow]
        simp
      · rw [Table.lookup_modify_of_ne (by simpa using Ne.symm hid)]
        simp [hid]

/-- The row of an accepted command. -/
theorem History.lookup {past : List Acceptance} {t : Tables}
    (hh : History crypto ledger past t) {a : Acceptance} (ha : a ∈ past) :
    t.operations.lookup a.verified.command.operationId.toBytes = some (a.row crypto) := by
  refine (t.operations.lookup_eq_some _ _).mpr ⟨?_, rfl⟩
  rw [hh.rows]
  exact List.mem_map_of_mem ha

/-- An acceptance appends to the operations, so it changes the store. -/
theorem withTables_ne {s : Store} {t' : Tables} {b : Bytes} {now : ℕ} {v : Verified} {r : Receipt}
    (ha : Accepted crypto ledger .localStore s.database.tables b now v r t') :
    s.withTables t' ≠ s := by
  intro h
  have hrows : t'.operations.rows = s.database.tables.operations.rows :=
    congrArg (fun s : Store => s.database.tables.operations.rows) h
  rw [ha.operations] at hrows
  simpa using congrArg List.length hrows

/-- One call of a store extends its history. -/
theorem history_step {past : List Call} {s : Store}
    (hs : s.Sound ledger supply)
    (hh : History crypto ledger (acceptances crypto past) s.database.tables) (call : Bytes × ℕ) :
    History crypto ledger (acceptances crypto (past ++ [(Store.machine crypto).event s call]))
      ((Store.machine crypto).next s call).database.tables := by
  obtain ⟨b, now⟩ := call
  have hstep : (Store.machine crypto).step s (b, now) = s.apply crypto b now := rfl
  rw [acceptances_append_singleton, Call.acceptance, Machine.event, Machine.next, hstep,
    Store.apply_eq hs]
  cases h : applyCommand crypto s.database.tables ledger .localStore b now with
  | error e => simpa using hh
  | ok x =>
    obtain ⟨r, t'⟩ := x
    obtain ⟨v, ⟨hrep, rfl⟩ | ⟨hacc, -⟩⟩ := applyCommand_eq_ok hs.invariant h
    · have hsame : s.withTables s.database.tables = s := rfl
      simpa [hs.ledgerId, hrep.verified, hsame] using hh
    · have hext := hh.extend hs.invariant hacc
      simpa [hs.ledgerId, hacc.verified, withTables_ne hacc] using hext

/-- Every receipt that a history returned is that of the acceptance of the same bytes. -/
def Accounted (crypto : Crypto) (past : List Call) : Prop :=
  ∀ c ∈ past, ∀ r, c.output = .ok r →
    ∃ a ∈ acceptances crypto past, a.signed = c.input.1 ∧ a.receipt = r

theorem accounted_step {past : List Call} {s : Store} (hs : s.Sound ledger supply)
    (hh : History crypto ledger (acceptances crypto past) s.database.tables)
    (hp : Accounted crypto past) (call : Bytes × ℕ) :
    Accounted crypto (past ++ [(Store.machine crypto).event s call]) := by
  intro c hc r hr
  rw [acceptances_append_singleton]
  rcases List.mem_append.mp hc with hc | hc
  · obtain ⟨a, ha, hsigned, hreceipt⟩ := hp c hc r hr
    exact ⟨a, List.mem_append_left _ ha, hsigned, hreceipt⟩
  rw [List.mem_singleton] at hc
  subst hc
  obtain ⟨b, now⟩ := call
  have hstep : (Store.machine crypto).step s (b, now) = s.apply crypto b now := rfl
  rw [Machine.event, hstep, Store.apply_eq hs] at hr
  cases h : applyCommand crypto s.database.tables ledger .localStore b now with
  | error e =>
    rw [h] at hr
    cases hr
  | ok x =>
    obtain ⟨r', t'⟩ := x
    rw [h] at hr
    cases hr
    obtain ⟨v, ⟨hrep, rfl⟩ | ⟨hacc, -⟩⟩ := applyCommand_eq_ok hs.invariant h
    · -- a replay: the row it found is that of an acceptance
      obtain ⟨o, ho, hsigned, hrow⟩ := hrep.row
      have hmem := Table.mem_of_lookup ho
      rw [hh.rows, List.mem_map] at hmem
      obtain ⟨a, ha, rfl⟩ := hmem
      refine ⟨a, List.mem_append_left _ ha, hsigned, ?_⟩
      have hid : a.verified.command.operationId = v.command.operationId := by
        have hkey := Table.key_of_lookup ho
        exact FixedBytes.toBytes_inj.mp hkey
      rw [← hid, (hh.genuine a ha).rowReceipt, Except.ok.injEq] at hrow
      exact hrow
    · refine ⟨⟨b, v, r⟩, List.mem_append_right _ ?_, rfl, rfl⟩
      rw [Call.acceptance, Machine.event, Machine.next, hstep, Store.apply_eq hs, h]
      simp [hs.ledgerId, hacc.verified, withTables_ne hacc]

end Step

/-! ## Closed reservations -/

/-- A reservation in a terminal state stays as it is. -/
def KeepsClosed (t t' : Tables) : Prop :=
  ∀ id row, t.reservations.lookup id = some row → row.state ≠ 1 → t'.reservations.lookup id =
    some row

theorem keepsClosed_of_moves {t t' : Tables} {c : Command} {id : OperationId} {s : ReservationState}
    (h : Moves t c t' id s) : KeepsClosed t t' := by
  intro k row hrow hclosed
  cases h with
  | reserve haction hinsert =>
    have hfresh := (Table.insert_eq_some.mp hinsert).1
    rw [Table.lookup_insert hinsert, if_neg, hrow]
    rintro rfl
    simp [hrow] at hfresh
  | close haction hrow' hstate hpayer hmodify =>
    have hne : k ≠ id.toBytes := by
      rintro rfl
      rw [hrow] at hrow'
      cases hrow'
      exact hclosed hstate
    rw [hmodify, Table.lookup_modify_of_ne hne, hrow]

namespace Store

section

variable {crypto : Crypto} {ledger : LedgerId} {supply : ℕ} {s : Store}

theorem apply_keepsClosed (hs : s.Sound ledger supply) (b : Bytes) (now : ℕ) :
    KeepsClosed s.database.tables (s.apply crypto b now).2.database.tables := by
  rw [apply_eq hs]
  cases h : applyCommand crypto s.database.tables ledger .localStore b now with
  | error e => exact fun _ _ hrow _ => hrow
  | ok x =>
    obtain ⟨v, ⟨-, hsame⟩ | ⟨hacc, -⟩⟩ := applyCommand_eq_ok hs.invariant h
    · dsimp only
      rw [tables_withTables, hsame]
      exact fun _ _ hrow _ => hrow
    · exact keepsClosed_of_moves hacc.moves

/-- **A terminal state never changes again.** -/
theorem run_keepsClosed (hs : s.Sound ledger supply) (calls : List (Bytes × ℕ)) :
    KeepsClosed s.database.tables ((machine crypto).run s calls).database.tables := by
  apply Machine.run_mono (P := Sound ledger supply)
    (R := fun s s' => KeepsClosed s.database.tables s'.database.tables) _ _ _ _ hs calls
  · exact fun s _ _ hrow _ => hrow
  · exact fun s s' s'' h h' id row hrow hclosed => h' id row (h id row hrow hclosed) hclosed
  · exact fun s call h => apply_sound h call.1 call.2
  · exact fun s call h => apply_keepsClosed h call.1 call.2

end

variable {crypto : Crypto} {ledger : LedgerId} {accounts : List GenesisAccount} {s₀ : Store}

/-- **The tables are the history**, after every run from a genesis. -/
theorem run_history (h : create crypto ledger accounts = .ok s₀) (calls : List (Bytes × ℕ)) :
    ((machine crypto).run s₀ calls).Sound ledger (totalUnits accounts) ∧
      History crypto ledger (acceptances crypto ((machine crypto).events s₀ calls))
        ((machine crypto).run s₀ calls).database.tables ∧
      Accounted crypto ((machine crypto).events s₀ calls) := by
  obtain ⟨hs, hgenesis⟩ := create_eq_ok h
  apply Machine.history_invariant (P := fun past s => s.Sound ledger (totalUnits accounts) ∧
    History crypto ledger (acceptances crypto past) s.database.tables ∧ Accounted crypto past)
  · refine ⟨hs, ⟨by simp [acceptances, hgenesis.operations], by simp [acceptances], fun id => ?_⟩,
      by simp [Accounted]⟩
    simp [acceptances, Table.lookup, hgenesis.reservations, lifecycle]
  · rintro past s call ⟨hs, hh, hp⟩
    exact ⟨apply_sound hs call.1 call.2, history_step hs hh call, accounted_step hs hh hp call⟩

/-- A command under the identifier of an accepted one gets its receipt, or is in conflict with
it. -/
theorem apply_of_acceptance {s : Store} {supply : ℕ} {past : List Acceptance}
    (hs : s.Sound ledger supply) (hh : History crypto ledger past s.database.tables)
    {a : Acceptance} (ha : a ∈ past) {b : Bytes} {v : Verified} (now : ℕ)
    (hv : verifyMode crypto b ledger .localStore = .ok v)
    (hid : v.command.operationId = a.verified.command.operationId)
    (hpayer : v.command.payer.toBytes ∈ s.database.tables.owners) :
    s.apply crypto b now = if a.signed = b then (.ok a.receipt, s) else (.error .conflict, s) := by
  obtain ⟨x, hx⟩ := s.database.tables.accounts.exists_lookup hpayer
  have hr : rowReceipt ledger v.command.operationId (a.row crypto) = .ok a.receipt :=
    hid ▸ (hh.genuine a ha).rowReceipt
  have hsame : (a.row crypto).signed = a.signed := rfl
  rw [apply_eq hs, applyCommand_of_lookup hv hx (hid ▸ hh.lookup ha) hr, hsame]
  by_cases hsigned : a.signed = b
  · rw [if_pos hsigned, if_pos hsigned]
    rfl
  · rw [if_neg hsigned, if_neg hsigned]

/-- **Exactly-once acceptance.** In every run of a store, every receipt returned is that of the
acceptance of the same bytes, an operation identifier and a pair of a signer and a nonce are
accepted at most once, and the accepted operations are numbered from one in the order of their
acceptance. Each receipt says what the action of its command did, and the states that the accepted
commands brought a reservation to are none, `reserved`, or `reserved` and one terminal state, which
is the one it has and keeps in every later state. The bytes of an accepted command get its receipt
back whenever they are submitted again, and other bytes that verify under its identifier, of an
enrolled payer, are a conflict; neither changes the store. -/
theorem exactly_once (h : create crypto ledger accounts = .ok s₀) (calls : List (Bytes × ℕ)) :
    let s := (machine crypto).run s₀ calls
    let past := acceptances crypto ((machine crypto).events s₀ calls)
    (∀ c ∈ (machine crypto).events s₀ calls, ∀ r, c.output = .ok r →
      ∃ a ∈ past, a.signed = c.input.1 ∧ a.receipt = r) ∧
    (past.map (·.verified.command.operationId)).Nodup ∧
    (past.map fun a => (a.verified.command.payer, a.verified.nonce)).Nodup ∧
    past.map (·.receipt.sequence) = List.range' 1 past.length ∧
    (∀ a ∈ past, a.Genuine crypto ledger) ∧
    (∀ id : OperationId, (past.filter fun a => decide (a.receipt.reservationId = id)).map
      (·.receipt.state) = lifecycle (s.database.tables.reservations.lookup id.toBytes)) ∧
    (∀ calls' id row, s.database.tables.reservations.lookup id = some row → row.state ≠ 1 →
      ((machine crypto).run s calls').database.tables.reservations.lookup id = some row) ∧
    (∀ a ∈ past, ∀ now, s.apply crypto a.signed now = (.ok a.receipt, s)) ∧
    ∀ a ∈ past, ∀ b now v, b ≠ a.signed → verifyMode crypto b ledger .localStore = .ok v →
      v.command.operationId = a.verified.command.operationId →
      v.command.payer.toBytes ∈ s.database.tables.owners →
      s.apply crypto b now = (.error .conflict, s) := by
  intro s past
  obtain ⟨hs, hh, hp⟩ : s.Sound ledger (totalUnits accounts) ∧
    History crypto ledger past s.database.tables ∧ Accounted crypto _ := run_history h calls
  have hi := hs.invariant
  refine ⟨hp, ?_, ?_, ?_, hh.genuine, hh.states, fun calls' => run_keepsClosed hs calls', ?_, ?_⟩
  · have hnodup := s.database.tables.operations.nodup
    rw [hh.rows, List.map_map] at hnodup
    refine List.Nodup.of_map FixedBytes.toBytes ?_
    rw [List.map_map]
    exact hnodup
  · have hnonce := hi.nonce
    rw [hh.rows, List.map_map] at hnonce
    refine List.Nodup.of_map (fun p => (p.1.toBytes, p.2.toBytes)) ?_
    rw [List.map_map]
    exact hnonce
  · have hsequence := hi.sequence
    rw [hh.rows, List.map_map, List.length_map] at hsequence
    exact hsequence
  · intro a ha now
    have hmem : a.row crypto ∈ s.database.tables.operations.rows := by
      rw [hh.rows]
      exact List.mem_map_of_mem ha
    rw [apply_of_acceptance hs hh ha now (hh.genuine a ha).verified rfl
      (hi.operation _ hmem).signer, if_pos rfl]
  · intro a ha b now v hb hv hid hpayer
    rw [apply_of_acceptance hs hh ha now hv hid hpayer, if_neg (Ne.symm hb)]

/-- A reserve, its commit, and the reserve again after its window. -/
def sampleCalls : List (Bytes × ℕ) :=
  [(sampleReserve, 150), (sampleCommit, 160), (sampleReserve, 500)]

theorem exactly_once_after_commit :
    create sampleCrypto (.replicate 32 9) sampleAccounts = .ok sampleStore ∧
    (acceptances sampleCrypto ((machine sampleCrypto).events sampleStore sampleCalls)).map
      (·.receipt.sequence) = [1, 2] := by
  have h : create sampleCrypto (.replicate 32 9) sampleAccounts = .ok sampleStore := rfl
  obtain ⟨-, -, -, hsequence, -⟩ := exactly_once h sampleCalls
  have hlen : (acceptances sampleCrypto
      ((machine sampleCrypto).events sampleStore sampleCalls)).length = 2 := by
    decide +kernel
  rw [hlen] at hsequence
  exact ⟨h, hsequence⟩

end Store

end Volparossa.Transaction
