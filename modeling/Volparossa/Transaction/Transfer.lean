import Volparossa.Transaction.Invariant

/-!
# Moving units

What a reserve and the closing of a reservation do to the tables, and that the invariant holds after
each once its operation is recorded. Under the invariant neither can fail on the accounts: the units
of a pending reservation are part of the reserved units of its payer, and the credit of its closing
stays within the supply. `Invariant.extend` is what the two have in common.
-/

namespace Volparossa.Transaction

open Tables Table

/-! ## Totals over the reservations -/

section Pending

variable {t t' : Tables}

section

variable {row : ReservationRow} (h : t.reservations.insert row = some t'.reservations)

include h

theorem pendingUnits_insert (owner : Bytes) : t'.pendingUnits owner =
      t.pendingUnits owner + if row.payer = owner ∧ row.state = 1 then row.units else 0 := by
  rw [pendingUnits, pendingUnits, sumWhere_eq_sum, sumWhere_eq_sum,
    sum_insert h]
  simp

theorem pending_insert : t'.pending = t.pending + if row.state = 1 then 1 else 0 := by
  rw [pending, pending, count_eq_sum, count_eq_sum, sum_insert h]
  simp

end

variable {id : Bytes} {row : ReservationRow} {s : ReservationState}
  (hrow : t.reservations.lookup id = some row) (hs : s ≠ .reserved)
  (h : t'.reservations = t.reservations.modify id (fun r => { r with state := stateNumber s })
    fun _ => rfl)

include hrow hs h

theorem pendingUnits_close (owner : Bytes) :
    t'.pendingUnits owner + (if row.payer = owner ∧ row.state = 1 then row.units else 0) =
      t.pendingUnits owner := by
  have hne : stateNumber s ≠ 1 := by
    cases s <;> simp_all [stateNumber]
  rw [pendingUnits, pendingUnits, sumWhere_eq_sum, sumWhere_eq_sum, h]
  have := sum_modify hrow (fun r => { r with state := stateNumber s }) (fun _ => rfl)
    fun r => if decide (r.payer = owner ∧ r.state = 1) then r.units else 0
  simpa [hne] using this

theorem pending_close (hstate : row.state = 1) : t'.pending + 1 = t.pending := by
  have hne : stateNumber s ≠ 1 := by
    cases s <;> simp_all [stateNumber]
  rw [pending, pending, count_eq_sum, count_eq_sum, h]
  have := sum_modify hrow (fun r => { r with state := stateNumber s }) (fun _ => rfl)
    fun r => if decide (r.state = 1) then 1 else 0
  simpa [hne, hstate] using this

end Pending

/-! ## Extending the ledger by an operation -/

/-- The tables `t'` record the operation `o` after those of `t`, for the same owners. -/
structure Extends (t t' : Tables) (o : OperationRow) : Prop where
  metaRows : t'.metaRows = t.metaRows
  owners : t'.owners = t.owners
  operations : t'.operations.rows = t.operations.rows ++ [o]
  sequence : o.sequence = t.operations.rows.length + 1
  valid : o.Valid t'
  nonce : ∀ p ∈ t.operations.rows, p.signer = o.signer → p.nonce ≠ o.nonce

/-- A reservation that was valid is valid in any state that it is brought to. -/
theorem Extends.reservation {t t' : Tables} {o : OperationRow} (h : Extends t t' o)
    {r : ReservationRow} (hr : r.Valid t) {state : ℕ} (hstate : state ∈ [1, 2, 3]) :
    ReservationRow.Valid t' { r with state } := by
  refine ⟨hr.id_length, ?_, h.owners ▸ hr.payer, h.owners ▸ hr.recipient, hr.ne, hr.units_pos,
    hr.units_le, hstate⟩
  rw [operationIds, h.operations, List.map_append]
  exact List.mem_append_left _ hr.id_mem

/-- The invariant after an operation is recorded, from what the operation did to the accounts and
the reservations. -/
theorem Invariant.extend {ledger : LedgerId} {supply : ℕ} {t t' : Tables} {o : OperationRow}
    (hi : Invariant ledger supply t) (h : Extends t t' o)
    (hids : ∀ id ∈ t.reservationIds, id ∈ t'.reservationIds)
    (hreservation : ∀ r ∈ t'.reservations.rows, r.Valid t')
    (hconserved : t'.accounts.sum (fun a => a.available + a.reserved) = supply)
    (hreserved : ∀ a ∈ t'.accounts.rows, a.reserved = t'.pendingUnits a.owner)
    (hbudget : t.operations.rows.length + 1 + t'.pending ≤ maxOperations) :
    Invariant ledger supply t' := by
  obtain ⟨hmeta, howners, hops, hsequence, hvalid, hnonce⟩ := h
  have hlen : t'.accounts.rows.length = t.accounts.rows.length := by
    simpa [owners] using congrArg List.length howners
  refine ⟨hmeta ▸ hi.metaRow, hi.supply_le, hlen ▸ hi.accounts_pos, hlen ▸ hi.accounts_le, ?_,
    hreservation, ?_, ?_, ?_, hconserved, hreserved, by simpa [hops] using hbudget⟩
  · intro a ha
    have hmem : a.owner ∈ t.owners := howners ▸ List.mem_map_of_mem ha
    obtain ⟨a', ha', howner⟩ := List.mem_map.mp hmem
    exact howner ▸ hi.owner_length a' ha'
  · intro p hp
    rw [hops, List.mem_append, List.mem_singleton] at hp
    rcases hp with hp | rfl
    · have hv := hi.operation p hp
      exact ⟨hv.id_length, hv.nonce_length, hv.signed_pos, hv.signed_le, hv.hash_length,
        howners ▸ hv.signer, hids _ hv.reservation, hv.state⟩
    · exact hvalid
  · rw [hops, List.map_append, hi.sequence, List.length_append, List.length_singleton,
      List.range'_append_1.symm, List.map_singleton, hsequence]
    simp [Nat.add_comm]
  · rw [hops, List.map_append, List.nodup_append]
    refine ⟨hi.nonce, by simp, ?_⟩
    rintro a ha b hb rfl
    obtain ⟨p, hp, rfl⟩ := List.mem_map.mp ha
    simp only [List.map_singleton, List.mem_singleton, Prod.mk.injEq] at hb
    exact hnonce p hp hb.1 hb.2

/-- An addition within the supply does not overflow. -/
theorem checkedAdd_filter_of_le {m n : ℕ} (h : m + n ≤ maxUnits) :
    (checkedAdd m n).filter (fun n => n ≤ maxUnits) = some (m + n) := by
  have hmax : maxUnits < 2 ^ 64 := by decide
  rw [checkedAdd_of_lt (by omega), Option.filter_some, if_pos (by simpa using h)]

theorem account_eq_ok {t : Tables} {owner : AccountId} {a : AccountRow}
    (h : t.accounts.lookup owner.toBytes = some a) :
    account t owner = .ok ⟨a.available, a.reserved⟩ := by
  rw [account, h]
  rfl

theorem account_eq_error {t : Tables} {owner : AccountId}
    (h : t.accounts.lookup owner.toBytes = none) : account t owner = .error .notFound := by
  rw [account, h]
  rfl

/-! ## Reserving -/

section Reserve

variable {ledger : LedgerId} {supply : ℕ} {t : Tables} {c : Command} {recipient : AccountId}
  {units : ℕ} {a : AccountRow}

/-- The row of a new reservation. -/
def reservationRow (c : Command) (recipient : AccountId) (units : ℕ) : ReservationRow :=
  ⟨c.operationId.toBytes, c.payer.toBytes, recipient.toBytes, units, 1⟩

theorem reserveUnits_eq_ok (hi : Invariant ledger supply t) (hpos : 0 < units)
    (ha : t.accounts.lookup c.payer.toBytes = some a)
    (hr : t.accounts.lookup recipient.toBytes ≠ none) (hav : units ≤ a.available)
    (hfresh : t.reservations.lookup c.operationId.toBytes = none) :
    ∃ reservations, t.reservations.insert (reservationRow c recipient units) = some reservations ∧
      reserveUnits t c recipient units = .ok ((c.operationId, .reserved),
        { t with
          accounts := t.accounts.modify c.payer.toBytes (fun x => { x with
            available := a.available - units, reserved := a.reserved + units }) fun _ => rfl
          reservations }) := by
  obtain ⟨b, hb⟩ := Option.ne_none_iff_exists'.mp hr
  have hbal := hi.balance_le (mem_of_lookup ha)
  have hle := hi.supply_le
  -- the statements run on the tables in which the balance is set already
  obtain ⟨reservations, -, hinsert, hok⟩ := insertReservation_eq_ok
    { t with
      accounts := t.accounts.modify c.payer.toBytes (fun x => { x with
        available := a.available - units, reserved := a.reserved + units }) fun _ => rfl }
    (reservationRow c recipient units) hpos (show units ≤ maxUnits by omega)
    (FixedBytes.length_toBytes _) (by simp [reservationRow])
    (by rw [lookup_ne_none, map_key_modify, ← lookup_ne_none]
        simp [reservationRow, ha])
    (by rw [lookup_ne_none, map_key_modify, ← lookup_ne_none]
        exact hr)
    hfresh
  refine ⟨reservations, hinsert, ?_⟩
  rw [reserveUnits, account_eq_ok ha, ok_bind, account_eq_ok hb, ok_bind, checkedSub_of_le hav,
    orFail_some, ok_bind, checkedAdd_filter_of_le (show a.reserved + units ≤ maxUnits by omega),
    orFail_some, ok_bind, setBalance_of_le (by omega) (by omega), ok_bind]
  exact (congrArg (· >>= _) hok).trans rfl

/-- The invariant after a reserve. -/
theorem Invariant.reserve (hi : Invariant ledger supply t) {t' : Tables} {o : OperationRow}
    (h : Extends t t' o) (hid : o.id = c.operationId.toBytes) (hpos : 0 < units)
    (hne : recipient ≠ c.payer) (ha : t.accounts.lookup c.payer.toBytes = some a)
    (hr : t.accounts.lookup recipient.toBytes ≠ none) (hav : units ≤ a.available)
    (haccounts : t'.accounts = t.accounts.modify c.payer.toBytes (fun x => { x with
      available := a.available - units, reserved := a.reserved + units }) fun _ => rfl)
    (hinsert : t.reservations.insert (reservationRow c recipient units) = some t'.reservations)
    (hbudget : t.operations.rows.length + t.pending + 2 ≤ maxOperations) :
    Invariant ledger supply t' := by
  have hmem := mem_of_lookup ha
  have howner := key_of_lookup ha
  have hrows := rows_insert hinsert
  refine hi.extend h ?_ ?_ ?_ ?_ ?_
  · intro id hid
    rw [reservationIds, hrows, List.map_append]
    exact List.mem_append_left _ hid
  · intro r hr'
    rw [hrows, List.mem_append, List.mem_singleton] at hr'
    rcases hr' with hr' | rfl
    · have hv := hi.reservation r hr'
      exact h.reservation hv hv.state
    · have hbal := hi.balance_le hmem
      have hle := hi.supply_le
      refine ⟨FixedBytes.length_toBytes _, ?_, ?_, ?_, ?_, hpos, show units ≤ maxUnits by omega,
        by simp [reservationRow]⟩
      · rw [operationIds, h.operations, List.map_append]
        exact List.mem_append_right _ (by simp [reservationRow, hid])
      · rw [h.owners]
        exact (t.accounts.lookup_ne_none _).mp (by simp [reservationRow, ha])
      · rw [h.owners]
        exact (t.accounts.lookup_ne_none _).mp hr
      · simpa [reservationRow] using hne
  · have := sum_modify ha (fun x => { x with
      available := a.available - units, reserved := a.reserved + units }) (fun _ => rfl)
      (fun a => a.available + a.reserved)
    rw [haccounts, ← hi.conserved]
    simp only at this
    omega
  · intro x hx
    rw [haccounts, mem_modify] at hx
    obtain ⟨y, hy, rfl⟩ := hx
    rw [pendingUnits_insert hinsert]
    split
    · rename_i hkey
      have hya := t.accounts.eq_of_key_eq hy hmem (hkey.trans howner.symm)
      have := hi.reserved a hmem
      simp [reservationRow, hkey, ← howner, this]
    · rename_i hkey
      rw [if_neg (fun h => hkey h.1.symm)]
      exact hi.reserved y hy
  · rw [pending_insert hinsert]
    simp only [reservationRow, if_true]
    omega

end Reserve

/-! ## Closing -/

section Close

variable {ledger : LedgerId} {supply : ℕ} {t : Tables} {c : Command} {id : OperationId}
  {row : ReservationRow} {a : AccountRow} {commit : Bool}

/-- The accounts after a reservation of `units` is closed: the units leave the reserved balance
`reserved` of `payer` and come to the available balance `available` of `beneficiary`. -/
def closedAccounts (t : Tables) (payer beneficiary : Bytes) (reserved available units : ℕ) :
    Table AccountRow.owner :=
  (t.accounts.modify payer (fun x => { x with reserved := reserved - units }) fun _ => rfl).modify
    beneficiary (fun x => { x with available := available + units }) fun _ => rfl

/-- The state that a reservation is closed in. -/
def closedState (commit : Bool) : ReservationState := if commit then .committed else .cancelled

/-- Who is credited when a reservation is closed. -/
def beneficiary (commit : Bool) (row : ReservationRow) : Bytes :=
  if commit then row.recipient else row.payer

/-- The beneficiary of a pending reservation has an account. -/
theorem Invariant.exists_beneficiary (hi : Invariant ledger supply t)
    (hrow : row ∈ t.reservations.rows) (commit : Bool) :
    ∃ b, t.accounts.lookup (beneficiary commit row) = some b := by
  have hv := hi.reservation row hrow
  cases commit
  · exact t.accounts.exists_lookup hv.payer
  · exact t.accounts.exists_lookup hv.recipient

theorem closeReservation_eq_ok (hi : Invariant ledger supply t)
    (hrow : t.reservations.lookup id.toBytes = some row) (hpayer : row.payer = c.payer.toBytes)
    (hstate : row.state = 1) (ha : t.accounts.lookup row.payer = some a) {b : AccountRow}
    (hb : t.accounts.lookup (beneficiary commit row) = some b) :
    closeReservation t c id commit = .ok ((id, closedState commit),
      { t with
        accounts := closedAccounts t row.payer (beneficiary commit row) a.reserved b.available
          row.units
        reservations := t.reservations.modify id.toBytes
          (fun r => { r with state := stateNumber (closedState commit) }) fun _ => rfl }) := by
  have hmem := mem_of_lookup hrow
  have hv := hi.reservation row hmem
  have hunits := hi.units_le_reserved hmem hstate (mem_of_lookup ha)
    (key_of_lookup ha).symm
  have hcredit := hi.credit_le hmem hstate (mem_of_lookup hb)
  have hbal := hi.balance_le (mem_of_lookup ha)
  have hle := hi.supply_le
  obtain ⟨owner, howner, hbytes⟩ : ∃ owner : AccountId, (if commit then
      orFail (FixedBytes.ofBytes 32 row.recipient) Error.store else pure c.payer) = .ok owner ∧
      owner.toBytes = beneficiary commit row := by
    cases commit
    · exact ⟨c.payer, rfl, hpayer.symm⟩
    · obtain ⟨r, hr⟩ := t.accounts.exists_lookup hv.recipient
      have hlen : row.recipient.length = 32 := by
        rw [← key_of_lookup hr]
        exact hi.owner_length r (mem_of_lookup hr)
      obtain ⟨owner, howner⟩ := FixedBytes.exists_toBytes hlen
      refine ⟨owner, ?_, howner.symm⟩
      rw [if_pos rfl, howner, FixedBytes.ofBytes_toBytes, orFail_some]
  rw [closeReservation, hrow, orFail_some, ok_bind, refuse_of_not (not_not.mpr hpayer), ok_bind,
    refuse_of_not (not_not.mpr hstate), ok_bind, account_eq_ok (hpayer ▸ ha), ok_bind,
    checkedSub_of_le hunits, orFail_some, ok_bind, howner, ok_bind,
    account_eq_ok (hbytes ▸ hb), ok_bind,
    checkedAdd_filter_of_le (show b.available + row.units ≤ maxUnits by omega), orFail_some,
    ok_bind,
    setReserved_of_le (by omega), ok_bind, setAvailable_of_le (by omega), ok_bind, ← hpayer, hbytes]
  exact (congrArg (· >>= _) (setState_eq_ok (closedState commit) id.toBytes)).trans rfl

theorem owners_closedAccounts (t : Tables) (payer beneficiary : Bytes)
    (reserved available units : ℕ) :
    (closedAccounts t payer beneficiary reserved available units).rows.map (·.owner) = t.owners :=
  map_key_modify.trans map_key_modify

/-- Closing a reservation moves its units, so the total is unchanged. -/
theorem sum_closedAccounts {b : AccountRow} (ha : t.accounts.lookup row.payer = some a)
    (hb : t.accounts.lookup (beneficiary commit row) = some b) (hunits : row.units ≤ a.reserved) :
    (closedAccounts t row.payer (beneficiary commit row) a.reserved b.available row.units).sum
      (fun x => x.available + x.reserved) = t.accounts.sum fun x => x.available + x.reserved := by
  have hpaid := sum_modify ha (fun x => { x with reserved := a.reserved - row.units })
    (fun _ => rfl) fun x => x.available + x.reserved
  -- the payer's row may be the one that is credited
  obtain ⟨b', hb', havailable⟩ : ∃ b', (t.accounts.modify row.payer
      (fun x => { x with reserved := a.reserved - row.units }) fun _ => rfl).lookup
        (beneficiary commit row) = some b' ∧ b'.available = b.available := by
    refine ⟨_, by rw [lookup_modify, hb]; rfl, ?_⟩
    dsimp only
    split <;> rfl
  have hcredited := sum_modify hb' (fun x => { x with available := b.available + row.units })
    (fun _ => rfl) fun x => x.available + x.reserved
  rw [closedAccounts]
  simp only at hpaid hcredited
  omega

theorem mem_closedAccounts {payer beneficiary : Bytes} {reserved available units : ℕ}
    {x : AccountRow}
    (h : x ∈ (closedAccounts t payer beneficiary reserved available units).rows) :
    ∃ y ∈ t.accounts.rows, x.owner = y.owner ∧
      x.reserved = if y.owner = payer then reserved - units else y.reserved := by
  rw [closedAccounts, mem_modify] at h
  obtain ⟨x', hx', rfl⟩ := h
  rw [mem_modify] at hx'
  obtain ⟨y, hy, rfl⟩ := hx'
  refine ⟨y, hy, ?_⟩
  split_ifs <;> simp_all

/-- The invariant after a commit or cancel. -/
theorem Invariant.close (hi : Invariant ledger supply t) {t' : Tables} {o : OperationRow}
    (h : Extends t t' o) (hrow : t.reservations.lookup id.toBytes = some row)
    (hstate : row.state = 1) (ha : t.accounts.lookup row.payer = some a) {b : AccountRow}
    (hb : t.accounts.lookup (beneficiary commit row) = some b)
    (haccounts : t'.accounts = closedAccounts t row.payer (beneficiary commit row) a.reserved
      b.available row.units)
    (hmodify : t'.reservations = t.reservations.modify id.toBytes
      (fun r => { r with state := stateNumber (closedState commit) }) fun _ => rfl) :
    Invariant ledger supply t' := by
  have hclosed : closedState commit ≠ .reserved := by
    cases commit <;> simp [closedState]
  have hmem := mem_of_lookup hrow
  have hunits := hi.units_le_reserved hmem hstate (mem_of_lookup ha)
    (key_of_lookup ha).symm
  refine hi.extend h ?_ ?_ ?_ ?_ ?_
  · intro id hid
    rwa [reservationIds_of_modify hmodify]
  · intro r hr
    rw [hmodify, mem_modify] at hr
    obtain ⟨r, hr, rfl⟩ := hr
    have hv := hi.reservation r hr
    split
    · exact h.reservation hv (stateNumber_mem _)
    · exact h.reservation hv hv.state
  · rw [haccounts, sum_closedAccounts ha hb hunits]
    exact hi.conserved
  · intro x hx
    rw [haccounts] at hx
    obtain ⟨y, hy, howner, hreserved⟩ := mem_closedAccounts hx
    have hpending := pendingUnits_close hrow hclosed hmodify y.owner
    rw [hreserved, howner]
    split
    · rename_i hkey
      have := hi.reserved a (mem_of_lookup ha)
      rw [if_pos ⟨hkey.symm, hstate⟩, hkey, ← key_of_lookup ha, ← this] at hpending
      rw [hkey, ← key_of_lookup ha]
      omega
    · rename_i hkey
      rw [if_neg (fun h => hkey h.1.symm)] at hpending
      have := hi.reserved y hy
      omega
  · have := pending_close hrow hclosed hmodify hstate
    have := hi.budget
    omega

end Close

end Volparossa.Transaction
