import Volparossa.Transaction.Ledger

/-!
# The ledger invariant

`Invariant ledger supply t` is what holds of the tables of a ledger in every state it reaches: the
rows satisfy the constraints of the schema and a few more that the code maintains, the operations
are numbered in the order of their acceptance, and the accounting is exact. The units of all
accounts add up to the supply of the genesis, the reserved units of an account are those of its
pending reservations, and the operations leave a slot for the completion of every pending
reservation.

This module derives what the checks of the code read off it. The accounting check passes
(`Invariant.validateAccounting`), and no credit can overflow (`Invariant.credit_le`), because the
units credited are part of another balance of the same supply.
-/

namespace Volparossa.Transaction

namespace Tables

/-- The owners of the accounts. -/
def owners (t : Tables) : List Bytes := t.accounts.rows.map (·.owner)

/-- The identifiers of the reservations. -/
def reservationIds (t : Tables) : List Bytes := t.reservations.rows.map (·.id)

/-- The identifiers of the accepted operations. -/
def operationIds (t : Tables) : List Bytes := t.operations.rows.map (·.id)

theorem owners_of_modify {t t' : Tables} {k : Bytes} {f : AccountRow → AccountRow}
    {hf : ∀ a, (f a).owner = a.owner} (h : t'.accounts = t.accounts.modify k f hf) :
    t'.owners = t.owners := by
  rw [owners, h]
  exact Table.map_key_modify

theorem reservationIds_of_modify {t t' : Tables} {k : Bytes} {f : ReservationRow → ReservationRow}
    {hf : ∀ r, (f r).id = r.id} (h : t'.reservations = t.reservations.modify k f hf) :
    t'.reservationIds = t.reservationIds := by
  rw [reservationIds, h]
  exact Table.map_key_modify

theorem pending_pos {t : Tables} {r : ReservationRow} (hr : r ∈ t.reservations.rows)
    (hstate : r.state = 1) : 0 < t.pending := by
  rw [pending, Table.count, List.countP_pos_iff]
  exact ⟨r, hr, by simp [hstate]⟩

end Tables

/-- What holds of a reservation: it was made by an accepted operation, between two different
accounts. -/
structure ReservationRow.Valid (t : Tables) (r : ReservationRow) : Prop where
  id_length : r.id.length = 32
  id_mem : r.id ∈ t.operationIds
  payer : r.payer ∈ t.owners
  recipient : r.recipient ∈ t.owners
  ne : r.recipient ≠ r.payer
  units_pos : 0 < r.units
  units_le : r.units ≤ maxUnits
  state : r.state ∈ [1, 2, 3]

/-- What holds of an accepted operation. -/
structure OperationRow.Valid (t : Tables) (o : OperationRow) : Prop where
  id_length : o.id.length = 32
  nonce_length : o.nonce.length = 32
  signed_pos : 0 < o.signed.length
  signed_le : o.signed.length ≤ 4096
  hash_length : o.hash.length = 32
  signer : o.signer ∈ t.owners
  reservation : o.reservation ∈ t.reservationIds
  state : o.state ∈ [1, 2, 3]

/-- **The ledger invariant.** -/
structure Invariant (ledger : LedgerId) (supply : ℕ) (t : Tables) : Prop where
  metaRow : t.metaRows.rows = [⟨1, ledger.toBytes, testUnit, supply⟩]
  supply_le : supply ≤ maxUnits
  accounts_pos : 0 < t.accounts.rows.length
  accounts_le : t.accounts.rows.length ≤ maxAccounts
  owner_length : ∀ a ∈ t.accounts.rows, a.owner.length = 32
  reservation : ∀ r ∈ t.reservations.rows, r.Valid t
  operation : ∀ o ∈ t.operations.rows, o.Valid t
  sequence : t.operations.rows.map (·.sequence) = List.range' 1 t.operations.rows.length
  nonce : (t.operations.rows.map fun o => (o.signer, o.nonce)).Nodup
  conserved : t.accounts.sum (fun a => a.available + a.reserved) = supply
  reserved : ∀ a ∈ t.accounts.rows, a.reserved = t.pendingUnits a.owner
  budget : t.operations.rows.length + t.pending ≤ maxOperations

namespace Invariant

variable {ledger : LedgerId} {supply : ℕ} {t : Tables} (hi : Invariant ledger supply t)

include hi

theorem balance_le {a : AccountRow} (ha : a ∈ t.accounts.rows) :
    a.available + a.reserved ≤ supply :=
  hi.conserved ▸ t.accounts.le_sum (fun a => a.available + a.reserved) ha

theorem sum_available_add_sum_reserved :
    t.accounts.sum (·.available) + t.accounts.sum (·.reserved) = supply := by
  rw [← Table.sum_add]
  exact hi.conserved

/-- The accounting check passes. -/
theorem validateAccounting : validateAccounting t = .ok () := by
  have hsum := hi.sum_available_add_sum_reserved
  have hle := hi.supply_le
  have hpending : ∀ a ∈ t.accounts.rows, t.pendingUnits a.owner ≤ maxUnits := fun a ha => by
    have := hi.balance_le ha
    have := hi.reserved a ha
    omega
  have hrow : t.metaRows.lookup 1 = some ⟨1, ledger.toBytes, testUnit, supply⟩ := by
    rw [Table.lookup, hi.metaRow]
    rfl
  have hmismatches : t.accounts.count (fun a => decide (a.reserved ≠ t.pendingUnits a.owner)) =
      0 := by
    rw [Table.count, List.countP_eq_zero]
    intro a ha
    simp [hi.reserved a ha]
  have hbudget : (checkedAdd t.operations.rows.length t.pending).all
      (fun n => maxOperations < n) = false := by
    have := hi.budget
    rw [checkedAdd_of_lt (by unfold maxOperations at this; omega)]
    simpa using this
  have hpos := hi.accounts_pos
  have hacc := hi.accounts_le
  rw [Transaction.validateAccounting, hrow, orFail_some, ok_bind,
    refuse_of_not (by simp only; omega),
    ok_bind, sqlInteger_of_le (by omega), ok_bind, sqlInteger_of_le (by omega), ok_bind,
    sqlInteger_of_le (by omega), ok_bind,
    refuse_of_not (by rintro ⟨a, ha, h⟩; have := hpending a ha; omega), ok_bind,
    refuse_of_not (by simp only [hsum, hmismatches, hbudget]; simp)]

/-- A pending reservation is covered by the reserved units of its payer. -/
theorem units_le_reserved {r : ReservationRow} (hr : r ∈ t.reservations.rows) (hstate : r.state = 1)
    {a : AccountRow} (ha : a ∈ t.accounts.rows) (hpayer : r.payer = a.owner) :
    r.units ≤ a.reserved := by
  rw [hi.reserved a ha, Tables.pendingUnits, Table.sumWhere_eq_sum]
  have := t.reservations.le_sum (fun r => if decide (r.payer = a.owner ∧ r.state = 1) then r.units
    else 0) hr
  simpa [hpayer, hstate] using this

/-- **Crediting the units of a pending reservation cannot overflow**, be it to its recipient or back
to its payer. -/
theorem credit_le {r : ReservationRow} (hr : r ∈ t.reservations.rows) (hstate : r.state = 1)
    {b : AccountRow} (hb : b ∈ t.accounts.rows) : b.available + r.units ≤ supply := by
  obtain ⟨a, ha⟩ := t.accounts.exists_lookup (hi.reservation r hr).payer
  have hmem := Table.mem_of_lookup ha
  have hunits := hi.units_le_reserved hr hstate hmem (Table.key_of_lookup ha).symm
  by_cases hab : a.owner = b.owner
  · have := hi.balance_le hb
    rw [t.accounts.eq_of_key_eq hmem hb hab] at hunits
    omega
  · have := t.accounts.add_le_sum (fun a => a.available + a.reserved) hmem hb hab
    rw [hi.conserved] at this
    omega

theorem sequence_le {o : OperationRow} (ho : o ∈ t.operations.rows) :
    0 < o.sequence ∧ o.sequence ≤ t.operations.rows.length := by
  have : o.sequence ∈ List.range' 1 t.operations.rows.length :=
    hi.sequence ▸ List.mem_map_of_mem ho
  rw [List.mem_range'_1] at this
  omega

/-- A reservation has the identifier of an accepted operation, so a fresh operation identifier is a
fresh reservation identifier. -/
theorem lookup_reservations_eq_none {id : Bytes} (h : t.operations.lookup id = none) :
    t.reservations.lookup id = none := by
  rw [Table.lookup_eq_none] at h ⊢
  intro r hr hid
  obtain ⟨o, ho, hoid⟩ := List.mem_map.mp (hi.reservation r hr).id_mem
  exact h o ho (hoid.trans hid)

theorem length_of_mem_owners {owner : Bytes} (h : owner ∈ t.owners) : owner.length = 32 := by
  obtain ⟨a, ha, rfl⟩ := List.mem_map.mp h
  exact hi.owner_length a ha

theorem length_of_mem_reservationIds {id : Bytes} (h : id ∈ t.reservationIds) : id.length = 32 := by
  obtain ⟨r, hr, rfl⟩ := List.mem_map.mp h
  exact (hi.reservation r hr).id_length

theorem operations_le : t.operations.rows.length ≤ maxOperations := by
  have := hi.budget
  omega

/-- There are no more reservations than operations, which made them. -/
theorem reservations_le : t.reservations.rows.length ≤ maxOperations := by
  have hsub : t.reservationIds ⊆ t.operationIds := by
    intro id hid
    obtain ⟨r, hr, rfl⟩ := List.mem_map.mp hid
    exact (hi.reservation r hr).id_mem
  have hlen := (List.subperm_of_subset t.reservations.nodup hsub).length_le
  have := hi.operations_le
  rw [List.length_map, Tables.operationIds, List.length_map] at hlen
  omega

end Invariant

end Volparossa.Transaction
