import Volparossa.Ordered.Snapshot
import Volparossa.Transaction.Conservation

/-!
# Snapshots are faithful

A snapshot is read back from its encoding: cells, rows, listings and snapshots are lawful messages.
The cells determine the row they list, so the bytes of a snapshot determine the rows of the four
tables (`same_of_encode_eq`).

`Reached` is every state of a ledger that accepted operations lead to, on a database or on a copy in
memory. Each has the rows of tables with the ledger invariant (`Reached.invariant`), which is all
that `snapshot_faithful` needs.
-/

namespace Volparossa.Ordered

open Protobuf Protocol Transaction LawfulMessage

/-! ## Reading a snapshot back -/

/-- The integers of a cell have 64 bits, and its texts are UTF-8. -/
def Cell.Fits (c : Cell) : Prop :=
  (∀ n, c.value = some (.integer n) → n < 2 ^ 64) ∧ ∀ b, c.value = some (.text b) → isUtf8 b

instance : LawfulMessage Cell := lawful Cell.Fits (by decide) fun m h => by
  obtain ⟨_ | value⟩ := m
  · exact .cons (.alternativeUint (by simp [Cell.integer?])) <| .cons (.alternative rfl) <|
      .cons (.alternative rfl) .nil
  · cases value with
    | integer n =>
      exact .cons (.alternativeUint (by rintro _ ⟨⟩; exact h.1 n rfl)) <|
        .cons (.alternative rfl) <| .cons (.alternative rfl) .nil
    | blob b =>
      exact .cons (.alternativeUint (by simp [Cell.integer?])) <| .cons (.alternative rfl) <|
        .cons (.alternative rfl) .nil
    | text b =>
      exact .cons (.alternativeUint (by simp [Cell.integer?])) <| .cons (.alternative rfl) <|
        .cons (.alternative (if_pos (h.2 b rfl))) .nil

instance : LawfulMessage Row :=
  lawful (fun m => ∀ c ∈ m.cells, Fits c) (by decide) fun _ h => .cons (.repeatedMessage h) .nil

instance : LawfulMessage Listing :=
  lawful (fun m => ∀ r ∈ m.rows, Fits r) (by decide) fun _ h => .cons (.repeatedMessage h) .nil

instance : LawfulMessage Snapshot :=
  lawful (fun m => ∀ l ∈ m.tables, Fits l) (by decide) fun _ h => .cons (.repeatedMessage h) .nil

theorem fits_listing {ρ κ α : Type} {key : ρ → κ} (tab : Table key) {column : ρ → α}
    {le : α → α → Prop} [DecidableRel le] {cells : ρ → List Scalar}
    (hsmall : ∀ r ∈ tab.rows, ∀ s ∈ cells r, s.Small) :
    Fits (listing ((tab.orderBy column le).map cells)) := by
  intro row hrow c hc
  obtain ⟨columns, hcolumns, rfl⟩ := List.mem_map.mp hrow
  obtain ⟨r, hr, rfl⟩ := List.mem_map.mp hcolumns
  obtain ⟨s, hs, rfl⟩ := List.mem_map.mp hc
  have hs' := hsmall r ((tab.orderBy_perm column le).mem_iff.mp hr) s hs
  constructor
  · rintro n ⟨⟩
    have hn : n ≤ maxUnits := hs'
    unfold maxUnits at hn
    omega
  · rintro b ⟨⟩
    exact hs'.2

theorem length_rows_listing {ρ κ α : Type} {key : ρ → κ} (tab : Table key) (column : ρ → α)
    (le : α → α → Prop) [DecidableRel le] (cells : ρ → List Scalar) :
    (listing ((tab.orderBy column le).map cells)).rows.length = tab.rows.length := by
  rw [listing, List.length_map, List.length_map, (tab.orderBy_perm column le).length_eq]

/-! ## Cells determine their row -/

theorem listing_injective : Function.Injective listing := by
  intro rows rows' h
  have hcell : Function.Injective fun s : Scalar => (⟨some s⟩ : Cell) := by
    rintro s s' ⟨⟩
    rfl
  have hrow : Function.Injective fun columns : List Scalar =>
      (⟨columns.map fun s => ⟨some s⟩⟩ : Row) := by
    intro columns columns' h
    exact List.map_injective_iff.mpr hcell (Row.mk.inj h)
  exact List.map_injective_iff.mpr hrow (Listing.mk.inj h)

theorem metaCells_injective : Function.Injective metaCells := by
  rintro ⟨⟩ ⟨⟩ ⟨⟩
  rfl

theorem accountCells_injective : Function.Injective accountCells := by
  rintro ⟨⟩ ⟨⟩ ⟨⟩
  rfl

theorem reservationCells_injective : Function.Injective reservationCells := by
  rintro ⟨⟩ ⟨⟩ ⟨⟩
  rfl

theorem operationCells_injective : Function.Injective operationCells := by
  rintro ⟨⟩ ⟨⟩ ⟨⟩
  rfl

/-- Two tables with the same listing have the same rows. -/
theorem same_of_listing_eq {ρ κ α : Type} {key : ρ → κ} {tab tab' : Table key} {column : ρ → α}
    {le : α → α → Prop} [DecidableRel le] {cells : ρ → List Scalar} (hcells : cells.Injective)
    (h : listing ((tab.orderBy column le).map cells) =
      listing ((tab'.orderBy column le).map cells)) : tab.Same tab' := by
  have hrows := List.map_injective_iff.mpr hcells (listing_injective h)
  have hperm := tab.orderBy_perm column le
  rw [hrows] at hperm
  exact hperm.symm.trans (tab'.orderBy_perm column le)

section

variable {ledger ledger' : LedgerId} {supply supply' : ℕ} {t t' : Tables}

/-- The snapshot of a ledger is read back from its encoding. -/
theorem decode_encode_snapshotOf (hi : Invariant ledger supply t) :
    decode (encode (snapshotOf t)) = some (snapshotOf t) := by
  refine decode_encode ?_ (lt_of_le_of_lt (length_encode_snapshotOf hi) (by decide))
  intro l hl
  simp only [snapshotOf, List.mem_cons, List.not_mem_nil, or_false] at hl
  rcases hl with rfl | rfl | rfl | rfl
  · exact fits_listing t.metaRows (metaCells_small hi)
  · exact fits_listing t.accounts (accountCells_small hi)
  · exact fits_listing t.reservations (reservationCells_small hi)
  · exact fits_listing t.operations (operationCells_small hi)

/-- **The bytes of a snapshot determine the rows of the tables.** -/
theorem same_of_encode_eq (hi : Invariant ledger supply t) (hi' : Invariant ledger' supply' t')
    (h : encode (snapshotOf t) = encode (snapshotOf t')) : t.Same t' := by
  have hsnapshot : snapshotOf t = snapshotOf t' := by
    have hread := decode_encode_snapshotOf hi
    rw [h, decode_encode_snapshotOf hi'] at hread
    exact (Option.some.inj hread).symm
  simp only [snapshotOf, Snapshot.mk.injEq, List.cons.injEq, and_true] at hsnapshot
  obtain ⟨hmeta, haccounts, hreservations, hoperations⟩ := hsnapshot
  exact ⟨same_of_listing_eq metaCells_injective hmeta,
    same_of_listing_eq accountCells_injective haccounts,
    same_of_listing_eq reservationCells_injective hreservations,
    same_of_listing_eq operationCells_injective hoperations⟩

end

/-! ## The states of a ledger -/

/-- The tables that accepted operations lead to from a genesis, on a database of either mode or on a
copy in memory. -/
inductive Reached (crypto : Crypto) (ledger : LedgerId) (accounts : List GenesisAccount) :
    Tables → Prop
  | genesis {mode : Mode} {init : Tables → Except Error (Option Checkpoint)} {d : Database}
      (h : createMode crypto ledger accounts mode init = .ok d) :
      Reached crypto ledger accounts d.tables
  | operation {t t' : Tables} {mode : Mode} {b : Bytes} {now : ℕ} {r : Receipt}
      (ht : Reached crypto ledger accounts t)
      (h : applyCommand crypto t ledger mode b now = .ok (r, t')) :
      Reached crypto ledger accounts t'
  | copy {t t' : Tables} {s : Snapshot} (ht : Reached crypto ledger accounts t)
      (hs : Snapshot.capture t = .ok s) (h : s.memoryCopy = .ok t') :
      Reached crypto ledger accounts t'

/-- A reached state has the rows of tables with the ledger invariant. A copy lists them in another
order. -/
theorem Reached.invariant {crypto : Crypto} {ledger : LedgerId} {accounts : List GenesisAccount}
    {t : Tables} (h : Reached crypto ledger accounts t) :
    ∃ u, Invariant ledger (totalUnits accounts) u ∧ u.Same t := by
  induction h with
  | genesis h =>
    obtain ⟨hadm, hgenesis, -⟩ := createMode_eq_ok h
    exact ⟨_, hgenesis.invariant hadm, .refl _⟩
  | @operation t t' mode b now r ht h ih =>
    obtain ⟨u, hi, hsame⟩ := ih
    have hagrees := applyCommand_same hsame.symm crypto ledger mode b now
    rw [h] at hagrees
    obtain ⟨⟨r, u'⟩, hu, -, hs⟩ := hagrees.ok_left
    exact ⟨u', applyCommand_invariant hi hu, hs.symm⟩
  | copy ht hs h ih =>
    obtain ⟨u, hi, hsame⟩ := ih
    rw [← capture_same hi hsame, capture_eq_ok hi, Except.ok.injEq] at hs
    subst hs
    obtain ⟨u', hu, hsame'⟩ := memoryCopy_spec hi
    obtain rfl := ok_unique h hu
    exact ⟨u, hi, hsame'⟩

/-- **Snapshot faithfulness.** A state that accepted operations reach can be captured within the
bounds on rows and bytes, its snapshot can be copied into memory, and the copy has the same
snapshot, with the same bytes. Every reached state, of this ledger or another, whose snapshot has
these bytes has the same rows in all four tables. -/
theorem snapshot_faithful {crypto : Crypto} {ledger : LedgerId} {accounts : List GenesisAccount}
    {t : Tables} (h : Reached crypto ledger accounts t) :
    ∃ s b copy, Snapshot.capture t = .ok s ∧
      List.Forall₂ (fun l bound => l.rows.length ≤ bound) s.tables
        [1, maxAccounts, maxOperations, maxOperations] ∧
      s.bytes = .ok b ∧ b.length ≤ 6 * 1024 * 1024 ∧
      s.memoryCopy = .ok copy ∧ Snapshot.capture copy = .ok s ∧
      ∀ (crypto' : Crypto) (ledger' : LedgerId) (accounts' : List GenesisAccount) (t' : Tables),
        Reached crypto' ledger' accounts' t' →
        ∀ s', Snapshot.capture t' = .ok s' → s'.bytes = .ok b → t.Same t' := by
  obtain ⟨u, hi, hsame⟩ := h.invariant
  obtain ⟨copy, hcopy, hcopied⟩ := memoryCopy_spec hi
  refine ⟨snapshotOf u, encode (snapshotOf u), copy, ?_, ?_, bytes_eq_ok hi,
    length_encode_snapshotOf hi, hcopy, ?_, ?_⟩
  · rw [← capture_same hi hsame, capture_eq_ok hi]
  · refine .cons ?_ (.cons ?_ (.cons ?_ (.cons ?_ .nil)))
    · rw [length_rows_listing, hi.metaRow]
      rfl
    · rw [length_rows_listing]
      exact hi.accounts_le
    · rw [length_rows_listing]
      exact hi.reservations_le
    · rw [length_rows_listing]
      exact hi.operations_le
  · rw [← capture_same hi hcopied, capture_eq_ok hi]
  · intro crypto' ledger' accounts' t' h' s' hs' hb
    obtain ⟨u', hi', hsame'⟩ := h'.invariant
    rw [← capture_same hi' hsame', capture_eq_ok hi', Except.ok.injEq] at hs'
    subst hs'
    rw [bytes_eq_ok hi', Except.ok.injEq] at hb
    exact (hsame.symm.trans (same_of_encode_eq hi hi' hb.symm)).trans hsame'

theorem snapshot_faithful_after_reserve :
    ∃ t, Reached sampleCrypto (.replicate 32 9) sampleAccounts t ∧
      t.operations.rows.length = 1 ∧ ∃ s b copy, Snapshot.capture t = .ok s ∧ s.bytes = .ok b ∧
        s.memoryCopy = .ok copy ∧ Snapshot.capture copy = .ok s := by
  have hgenesis : createMode sampleCrypto (.replicate 32 9) sampleAccounts .localStore
      (fun _ => .ok none) = .ok Store.sampleStore.database := rfl
  have hreserve : (applyCommand sampleCrypto Store.sampleStore.database.tables (.replicate 32 9)
      .localStore Store.sampleReserve 150).toOption.map (·.2.operations.rows.length) = some 1 := by
    decide +kernel
  cases h : applyCommand sampleCrypto Store.sampleStore.database.tables (.replicate 32 9)
      .localStore Store.sampleReserve 150 with
  | error e =>
    rw [h] at hreserve
    cases hreserve
  | ok x =>
    rw [h] at hreserve
    have hreached := (Reached.genesis hgenesis).operation h
    obtain ⟨s, b, copy, hs, -, hb, -, hcopy, hagain, -⟩ := snapshot_faithful hreached
    exact ⟨x.2, hreached, Option.some.inj hreserve, s, b, copy, hs, hb, hcopy, hagain⟩

end Volparossa.Ordered
