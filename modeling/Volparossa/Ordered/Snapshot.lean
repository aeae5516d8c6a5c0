import Volparossa.Foundations.Protobuf.RoundTrip
import Volparossa.Transaction.Invariant
import Volparossa.Transaction.Same

/-!
# Snapshots of the tables

A snapshot is the canonical listing of the tables, each ordered by its key column, as cells. It is
what the state hash covers, and what the in-memory copy that a block is staged on is rebuilt from.

Under the ledger invariant a snapshot can be captured, encoded within its bound and copied
(`capture_eq_ok`, `bytes_eq_ok`, `memoryCopy_spec`), and the copy has the same rows. The listing
does not depend on the order in which the rows were inserted (`capture_same`).
-/

namespace Volparossa.Ordered

open Protobuf Protocol Transaction

/-! ## Messages -/

/-- The value of a cell; a text is its UTF-8 bytes. -/
inductive Scalar
  | integer (n : ℕ)
  | blob (b : Bytes)
  | text (b : Bytes)
  deriving DecidableEq

structure Cell where
  value : Option Scalar
  deriving DecidableEq

structure Row where
  cells : List Cell
  deriving DecidableEq

/-- The listing of one table. -/
structure Listing where
  rows : List Row
  deriving DecidableEq

structure Snapshot where
  tables : List Listing
  deriving DecidableEq

namespace Cell

def integer? (m : Cell) : Option ℕ :=
  match m.value with
  | some (.integer n) => some n
  | _ => none

def blob? (m : Cell) : Option Bytes :=
  match m.value with
  | some (.blob b) => some b
  | _ => none

def text? (m : Cell) : Option Bytes :=
  match m.value with
  | some (.text b) => some b
  | _ => none

end Cell

instance : Message Cell := schema ⟨none⟩ [
  .alternativeUint 1 Cell.integer? fun _ n => ⟨some (.integer n)⟩,
  .alternative 2 Cell.blob? fun _ b => some ⟨some (.blob b)⟩,
  .alternative 3 Cell.text? fun _ b => if isUtf8 b then some ⟨some (.text b)⟩ else none]

instance : Message Row := schema ⟨[]⟩ [.repeatedMessage 1 (·.cells) fun _ cells => ⟨cells⟩]

instance : Message Listing := schema ⟨[]⟩ [.repeatedMessage 1 (·.rows) fun _ rows => ⟨rows⟩]

instance : Message Snapshot := schema ⟨[]⟩ [.repeatedMessage 1 (·.tables) fun _ tables => ⟨tables⟩]

/-! ## Capture -/

def metaCells (r : MetaRow) : List Scalar :=
  [.integer r.singleton, .blob r.ledger, .text r.unit, .integer r.supply]

def accountCells (r : AccountRow) : List Scalar :=
  [.blob r.owner, .integer r.available, .integer r.reserved]

def reservationCells (r : ReservationRow) : List Scalar :=
  [.blob r.id, .blob r.payer, .blob r.recipient, .integer r.units, .integer r.state]

def operationCells (r : OperationRow) : List Scalar :=
  [.integer r.sequence, .blob r.id, .blob r.signer, .blob r.nonce, .blob r.signed, .blob r.hash,
    .blob r.reservation, .integer r.state]

/-- The cell of a column, within the bounds on blobs and texts. -/
def captureCell (s : Scalar) : Except Error Cell :=
  match s with
  | .integer _ => .ok ⟨some s⟩
  | .blob b => if b.length ≤ 4096 then .ok ⟨some s⟩ else .error .store
  | .text b => if b.length ≤ 128 ∧ isUtf8 b then .ok ⟨some s⟩ else .error .store

/-- The listing of at most `bound` rows. -/
def captureTable (bound : ℕ) (rows : List (List Scalar)) : Except Error Listing := do
  let rows ← rows.foldlM (fun acc columns => do
    refuse (acc.length = bound) Error.store
    let cells ← columns.mapM captureCell
    pure (acc ++ [(⟨cells⟩ : Row)])) []
  pure ⟨rows⟩

/-- **The snapshot of the tables.** -/
def Snapshot.capture (t : Tables) : Except Error Snapshot := do
  validateAccounting t
  let metaRows ← captureTable 1 ((t.metaRows.orderBy (·.singleton) (· ≤ ·)).map metaCells)
  let accounts ← captureTable maxAccounts ((t.accounts.orderBy (·.owner) (· ≤ ·)).map accountCells)
  let reservations ← captureTable maxOperations
    ((t.reservations.orderBy (·.id) (· ≤ ·)).map reservationCells)
  let operations ← captureTable maxOperations
    ((t.operations.orderBy (·.sequence) (· ≤ ·)).map operationCells)
  pure ⟨[metaRows, accounts, reservations, operations]⟩

/-- The encoding of a snapshot, of at most six mebibytes. -/
def Snapshot.bytes (s : Snapshot) : Except Error Bytes :=
  (encodeCanonical s (6 * 1024 * 1024)).mapError fun _ => Error.store

/-! ## The in-memory copy -/

/-- The parameter that a cell of a snapshot binds. -/
def Cell.parameter (c : Cell) : Except Error Scalar :=
  match c.value with
  | none => .error .store
  | some (.integer n) => if n ≤ maxUnits then .ok (.integer n) else .error .store
  | some value => .ok value

/-- The parameters that a row of a snapshot binds. -/
def Row.values (r : Row) : Except Error (List Scalar) := r.cells.mapM Cell.parameter

/-- `INSERT INTO meta`; a column of another type is refused by the strict table. -/
def insertMetaValues (t : Tables) : List Scalar → Except Error Tables
  | [.integer singleton, .blob ledger, .text unit, .integer supply] =>
    insertMeta t ⟨singleton, ledger, unit, supply⟩
  | _ => .error .database

/-- `INSERT INTO accounts`. -/
def insertAccountValues (t : Tables) : List Scalar → Except Error Tables
  | [.blob owner, .integer available, .integer reserved] =>
    insertAccount t ⟨owner, available, reserved⟩
  | _ => .error .database

/-- `INSERT INTO reservations`. -/
def insertReservationValues (t : Tables) : List Scalar → Except Error Tables
  | [.blob id, .blob payer, .blob recipient, .integer units, .integer state] =>
    insertReservation t ⟨id, payer, recipient, units, state⟩
  | _ => .error .database

/-- `INSERT INTO operations`. -/
def insertOperationValues (t : Tables) : List Scalar → Except Error Tables
  | [.integer sequence, .blob id, .blob signer, .blob nonce, .blob signed, .blob hash,
      .blob reservation, .integer state] =>
    insertOperation t ⟨sequence, id, signer, nonce, signed, hash, reservation, state⟩
  | _ => .error .database

/-- Insert the rows of one listing. -/
def insertListing (insert : Tables → List Scalar → Except Error Tables) (t : Tables) (l : Listing) :
    Except Error Tables :=
  l.rows.foldlM (fun t row => do
    let values ← row.values
    insert t values) t

/-- The tables rebuilt in memory from a snapshot. -/
def Snapshot.memoryCopy (s : Snapshot) : Except Error Tables := do
  let inserts := [insertMetaValues, insertAccountValues, insertReservationValues,
    insertOperationValues]
  let t ← (s.tables.zip inserts).foldlM (fun t p => insertListing p.2 t p.1) Tables.empty
  validateAccounting t
  pure t

/-! ## Snapshots of a ledger -/

/-- A value within the bounds of a cell. -/
def Scalar.Small : Scalar → Prop
  | .integer n => n ≤ maxUnits
  | .blob b => b.length ≤ 4096
  | .text b => b.length ≤ 128 ∧ isUtf8 b

/-- The listing of rows of values. -/
def listing (rows : List (List Scalar)) : Listing :=
  ⟨rows.map fun columns => ⟨columns.map fun s => ⟨some s⟩⟩⟩

theorem captureCell_eq_ok {s : Scalar} (h : s.Small) : captureCell s = .ok ⟨some s⟩ := by
  cases s with
  | integer n => rfl
  | blob b => exact if_pos h
  | text b => exact if_pos h

theorem captureTable_eq_ok {bound : ℕ} {rows : List (List Scalar)} (hlen : rows.length ≤ bound)
    (hsmall : ∀ r ∈ rows, ∀ s ∈ r, s.Small) : captureTable bound rows = .ok (listing rows) := by
  have hfold : ∃ acc : List Row, rows.foldlM (fun acc columns => do
      refuse (acc.length = bound) Error.store
      let cells ← columns.mapM captureCell
      pure (acc ++ [(⟨cells⟩ : Row)])) [] = .ok acc ∧ acc = (listing rows).rows := by
    refine foldlM_exists (fun past acc => acc = (listing past).rows) rfl ?_
    rintro past columns rest acc rfl rfl
    have hcells := mapM_eq_ok (l := columns) fun s hs =>
      captureCell_eq_ok (hsmall columns (by simp) s hs)
    refine ⟨_, ?_, rfl⟩
    rw [refuse_of_not (by simp [listing] at hlen ⊢; omega), ok_bind, hcells, ok_bind]
    simp [listing]
  obtain ⟨acc, hacc, rfl⟩ := hfold
  rw [captureTable, hacc]
  rfl

theorem Cell.parameter_eq_ok {s : Scalar} (h : s.Small) : Cell.parameter ⟨some s⟩ = .ok s := by
  cases s with
  | integer n => exact if_pos h
  | blob b => rfl
  | text b => rfl

theorem Row.values_eq_ok {columns : List Scalar} (h : ∀ s ∈ columns, s.Small) :
    Row.values ⟨columns.map fun s => ⟨some s⟩⟩ = .ok columns := by
  induction columns with
  | nil => rfl
  | cons s columns ih =>
    have hrest := ih fun x hx => h x (by simp [hx])
    simp only [Row.values, List.map_cons, List.mapM_cons] at hrest ⊢
    rw [Cell.parameter_eq_ok (h s (by simp)), ok_bind, hrest]
    rfl

/-- Inserting a listing is inserting its rows. -/
theorem insertListing_listing {ρ : Type} {insert : Tables → List Scalar → Except Error Tables}
    {cells : ρ → List Scalar} (insertRow : Tables → ρ → Except Error Tables)
    (hinsert : ∀ t r, insert t (cells r) = insertRow t r) {rows : List ρ}
    (hsmall : ∀ r ∈ rows, ∀ s ∈ cells r, s.Small) (t : Tables) :
    insertListing insert t (listing (rows.map cells)) = rows.foldlM insertRow t := by
  induction rows generalizing t with
  | nil => rfl
  | cons r rows ih =>
    have hrest := ih fun x hx => hsmall x (by simp [hx])
    simp only [insertListing, listing, List.map_cons, List.foldlM_cons] at hrest ⊢
    rw [Row.values_eq_ok (hsmall r (by simp)), ok_bind, hinsert]
    simp only [hrest]

/-- The snapshot of the tables of a ledger. -/
def snapshotOf (t : Tables) : Snapshot :=
  ⟨[listing ((t.metaRows.orderBy (·.singleton) (· ≤ ·)).map metaCells),
    listing ((t.accounts.orderBy (·.owner) (· ≤ ·)).map accountCells),
    listing ((t.reservations.orderBy (·.id) (· ≤ ·)).map reservationCells),
    listing ((t.operations.orderBy (·.sequence) (· ≤ ·)).map operationCells)]⟩

theorem state_le {n : ℕ} (h : n ∈ [1, 2, 3]) : n ≤ maxUnits := by
  simp only [List.mem_cons, List.not_mem_nil, or_false] at h
  unfold maxUnits
  omega

theorem captureTable_orderBy {ρ κ α : Type} {key : ρ → κ} (tab : Table key) {column : ρ → α}
    {le : α → α → Prop} [DecidableRel le] {cells : ρ → List Scalar} {bound : ℕ}
    (hlen : tab.rows.length ≤ bound) (hsmall : ∀ r ∈ tab.rows, ∀ s ∈ cells r, s.Small) :
    captureTable bound ((tab.orderBy column le).map cells) =
      .ok (listing ((tab.orderBy column le).map cells)) := by
  have hperm := tab.orderBy_perm column le
  apply captureTable_eq_ok
  · rw [List.length_map, hperm.length_eq]
    exact hlen
  · intro columns hcolumns
    obtain ⟨r, hr, rfl⟩ := List.mem_map.mp hcolumns
    exact hsmall r (hperm.mem_iff.mp hr)

section Ledger

variable {ledger : LedgerId} {supply : ℕ} {t : Tables} (hi : Invariant ledger supply t)

include hi

theorem metaCells_small : ∀ r ∈ t.metaRows.rows, ∀ s ∈ metaCells r, s.Small := by
  rw [hi.metaRow]
  have hunit : testUnit.length ≤ 128 := by decide
  have hutf8 : isUtf8 testUnit = true := by decide
  have hone : 1 ≤ maxUnits := by decide
  simp [metaCells, Scalar.Small, hi.supply_le, hunit, hutf8, hone]

theorem accountCells_small : ∀ r ∈ t.accounts.rows, ∀ s ∈ accountCells r, s.Small := by
  intro r hr
  have hlen := hi.owner_length r hr
  have hbal := hi.balance_le hr
  have hle := hi.supply_le
  simp only [accountCells, List.mem_cons, List.not_mem_nil, or_false, forall_eq_or_imp, forall_eq,
    Scalar.Small]
  omega

theorem reservationCells_small : ∀ r ∈ t.reservations.rows, ∀ s ∈ reservationCells r, s.Small := by
  intro r hr
  have hv := hi.reservation r hr
  simp only [reservationCells, List.mem_cons, List.not_mem_nil, or_false, forall_eq_or_imp,
    forall_eq, Scalar.Small, hv.id_length, hi.length_of_mem_owners hv.payer,
    hi.length_of_mem_owners hv.recipient]
  exact ⟨by omega, by omega, by omega, hv.units_le, state_le hv.state⟩

theorem operationCells_small : ∀ r ∈ t.operations.rows, ∀ s ∈ operationCells r, s.Small := by
  intro r hr
  have hv := hi.operation r hr
  have hseq := (hi.sequence_le hr).2
  have hbudget := hi.budget
  simp only [operationCells, List.mem_cons, List.not_mem_nil, or_false, forall_eq_or_imp, forall_eq,
    Scalar.Small, hv.id_length, hv.nonce_length, hv.hash_length, hi.length_of_mem_owners hv.signer,
    hi.length_of_mem_reservationIds hv.reservation]
  refine ⟨?_, by omega, by omega, by omega, hv.signed_le, by omega, by omega, state_le hv.state⟩
  unfold maxOperations at hbudget
  unfold maxUnits
  omega

/-- **The tables of a ledger can be captured.** -/
theorem capture_eq_ok : Snapshot.capture t = .ok (snapshotOf t) := by
  have hmeta : t.metaRows.rows.length ≤ 1 := by
    rw [hi.metaRow]
    rfl
  rw [Snapshot.capture, hi.validateAccounting, ok_bind,
    captureTable_orderBy t.metaRows hmeta (metaCells_small hi), ok_bind,
    captureTable_orderBy t.accounts hi.accounts_le (accountCells_small hi), ok_bind,
    captureTable_orderBy t.reservations hi.reservations_le (reservationCells_small hi), ok_bind,
    captureTable_orderBy t.operations hi.operations_le (operationCells_small hi), ok_bind]
  rfl

end Ledger

/-! ### Size -/

/-- A bound on the encoding of a cell with this value, and its header. -/
def Scalar.size : Scalar → ℕ
  | .integer _ => 14
  | .blob b => b.length + 6
  | .text b => b.length + 6

theorem length_encode_cell {s : Scalar} (h : s.Small) :
    (encode (⟨some s⟩ : Cell)).length + 3 ≤ s.size := by
  cases s with
  | integer n =>
    have hvarint := length_encodeVarint_le_ten n
    have hfield := Field.length_encode_le (f := ⟨1, .varint n⟩) (show 1 < 16 by decide)
    rw [show encode (⟨some (.integer n)⟩ : Cell) = encodeFields [⟨1, .varint n⟩] from rfl]
    simp only [encodeFields_cons, encodeFields_nil, List.append_nil, Value.encode,
      Scalar.size] at hfield ⊢
    omega
  | blob b =>
    have hb : b.length ≤ 4096 := h
    have hlen := length_len_le (show 2 < 16 by decide) 1 (b := b) (by omega)
    rw [show encode (⟨some (.blob b)⟩ : Cell) = encodeFields [⟨2, .len b⟩] from rfl, Scalar.size]
    omega
  | text b =>
    have hb : b.length ≤ 128 := h.1
    have hlen := length_len_le (show 3 < 16 by decide) 1 (b := b) (by omega)
    rw [show encode (⟨some (.text b)⟩ : Cell) = encodeFields [⟨3, .len b⟩] from rfl, Scalar.size]
    omega

theorem Scalar.size_le {s : Scalar} (h : s.Small) : s.size ≤ 4102 := by
  cases s with
  | integer n => simp [Scalar.size]
  | blob b =>
    have hb : b.length ≤ 4096 := h
    simp only [Scalar.size]
    omega
  | text b =>
    have hb : b.length ≤ 128 := h.1
    simp only [Scalar.size]
    omega

theorem length_encode_row {columns : List Scalar} (h : ∀ s ∈ columns, s.Small) :
    (encode (⟨columns.map fun s => ⟨some s⟩⟩ : Row)).length ≤ (columns.map Scalar.size).sum := by
  let row : Row := ⟨columns.map fun s => ⟨some s⟩⟩
  have hcell : ∀ cell ∈ row.cells, (encode cell).length < 128 ^ (1 + 1) := by
    intro cell hcell
    obtain ⟨s, hs, rfl⟩ := List.mem_map.mp hcell
    have := length_encode_cell (h s hs)
    have := Scalar.size_le (h s hs)
    omega
  have hrow : (encode row).length ≤ _ :=
    Takes.length_encode_le (.cons (.repeatedMessage 1 hcell) .nil)
  refine hrow.trans ?_
  simp only [row, List.length_map, List.map_map, Function.comp_def, Nat.add_zero]
  clear hrow hcell row
  induction columns with
  | nil => simp
  | cons s columns ih =>
    have hrest := ih fun x hx => h x (by simp [hx])
    have := length_encode_cell (h s (by simp))
    simp only [List.length_cons, List.map_cons, List.sum_cons]
    omega

/-- The size of a listing of at most `bound` rows of at most `n` bytes. -/
theorem length_encode_orderBy {ρ κ α : Type} {key : ρ → κ} (tab : Table key) (column : ρ → α)
    (le : α → α → Prop) [DecidableRel le] {cells : ρ → List Scalar} {bound n : ℕ}
    (hlen : tab.rows.length ≤ bound) (hsmall : ∀ r ∈ tab.rows, ∀ s ∈ cells r, s.Small)
    (hsize : ∀ r ∈ tab.rows, ((cells r).map Scalar.size).sum ≤ n) (hn : n < 16384) :
    (encode (listing ((tab.orderBy column le).map cells))).length ≤ (3 + n) * bound := by
  have hperm := tab.orderBy_perm column le
  have hrow : ∀ m ∈ (listing ((tab.orderBy column le).map cells)).rows, (encode m).length ≤ n := by
    intro m hm
    simp only [listing, List.map_map, List.mem_map, Function.comp_apply] at hm
    obtain ⟨r, hr, rfl⟩ := hm
    have hr := hperm.mem_iff.mp hr
    exact (length_encode_row (hsmall r hr)).trans (hsize r hr)
  have hrows : (listing ((tab.orderBy column le).map cells)).rows.length = tab.rows.length := by
    simp [listing, hperm.length_eq]
  have hle : (encode (listing ((tab.orderBy column le).map cells))).length ≤ _ :=
    Takes.length_encode_le (.cons (.repeatedMessage_of_le 1 hrow (by omega)) .nil)
  rw [hrows] at hle
  exact hle.trans (Nat.mul_le_mul_left _ hlen)

section Sizes

variable {ledger : LedgerId} {supply : ℕ} {t : Tables} (hi : Invariant ledger supply t)

include hi

theorem metaCells_size : ∀ r ∈ t.metaRows.rows, ((metaCells r).map Scalar.size).sum ≤ 95 := by
  have hunit : testUnit.length = 23 := by decide
  rw [hi.metaRow]
  simp [metaCells, Scalar.size, hunit]

theorem accountCells_size : ∀ r ∈ t.accounts.rows, ((accountCells r).map Scalar.size).sum ≤ 66 := by
  intro r hr
  simp [accountCells, Scalar.size, hi.owner_length r hr]

theorem reservationCells_size :
    ∀ r ∈ t.reservations.rows, ((reservationCells r).map Scalar.size).sum ≤ 142 := by
  intro r hr
  have hv := hi.reservation r hr
  simp [reservationCells, Scalar.size, hv.id_length, hi.length_of_mem_owners hv.payer,
    hi.length_of_mem_owners hv.recipient]

theorem operationCells_size :
    ∀ r ∈ t.operations.rows, ((operationCells r).map Scalar.size).sum ≤ 4320 := by
  intro r hr
  have hv := hi.operation r hr
  have := hv.signed_le
  simp only [operationCells, Scalar.size, List.map_cons, List.map_nil, List.sum_cons, List.sum_nil,
    hv.id_length, hv.nonce_length, hv.hash_length, hi.length_of_mem_owners hv.signer,
    hi.length_of_mem_reservationIds hv.reservation]
  omega

/-- **The snapshot of a ledger is within its bound.** -/
theorem length_encode_snapshotOf : (encode (snapshotOf t)).length ≤ 6 * 1024 * 1024 := by
  have hmeta := length_encode_orderBy t.metaRows (·.singleton) (· ≤ ·)
    (show t.metaRows.rows.length ≤ 1 by rw [hi.metaRow]; rfl) (metaCells_small hi)
    (metaCells_size hi) (by decide)
  have haccounts := length_encode_orderBy t.accounts (·.owner) (· ≤ ·)
    hi.accounts_le (accountCells_small hi) (accountCells_size hi) (by decide)
  have hreservations := length_encode_orderBy t.reservations (·.id) (· ≤ ·)
    hi.reservations_le (reservationCells_small hi) (reservationCells_size hi) (by decide)
  have hoperations := length_encode_orderBy t.operations (·.sequence) (· ≤ ·)
    hi.operations_le (operationCells_small hi) (operationCells_size hi) (by decide)
  unfold maxAccounts at haccounts
  unfold maxOperations at hreservations hoperations
  have hall : ∀ l ∈ (snapshotOf t).tables, (encode l).length < 128 ^ (3 + 1) := by
    simp only [snapshotOf, List.mem_cons, List.not_mem_nil, or_false, forall_eq_or_imp, forall_eq]
    omega
  have hle : (encode (snapshotOf t)).length ≤ _ :=
    Takes.length_encode_le (.cons (.repeatedMessage 3 hall) .nil)
  refine hle.trans ?_
  simp only [snapshotOf, List.map_cons, List.map_nil, List.length_cons, List.length_nil,
    List.sum_cons, List.sum_nil]
  omega

theorem bytes_eq_ok : (snapshotOf t).bytes = .ok (encode (snapshotOf t)) := by
  rw [Snapshot.bytes, encodeCanonical_eq_ok.mpr ⟨length_encode_snapshotOf hi, rfl⟩]
  rfl

end Sizes

/-! ### The copy -/

/-- The rows of a table are inserted into an empty one, if each can be inserted after the others.
The insertions keep `P`. -/
theorem copy_listing {ρ κ α : Type} [DecidableEq κ] {key : ρ → κ} {tab : Table key} {column : ρ → α}
    {le : α → α → Prop} [DecidableRel le] {cells : ρ → List Scalar}
    {insert : Tables → List Scalar → Except Error Tables} {part : Tables → Table key}
    {P : Tables → Prop} {t₀ : Tables} (insertRow : Tables → ρ → Except Error Tables)
    (hinsert : ∀ t r, insert t (cells r) = insertRow t r)
    (hsmall : ∀ r ∈ tab.rows, ∀ s ∈ cells r, s.Small) (hempty : part t₀ = .empty) (h₀ : P t₀)
    (hstep : ∀ t₁ r, P t₁ → r ∈ tab.rows → (∀ x ∈ (part t₁).rows, x ∈ tab.rows) →
      (part t₁).lookup (key r) = none →
      ∃ t₂, insertRow t₁ r = .ok t₂ ∧ (part t₂).rows = (part t₁).rows ++ [r] ∧ P t₂) :
    ∃ t', insertListing insert t₀ (listing ((tab.orderBy column le).map cells)) = .ok t' ∧
      (part t').Same tab ∧ P t' := by
  have hperm := tab.orderBy_perm column le
  have hnodup := (hperm.map key).nodup_iff.mpr tab.nodup
  have hfold : ∃ t', (tab.orderBy column le).foldlM insertRow t₀ = .ok t' ∧
      (part t').rows = tab.orderBy column le ∧ P t' := by
    refine foldlM_exists (fun past t₁ => (part t₁).rows = past ∧ P t₁) ⟨by rw [hempty]; rfl, h₀⟩ ?_
    rintro past r rest t₁ hl ⟨rfl, hP⟩
    rw [hl, List.map_append, List.map_cons, List.nodup_append] at hnodup
    refine hstep t₁ r hP (hperm.mem_iff.mp (by rw [hl]; simp))
      (fun x hx => hperm.mem_iff.mp (by rw [hl]; simp [hx]))
      ((Table.lookup_eq_none _ _).mpr fun x hx => ?_)
    exact hnodup.2.2 (key x) (List.mem_map_of_mem hx) (key r) (by simp)
  obtain ⟨t', ht', hrows, hP⟩ := hfold
  refine ⟨t', ?_, ?_, hP⟩
  · rw [insertListing_listing insertRow hinsert fun r hr => hsmall r (hperm.mem_iff.mp hr), ht']
  · rwa [Table.Same, hrows]

section Copy

variable {ledger : LedgerId} {supply : ℕ} {t : Tables} (hi : Invariant ledger supply t)

include hi

theorem copy_meta : ∃ t₁, insertListing insertMetaValues .empty
    (listing ((t.metaRows.orderBy (·.singleton) (· ≤ ·)).map metaCells)) = .ok t₁ ∧
      t₁.metaRows.Same t.metaRows ∧
      t₁.accounts = .empty ∧ t₁.reservations = .empty ∧ t₁.operations = .empty := by
  refine copy_listing insertMeta (fun _ _ => rfl) (metaCells_small hi) rfl ⟨rfl, rfl, rfl⟩ ?_
  intro t₁ r hrest hmem _ hnone
  rw [hi.metaRow, List.mem_singleton] at hmem
  obtain ⟨metaRows, hrows, hok⟩ := insertMeta_eq_ok t₁ r (by rw [hmem]; exact hi.supply_le)
    (by rw [hmem]) (by rw [hmem]; exact FixedBytes.length_toBytes _) hnone
  exact ⟨_, hok, hrows, hrest⟩

theorem copy_accounts {t₁ : Tables} (ha : t₁.accounts = .empty) (hr : t₁.reservations = .empty)
    (ho : t₁.operations = .empty) : ∃ t₂, insertListing insertAccountValues t₁
    (listing ((t.accounts.orderBy (·.owner) (· ≤ ·)).map accountCells)) = .ok t₂ ∧
      t₂.accounts.Same t.accounts ∧
      t₂.metaRows = t₁.metaRows ∧ t₂.reservations = .empty ∧ t₂.operations = .empty := by
  refine copy_listing insertAccount (fun _ _ => rfl) (accountCells_small hi) ha ⟨rfl, hr, ho⟩ ?_
  intro t₂ r hrest hmem _ hnone
  have hbal := hi.balance_le hmem
  have hle := hi.supply_le
  obtain ⟨accounts, hrows, hok⟩ := insertAccount_eq_ok t₂ r (by omega) (by omega)
    (hi.owner_length r hmem) hnone
  exact ⟨_, hok, hrows, hrest⟩

theorem copy_reservations {t₂ : Tables} (ha : t₂.accounts.Same t.accounts)
    (hr : t₂.reservations = .empty) (ho : t₂.operations = .empty) :
    ∃ t₃, insertListing insertReservationValues t₂
      (listing ((t.reservations.orderBy (·.id) (· ≤ ·)).map reservationCells)) = .ok t₃ ∧
      t₃.reservations.Same t.reservations ∧
      t₃.metaRows = t₂.metaRows ∧ t₃.accounts = t₂.accounts ∧ t₃.operations = .empty := by
  refine copy_listing insertReservation (fun _ _ => rfl) (reservationCells_small hi) hr
    ⟨rfl, rfl, ho⟩ ?_
  intro t₃ r hrest hmem _ hnone
  have hv := hi.reservation r hmem
  obtain ⟨reservations, hrows, -, hok⟩ := insertReservation_eq_ok t₃ r hv.units_pos
    hv.units_le hv.id_length hv.state
    (by rw [hrest.2.1, ha.lookup]; exact (t.accounts.lookup_ne_none _).mpr hv.payer)
    (by rw [hrest.2.1, ha.lookup]; exact (t.accounts.lookup_ne_none _).mpr hv.recipient) hnone
  exact ⟨_, hok, hrows, hrest⟩

theorem sequence_injOn : ∀ r ∈ t.operations.rows, ∀ r' ∈ t.operations.rows,
    r.sequence = r'.sequence → r = r' := by
  intro r hr r' hr' heq
  refine List.inj_on_of_nodup_map ?_ hr hr' heq
  rw [hi.sequence]
  exact List.nodup_range'

theorem copy_operations {t₃ : Tables} (ha : t₃.accounts.Same t.accounts)
    (hr : t₃.reservations.Same t.reservations) (ho : t₃.operations = .empty) :
    ∃ t₄, insertListing insertOperationValues t₃
      (listing ((t.operations.orderBy (·.sequence) (· ≤ ·)).map operationCells)) = .ok t₄ ∧
      t₄.operations.Same t.operations ∧
      t₄.metaRows = t₃.metaRows ∧ t₄.accounts = t₃.accounts ∧ t₄.reservations =
        t₃.reservations := by
  refine copy_listing insertOperation (fun _ _ => rfl) (operationCells_small hi) ho
    ⟨rfl, rfl, rfl⟩ ?_
  intro t₄ r hrest hmem hold hnone
  have hv := hi.operation r hmem
  have hseq := hi.sequence_le hmem
  have hle := hi.operations_le
  have hne : ∀ o ∈ t₄.operations.rows, o ≠ r := fun o ho heq =>
    (Table.lookup_eq_none _ _).mp hnone o ho (congrArg OperationRow.id heq)
  obtain ⟨operations, hrows, hok⟩ := insertOperation_eq_ok t₄ r hseq.1
    (by unfold maxOperations at hle; unfold maxUnits; omega) hv.id_length hv.nonce_length
      hv.signed_pos
    hv.signed_le hv.hash_length hv.state
    (by rw [hrest.2.1, ha.lookup]; exact (t.accounts.lookup_ne_none _).mpr hv.signer)
    (by rw [hrest.2.2, hr.lookup]; exact (t.reservations.lookup_ne_none _).mpr hv.reservation)
    (fun o ho heq => hne o ho (sequence_injOn hi o (hold o ho) r hmem heq))
    (fun o ho hsigner hn => hne o ho (List.inj_on_of_nodup_map hi.nonce (hold o ho) hmem
      (Prod.ext hsigner hn))) hnone
  exact ⟨_, hok, hrows, hrest⟩

/-- **The in-memory copy has the rows of the ledger.** -/
theorem memoryCopy_spec : ∃ t', (snapshotOf t).memoryCopy = .ok t' ∧ t.Same t' := by
  obtain ⟨t₁, h₁, hm₁, ha₁, hr₁, ho₁⟩ := copy_meta hi
  obtain ⟨t₂, h₂, ha₂, hm₂, hr₂, ho₂⟩ := copy_accounts hi ha₁ hr₁ ho₁
  obtain ⟨t₃, h₃, hr₃, hm₃, ha₃, ho₃⟩ := copy_reservations hi ha₂ hr₂ ho₂
  rw [← ha₃] at ha₂
  obtain ⟨t₄, h₄, ho₄, hm₄, ha₄, hr₄⟩ := copy_operations hi ha₂ hr₃ ho₃
  rw [← ha₄] at ha₂
  rw [← hr₄] at hr₃
  rw [← hm₂, ← hm₃, ← hm₄] at hm₁
  have hsame : t.Same t₄ := ⟨hm₁.symm, ha₂.symm, hr₃.symm, ho₄.symm⟩
  refine ⟨t₄, ?_, hsame⟩
  simp only [Snapshot.memoryCopy, snapshotOf, List.zip_cons_cons, List.zip_nil_left,
    List.foldlM_cons, List.foldlM_nil, h₁, h₂, h₃, h₄, ok_bind, pure_ok]
  rw [← validateAccounting_same hsame, hi.validateAccounting, ok_bind]

/-- **The listing does not depend on the order of the rows.** -/
theorem capture_same {t' : Tables} (h : t.Same t') : Snapshot.capture t = Snapshot.capture t' := by
  rw [Snapshot.capture, Snapshot.capture, validateAccounting_same h,
    h.metaRows.orderBy (· ≤ ·) fun r hr r' hr' => t.metaRows.eq_of_key_eq hr hr',
    h.accounts.orderBy (· ≤ ·) fun r hr r' hr' => t.accounts.eq_of_key_eq hr hr',
    h.reservations.orderBy (· ≤ ·) fun r hr r' hr' => t.reservations.eq_of_key_eq hr hr',
    h.operations.orderBy (· ≤ ·) (sequence_injOn hi)]

end Copy

end Volparossa.Ordered
