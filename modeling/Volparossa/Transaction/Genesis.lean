import Volparossa.Transaction.Invariant

/-!
# Genesis

What an accepted genesis is (`Admissible`), and the tables it initializes (`Tables.IsGenesis`): one
account for each entry, fully available, and nothing else. They satisfy the ledger invariant with
the sum of the funding as the supply.
-/

namespace Volparossa.Transaction

/-- The funding of a list of genesis accounts. -/
def totalUnits (accounts : List GenesisAccount) : ℕ := (accounts.map (·.units)).sum

/-- The rows of the genesis accounts. -/
def genesisRows (accounts : List GenesisAccount) : List AccountRow :=
  accounts.map fun a => ⟨a.owner.toBytes, a.units, 0⟩

/-- What the check of a genesis requires. -/
structure Admissible (ledger : LedgerId) (accounts : List GenesisAccount) : Prop where
  ledger_ne : ledger ≠ FixedBytes.zero 32
  nonempty : accounts ≠ []
  length_le : accounts.length ≤ maxAccounts
  owners : (accounts.map (·.owner)).Nodup
  supply_le : totalUnits accounts ≤ maxUnits

/-- The tables of a new ledger. -/
structure Tables.IsGenesis (ledger : LedgerId) (accounts : List GenesisAccount) (t : Tables) :
    Prop where
  metaRow : t.metaRows.rows = [⟨1, ledger.toBytes, testUnit, totalUnits accounts⟩]
  accounts : t.accounts.rows = genesisRows accounts
  reservations : t.reservations.rows = []
  operations : t.operations.rows = []

section

variable {crypto : Crypto} {ledger : LedgerId} {accounts : List GenesisAccount}

/-- The loop over the genesis accounts: the keys seen, and their funding. -/
theorem foldlM_addGenesisAccount {s : List AccountId × ℕ}
    (h : accounts.foldlM (addGenesisAccount crypto) ([], 0) = .ok s) :
    s.1 = (accounts.map (·.owner)).reverse ∧ s.1.Nodup ∧ s.2 = totalUnits accounts ∧
      s.2 ≤ maxUnits := by
  refine foldlM_invariant (fun past s => s.1 = (past.map (·.owner)).reverse ∧ s.1.Nodup ∧
    s.2 = totalUnits past ∧ s.2 ≤ maxUnits) (fun past a s s' hs h => ?_)
    ⟨rfl, .nil, rfl, Nat.zero_le _⟩ h
  obtain ⟨hseen, hnodup, hsum, -⟩ := hs
  simp only [addGenesisAccount, ok_iff, Option.filter_eq_some_iff, checkedAdd_eq_some,
    decide_eq_true_eq] at h
  obtain ⟨_, hguard, supply, ⟨⟨-, rfl⟩, hle⟩, rfl⟩ := h
  exact ⟨by simp [hseen], List.nodup_cons.mpr ⟨fun hmem => hguard (.inr (.inr hmem)), hnodup⟩,
    by simp [totalUnits, hsum], hle⟩

theorem genesisSupply_eq_ok {supply : ℕ} (h : genesisSupply crypto ledger accounts = .ok supply) :
    Admissible ledger accounts ∧ supply = totalUnits accounts := by
  simp only [genesisSupply, ok_iff] at h
  obtain ⟨-, hguard, s, hfold, rfl⟩ := h
  obtain ⟨hseen, hnodup, hsum, hle⟩ := foldlM_addGenesisAccount hfold
  refine ⟨⟨fun h => hguard (Or.inl h), fun h => hguard (Or.inr (Or.inl h)), ?_,
    List.nodup_reverse.mp (hseen ▸ hnodup), hsum ▸ hle⟩, hsum⟩
  by_contra hlen
  exact hguard (Or.inr (Or.inr (by omega)))

/-- The loop that inserts the genesis accounts. -/
theorem foldlM_insertAccount {t t' : Tables}
    (h : accounts.foldlM (fun t a => insertAccount t ⟨a.owner.toBytes, a.units, 0⟩) t = .ok t') :
    t'.metaRows = t.metaRows ∧ t'.accounts.rows = t.accounts.rows ++ genesisRows accounts ∧
      t'.reservations = t.reservations ∧ t'.operations = t.operations := by
  refine foldlM_invariant (fun past t' => t'.metaRows = t.metaRows ∧
    t'.accounts.rows = t.accounts.rows ++ genesisRows past ∧ t'.reservations = t.reservations ∧
    t'.operations = t.operations) (fun past a t₁ t₂ ht₁ h => ?_) ⟨rfl, by
      simp [genesisRows], rfl, rfl⟩ h
  simp only [insertAccount, ok_iff] at h
  obtain ⟨-, -, -, -, -, -, rows, hrows, rfl⟩ := h
  refine ⟨ht₁.1, ?_, ht₁.2.2⟩
  rw [Table.rows_insert hrows, ht₁.2.1]
  simp [genesisRows]

/-- The tables of a new ledger satisfy the invariant. -/
theorem Tables.IsGenesis.invariant {t : Tables} (ht : t.IsGenesis ledger accounts)
    (ha : Admissible ledger accounts) : Invariant ledger (totalUnits accounts) t := by
  have hlen : t.accounts.rows.length = accounts.length := by
    rw [ht.accounts, genesisRows, List.length_map]
  refine ⟨ht.metaRow, ha.supply_le, hlen ▸ List.length_pos_of_ne_nil ha.nonempty,
    hlen ▸ ha.length_le, ?_, ?_, ?_, ?_, ?_, ?_, ?_, ?_⟩
  · intro a h
    rw [ht.accounts, genesisRows, List.mem_map] at h
    obtain ⟨b, -, rfl⟩ := h
    exact FixedBytes.length_toBytes _
  · simp [ht.reservations]
  · simp [ht.operations]
  · simp [ht.operations]
  · simp [ht.operations]
  · rw [Table.sum, ht.accounts, genesisRows, List.map_map, totalUnits]
    rfl
  · intro a h
    rw [ht.accounts, genesisRows, List.mem_map] at h
    obtain ⟨b, -, rfl⟩ := h
    simp [Tables.pendingUnits, Table.sumWhere, ht.reservations]
  · simp [Tables.pending, Table.count, ht.reservations, ht.operations]

/-- **What a new database holds.** -/
theorem createMode_eq_ok {mode : Mode} {init : Tables → Except Error (Option Checkpoint)}
    {d : Database} (h : createMode crypto ledger accounts mode init = .ok d) :
    Admissible ledger accounts ∧ d.tables.IsGenesis ledger accounts ∧
      init d.tables = .ok d.checkpoint ∧ d.applicationId = applicationId mode ∧
      d.userVersion = 1 := by
  simp only [createMode, ok_iff] at h
  obtain ⟨supply, hsupply, t₀, hmeta, t, haccounts, -, -, checkpoint, hcheckpoint, rfl⟩ := h
  obtain ⟨hadm, rfl⟩ := genesisSupply_eq_ok hsupply
  simp only [insertMeta, ok_iff] at hmeta
  obtain ⟨-, -, -, -, rows, hrows, rfl⟩ := hmeta
  obtain ⟨hm, ha, hr, ho⟩ := foldlM_insertAccount haccounts
  refine ⟨hadm, ⟨?_, ?_, ?_, ?_⟩, hcheckpoint, rfl, rfl⟩
  · rw [hm, Table.rows_insert hrows]
    rfl
  · rw [ha]
    rfl
  · rw [hr]
    rfl
  · rw [ho]
    rfl

end

end Volparossa.Transaction
