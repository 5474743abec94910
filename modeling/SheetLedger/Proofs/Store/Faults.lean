import SheetLedger.Proofs.Store.Log
import SheetLedger.Proofs.Store.Table

/-!
# What a failing snapshot complains about

The query for the current rows selects the newest row of every slot. If a selected row holds no
cell, the snapshot fails, with the complaint about the first such row (`Journal.Complains`). A store
*reports* if its snapshots fail with this complaint and no other (`ReportingStore`), as log stores,
which never fail, and table stores do.

A row that holds a cell is newer than all rows without one, so what is appended to a slot can silence
the complaint about it, and does so exactly where no cell was to be read before. Appended anywhere
else, rows leave the complaint as it is (`Journal.complains_append`).
-/

namespace SheetLedger

namespace Journal

variable {journal : Journal} {row : TableRow} {rows : List Cell} {cause : StoreError}

/-- A row that is the newest one of its slot. -/
def Selects (journal : Journal) (row : TableRow) : Prop :=
  row ∈ journal ∧ ∀ other ∈ journal, other.column = row.column ∧ other.row = row.row →
    other = row ∨ other.older row = true

/-- The complaint about the first selected row that holds no cell. -/
def Complains (journal : Journal) (cause : StoreError) : Prop :=
  ∃ row, journal.Selects row ∧ row.toCell = .error cause ∧
    ∀ other, journal.Selects other → (∃ c, other.toCell = .error c) → row.id ≤ other.id

/-- In a readable journal each slot by itself is readable. -/
theorem Readable.rowsAt (h : journal.Readable) (slot : Slot) : (journal.rowsAt slot).Readable := by
  intro row hrow
  rcases mem_rowsAt.1 hrow with ⟨hmem, hslot⟩
  rcases h row hmem with ⟨cell, hcell, hcolumn, hindex⟩
  have hat := mem_rowsAt.2 ⟨hcell, hcolumn.symm.trans hslot.1, hindex.symm.trans hslot.2⟩
  exact ⟨cell, hat, hcolumn, hindex⟩

theorem ne_ofCell_of_toCell (h : row.toCell = .error cause) (cell : Cell) :
    row ≠ TableRow.ofCell cell := by
  intro heq
  rw [TableRow.toCell_eq_ok_iff.2 heq] at h
  cases h

/-- A row without a cell is not selected where a cell is to be read. -/
theorem not_selects_of_readable {slot : Slot} (h : row.toCell = .error cause)
    (hslot : row ∈ journal.rowsAt slot) (hreadable : (journal.rowsAt slot).Readable) :
    ¬ journal.Selects row := by
  rintro ⟨-, hall⟩
  rcases hreadable row hslot with ⟨cell, hcell, hcolumn, hrow⟩
  have hmem := (mem_rowsAt.1 hcell).1
  rcases hall _ hmem ⟨hcolumn.symm, hrow.symm⟩ with heq | holder
  · exact ne_ofCell_of_toCell h cell heq.symm
  · -- the version of the row is not below that of a cell, so no number of the row is negative
    rw [TableRow.older_iff] at holder
    simp only [TableRow.ofCell] at holder
    have hholds : ∃ c, row = TableRow.ofCell c :=
      TableRow.exists_eq_ofCell (by omega) (by omega) (by omega)
    exact hholds.elim (ne_ofCell_of_toCell h)

/-- Which rows without a cell are selected does not change, unless a row is appended to a slot at
which no cell was to be read. -/
theorem selects_append (h : row.toCell = .error cause)
    (hreadable : ∀ cell ∈ rows, (journal.rowsAt cell.slot).Readable) :
    Selects (journal ++ rows.map TableRow.ofCell) row ↔ journal.Selects row := by
  constructor
  · rintro ⟨hmem, hall⟩
    refine ⟨?_, fun other hother => hall other (List.mem_append_left _ hother)⟩
    rcases List.mem_append.1 hmem with hold | hnew
    · exact hold
    · rcases List.mem_map.1 hnew with ⟨cell, -, heq⟩
      exact absurd heq.symm (ne_ofCell_of_toCell h cell)
  · intro hselects
    refine ⟨List.mem_append_left _ hselects.1, ?_⟩
    intro other hother hslot
    rcases List.mem_append.1 hother with hold | hnew
    · exact hselects.2 other hold hslot
    · rcases List.mem_map.1 hnew with ⟨cell, hcell, rfl⟩
      have hat : row ∈ journal.rowsAt cell.slot :=
        mem_rowsAt.2 ⟨hselects.1, hslot.1.symm, hslot.2.symm⟩
      exact absurd hselects (not_selects_of_readable h hat (hreadable cell hcell))

theorem complains_append (hreadable : ∀ cell ∈ rows, (journal.rowsAt cell.slot).Readable) :
    Complains (journal ++ rows.map TableRow.ofCell) cause ↔ journal.Complains cause := by
  have hsame : ∀ {row : TableRow} {c : StoreError}, row.toCell = .error c →
      (Selects (journal ++ rows.map TableRow.ofCell) row ↔ journal.Selects row) :=
    fun h => selects_append h hreadable
  constructor
  · rintro ⟨row, hselects, hrow, hfirst⟩
    refine ⟨row, (hsame hrow).1 hselects, hrow, ?_⟩
    rintro other hother ⟨c, hc⟩
    exact hfirst other ((hsame hc).2 hother) ⟨c, hc⟩
  · rintro ⟨row, hselects, hrow, hfirst⟩
    refine ⟨row, (hsame hrow).2 hselects, hrow, ?_⟩
    rintro other hother ⟨c, hc⟩
    exact hfirst other ((hsame hc).1 hother) ⟨c, hc⟩

end Journal

/-- Rows are read up to the first one that holds no cell. -/
theorem TableRow.mapM_toCell_eq_error_iff {rows : List TableRow} {cause : StoreError}
    (h : rows.Pairwise fun a b => a.id < b.id) :
    rows.mapM toCell = .error cause ↔ ∃ row ∈ rows, row.toCell = .error cause ∧
      ∀ other ∈ rows, (∃ c, other.toCell = .error c) → row.id ≤ other.id := by
  induction rows with
  | nil => simp [pure, Except.pure]
  | cons row rest ih =>
    rcases List.pairwise_cons.1 h with ⟨hrow, hrest⟩
    rw [List.mapM_cons]
    cases hread : row.toCell with
    | error complaint =>
      simp only [bind, Except.bind, Except.error.injEq]
      constructor
      · rintro rfl
        refine ⟨row, List.mem_cons_self, hread, ?_⟩
        intro other hother _
        rcases List.mem_cons.1 hother with rfl | hin
        · exact Nat.le_refl _
        · exact Nat.le_of_lt (hrow other hin)
      · rintro ⟨first, hmem, hfirst, hall⟩
        -- no row comes before this one
        have hle := hall row List.mem_cons_self ⟨complaint, hread⟩
        rcases List.mem_cons.1 hmem with rfl | hin
        · exact Except.error.inj (hread.symm.trans hfirst)
        · have hlt := hrow first hin
          omega
    | ok cell =>
      have hrefuses : ∀ {c : StoreError}, row.toCell ≠ .error c := by
        intro c hc
        rw [hread] at hc
        cases hc
      have hskip : (do let cells ← rest.mapM toCell; pure (cell :: cells)) =
          (.error cause : Except StoreError (List Cell)) ↔ rest.mapM toCell = .error cause := by
        cases rest.mapM toCell <;> simp [bind, Except.bind, pure, Except.pure]
      refine hskip.trans ((ih hrest).trans ?_)
      constructor
      · rintro ⟨first, hin, hfirst, hall⟩
        refine ⟨first, List.mem_cons_of_mem _ hin, hfirst, ?_⟩
        rintro other hother ⟨c, hc⟩
        rcases List.mem_cons.1 hother with rfl | hmem
        · exact absurd hc hrefuses
        · exact hall other hmem ⟨c, hc⟩
      · rintro ⟨first, hmem, hfirst, hall⟩
        rcases List.mem_cons.1 hmem with rfl | hin
        · exact absurd hfirst hrefuses
        · exact ⟨first, hin, hfirst, fun other hother => hall other (List.mem_cons_of_mem _ hother)⟩

open JournaledStore

/-- A lawful store whose snapshots fail with the complaint about the first current row that holds no
cell. -/
class ReportingStore (σ : Type) [CellStore σ] extends LawfulStore σ where
  snapshotAt_eq_error_iff {store : σ} {sheet : String} {version : Nat} {cause : StoreError} :
    Sound store → (CellStore.snapshotAt store sheet version = .error cause ↔
      ((journal store sheet).asOf version).Complains cause)

/-- The rows of a log all hold cells. -/
instance : ReportingStore LogStore where
  snapshotAt_eq_error_iff {store sheet version cause} _ := by
    constructor
    · intro h
      cases h
    · rintro ⟨row, hselects, hrow, -⟩
      rcases List.mem_map.1 (Journal.mem_asOf.1 hselects.1).1 with ⟨cell, -, heq⟩
      exact absurd heq.symm (Journal.ne_ofCell_of_toCell hrow cell)

namespace TableStore

theorem mem_currentAsOf_iff_selects {store : TableStore} (h : store.Sound) {sheet : String}
    {version : Nat} {row : TableRow} : row ∈ store.currentAsOf sheet version ↔
      ((journal store sheet).asOf version).Selects row := by
  rw [mem_currentAsOf h, Journal.Selects, Journal.mem_asOf]
  refine and_congr_right fun _ => forall_congr' fun other => ?_
  rw [Journal.mem_asOf]
  constructor
  · intro hall hother hslot
    exact hall hother.1 hslot hother.2
  · intro hall hother hslot hversion
    exact hall ⟨hother, hversion⟩ hslot

instance : ReportingStore TableStore where
  snapshotAt_eq_error_iff {store sheet version cause} h := by
    simp only [CellStore.snapshotAt, TableStore.snapshotAt]
    rw [currentAsOf_min h, TableRow.mapM_toCell_eq_error_iff (increasing_currentAsOf h _ _)]
    simp only [mem_currentAsOf_iff_selects h]
    rfl

end TableStore

end SheetLedger
