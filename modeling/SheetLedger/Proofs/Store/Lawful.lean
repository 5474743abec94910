import SheetLedger.Proofs.Recency
import SheetLedger.Store.Table

/-!
# Lawful stores

What the reads of a store answer about a spreadsheet depends on one thing only: the *journal* of the
spreadsheet, the list of all rows ever appended to it. A store is *lawful* if this is so and if
appending a row adds it to the end of the journal, under the next id, or fails and changes nothing.

The rows of a journal are rows of a table, whose numbers may be negative if something else than the
store has written them. Such a row holds no cell. The current rows can be read as long as every
slot with a row has one that holds a cell (`Journal.Readable`), and are then the current ones of the
cells in the journal.
-/

namespace SheetLedger

namespace TableRow

/-- The row that holds a cell. -/
def ofCell (cell : Cell) : TableRow where
  id := cell.id
  sheet := cell.sheet
  column := cell.slot.column
  row := cell.slot.row
  raw := cell.raw
  computed := cell.computed
  version := cell.version

theorem number_eq_ok_iff {index : Nat} {value : Int} {n : Nat} :
    number index value = .ok n ↔ value = n := by
  unfold number
  by_cases h : value < 0
  · simp only [h, if_true, reduceCtorEq, false_iff]
    omega
  · simp only [h, if_false, Except.ok.injEq]
    omega

/-- A row is read as a cell exactly if it is the row that holds it. -/
theorem toCell_eq_ok_iff {row : TableRow} {cell : Cell} :
    row.toCell = .ok cell ↔ row = ofCell cell := by
  constructor
  · intro h
    unfold toCell at h
    cases hc : number 2 row.column with
    | error cause => simp [hc, bind, Except.bind] at h
    | ok column =>
      cases hr : number 3 row.row with
      | error cause => simp [hc, hr, bind, Except.bind] at h
      | ok rowIndex =>
        cases hv : number 6 row.version with
        | error cause => simp [hc, hr, hv, bind, Except.bind] at h
        | ok version =>
          simp only [hc, hr, hv, bind, Except.bind, pure, Except.pure, Except.ok.injEq] at h
          rw [number_eq_ok_iff] at hc hr hv
          rcases row with ⟨id, sheet, _, _, raw, computed, _⟩
          subst h hc hr hv
          rfl
  · rintro rfl
    have hnumber : ∀ (index n : Nat), number index (n : Int) = .ok n := by
      intro index n
      exact number_eq_ok_iff.2 rfl
    simp [toCell, ofCell, hnumber, bind, Except.bind, pure, Except.pure]

theorem ofCell_injective {a b : Cell} (h : ofCell a = ofCell b) : a = b := by
  have ha : (ofCell a).toCell = .ok a := toCell_eq_ok_iff.2 rfl
  rw [toCell_eq_ok_iff.2 h] at ha
  exact (Except.ok.inj ha).symm

/-- The row that holds a cell stands where the cell does. -/
theorem ofCell_at_iff {cell : Cell} {slot : Slot} :
    (ofCell cell).column = slot.column ∧ (ofCell cell).row = slot.row ↔ cell.slot = slot := by
  simp only [ofCell, Slot.ext_iff]
  omega

end TableRow

/-- All rows of a spreadsheet, in the order in which they were appended. -/
abbrev Journal := List TableRow

namespace Journal

/-- The cells that the rows hold. -/
def cells (journal : Journal) : List Cell :=
  List.filterMap (fun row => row.toCell.toOption) journal

/-- The rows up to a version. -/
def asOf (journal : Journal) (version : Nat) : Journal :=
  List.filter (fun row => row.version ≤ version) journal

/-- The rows at a slot. -/
def rowsAt (journal : Journal) (slot : Slot) : Journal :=
  List.filter (fun row => row.column = slot.column ∧ row.row = slot.row) journal

/-- Every slot with a row has a row that holds a cell. -/
def Readable (journal : Journal) : Prop :=
  ∀ row ∈ journal, ∃ cell, TableRow.ofCell cell ∈ journal ∧
    row.column = cell.slot.column ∧ row.row = cell.slot.row

variable {journal more : Journal}

theorem toOption_toCell (cell : Cell) : (TableRow.ofCell cell).toCell.toOption = some cell := by
  rw [TableRow.toCell_eq_ok_iff.2 rfl]
  rfl

theorem mem_cells {cell : Cell} : cell ∈ journal.cells ↔ TableRow.ofCell cell ∈ journal := by
  simp only [cells, List.mem_filterMap]
  constructor
  · rintro ⟨row, hmem, hrow⟩
    cases hcell : row.toCell with
    | error cause => simp [hcell, Except.toOption] at hrow
    | ok read =>
      have hread : read = cell := by simpa [hcell, Except.toOption] using hrow
      rw [hread, TableRow.toCell_eq_ok_iff] at hcell
      exact hcell ▸ hmem
  · intro hmem
    exact ⟨_, hmem, toOption_toCell cell⟩

@[simp] theorem cells_append : cells (journal ++ more) = journal.cells ++ more.cells :=
  List.filterMap_append

@[simp] theorem cells_map_ofCell (rows : List Cell) : cells (rows.map TableRow.ofCell) = rows := by
  unfold cells
  rw [List.filterMap_map]
  have hsome : (fun row : TableRow => row.toCell.toOption) ∘ TableRow.ofCell = some := by
    funext cell
    exact toOption_toCell cell
  rw [hsome, List.filterMap_some]

/-- The cells of a journal stand in the order of the ids of its rows. -/
theorem increasing_cells (h : journal.Pairwise fun a b => a.id < b.id) :
    journal.cells.Pairwise fun a b => a.id < b.id := by
  -- a row and the cell that it holds have one id
  refine List.Pairwise.filterMap _ ?_ h
  intro a b hab x hx y hy
  have hofCell : ∀ {row : TableRow} {cell : Cell}, row.toCell.toOption = some cell →
      row = TableRow.ofCell cell := by
    intro row cell hrow
    cases hcell : row.toCell with
    | error cause => simp [hcell, Except.toOption] at hrow
    | ok read =>
      have hread : read = cell := by simpa [hcell, Except.toOption] using hrow
      exact TableRow.toCell_eq_ok_iff.1 (hread ▸ hcell)
  rw [hofCell hx, hofCell hy] at hab
  exact hab

/-- Rows that hold cells leave a readable journal readable. -/
theorem Readable.append (h : journal.Readable) (rows : List Cell) :
    Readable (journal ++ rows.map TableRow.ofCell) := by
  intro row hrow
  rcases List.mem_append.1 hrow with hmem | hmem
  · rcases h row hmem with ⟨cell, hcell, hslot⟩
    exact ⟨cell, List.mem_append_left _ hcell, hslot⟩
  · rcases List.mem_map.1 hmem with ⟨cell, hcell, rfl⟩
    exact ⟨cell, hrow, rfl, rfl⟩

theorem mem_asOf {version : Nat} {row : TableRow} :
    row ∈ journal.asOf version ↔ row ∈ journal ∧ row.version ≤ version := by
  simp [asOf]

theorem cells_asOf (version : Nat) :
    (journal.asOf version).cells = journal.cells.filter (·.version ≤ version) := by
  unfold cells asOf
  rw [List.filter_filterMap, List.filterMap_filter]
  congr 1
  funext row
  cases hcell : row.toCell with
  | error cause => simp [Except.toOption]
  | ok cell =>
    rw [TableRow.toCell_eq_ok_iff] at hcell
    subst hcell
    simp [Except.toOption, TableRow.ofCell, Option.filter]

/-- Rows that hold cells are rows up to a version if the cells are. -/
theorem asOf_append (version : Nat) (rows : List Cell) :
    asOf (journal ++ rows.map TableRow.ofCell) version =
      journal.asOf version ++ (rows.filter (·.version ≤ version)).map TableRow.ofCell := by
  unfold asOf
  rw [List.filter_append, List.filter_map]
  congr 2
  refine List.filter_congr ?_
  intro row _
  simp [TableRow.ofCell]

theorem mem_rowsAt {slot : Slot} {row : TableRow} :
    row ∈ journal.rowsAt slot ↔ row ∈ journal ∧ row.column = slot.column ∧ row.row = slot.row := by
  simp [rowsAt]

theorem rowsAt_append (slot : Slot) :
    rowsAt (journal ++ more) slot = journal.rowsAt slot ++ more.rowsAt slot :=
  List.filter_append _ _

/-- Rows that hold cells stand at a slot if the cells do. -/
theorem rowsAt_map_ofCell (rows : List Cell) (slot : Slot) :
    rowsAt (rows.map TableRow.ofCell) slot = (rows.filter (·.slot = slot)).map TableRow.ofCell := by
  unfold rowsAt
  rw [List.filter_map]
  congr 1
  refine List.filter_congr ?_
  intro cell _
  exact decide_eq_decide.2 TableRow.ofCell_at_iff

end Journal

/-! ## Stores with a journal -/

/-- A store whose rows can be seen. -/
class JournaledStore (σ : Type) where
  /-- The numbers that the store can hold in a row. -/
  Holds : Nat → Prop
  /-- The states that appending rows to an empty store can lead to, at the least. -/
  Sound : σ → Prop
  /-- The id given last. -/
  lastId : σ → Nat
  /-- The rows of a spreadsheet. -/
  journal : σ → String → Journal

namespace JournaledStore

variable {σ : Type} [JournaledStore σ]

/-- The cells stored in a spreadsheet, superseded ones included. -/
def cells (store : σ) (sheet : String) : List Cell := (journal store sheet).cells

/-- The store can hold the numbers of a slot. -/
def FitsSlot (σ : Type) [JournaledStore σ] (slot : Slot) : Prop :=
  Holds σ slot.column ∧ Holds σ slot.row

/-- The store can hold the numbers of a cell. -/
def Fits (σ : Type) [JournaledStore σ] (cell : Cell) : Prop :=
  FitsSlot σ cell.slot ∧ Holds σ cell.version

/-- A later state of a store has some more rows, in order, under the next ids. -/
structure Appends (store later : σ) (rows : List Cell) : Prop where
  sound : Sound later
  ids : rows.map (·.id) = List.range' (lastId store + 1) rows.length
  lastId_eq : lastId later = lastId store + rows.length
  journal_eq : ∀ sheet, journal later sheet =
    journal store sheet ++ (rows.filter (·.sheet = sheet)).map TableRow.ofCell

/-- A cell of a spreadsheet that a later state of a store has and an earlier one has not. -/
def Added (store later : σ) (sheet : String) (cell : Cell) : Prop :=
  cell ∈ cells later sheet ∧ cell ∉ cells store sheet

/-- Cells under consecutive ids. -/
def numbered (firstId : Nat) (cells : List Cell) : List Cell :=
  cells.zipWith (fun cell id => { cell with id := id }) (List.range' firstId cells.length)

theorem mem_numbered {firstId : Nat} {cells : List Cell} {row : Cell}
    (h : row ∈ numbered firstId cells) : ∃ cell ∈ cells, row = { cell with id := row.id } := by
  induction cells generalizing firstId with
  | nil => cases h
  | cons cell rest ih =>
    rcases List.mem_cons.1 h with rfl | hmem
    · exact ⟨cell, List.mem_cons_self, rfl⟩
    · rcases ih hmem with ⟨c, hc, hrow⟩
      exact ⟨c, List.mem_cons_of_mem _ hc, hrow⟩

/-- The numbering changes the ids and nothing else. -/
theorem map_numbered {α : Type} {f : Cell → α}
    (hf : ∀ cell id, f { cell with id := id } = f cell) (firstId : Nat) (cells : List Cell) :
    (numbered firstId cells).map f = cells.map f := by
  induction cells generalizing firstId with
  | nil => rfl
  | cons cell rest ih =>
    show f _ :: (numbered (firstId + 1) rest).map f = _
    rw [hf, ih]
    rfl

/-- Cells that have consecutive ids already keep them. -/
theorem numbered_eq_self {firstId : Nat} {cells : List Cell}
    (h : cells.map (·.id) = List.range' firstId cells.length) : numbered firstId cells = cells := by
  induction cells generalizing firstId with
  | nil => rfl
  | cons cell rest ih =>
    rw [List.map_cons, List.length_cons, List.range'_succ, List.cons.injEq] at h
    show { cell with id := firstId } :: numbered (firstId + 1) rest = _
    rw [ih h.2, ← h.1]

namespace Appends

variable {store later latest : σ} {rows more : List Cell}

theorem nil (h : Sound store) : Appends store store [] :=
  ⟨h, rfl, rfl, fun _ => by simp⟩

theorem append (h : Appends store later rows) (hmore : Appends later latest more) :
    Appends store latest (rows ++ more) where
  sound := hmore.sound
  -- the second range of ids begins where the first one ends
  ids := by
    rw [List.map_append, h.ids, hmore.ids, h.lastId_eq, List.length_append,
      ← List.range'_append_1]
    congr 2
    omega
  lastId_eq := by rw [hmore.lastId_eq, h.lastId_eq, List.length_append, Nat.add_assoc]
  journal_eq sheet := by
    rw [hmore.journal_eq, h.journal_eq, List.filter_append, List.map_append, List.append_assoc]

theorem increasing_ids (h : Appends store later rows) :
    rows.Pairwise fun a b => a.id < b.id := by
  refine List.pairwise_map.1 ?_
  rw [h.ids]
  exact List.pairwise_lt_range'

/-- New rows have ids above all that were given. -/
theorem lastId_lt (h : Appends store later rows) {row : Cell} (hrow : row ∈ rows) :
    lastId store < row.id := by
  have hid : row.id ∈ rows.map (·.id) := List.mem_map_of_mem hrow
  rw [h.ids, List.mem_range'_1] at hid
  omega

theorem mem_journal (h : Appends store later rows) {row : Cell} (hrow : row ∈ rows) :
    TableRow.ofCell row ∈ journal later row.sheet := by
  rw [h.journal_eq]
  refine List.mem_append_right _ (List.mem_map_of_mem ?_)
  exact List.mem_filter.2 ⟨hrow, decide_eq_true rfl⟩

/-- Rows that are all of one spreadsheet are the ones its cells gain. -/
theorem cells_eq {sheet : String} (h : Appends store later rows)
    (hsheet : ∀ row ∈ rows, row.sheet = sheet) : cells later sheet = cells store sheet ++ rows := by
  have hall : rows.filter (·.sheet = sheet) = rows := by
    rw [List.filter_eq_self]
    intro row hrow
    exact decide_eq_true (hsheet row hrow)
  rw [cells, h.journal_eq, Journal.cells_append, Journal.cells_map_ofCell, hall]
  rfl

/-- Other spreadsheets gain nothing. -/
theorem journal_of_ne {sheet other : String} (h : Appends store later rows)
    (hsheet : ∀ row ∈ rows, row.sheet = sheet) (hne : other ≠ sheet) :
    journal later other = journal store other := by
  have hnone : rows.filter (·.sheet = other) = [] := by
    rw [List.filter_eq_nil_iff]
    intro row hrow
    rw [hsheet row hrow]
    simp [Ne.symm hne]
  rw [h.journal_eq, hnone]
  simp

/-- A slot at which no row is appended gains nothing. -/
theorem rowsAt_of_forall_ne {slot : Slot} (h : Appends store later rows) (sheet : String)
    (hslot : ∀ row ∈ rows, row.slot ≠ slot) :
    (journal later sheet).rowsAt slot = (journal store sheet).rowsAt slot := by
  have hnone : (rows.filter (·.sheet = sheet)).filter (·.slot = slot) = [] := by
    rw [List.filter_eq_nil_iff]
    intro row hrow hat
    exact hslot row (List.mem_of_mem_filter hrow) (of_decide_eq_true hat)
  rw [h.journal_eq, Journal.rowsAt_append, Journal.rowsAt_map_ofCell, hnone, List.map_nil,
    List.append_nil]

end Appends

end JournaledStore

open JournaledStore

/-- A store that keeps a journal of what it is given, and answers from it. -/
class LawfulStore (σ : Type) [CellStore σ] extends JournaledStore σ where
  sheet_eq {store : σ} {sheet : String} {row : TableRow} :
    Sound store → row ∈ journal store sheet → row.sheet = sheet
  increasing {store : σ} (sheet : String) :
    Sound store → (journal store sheet).Pairwise fun a b => a.id < b.id
  id_le {store : σ} {sheet : String} {row : TableRow} :
    Sound store → row ∈ journal store sheet → row.id ≤ lastId store
  fits_of_mem {store : σ} {sheet : String} {cell : Cell} :
    Sound store → cell ∈ cells store sheet → Fits σ cell
  insert_of_fits {store : σ} (cell : Cell) : Sound store → Fits σ cell →
    ∃ later, CellStore.insert cell store = .ok (lastId store + 1) later ∧
      Appends store later [{ cell with id := lastId store + 1 }]
  insert_of_not_fits (store : σ) (cell : Cell) : ¬ Fits σ cell →
    ∃ cause, CellStore.insert cell store = .error cause store
  insertAll_of_fits {store : σ} {cells : List Cell} : Sound store → (∀ cell ∈ cells, Fits σ cell) →
    ∃ later, CellStore.insertAll cells store =
        .ok (List.range' (lastId store + 1) cells.length) later ∧
      Appends store later (numbered (lastId store + 1) cells)
  insertAll_of_not_fits (store : σ) {cells : List Cell} : (∃ cell ∈ cells, ¬ Fits σ cell) →
    ∃ cause, CellStore.insertAll cells store = .error cause store
  snapshot_eq_ok_iff {store : σ} {sheet : String} {excluded : Option Slot} {snapshot : Snapshot} :
    Sound store → (CellStore.snapshot store sheet excluded = .ok snapshot ↔
      (journal store sheet).Readable ∧
        snapshot = (Recency.latest (cells store sheet)).excluding excluded)
  snapshotAt_eq_ok_iff {store : σ} {sheet : String} {version : Nat} {snapshot : Snapshot} :
    Sound store → (CellStore.snapshotAt store sheet version = .ok snapshot ↔
      ((journal store sheet).asOf version).Readable ∧
        snapshot = Recency.latestAsOf (cells store sheet) version)
  sheet_reads_congr {store other : σ} {sheet : String} :
    journal store sheet = journal other sheet →
      CellStore.snapshot store sheet = CellStore.snapshot other sheet ∧
      CellStore.snapshotAt store sheet = CellStore.snapshotAt other sheet ∧
      CellStore.versions store sheet = CellStore.versions other sheet
  slot_reads_congr {store other : σ} {sheet : String} {slot : Slot} :
    (journal store sheet).rowsAt slot = (journal other sheet).rowsAt slot →
      CellStore.current? store sheet slot = CellStore.current? other sheet slot ∧
      CellStore.history store sheet slot = CellStore.history other sheet slot

namespace LawfulStore

variable {σ : Type} [CellStore σ] [LawfulStore σ] {store : σ} {sheet : String}

theorem increasing_cells (h : Sound store) (sheet : String) :
    (cells store sheet).Pairwise fun a b => a.id < b.id :=
  Journal.increasing_cells (increasing sheet h)

theorem ids_ne (h : Sound store) (sheet : String) :
    (cells store sheet).Pairwise fun a b => a.id ≠ b.id :=
  Recency.ids_ne (increasing_cells h sheet)

theorem cell_id_le {cell : Cell} (h : Sound store) (hmem : cell ∈ cells store sheet) :
    cell.id ≤ lastId store :=
  id_le h (Journal.mem_cells.1 hmem)

theorem cell_sheet_eq {cell : Cell} (h : Sound store) (hmem : cell ∈ cells store sheet) :
    cell.sheet = sheet :=
  sheet_eq h (Journal.mem_cells.1 hmem)

/-- What is added are the rows that are appended. -/
theorem added_iff {later : σ} {rows : List Cell} (hsound : Sound store)
    (h : Appends store later rows) {cell : Cell} :
    Added store later sheet cell ↔ cell ∈ rows ∧ cell.sheet = sheet := by
  have hcells : cells later sheet = cells store sheet ++ rows.filter (·.sheet = sheet) := by
    rw [cells, h.journal_eq, Journal.cells_append, Journal.cells_map_ofCell]
    rfl
  have hnew : cell ∈ rows → cell ∉ cells store sheet := by
    intro hrow hold
    exact Nat.not_le_of_lt (h.lastId_lt hrow) (cell_id_le hsound hold)
  rw [Added, hcells, List.mem_append, List.mem_filter, decide_eq_true_eq]
  constructor
  · rintro ⟨hold | hrow, hnot⟩
    · exact absurd hold hnot
    · exact hrow
  · intro hrow
    exact ⟨Or.inr hrow, hnew hrow.1⟩

/-- Which rows have been appended can be seen from the stores before and after. -/
theorem rows_unique {later : σ} {rows others : List Cell} (hsound : Sound store)
    (h : Appends store later rows) (hothers : Appends store later others) : rows = others := by
  refine eq_of_increasing h.increasing_ids hothers.increasing_ids ?_
  intro row
  have hrow : Added store later row.sheet row ↔ row ∈ rows ∧ row.sheet = row.sheet :=
    added_iff hsound h
  have hother : Added store later row.sheet row ↔ row ∈ others ∧ row.sheet = row.sheet :=
    added_iff hsound hothers
  simp only [and_true] at hrow hother
  exact hrow.symm.trans hother

theorem fits_of_appends {later : σ} {rows : List Cell} (h : Appends store later rows) {row : Cell}
    (hrow : row ∈ rows) : Fits σ row :=
  fits_of_mem h.sound (Journal.mem_cells.2 (h.mem_journal hrow))

/-- A store that some rows can be appended to passes through a state for each of them. -/
theorem exists_moment (hsound : Sound store) {later : σ} {rows written : List Cell}
    (h : Appends store later rows) (hwritten : written <+: rows) :
    ∃ moment, Appends store moment written := by
  rcases hwritten with ⟨rest, rfl⟩
  have hids : written.map (·.id) = List.range' (lastId store + 1) written.length := by
    have hall := h.ids
    rw [List.map_append, List.length_append, ← List.range'_append_1] at hall
    exact (List.append_inj hall (by simp)).1
  have hfits : ∀ row ∈ written, Fits σ row := by
    intro row hrow
    exact fits_of_appends h (List.mem_append_left _ hrow)
  rcases insertAll_of_fits hsound hfits with ⟨moment, -, hmoment⟩
  rw [numbered_eq_self hids] at hmoment
  exact ⟨moment, hmoment⟩

end LawfulStore

end SheetLedger
