import SheetLedger.Store.Basic

/-!
# The table store

Rows in one table for all spreadsheets. The numbers of a row are signed and of 64 bits, so a cell
whose column, row or version is above `2 ^ 63 - 1` cannot be stored or looked up, and a table that
something else has written may hold negative numbers, which no cell can hold. A read fails at the
first such number that it meets.

What a read answers is said by a query: which rows it selects and in which order. The current rows
as of a version are those that the newest row of their slot, among the rows up to that version, is
itself. Batches are written as a whole or not at all, and rows that were not written use up no ids.

The ids of the rows are those that the table gives, 1, 2, 3 and so on, none of them twice. So an id
is never negative, and neither reading it nor answering with it can fail as with the other numbers.
-/

namespace SheetLedger

/-- The largest number that the table holds. -/
def tableLimit : Nat := (1 <<< 63) - 1

/-- A row of the table. -/
structure TableRow where
  id : Nat
  sheet : String
  column : Int
  row : Int
  raw : String
  computed : String
  version : Int
deriving Repr, DecidableEq

namespace TableRow

/-- Whether two rows stand at one slot of one spreadsheet. -/
def sameSlot (a b : TableRow) : Bool :=
  a.sheet = b.sheet && a.column = b.column && a.row = b.row

/-- Whether a row comes before another in the order of version and id. -/
def older (a b : TableRow) : Bool :=
  a.version < b.version || (a.version = b.version && a.id < b.id)

/-- A number of a row that a cell can hold, or a complaint with its index in the result. -/
def number (index : Nat) (value : Int) : Except StoreError Nat :=
  if value < 0 then .error (.unreadable value index) else .ok value.toNat

/-- The cell that a row holds. Its numbers are read in the order of the result's columns. -/
def toCell (row : TableRow) : Except StoreError Cell := do
  let column ← number 2 row.column
  let rowIndex ← number 3 row.row
  let version ← number 6 row.version
  return {
    id := row.id, sheet := row.sheet, slot := ⟨column, rowIndex⟩,
    raw := row.raw, computed := row.computed, version := version }

end TableRow

/-- The table, and the id given last. -/
structure TableStore where
  rows : List TableRow := []
  lastId : Nat := 0
deriving Repr, DecidableEq

namespace TableStore

/-! ## Writing -/

/-- A number that the table can hold in a field. -/
def fit (field : Field) (value : Nat) : Except StoreError Int :=
  if value ≤ tableLimit then .ok value else .error (.tooLarge field)

/-- Appends a row under the next id, whatever its numbers. -/
def append (store : TableStore) (row : TableRow) : TableStore :=
  let id := store.lastId + 1
  { rows := store.rows ++ [{ row with id := id }], lastId := id }

/-- Appends a cell, if the table can hold its numbers. -/
def insert (store : TableStore) (cell : Cell) : Except StoreError (Nat × TableStore) := do
  let column ← fit .column cell.slot.column
  let row ← fit .row cell.slot.row
  let version ← fit .version cell.version
  let store := store.append {
    id := 0, sheet := cell.sheet, column := column, row := row,
    raw := cell.raw, computed := cell.computed, version := version }
  return (store.lastId, store)

/-- Appends cells one after another, if the table can hold all of them. -/
def insertAll (store : TableStore) : List Cell → Except StoreError (List Nat × TableStore)
  | [] => .ok ([], store)
  | cell :: cells => do
    let (id, store) ← store.insert cell
    let (ids, store) ← store.insertAll cells
    return (id :: ids, store)

/-! ## Queries -/

/-- The last of some rows in the order of version and id. -/
def newest? (rows : List TableRow) : Option TableRow :=
  rows.foldl
    (fun best row =>
      match best with
      | some kept => if row.older kept then some kept else some row
      | none => some row)
    none

/-- The rows of a slot. -/
def rowsAt (store : TableStore) (sheet : String) (slot : Slot) :
    Except StoreError (List TableRow) := do
  let column ← fit .column slot.column
  let row ← fit .row slot.row
  return store.rows.filter fun r => r.sheet = sheet && r.column = column && r.row = row

/-- The rows of a spreadsheet that are the newest of their slot up to a version, by id. -/
def currentAsOf (store : TableStore) (sheet : String) (version : Int) : List TableRow :=
  let rows := store.rows.filter (·.sheet = sheet)
  -- the newest row of a slot is looked up by its id among all rows
  let current := rows.filter fun row =>
    (newest? (rows.filter fun r => r.sameSlot row && r.version ≤ version)).map (·.id) =
      some row.id
  current.mergeSort (fun a b => a.id ≤ b.id)

/-- The current row of a slot. -/
def current? (store : TableStore) (sheet : String) (slot : Slot) :
    Except StoreError (Option Cell) := do
  match newest? (← store.rowsAt sheet slot) with
  | some row => return some (← row.toCell)
  | none => return none

/-- The cells that were current as of a version. Later versions than the table holds select
everything. -/
def snapshotAt (store : TableStore) (sheet : String) (version : Nat) :
    Except StoreError Snapshot :=
  (store.currentAsOf sheet (min version tableLimit : Nat)).mapM TableRow.toCell

/-- Every cell of a slot, the oldest first. -/
def history (store : TableStore) (sheet : String) (slot : Slot) :
    Except StoreError (List Cell) := do
  let rows ← store.rowsAt sheet slot
  (rows.mergeSort (fun a b => !b.older a)).mapM TableRow.toCell

/-- The versions of a spreadsheet, each once, the newest first. -/
def versions (store : TableStore) (sheet : String) : Except StoreError (List Nat) :=
  let stored := (store.rows.filter (·.sheet = sheet)).map (·.version)
  (stored.eraseDups.mergeSort (fun a b => b ≤ a)).mapM (TableRow.number 0)

/-- The newest version in the table, which must not be negative. -/
def latestVersion (store : TableStore) : Except StoreError (Option Nat) :=
  match (store.rows.map (·.version)).max? with
  | none => .ok none
  | some version =>
    if version < 0 then .error (.outOfRange .version version) else .ok (some version.toNat)

end TableStore

instance : CellStore TableStore where
  insert cell := atomically (·.insert cell)
  insertAll cells := atomically (·.insertAll cells)
  current? := TableStore.current?
  snapshot store sheet excluded :=
    (store.snapshotAt sheet tableLimit).map (·.excluding excluded)
  history := TableStore.history
  versions := TableStore.versions
  snapshotAt := TableStore.snapshotAt
  latestVersion := TableStore.latestVersion

end SheetLedger
