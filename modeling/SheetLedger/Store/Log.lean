import SheetLedger.Store.Basic

/-!
# The log store

Rows in memory: one log for each spreadsheet, in the order in which its rows were appended, and one
count of ids for all of them. This store never fails.
-/

namespace SheetLedger

/-- The logs by spreadsheet, and the id given last. -/
structure LogStore where
  logs : List (String × List Cell) := []
  lastId : Nat := 0
deriving Repr

namespace LogStore

/-- Appends a row to the log of its spreadsheet, which starts with the first row. -/
def appendTo : List (String × List Cell) → Cell → List (String × List Cell)
  | [], row => [(row.sheet, [row])]
  | (sheet, log) :: rest, row =>
    if sheet = row.sheet then (sheet, log ++ [row]) :: rest
    else (sheet, log) :: appendTo rest row

/-- The log of a spreadsheet. -/
def log (store : LogStore) (sheet : String) : List Cell :=
  (store.logs.lookup sheet).getD []

/-- Appends a row under the next id. -/
def insert (store : LogStore) (cell : Cell) : Nat × LogStore :=
  let id := store.lastId + 1
  (id, { logs := appendTo store.logs { cell with id := id }, lastId := id })

/-- Appends rows one after another. -/
def insertAll (store : LogStore) : List Cell → List Nat × LogStore
  | [] => ([], store)
  | cell :: cells =>
    let (id, store) := store.insert cell
    let (ids, store) := store.insertAll cells
    (id :: ids, store)

/-- The rows of a slot. -/
def rowsAt (store : LogStore) (sheet : String) (slot : Slot) : List Cell :=
  (store.log sheet).filter (·.slot = slot)

/-- The versions of a spreadsheet, each once, the newest first. -/
def versions (store : LogStore) (sheet : String) : List Nat :=
  (((store.log sheet).map (·.version)).eraseDups).mergeSort (fun a b => b ≤ a)

/-- The newest version in any log. -/
def latestVersion (store : LogStore) : Option Nat :=
  (store.logs.filterMap fun (_, log) => (log.map (·.version)).max?).max?

end LogStore

instance : CellStore LogStore where
  insert cell := modifyGet (·.insert cell)
  insertAll cells := modifyGet (·.insertAll cells)
  current? store sheet slot := .ok (Recency.newest? (store.rowsAt sheet slot))
  snapshot store sheet excluded := .ok ((Recency.latest (store.log sheet)).excluding excluded)
  history store sheet slot := .ok (Recency.chronological (store.rowsAt sheet slot))
  versions store sheet := .ok (store.versions sheet)
  snapshotAt store sheet version := .ok (Recency.latestAsOf (store.log sheet) version)
  latestVersion store := .ok store.latestVersion

end SheetLedger
