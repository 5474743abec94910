import SheetLedger.Slot

/-!
# Cells and snapshots

A cell is one stored version of a slot: it is written once and never changed. A snapshot is a list
of cells, usually one for each slot of a spreadsheet; its order is part of it, because the first
cell at a slot is the one that is read and averages add up in order.
-/

namespace SheetLedger

/-- One stored version of a slot of a spreadsheet. -/
structure Cell where
  /-- The number the store gave this row, zero before it is stored. -/
  id : Nat
  /-- The spreadsheet it belongs to. -/
  sheet : String
  slot : Slot
  /-- The text that was entered. -/
  raw : String
  /-- The text that was computed from it. -/
  computed : String
  /-- The stamp of the change that wrote it. -/
  version : Nat
deriving Repr, DecidableEq, Inhabited

/-- The code of the slot that a cell stands at. -/
def Cell.code (cell : Cell) : String := cell.slot.code

/-- The cells of one spreadsheet at one moment, in order. -/
abbrev Snapshot := List Cell

namespace Snapshot

/-- The first cell at a slot. -/
def find? (snapshot : Snapshot) (slot : Slot) : Option Cell :=
  List.find? (·.slot = slot) snapshot

/-- The snapshot without the cells at a slot. -/
def without (snapshot : Snapshot) (slot : Slot) : Snapshot :=
  List.filter (·.slot ≠ slot) snapshot

/-- The snapshot with the cells at the slot of `fresh` taken out and `fresh` put at the end. -/
def replace (snapshot : Snapshot) (fresh : Cell) : Snapshot :=
  snapshot.without fresh.slot ++ [fresh]

end Snapshot

end SheetLedger
