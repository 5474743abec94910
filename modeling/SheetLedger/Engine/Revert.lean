import SheetLedger.Engine.Basic

/-!
# Reverts

Going back to the state as of a version. Nothing is taken away: for every current cell whose texts
differ from what they were as of the version, a new row with the old texts is added, all of them
under one stamp and as one batch. A cell that did not exist then is blanked. Nothing is recomputed,
and when nothing differs no stamp is drawn.
-/

namespace SheetLedger

/-- The two texts of a cell, the one entered and the one computed from it. -/
structure Contents where
  raw : String := ""
  computed : String := ""
deriving Repr, DecidableEq

/-- The texts of a cell. -/
def Cell.contents (cell : Cell) : Contents := ⟨cell.raw, cell.computed⟩

/-- The texts at a slot of a snapshot, empty where no cell stands. -/
def Snapshot.contentsAt (snapshot : Snapshot) (slot : Slot) : Contents :=
  ((snapshot.find? slot).map Cell.contents).getD {}

/-- The slots of the current cells whose texts differ from those of a target snapshot, with the
texts that they have there. -/
def Snapshot.changesTo (current target : Snapshot) : List (Slot × Contents) :=
  List.filterMap
    (fun cell =>
      let old := target.contentsAt cell.slot
      if cell.contents = old then none else some (cell.slot, old))
    current

namespace Engine

variable {σ : Type} [CellStore σ]

/-- The changes that lead back to a version, all of them within bounds. -/
def revertPlan (engine : Engine σ) (sheet : String) (version : Nat) :
    Except EngineError (List (Slot × Contents)) := do
  let target ← engine.snapshotAt sheet version
  let current ← engine.snapshot sheet
  let changes := Snapshot.changesTo current target
  changes.forM fun (slot, _) => withinBounds (engine.directory.check sheet slot)
  return changes

/-- Makes the current texts of a spreadsheet those of a version, at the present time. The answer is
the rows written. -/
def revert (now : Nat) (sheet : String) (version : Nat) :
    EStateM EngineError (Engine σ) (List Cell) := do
  let changes ← orStop ((← get).revertPlan sheet version)
  if changes.isEmpty then return []
  -- the clock moves only if there is something to write
  let stamp ← stamp now
  let rows := changes.map fun (slot, contents) =>
    { id := 0, sheet := sheet, slot := slot, raw := contents.raw,
      computed := contents.computed, version := stamp : Cell }
  let ids ← onStore (EStateM.adaptExcept .store (CellStore.insertAll rows))
  return rows.zipWith (fun row id => { row with id := id }) ids

end Engine

end SheetLedger
