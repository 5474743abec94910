import SheetLedger.Engine.Cascade

/-!
# Edits

Writing the text of one cell. An edit goes through these steps:

1. the slot must lie within the bounds of its spreadsheet;
2. the text is evaluated against the other current cells, and a malformed reference is refused;
3. a stamp is drawn and the cell is stored, with the error marker if it has no value;
4. everything that reads the cell is recomputed under the same stamp.

Before the third step nothing is written. `Engine.plan` is what the first two steps find out.
-/

namespace SheetLedger.Engine

variable {σ : Type} [CellStore σ]

/-- What an edit would store as the computed text, or why nothing may be written. -/
def plan (engine : Engine σ) (sheet : String) (slot : Slot) (raw : String) :
    Except EngineError Evaluation := do
  withinBounds (engine.directory.check sheet slot)
  let others ← engine.ask (CellStore.snapshot · sheet (some slot))
  let formula := Formula.classify raw
  let evaluation := formula.compute others engine.settings.errorMarker
  match evaluation.failure? with
  | some cause =>
    if formula.isMalformedReference then throw (.formula slot cause) else return evaluation
  | none => return evaluation

/-- Appends a cell and answers it with its id. -/
def write (cell : Cell) : EStateM EngineError (Engine σ) Cell := do
  let id ← onStore (EStateM.adaptExcept .store (CellStore.insert cell))
  return { cell with id := id }

/-- Writes the text of one cell at the present time and recomputes what reads it. The answer is the
cell that was stored, also in the complaint when it has no value. -/
def edit (now : Nat) (sheet : String) (slot : Slot) (raw : String) :
    EStateM EngineError (Engine σ) Cell := do
  let evaluation ← orStop ((← get).plan sheet slot raw)
  -- what is done from here on stays done, also if a later step fails
  let version ← stamp now
  let cell ← write {
    id := 0, sheet := sheet, slot := slot, raw := raw,
    computed := evaluation.value, version := version }
  let snapshot ← orStop ((← get).snapshot sheet)
  let depth := (← get).settings.cascadeDepth
  let _ ← onStore (Cascade.propagate depth version slot snapshot)
  match evaluation.failure? with
  | some cause => throw (.evaluation cell cause)
  | none => return cell

end SheetLedger.Engine
