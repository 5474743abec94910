import SheetLedger.Clock
import SheetLedger.Directory
import SheetLedger.Formula.Basic
import SheetLedger.Store.Basic

/-!
# Engines

An engine ties a store of cells to the bounds of the spreadsheets, a clock and its settings. It
holds no cells of its own: every operation starts from what the store answers, so the state of an
engine is the state of its store and its clock.

`EngineError` collects the ways in which an operation can fail. Only one of them leaves a cell
behind: an edit whose formula has no value stores the error marker and says so.
-/

namespace SheetLedger

/-- Why an operation of an engine failed. -/
inductive EngineError where
  /-- The slot may not be written; nothing was. -/
  | outOfBounds (cause : BoundsError)
  /-- The edited text is a malformed reference; nothing was written. -/
  | formula (slot : Slot) (cause : EvalError)
  /-- The edited cell was stored with the error marker. -/
  | evaluation (cell : Cell) (cause : EvalError)
  /-- A dependent has no value; what was written before stays. -/
  | dependent (slot : Slot) (cause : EvalError)
  /-- The store failed; what was written before stays. -/
  | store (cause : StoreError)
deriving Repr, DecidableEq

namespace EngineError

/-- The text shown for an engine error. -/
def message : EngineError → String
  | outOfBounds cause => cause.message
  | formula slot cause => "Invalid formula in " ++ slot.code ++ ": " ++ cause.message
  | evaluation cell cause => cell.code ++ " saved with an error value: " ++ cause.message
  | dependent slot cause =>
    "Failed to recompute dependent " ++ slot.code ++ ": " ++ cause.message
  | store cause => "Store error: " ++ cause.message

/-- The text of an error followed by the texts of its causes. A bounds error has no text besides
that of its cause. -/
def chain : EngineError → List String
  | outOfBounds cause => [cause.message]
  | formula slot cause => [message (formula slot cause), cause.message]
  | evaluation cell cause => [message (evaluation cell cause), cause.message]
  | dependent slot cause => [message (dependent slot cause), cause.message]
  | store cause => message (store cause) :: cause.chain

/-- The cell that was stored although the operation failed. -/
def stored? : EngineError → Option Cell
  | evaluation cell _ => some cell
  | _ => none

end EngineError

/-- How an engine recomputes and stamps: what a configuration can change about it. -/
structure Settings where
  /-- How many levels of dependents an edit recomputes; cells further away keep their values. -/
  cascadeDepth : Nat := 2
  /-- The computed text of a cell that has no value. -/
  errorMarker : String := "ERROR"
  clock : ClockKind := .wall
deriving Repr, DecidableEq

/-- An engine over a store of type `σ`. -/
structure Engine (σ : Type) where
  store : σ
  /-- The bounds. A source of them knows the dimensions of one spreadsheet or of several, and the one
  is a directory of its own. It is asked about every slot before anything is stored, so a call does
  not notice whether it changes later. -/
  directory : Directory
  clock : Clock
  settings : Settings

namespace Engine

variable {σ α : Type}

/-! ## What operations are made of -/

/-- Lets a check of the bounds fail as an engine error. -/
def withinBounds (check : Except BoundsError Unit) : Except EngineError Unit :=
  check.mapError .outOfBounds

/-- What a read of the store answers. -/
def ask (engine : Engine σ) (read : σ → Except StoreError α) : Except EngineError α :=
  (read engine.store).mapError .store

/-- Changes the store by an action that may fail with an engine error. -/
def onStore (act : EStateM EngineError σ α) : EStateM EngineError (Engine σ) α := fun engine =>
  match act engine.store with
  | .ok answer store => .ok answer { engine with store := store }
  | .error cause store => .error cause { engine with store := store }

/-- Draws a stamp from the clock. -/
def stamp (now : Nat) : EStateM EngineError (Engine σ) Nat := do
  let engine ← get
  let (version, clock) := engine.clock.next now
  set { engine with clock := clock }
  return version

variable [CellStore σ]

/-- An engine whose clock goes on from the newest version in the store. -/
def start (store : σ) (directory : Directory) (settings : Settings) :
    Except EngineError (Engine σ) := do
  let latest ← (CellStore.latestVersion store).mapError .store
  return {
    store := store, directory := directory,
    clock := settings.clock.start latest, settings := settings }

/-! ## Reads -/

/-- The current cell of a slot. -/
def current? (engine : Engine σ) (sheet : String) (slot : Slot) :
    Except EngineError (Option Cell) :=
  engine.ask (CellStore.current? · sheet slot)

/-- The current cells of a spreadsheet. -/
def snapshot (engine : Engine σ) (sheet : String) : Except EngineError Snapshot :=
  engine.ask (CellStore.snapshot · sheet none)

/-- Every version of a cell, the oldest first. -/
def history (engine : Engine σ) (sheet : String) (slot : Slot) :
    Except EngineError (List Cell) :=
  engine.ask (CellStore.history · sheet slot)

/-- The versions of a spreadsheet, the newest first. -/
def versions (engine : Engine σ) (sheet : String) : Except EngineError (List Nat) :=
  engine.ask (CellStore.versions · sheet)

/-- The cells of a spreadsheet as of a version. -/
def snapshotAt (engine : Engine σ) (sheet : String) (version : Nat) :
    Except EngineError Snapshot :=
  engine.ask (CellStore.snapshotAt · sheet version)

end Engine

end SheetLedger
