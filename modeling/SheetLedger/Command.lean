import SheetLedger.Engine.Edit
import SheetLedger.Engine.Revert

/-!
# Commands

One operation of an engine as the words of a command line, and what running it prints.

* `Command.ofWords` reads the words of a command and `Command.words` writes them.
* `Command.run` runs a command. It prints cells one a line, `CODE`, the text entered, the text
  computed and the version with tabs between them, and versions one a line.
-/

namespace SheetLedger

/-- One operation of an engine. -/
inductive Command where
  | set (sheet : String) (slot : Slot) (raw : String)
  | get (sheet : String) (slot : Slot)
  | snapshot (sheet : String)
  | history (sheet : String) (slot : Slot)
  | versions (sheet : String)
  | revert (sheet : String) (version : Nat)
deriving Repr, DecidableEq

/-- Why words are no command. -/
inductive UsageError where
  | missingCommand
  /-- The command of this form was given too few or too many words. -/
  | arity (form : String)
  | invalidCell (code : String) (cause : EvalError)
  | invalidVersion (text : String)
  | unknownCommand (name : String)
deriving Repr, DecidableEq

/-- The text shown for a usage error. -/
def UsageError.message : UsageError → String
  | .missingCommand => "Missing command"
  | .arity form => "Usage: sheetline " ++ form
  | .invalidCell code cause => "Invalid cell " ++ code ++ ": " ++ cause.message
  | .invalidVersion text => "Invalid version: " ++ text
  | .unknownCommand name => "Unknown command: " ++ name

namespace Command

/-! ## Words -/

/-- The slot that a word names. -/
def slotOf (code : String) : Except UsageError Slot :=
  (Slot.ofCode code).mapError (.invalidCell code ·)

/-- The version that a word names. -/
def versionOf (text : String) : Except UsageError Nat :=
  match Numeral.unsigned? text.toList with
  | some version => .ok version
  | none => .error (.invalidVersion text)

/-- The command that some words write. -/
def ofWords : List String → Except UsageError Command
  | [] => .error .missingCommand
  | "set" :: arguments =>
    match arguments with
    | [sheet, code, raw] => do return set sheet (← slotOf code) raw
    | _ => .error (.arity "set SHEET CELL RAW")
  | "get" :: arguments =>
    match arguments with
    | [sheet, code] => do return get sheet (← slotOf code)
    | _ => .error (.arity "get SHEET CELL")
  | "snapshot" :: arguments =>
    match arguments with
    | [sheet] => .ok (snapshot sheet)
    | _ => .error (.arity "snapshot SHEET")
  | "history" :: arguments =>
    match arguments with
    | [sheet, code] => do return history sheet (← slotOf code)
    | _ => .error (.arity "history SHEET CELL")
  | "versions" :: arguments =>
    match arguments with
    | [sheet] => .ok (versions sheet)
    | _ => .error (.arity "versions SHEET")
  | "revert" :: arguments =>
    match arguments with
    | [sheet, version] => do return revert sheet (← versionOf version)
    | _ => .error (.arity "revert SHEET VERSION")
  | name :: _ => .error (.unknownCommand name)

/-- The words that write a command. -/
def words : Command → List String
  | set sheet slot raw => ["set", sheet, slot.code, raw]
  | get sheet slot => ["get", sheet, slot.code]
  | snapshot sheet => ["snapshot", sheet]
  | history sheet slot => ["history", sheet, slot.code]
  | versions sheet => ["versions", sheet]
  | revert sheet version => ["revert", sheet, toString version]

/-! ## Running -/

/-- Why a command failed. -/
inductive Failure where
  | engine (cause : EngineError)
  /-- There is no cell to print. -/
  | noValue (slot : Slot)
deriving Repr, DecidableEq

/-- The text of a failure followed by the texts of its causes. -/
def Failure.chain : Failure → List String
  | engine cause => cause.chain
  | noValue slot => [slot.code ++ " has no value"]

/-- What a command printed, and why it failed if it did. -/
structure Report where
  output : String
  failure? : Option Failure
deriving Repr, DecidableEq

/-- The line of a cell. -/
def cellLine (cell : Cell) : String :=
  cell.code ++ "\t" ++ cell.raw ++ "\t" ++ cell.computed ++ "\t" ++ toString cell.version ++ "\n"

/-- The lines of some cells. -/
def cellLines (cells : List Cell) : String := String.join (cells.map cellLine)

/-- The report of an operation: what it prints when it succeeds, and the cell that was stored when
it fails but left one. -/
def report {α : Type} (print : α → String) : Except EngineError α → Report
  | .ok answer => ⟨print answer, none⟩
  | .error cause => ⟨(cause.stored?.map cellLine).getD "", some (.engine cause)⟩

/-- The report on a cell that must exist. -/
def reportCell (slot : Slot) : Except EngineError (Option Cell) → Report
  | .ok (some cell) => ⟨cellLine cell, none⟩
  | .ok none => ⟨"", some (.noValue slot)⟩
  | .error cause => ⟨"", some (.engine cause)⟩

variable {σ : Type} [CellStore σ]

/-- The report of an operation that changes the engine, and the engine after it. -/
def perform {α : Type} (print : α → String) (operation : EStateM EngineError (Engine σ) α)
    (engine : Engine σ) : Report × Engine σ :=
  match operation engine with
  | .ok answer engine => (report print (.ok answer), engine)
  | .error cause engine => (report print (.error cause), engine)

/-- Runs a command at the present time. -/
def run (now : Nat) (command : Command) (engine : Engine σ) : Report × Engine σ :=
  match command with
  | set sheet slot raw => perform cellLine (Engine.edit now sheet slot raw) engine
  | get sheet slot => (reportCell slot (engine.current? sheet slot), engine)
  | snapshot sheet => (report cellLines (engine.snapshot sheet), engine)
  | history sheet slot => (report cellLines (engine.history sheet slot), engine)
  | versions sheet =>
    (report (fun stamps => String.join (stamps.map fun v => toString v ++ "\n"))
      (engine.versions sheet), engine)
  | revert sheet version => perform cellLines (Engine.revert now sheet version) engine

end Command

end SheetLedger
