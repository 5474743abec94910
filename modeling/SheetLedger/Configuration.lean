import SheetLedger.Engine.Basic
import SheetLedger.Toml.Document

/-!
# Configuration

What a configuration file says: the database to use, the settings of the engine and the known
spreadsheets. Everything may be left out except the id and the dimensions of a spreadsheet, and
nothing else may be said. Settings and spreadsheets are records, or lists of the values in order.
-/

namespace SheetLedger

/-- A spreadsheet as a configuration file describes it. -/
structure SheetEntry where
  id : String
  name : Option String
  rows : Nat
  columns : Nat
deriving Repr, DecidableEq

/-- What a configuration file says. -/
structure Configuration where
  database : Option String := none
  settings : Settings := {}
  spreadsheets : List SheetEntry := []
deriving Repr, DecidableEq

/-- Why a text is no configuration. -/
inductive ConfigurationError where
  /-- It is not a document at all. -/
  | malformed
  /-- The document says something that a configuration does not. -/
  | unexpected
deriving Repr, DecidableEq

/-- The text shown for a configuration error. -/
def ConfigurationError.message : ConfigurationError → String
  | .malformed => "malformed document"
  | .unexpected => "unknown, missing or ill-typed field"

/-- The clock that a datum chooses. -/
def ClockKind.ofDatum? (format : DataFormat) (datum : Datum) : Option ClockKind :=
  (datum.choice? format).bind ClockKind.ofName?

/-- The settings that a datum describes; what it leaves out is as by default. -/
def Settings.ofDatum? (format : DataFormat) (datum : Datum) : Option Settings := do
  let fields ← Fields.named format ["cascade_depth", "error_marker", "clock"] datum
  let standard : Settings := {}
  return {
    cascadeDepth := ← Fields.withDefault "cascade_depth" Datum.word? standard.cascadeDepth fields
    errorMarker := ← Fields.withDefault "error_marker" Datum.text? standard.errorMarker fields
    clock := ← Fields.withDefault "clock" (ClockKind.ofDatum? format) standard.clock fields }

namespace SheetEntry

/-- The spreadsheet that a datum describes. -/
def ofDatum? (format : DataFormat) (datum : Datum) : Option SheetEntry := do
  let fields ← Fields.named format ["id", "name", "rows", "columns"] datum
  return {
    id := ← Fields.required "id" Datum.text? fields
    name := ← Fields.optional "name" Datum.text? fields
    rows := ← Fields.required "rows" Datum.word? fields
    columns := ← Fields.required "columns" Datum.word? fields }

/-- The spreadsheet itself; without a name it is called by its id. -/
def toSpreadsheet (entry : SheetEntry) : Spreadsheet :=
  { id := entry.id, name := entry.name.getD entry.id, rows := entry.rows,
    columns := entry.columns }

end SheetEntry

namespace Configuration

/-- The spreadsheets that a list describes. -/
def entriesOf? (format : DataFormat) : Datum → Option (List SheetEntry)
  | .list items => items.mapM (SheetEntry.ofDatum? format)
  | _ => none

/-- The configuration that the fields of a document describe. -/
def ofFields? (format : DataFormat) (fields : Fields) : Option Configuration := do
  guard (Fields.only ["database", "engine", "spreadsheets"] fields)
  return {
    database := ← Fields.optional "database" Datum.text? fields
    settings := ← Fields.withDefault "engine" (Settings.ofDatum? format) {} fields
    spreadsheets := ← Fields.withDefault "spreadsheets" (entriesOf? format) [] fields }

/-- The configuration that a text describes. -/
def ofText (text : String) : Except ConfigurationError Configuration :=
  match Toml.fields? text with
  | none => .error .malformed
  | some fields =>
    match ofFields? Toml.format fields with
    | none => .error .unexpected
    | some configuration => .ok configuration

/-- The spreadsheet that is known when a configuration names none. -/
def standardSpreadsheet : Spreadsheet :=
  { id := "1", name := "1", rows := 1000, columns := 26 }

/-- The known spreadsheets. -/
def directory (configuration : Configuration) : Directory :=
  if configuration.spreadsheets.isEmpty then .ofList [standardSpreadsheet]
  else .ofList (configuration.spreadsheets.map SheetEntry.toSpreadsheet)

/-- The database that is named, by an option or else by the configuration. -/
def databasePath? (configuration : Configuration) (option : Option String) : Option String :=
  option.or configuration.database

end Configuration

end SheetLedger
