import SheetLedger.Command
import SheetLedger.Configuration
import SheetLedger.Program.Host
import SheetLedger.Program.Options
import SheetLedger.Store.ReadOnly

/-!
# The program

One run of the program: read the options, read the command, read the configuration, open the
database, run the command and keep the database unless it is only read. The first thing that goes
wrong ends the run; its text and the texts of its causes make one line of complaint.
-/

namespace SheetLedger

/-- How a run of the program ended. -/
structure Exit where
  code : UInt32 := 0
  output : String := ""
  complaint : String := ""
deriving Repr, DecidableEq

/-- Why a run of the program failed after its options were read. -/
inductive ProgramError where
  | usage (cause : UsageError)
  | configurationMissing (path : String)
  | configurationTooLarge (path : String) (size : Nat)
  | fileUnreadable (reason : String)
  | configurationInvalid (path : String) (cause : ConfigurationError)
  | databaseRefused (path : String) (reason : String)
  | engine (cause : EngineError)
deriving Repr, DecidableEq

/-- The largest configuration file that is read, in bytes. -/
def configurationLimit : Nat := 1048576

namespace ProgramError

/-- The text of an error followed by the texts of its causes. -/
def chain : ProgramError → List String
  | usage cause => [cause.message]
  | configurationMissing path => ["Config file not found: " ++ path]
  | configurationTooLarge path size =>
    ["Refusing to read " ++ path ++ ": file too large (" ++ toString size ++ " bytes, max " ++
      toString configurationLimit ++ ")"]
  | fileUnreadable reason => ["IO error: " ++ reason, reason]
  | configurationInvalid path cause =>
    ["Failed to parse " ++ path ++ ": " ++ cause.message, cause.message]
  | databaseRefused path reason => ["Failed to open " ++ path, reason]
  | engine cause => cause.chain

end ProgramError

/-- The line of complaint for an error and its causes. -/
def complaintLine (chain : List String) : String :=
  "Error: " ++ ": ".intercalate chain ++ "\n"

/-- The help of the program. -/
def usageText : String :=
  "\n".intercalate [
    "Usage: sheetline [OPTIONS] COMMAND",
    "",
    "Commands:",
    "  set SHEET CELL RAW        Write a cell and recompute its dependents",
    "  get SHEET CELL            Print the current version of a cell",
    "  snapshot SHEET            Print every current cell",
    "  history SHEET CELL        Print every version of a cell",
    "  versions SHEET            Print version stamps, newest first",
    "  revert SHEET VERSION      Restore the spreadsheet as of VERSION",
    "",
    "Options:",
    "  --config <FILE>           Read configuration from FILE",
    "  --no-config               Ignore the user configuration file",
    "  --db <FILE>               SQLite database to use",
    "  -h, --help                Print help",
    "",
    "Set SHEETLINE_LOG (e.g. debug) to control log output on stderr.",
    ""]

/-- How the program ends at its arguments. -/
def OptionsError.exit : OptionsError → Exit
  | help => { complaint := usageText }
  | missingValue option =>
    { code := 1, complaint := complaintLine [option ++ " requires a file path"] }
  | unknownOption option =>
    { code := 1, complaint := complaintLine ["Unknown option: " ++ option] ++ usageText }
  | noCommand => { code := 1, complaint := usageText }

namespace Program

variable {m : Type → Type} [Monad m] [Host m]

/-- The configuration in the content of a file. -/
def configurationIn (path : String) (content : ByteArray) : Except ProgramError Configuration :=
  if configurationLimit < content.size then .error (.configurationTooLarge path content.size)
  else match String.fromUTF8? content with
  | none => .error (.fileUnreadable "stream did not contain valid UTF-8")
  | some text => (Configuration.ofText text).mapError (.configurationInvalid path ·)

/-- The configuration in a file that must be there. -/
def configurationAt (path : String) : ExceptT ProgramError m Configuration := do
  match ← (Host.readFile path : m FileContent) with
  | .missing => throw (.configurationMissing path)
  | .unreadable reason => throw (.fileUnreadable reason)
  | .bytes content => ExceptT.mk (pure (configurationIn path content))

/-- The configuration that the options ask for: none, that of a file, or that of the user, who may
have none. -/
def configuration (options : Options) : ExceptT ProgramError m Configuration := do
  if options.noConfiguration then return {}
  match options.configuration with
  | some path => configurationAt path
  | none =>
    match ← (Host.userConfiguration : m (Option String)) with
    | none => return {}
    | some path =>
      -- unlike a file that was asked for, the user's may be missing
      match ← (Host.readFile path : m FileContent) with
      | .missing => return {}
      | _ => configurationAt path

/-- The database that the options and the configuration name, or else the user's. -/
def databasePath (options : Options) (configuration : Configuration) : m String := do
  match configuration.databasePath? options.database with
  | some path => return path
  | none => return (← Host.userDatabase).getD "sheetline.db"

/-- The database of a name, and what it holds. -/
def openedAt (path : String) : ExceptT ProgramError m (DatabaseName × TableStore) := do
  match DatabaseName.ofText path with
  | .error cause => throw (.databaseRefused path cause.message)
  | .ok name =>
    match ← (Host.openDatabase name : m OpenedDatabase) with
    | .refused reason => throw (.databaseRefused path reason)
    | .opened table => return (name, table)

/-- Runs a command on a store, and answers the store after it. -/
def perform {σ : Type} [CellStore σ] (command : Command) (configuration : Configuration)
    (store : σ) : ExceptT ProgramError m (Command.Report × σ) := do
  match Engine.start store configuration.directory configuration.settings with
  | .error cause => throw (.engine cause)
  | .ok engine =>
    let (report, engine) := command.run (← (Host.now : m Nat)) engine
    return (report, engine.store)

/-- Runs the command that the options name. -/
def execute (options : Options) : ExceptT ProgramError m Command.Report := do
  let command ← ExceptT.mk (pure ((Command.ofWords options.command).mapError .usage))
  let configuration ← configuration options
  let (name, table) ← openedAt (← (databasePath options configuration : m String))
  if name.isReadOnly then
    let (report, _) ← perform command configuration (⟨table⟩ : ReadOnlyStore TableStore)
    return report
  else
    let (report, table) ← perform command configuration table
    (Host.keepDatabase name table : m Unit)
    return report

/-- How a run ends whose options were read. -/
def exitOf : Except ProgramError Command.Report → Exit
  | .error cause => { code := 1, complaint := complaintLine cause.chain }
  | .ok report =>
    match report.failure? with
    | none => { output := report.output }
    | some cause =>
      { code := 1, output := report.output, complaint := complaintLine cause.chain }

/-- One run of the program with the given arguments. -/
def run (arguments : List String) : m Exit :=
  match Options.ofWords arguments with
  | .error cause => return cause.exit
  | .ok options => do return exitOf (← (execute options).run)

end Program

end SheetLedger
