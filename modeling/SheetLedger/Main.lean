import SheetLedger.Program.Place
import SheetLedger.Program.Run
import Std.Time

/-!
# The command line

The program on a real machine: its files are those of the file system, a database is a file that
holds a table, and the time is that of the system. What the program does with them is
`SheetLedger.Program.run`.
-/

namespace SheetLedger

/-- A file that is read as a whole. -/
def contentOf (path : String) : IO FileContent := do
  try
    return .bytes (← IO.FS.readBinFile path)
  catch
    | .noFileOrDirectory .. => return .missing
    | cause => return .unreadable (toString cause)

/-- Opens the database in a file, which is made if the name lets it. -/
def openFile (path : String) (access : Access) (isReadOnly : Bool) : IO OpenedDatabase := do
  match ← contentOf path with
  | .unreadable reason => return .refused reason
  | .bytes content => return (DatabaseFile.ofBytes content).opened isReadOnly
  | .missing =>
    if access ≠ .create then return DatabaseFile.unopened path
    try
      IO.FS.writeBinFile path .empty
      return DatabaseFile.blank.opened isReadOnly
    catch cause => return .refused (toString cause)

/-- The directory of the program for one kind of files, from the variables of the environment. -/
def userFiles (setting standard : String) : IO (Option String) := do
  return userDirectory (← IO.getEnv setting) (← IO.getEnv "HOME") standard

instance : Host IO where
  readFile := contentOf
  openDatabase
    | .passing isReadOnly => return DatabaseFile.blank.opened isReadOnly
    | .stored path access isFixed =>
      openFile (Place.ofPath path).toPath access (access = .readOnly || isFixed)
  keepDatabase name table :=
    match name with
    | .passing _ => return ()
    | .stored path _ _ =>
      IO.FS.writeBinFile (Place.ofPath path).toPath (DatabaseFile.toBytes table)
  userConfiguration := do
    return (← userFiles "XDG_CONFIG_HOME" ".config").map (· ++ "/config.toml")
  userDatabase := do
    match ← userFiles "XDG_DATA_HOME" ".local/share" with
    | none => return none
    | some directory =>
      try
        IO.FS.createDirAll directory
        return some (directory ++ "/sheetline.db")
      catch _ => return none
  now := do return (← Std.Time.Timestamp.now).toMillisecondsSinceUnixEpoch.toInt.toNat

end SheetLedger

/-- Runs the program with the arguments of the command line. -/
def main (arguments : List String) : IO UInt32 := do
  let exit ← (SheetLedger.Program.run arguments : IO SheetLedger.Exit)
  IO.print exit.output
  IO.eprint exit.complaint
  return exit.code
