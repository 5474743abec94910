import SheetLedger.Program.DatabaseName
import SheetLedger.Store.TableText

/-!
# Hosts

What the program needs from the machine it runs on: files to read, databases to open and keep, the
places where a user's files are, and the time.
-/

namespace SheetLedger

/-- What reading a file yields. -/
inductive FileContent where
  /-- There is no such file. -/
  | missing
  | bytes (content : ByteArray)
  /-- There is such a file, but it does not read, with this complaint. -/
  | unreadable (reason : String)

/-- What opening a database yields. -/
inductive OpenedDatabase where
  | opened (table : TableStore)
  /-- It does not open, with this complaint. -/
  | refused (reason : String)

/-- What the program needs from its machine. -/
class Host (m : Type → Type) where
  /-- Reads a file. -/
  readFile (path : String) : m FileContent
  /-- Opens a database. A new one is made if the name lets it. -/
  openDatabase (name : DatabaseName) : m OpenedDatabase
  /-- Keeps the table of a database that was opened. -/
  keepDatabase (name : DatabaseName) (table : TableStore) : m Unit
  /-- The path of the user's configuration file, if users have one here. -/
  userConfiguration : m (Option String)
  /-- The path of the user's database, whose directory is made if need be and can be made. -/
  userDatabase : m (Option String)
  /-- The present time in milliseconds. -/
  now : m Nat

/-- The directory of the program for one kind of files: under the directory that is set for this
kind, if that is an absolute path, or else under the standard place in the user's home. Without a
home there is none. -/
def userDirectory (setting home : Option String) (standard : String) : Option String :=
  home.map fun home =>
    ((setting.filter (·.startsWith "/")).getD (home ++ "/" ++ standard)) ++ "/sheetline"

/-! ## Databases in files -/

/-- What a file is as a database. -/
inductive DatabaseFile where
  /-- One that is still to be set up. -/
  | blank
  | holding (table : TableStore)
  /-- None at all. -/
  | foreign

namespace DatabaseFile

/-- A file with a content of its own. Not even a first byte keeps a database from being set up
there. -/
def ofPlain (content : ByteArray) : DatabaseFile :=
  if content.size ≤ 1 then blank else foreign

/-- The byte in front of a table in a file, which no text holds. -/
def mark : UInt8 := 255

/-- The content of a file that holds a table. -/
def toBytes (table : TableStore) : ByteArray := ⟨#[mark]⟩ ++ table.toText.toUTF8

/-- What a file with this content is as a database. -/
def ofBytes (content : ByteArray) : DatabaseFile :=
  let text? := if content.data[0]? = some mark then
      String.fromUTF8? (content.extract 1 content.size)
    else none
  match text?.bind TableStore.ofText? with
  | some table => holding table
  | none => ofPlain content

/-- Opens the database in a file. One that is only read cannot be set up. -/
def opened (isReadOnly : Bool) : DatabaseFile → OpenedDatabase
  | blank =>
    if isReadOnly then .refused ("SQLite error: " ++ StoreError.readOnlyText) else .opened {}
  | holding table => .opened table
  | foreign => .refused "SQLite error: file is not a database"

/-- The complaint about a path at which no database can be. -/
def unopened (path : String) : OpenedDatabase :=
  .refused ("SQLite error: unable to open database file: " ++ path)

end DatabaseFile

end SheetLedger
