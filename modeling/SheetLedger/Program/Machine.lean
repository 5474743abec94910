import SheetLedger.Program.Host
import SheetLedger.Program.Place

/-!
# A machine of files

Files and directories by place, and a time that passes with every reading: a host in itself, on
which runs of the program follow one another.

* A file is read where its path leads step by step, and each step starts from a directory.
* A database is opened where its path leads by the names alone. Every place on the way is still
  looked at: it may be missing, but nothing is looked for below a file, or under too long a name.
-/

namespace SheetLedger

/-- What a machine has in a file. -/
inductive StoredFile where
  /-- A content that was not written as a database. -/
  | plain (content : ByteArray)
  | database (table : TableStore)
  /-- A file that reads as empty and keeps nothing. -/
  | nowhere

/-- What is in a file when it is read. -/
def StoredFile.content : StoredFile → ByteArray
  | plain content => content
  | database table => DatabaseFile.toBytes table
  | nowhere => .empty

/-- Files and further directories by place, and the time. -/
structure Machine where
  files : List (Place × StoredFile) := [(Place.ofPath "/dev/null", .nowhere)]
  directories : List Place := []
  time : Nat := 0
  /-- The length of the path from the root to where the program runs, in bytes. -/
  homeLength : Nat := 15

namespace Machine

/-- The longest name of a file, in bytes. -/
def nameLimit : Nat := 255

/-- The longest path that is followed step by step, in bytes. -/
def pathLimit : Nat := 4095

/-- The longest path from the root to a database, in bytes. The database keeps such a path in 512
bytes, the last of which ends it. -/
def databasePathLimit : Nat := 512 - 1

/-- The longest ending of a file that goes with a database while it is written. -/
def companion : String := "-journal"

/-! ## Looking -/

/-- Whether there is a directory at a place: every place from which the program's own directory is
reached, and those on the way to something that exists. -/
def isDirectory (machine : Machine) (place : Place) : Bool :=
  place = .root || place.isOutward || machine.directories.contains place ||
    machine.files.any (place.isAbove ·.1) || machine.directories.any place.isAbove

/-- Whether a place is below a file, where nothing can be. -/
def isBelowFile (machine : Machine) (place : Place) : Bool :=
  machine.files.any (·.1.isAbove place)

/-- Where a path leads step by step, if it does. -/
def follow? (machine : Machine) (path : String) : Option Place :=
  let way := Place.wayOf path
  if path = "" ∨ pathLimit < path.utf8ByteSize then none
  else if way.dropLast.all machine.isDirectory then way.getLast?
  else none

/-- The length of the path from the root to a place, in bytes. -/
def fullLength (machine : Machine) (place : Place) : Nat :=
  let length := place.toPath.utf8ByteSize
  if place.isAbsolute then length else machine.homeLength + "/".utf8ByteSize + length

/-- Whether a place can be looked at, be there anything or not. -/
def canLook (machine : Machine) (place : Place) : Bool :=
  let name := place.names.head?.getD ""
  -- a name that is too long matters only where names are looked up
  !machine.isBelowFile place &&
    (name.utf8ByteSize ≤ nameLimit || !machine.isDirectory place.parent) &&
    machine.fullLength place ≤ databasePathLimit

/-- Where the path of a database leads, if a file can be there. -/
def databasePlace? (machine : Machine) (path : String) : Option Place :=
  let place := Place.ofPath path
  -- the name must leave room for the files that go with the database
  let name := place.names.head?.getD "" ++ companion
  if (Place.wayOf path).all machine.canLook && !machine.isDirectory place &&
      machine.isDirectory place.parent && name.utf8ByteSize ≤ nameLimit then some place
  else none

/-! ## Files -/

/-- Puts a file at a place, instead of the one that is there. -/
def write (machine : Machine) (place : Place) (file : StoredFile) : Machine :=
  { machine with files := (place, file) :: machine.files.filter (·.1 ≠ place) }

/-- Reads a file. -/
def readFile (machine : Machine) (path : String) : FileContent :=
  match machine.follow? path with
  | none => .missing
  | some place =>
    match machine.files.lookup place with
    | some file => .bytes file.content
    | none =>
      if machine.isDirectory place then .unreadable "Is a directory (os error 21)" else .missing

/-! ## Databases -/

/-- Opens the database in the file at a place. -/
def openFile (machine : Machine) (place : Place) (access : Access) (isReadOnly : Bool) :
    OpenedDatabase × Machine :=
  match machine.files.lookup place, access with
  | some (.plain content), _ => ((DatabaseFile.ofPlain content).opened isReadOnly, machine)
  | some (.database table), _ => (.opened table, machine)
  | some .nowhere, _ => (.refused "SQLite error: disk I/O error", machine)
  | none, .create => (DatabaseFile.blank.opened isReadOnly, machine.write place (.plain .empty))
  | none, _ => (DatabaseFile.unopened place.toPath, machine)

/-- Opens a database. -/
def openDatabase (machine : Machine) : DatabaseName → OpenedDatabase × Machine
  | .passing isReadOnly => (DatabaseFile.blank.opened isReadOnly, machine)
  | .stored path access isFixed =>
    match machine.databasePlace? path with
    | none => (DatabaseFile.unopened path, machine)
    | some place => machine.openFile place access (access = .readOnly || isFixed)

/-- Keeps the table of a database. -/
def keepDatabase (machine : Machine) (table : TableStore) : DatabaseName → Machine
  | .passing _ => machine
  | .stored path _ _ => machine.write (Place.ofPath path) (.database table)

/-! ## The user's files -/

/-- The path of the user's configuration file. -/
def userConfiguration : String := "xdg_config/sheetline/config.toml"

/-- The directory of the user's database. -/
def userDirectory : String := "xdg_data/sheetline"

/-- Makes a directory and those on the way to it, unless a file is in the way. -/
def makeDirectory (machine : Machine) (path : String) : Option Machine :=
  let place := Place.ofPath path
  if (machine.files.lookup place).isSome || machine.isBelowFile place then none
  else some { machine with directories := place :: machine.directories }

end Machine

instance : Host (StateM Machine) where
  readFile path := do return (← get).readFile path
  openDatabase name := modifyGet (·.openDatabase name)
  keepDatabase name table := modify (·.keepDatabase table name)
  userConfiguration := return some Machine.userConfiguration
  userDatabase := modifyGet fun machine =>
    match machine.makeDirectory Machine.userDirectory with
    | some machine => (some (Machine.userDirectory ++ "/sheetline.db"), machine)
    | none => (none, machine)
  now := modifyGet fun machine => (machine.time, { machine with time := machine.time + 1 })

end SheetLedger
