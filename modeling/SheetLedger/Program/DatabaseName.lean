import SheetLedger.Text.Numeral

/-!
# Names of databases

What the text that names a database asks for. Most names are the path of a file, which is made if it
is not there. The empty name and `:memory:` stand for a database that passes with the run of the
program. A name that starts with `file:` is an address: a path, and options after a `?`.

* Between two slashes and the next one an address may name the machine, which must be this one.
* What follows a `#` says nothing. Options stand between `&`, each a name and a value around `=`.
* In the path and in the names and values of options, `%` and two digits of base sixteen write a
  byte, and a zero byte hides the rest of its part.

`DatabaseName.ofText` reads a name. Options that do not bear on what can be read and written are
left aside.
-/

namespace SheetLedger

/-- What may be done with a database. -/
inductive Access where
  | readOnly
  /-- It is read and written, if it is there. -/
  | existing
  /-- It is read and written, and made if it is not there. -/
  | create
  /-- It passes with the run of the program. -/
  | passing
deriving Repr, DecidableEq

namespace Access

/-- The access that an address calls by a name. -/
def ofName? (name : String) : Option Access :=
  if name = "ro" then some .readOnly
  else if name = "rw" then some .existing
  else if name = "rwc" then some .create
  else if name = "memory" then some .passing
  else none

/-- Whether an access can be asked for after another one: one that allows more cannot, but a passing
database harms nothing and so bars nothing. -/
def admits : Access → Access → Bool
  | .readOnly, asked => asked = .readOnly || asked = .passing
  | .existing, asked => asked ≠ .create
  | .create, _ | .passing, _ => true

end Access

/-- What a text asks for that names a database. -/
inductive DatabaseName where
  /-- A database that passes with the run of the program. -/
  | passing (isReadOnly : Bool)
  /-- The database in the file at a path. A fixed file is taken never to change, so it is not
  written either. -/
  | stored (path : String) (access : Access) (isFixed : Bool)
deriving Repr, DecidableEq

/-- Why a text names no database. -/
inductive DatabaseNameError where
  /-- No name holds a zero character. -/
  | zeroCharacter
  /-- The address is on another machine. -/
  | elsewhere (machine : String)
  /-- The option has no such value. -/
  | unknownValue (option value : String)
  /-- An earlier option allows less. -/
  | notAllowed (mode : String)
deriving Repr, DecidableEq

/-- The text shown for a name that is none. -/
def DatabaseNameError.message : DatabaseNameError → String
  | zeroCharacter => "zero character in the name"
  | elsewhere machine => "invalid uri authority: " ++ machine
  | unknownValue option value => "no such " ++ option ++ ": " ++ value
  | notAllowed mode => "access mode not allowed: " ++ mode

namespace DatabaseName

/-! ## Parts of an address -/

/-- The bytes that a part of an address writes. -/
def bytesOf : List Char → List UInt8
  | [] => []
  | '%' :: a :: b :: rest =>
    match Numeral.hexDigit? a, Numeral.hexDigit? b with
    | some high, some low =>
      if 16 * high + low = 0 then [] else UInt8.ofNat (16 * high + low) :: bytesOf rest
    | _, _ => '%'.toUInt8 :: bytesOf (a :: b :: rest)
  | c :: rest => String.utf8EncodeChar c ++ bytesOf rest

/-- What a part of an address writes. One whose bytes are no text stands for itself. -/
def decode (part : List Char) : String :=
  (String.fromUTF8? ⟨(bytesOf part).toArray⟩).getD (String.ofList part)

/-- A text up to the first of a character, and after it. -/
def cutAt (c : Char) (text : List Char) : List Char × List Char :=
  (text.takeWhile (· ≠ c), (text.dropWhile (· ≠ c)).drop 1)

/-- The options in a text. One without a name says nothing, and one without a value has the empty
one. -/
def optionsOf (text : List Char) : List (String × String) :=
  (((String.ofList text).splitOn "&").map fun option =>
    let (name, value) := cutAt '=' option.toList
    (decode name, decode value)).filter (·.1 ≠ "")

/-! ## Options -/

/-- The access after one more option. -/
def accessAfter (access : Access) : String × String → Except DatabaseNameError Access
  | ("mode", value) =>
    match Access.ofName? value with
    | none => .error (.unknownValue "access mode" value)
    | some asked => if access.admits asked then .ok asked else .error (.notAllowed value)
  | ("cache", value) =>
    if value = "shared" ∨ value = "private" then .ok access
    else .error (.unknownValue "cache mode" value)
  | _ => .ok access

/-- The systems of files that a database can be in; the last one keeps nothing. -/
def fileSystems : List String := ["unix", "unix-none", "unix-dotfile", "unix-excl", "memdb"]

/-- The system of files that options choose, of which the last one counts. -/
def fileSystem (options : List (String × String)) : Except DatabaseNameError String :=
  match options.reverse.lookup "vfs" with
  | none => .ok "unix"
  | some value =>
    if fileSystems.contains value then .ok value else .error (.unknownValue "vfs" value)

/-- Whether the value of an option says yes. A number says so unless the last eight bits are zero,
but not beyond 31 bits. -/
def isYes (value : String) : Bool :=
  let digits := value.toList.takeWhile Char.isDigit
  if digits.isEmpty then ["on", "yes", "true"].contains value.toLower
  else
    let n := Nat.ofDigitChars 10 digits 0
    n < 1 <<< 31 && n % 256 ≠ 0

/-- The database that a path and options name. -/
def ofParts (path : String) (options : List (String × String)) :
    Except DatabaseNameError DatabaseName := do
  let access ← options.foldlM accessAfter .create
  let system ← fileSystem options
  let isFixed := (options.lookup "immutable").any isYes
  if path = "" ∨ path = ":memory:" ∨ access = .passing then
    return passing (access = .readOnly)
  else if system = "memdb" then return passing (access = .readOnly || isFixed)
  else return stored path access isFixed

/-! ## Names -/

/-- The database at an address, of which the text is given without the first five characters. -/
def ofAddress (text : List Char) : Except DatabaseNameError DatabaseName := do
  let address ← match text with
    | '/' :: '/' :: rest =>
      let machine := String.ofList (rest.takeWhile (· ≠ '/'))
      if machine = "" ∨ machine = "localhost" then .ok (rest.dropWhile (· ≠ '/'))
      else .error (.elsewhere machine)
    | _ => .ok text
  let (path, options) := cutAt '?' (cutAt '#' address).1
  ofParts (decode path) (optionsOf options)

/-- The database that a text names. -/
def ofText (text : String) : Except DatabaseNameError DatabaseName :=
  if text.contains '\x00' then .error .zeroCharacter
  else match text.toList with
  | 'f' :: 'i' :: 'l' :: 'e' :: ':' :: address => ofAddress address
  | _ => ofParts text []

/-- Whether nothing is written to a database of this name. -/
def isReadOnly : DatabaseName → Bool
  | passing isReadOnly => isReadOnly
  | stored _ access isFixed => access = .readOnly || isFixed

end DatabaseName

end SheetLedger
