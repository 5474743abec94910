import SheetLedger.Toml.Quoted
import SheetLedger.Toml.Scalar
import SheetLedger.Toml.Table

/-!
# TOML statements

The lines of a TOML document: headers `[path]` and `[[path]]` and assignments `path = value`, with
comments and blank lines between them. Keys are bare or quoted and joined by points. Values are
texts, scalars, arrays and inline tables.
-/

namespace SheetLedger.Toml

/-- One line of a document that says something. -/
inductive Statement where
  /-- A value for a key of the open table; the path has at least one key. -/
  | assign (path : List String) (value : Datum)
  /-- Opens the table at a path. -/
  | header (path : List String)
  /-- Opens a new element of the array of tables at a path. -/
  | element (path : List String)

/-! ## Keys -/

/-- One key. -/
def key : Reader String := do
  match ← get with
  | '"' :: _ => quoted
  | '\'' :: _ => verbatim
  | _ =>
    let name ← takeRun isBare
    if name.isEmpty then failure else return String.ofList name

/-- Keys joined by points, at most `fuel` of them, with the blanks around them. -/
def path : Nat → Reader (List String)
  | 0 => failure
  | fuel + 1 => do
    blanks
    let first ← key
    blanks
    match ← get with
    | '.' :: _ =>
      expect '.'
      return first :: (← path fuel)
    | _ => return [first]

/-! ## Values -/

mutual

/-- A value that is nested at most `fuel` deep. -/
def value : Nat → Reader Datum
  | 0 => failure
  | fuel + 1 => do
    match ← get with
    | '"' :: '"' :: '"' :: _ => return .text (← longQuoted)
    | '"' :: _ => return .text (← quoted)
    | '\'' :: '\'' :: '\'' :: _ => return .text (← longVerbatim)
    | '\'' :: _ => return .text (← verbatim)
    | '[' :: _ =>
      expect '['
      return .list (← items fuel)
    | '\x7b' :: _ =>
      expect '\x7b'
      blanks
      match ← get with
      | '\x7d' :: _ =>
        expect '\x7d'
        return .record []
      | _ => return .record (Table.toFields (← entries fuel []))
    | _ => scalar

/-- The remaining items of an array, up to its closing bracket. -/
def items : Nat → Reader (List Datum)
  | 0 => failure
  | fuel + 1 => do
    space (← get).length.succ
    match ← get with
    | ']' :: _ =>
      expect ']'
      return []
    | _ =>
      let item ← value fuel
      space (← get).length.succ
      match ← get with
      | ',' :: _ =>
        expect ','
        return item :: (← items fuel)
      | _ =>
        expect ']'
        return [item]

/-- The remaining entries of an inline table, up to its closing brace, after those read so far. -/
def entries : Nat → Table → Reader Table
  | 0, _ => failure
  | fuel + 1, table => do
    let keys ← path (← get).length
    expect '='
    blanks
    let datum ← value fuel
    blanks
    match table.assign keys datum with
    | none => failure
    | some table =>
      match ← get with
      | ',' :: _ =>
        expect ','
        entries fuel table
      | _ =>
        expect '\x7d'
        return table

end

/-! ## Statements -/

/-- A header or an assignment. -/
def statement : Reader Statement := do
  let cs ← get
  match cs with
  | '[' :: '[' :: _ =>
    expect '['
    expect '['
    let keys ← path cs.length
    expect ']'
    expect ']'
    return .element keys
  | '[' :: _ =>
    expect '['
    let keys ← path cs.length
    expect ']'
    return .header keys
  | _ =>
    let keys ← path cs.length
    expect '='
    blanks
    return .assign keys (← value cs.length)

/-- The statements of at most `fuel` lines that say something, up to the end. -/
def statements : Nat → Reader (List Statement)
  | 0 => failure
  | fuel + 1 => do
    space (← get).length.succ
    match ← get with
    | [] => return []
    | _ =>
      let first ← statement
      restOfLine
      return first :: (← statements fuel)

/-- The statements of a document. A mark of the byte order in front is skipped. -/
def statements? (text : String) : Option (List Statement) :=
  let cs := match text.toList with
    | '\ufeff' :: rest => rest
    | cs => cs
  ((statements cs.length.succ).run cs).map (·.1)

end SheetLedger.Toml
