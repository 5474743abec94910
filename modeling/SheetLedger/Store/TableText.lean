import SheetLedger.Store.Table

/-!
# Tables as texts

The form in which a table is kept in a file: a heading, the id given last, and one line for each
row with its fields between tabs. A tab, a line feed and a backslash within a field are written
with a backslash, so that a line is one row and a field never divides.

* `Escaped.encode` and `Escaped.decode` write and read one field.
* `TableStore.toText` and `TableStore.ofText?` write and read a table.
-/

namespace SheetLedger

/-! ## Fields -/

namespace Escaped

/-- A field as it is written. -/
def encode : List Char → List Char
  | [] => []
  | '\\' :: rest => '\\' :: '\\' :: encode rest
  | '\t' :: rest => '\\' :: 't' :: encode rest
  | '\n' :: rest => '\\' :: 'n' :: encode rest
  | c :: rest => c :: encode rest

/-- The field that is written so. A backslash stands only in front of itself, `t` or `n`. -/
def decode : List Char → Option (List Char)
  | [] => some []
  | '\\' :: '\\' :: rest => (decode rest).map ('\\' :: ·)
  | '\\' :: 't' :: rest => (decode rest).map ('\t' :: ·)
  | '\\' :: 'n' :: rest => (decode rest).map ('\n' :: ·)
  | '\\' :: _ => none
  | c :: rest => (decode rest).map (c :: ·)

/-- What is written reads back. -/
theorem decode_encode (field : List Char) : decode (encode field) = some field := by
  fun_induction encode field with
  | case1 => rfl
  | case2 rest ih => rw [decode, ih, Option.map_some]
  | case3 rest ih => rw [decode, ih, Option.map_some]
  | case4 rest ih => rw [decode, ih, Option.map_some]
  | case5 c rest hbackslash _ _ ih =>
    rw [decode, ih, Option.map_some]
    all_goals intros; exact hbackslash ‹_›

/-- A written field holds no tab and no line feed. -/
theorem not_mem_encode (field : List Char) : '\t' ∉ encode field ∧ '\n' ∉ encode field := by
  fun_induction encode field with
  | case1 => simp
  | case2 rest ih => simpa using ih
  | case3 rest ih => simpa using ih
  | case4 rest ih => simpa using ih
  | case5 c rest _ htab hline ih =>
    simpa [ih] using ⟨fun h => htab h.symm, fun h => hline h.symm⟩

end Escaped

/-! ## Rows -/

namespace TableRow

/-- The fields of a row as texts. -/
def fields (row : TableRow) : List String :=
  [toString row.id, row.sheet, toString row.column, toString row.row, row.raw, row.computed,
    toString row.version]

/-- The line of a row. -/
def line (row : TableRow) : String :=
  "\t".intercalate (row.fields.map fun field => String.ofList (Escaped.encode field.toList))

/-- A number with an optional minus. -/
def integer? : List Char → Option Int
  | '-' :: digits => (Numeral.natural? digits).map fun n => -(n : Int)
  | digits => (Numeral.natural? digits).map Int.ofNat

/-- The row that a line holds. -/
def ofLine? (line : String) : Option TableRow := do
  match ← (line.splitOn "\t").mapM (Escaped.decode ·.toList) with
  | [id, sheet, column, row, raw, computed, version] =>
    return {
      id := ← Numeral.natural? id, sheet := String.ofList sheet,
      column := ← integer? column, row := ← integer? row,
      raw := String.ofList raw, computed := String.ofList computed,
      version := ← integer? version }
  | _ => none

end TableRow

/-! ## Tables -/

namespace TableStore

/-- The first line of every table. -/
def heading : String := "SheetLedger table 1"

/-- A table as a text. -/
def toText (store : TableStore) : String :=
  "\n".intercalate (heading :: toString store.lastId :: store.rows.map TableRow.line)

/-- The table that a text holds. -/
def ofText? (text : String) : Option TableStore :=
  match text.splitOn "\n" with
  | first :: lastId :: lines =>
    if first = heading then do
      return { rows := ← lines.mapM TableRow.ofLine?, lastId := ← Numeral.natural? lastId.toList }
    else none
  | _ => none

end TableStore

end SheetLedger
