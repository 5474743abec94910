import SheetLedger.Slot

/-!
# Spreadsheets and their bounds

A spreadsheet has a number of rows and columns, and only slots inside them may be written. The
directory holds the spreadsheets that are known, one for each id. Its check accepts the slots inside
the dimensions of a known spreadsheet, and no others (`Directory.check_eq_ok_iff`).
-/

namespace SheetLedger

/-- A spreadsheet and its dimensions. -/
structure Spreadsheet where
  id : String
  name : String
  rows : Nat
  columns : Nat
deriving Repr, DecidableEq

/-- Why a slot may not be written. -/
inductive BoundsError where
  | rowOutOfBounds (row rows : Nat)
  | columnOutOfBounds (column columns : Nat)
  | unknownSpreadsheet (id : String)
deriving Repr, DecidableEq

/-- The text shown for a bounds error. -/
def BoundsError.message : BoundsError → String
  | .rowOutOfBounds row rows =>
    "row index " ++ toString row ++ " is out of range for row count " ++ toString rows
  | .columnOutOfBounds column columns =>
    "column index " ++ toString column ++ " is out of range for column count " ++
      toString columns
  | .unknownSpreadsheet id => "Unknown spreadsheet: " ++ id

namespace Spreadsheet

/-- Accepts the slots inside the dimensions; the row is looked at first. -/
def check (sheet : Spreadsheet) (slot : Slot) : Except BoundsError Unit :=
  if sheet.rows ≤ slot.row then .error (.rowOutOfBounds slot.row sheet.rows)
  else if sheet.columns ≤ slot.column then
    .error (.columnOutOfBounds slot.column sheet.columns)
  else .ok ()

theorem check_eq_ok_iff {sheet : Spreadsheet} {slot : Slot} :
    sheet.check slot = .ok () ↔ slot.row < sheet.rows ∧ slot.column < sheet.columns := by
  unfold check
  by_cases hrow : sheet.rows ≤ slot.row
  · simp [hrow, Nat.not_lt.2 hrow]
  · by_cases hcolumn : sheet.columns ≤ slot.column
    · simp [hrow, hcolumn, Nat.not_lt.2 hcolumn]
    · simp [hrow, hcolumn, Nat.lt_of_not_le hrow, Nat.lt_of_not_le hcolumn]

end Spreadsheet

/-- The known spreadsheets. -/
structure Directory where
  sheets : List Spreadsheet := []
deriving Repr, DecidableEq

namespace Directory

/-- The spreadsheet with an id. -/
def get? (directory : Directory) (id : String) : Option Spreadsheet :=
  directory.sheets.find? (·.id = id)

/-- Adds a spreadsheet, or replaces the one with its id. -/
def insert (directory : Directory) (sheet : Spreadsheet) : Directory :=
  ⟨sheet :: directory.sheets.filter (·.id ≠ sheet.id)⟩

/-- The directory of a list of spreadsheets; of several with one id the last counts. -/
def ofList (sheets : List Spreadsheet) : Directory :=
  sheets.foldl insert {}

/-- The number of spreadsheets. -/
def size (directory : Directory) : Nat := directory.sheets.length

/-- Accepts the slots inside the dimensions of a known spreadsheet. -/
def check (directory : Directory) (id : String) (slot : Slot) : Except BoundsError Unit :=
  match directory.get? id with
  | some sheet => sheet.check slot
  | none => .error (.unknownSpreadsheet id)

/-- A slot inside the dimensions of a known spreadsheet. -/
def Within (directory : Directory) (id : String) (slot : Slot) : Prop :=
  ∃ sheet, directory.get? id = some sheet ∧ slot.row < sheet.rows ∧ slot.column < sheet.columns

theorem check_eq_ok_iff {directory : Directory} {id : String} {slot : Slot} :
    directory.check id slot = .ok () ↔ directory.Within id slot := by
  unfold check Within
  cases directory.get? id with
  | none => simp
  | some sheet => simp [Spreadsheet.check_eq_ok_iff]

end Directory

end SheetLedger
