import SheetLedger.Text.Numeral

/-!
# Slots and their codes

A slot is the place of a cell in a spreadsheet: a column and a row, both counted from zero. Its
code spells the column in letters and the row, counted from one, in digits: `AB77` is column 27,
row 76.

Letters count in *bijective base 26*: `A` to `Z` are the digits one to twenty-six, there is no
zero, and so every positive number has exactly one spelling.

* `Slot.spell` writes the letters of a positive number and `Slot.columnNumber?` reads them, from the
  left, as long as a word of 64 bits holds the number.
* `Slot.code` prints a slot and `Slot.ofCode` reads one; a code whose numbers do not fit a word, or
  whose row is zero, is malformed.

`EvalError` collects the ways in which the text of a place, of a region or of a reference can fail
to yield a value.
-/

namespace SheetLedger

/-- Why a code does not read or a formula has no value. -/
inductive EvalError where
  /-- The text is not the code of a slot. -/
  | malformedCode (text : String)
  /-- The text is not two codes joined by one colon. -/
  | invalidRegion (text : String)
  /-- No cell stands at the slot that this code names. -/
  | missingCell (code : String)
deriving Repr, DecidableEq

/-- The text shown for an evaluation error. -/
def EvalError.message : EvalError → String
  | .malformedCode text => "invalid code format: " ++ text
  | .invalidRegion text => "invalid range " ++ text
  | .missingCell code => "could not find cell " ++ code

/-- The place of a cell: column and row, counted from zero. -/
@[ext] structure Slot where
  column : Nat
  row : Nat
deriving Repr, DecidableEq, Inhabited

namespace Slot

/-! ## Column letters -/

/-- The letter for a digit of base 26, where `A` stands for digit zero. -/
def letter (digit : Nat) : Char := Char.ofNat ('A'.toNat + digit)

/-- The letters of a number in bijective base 26; zero has none. -/
def spell (n : Nat) : List Char :=
  if n = 0 then [] else spell ((n - 1) / 26) ++ [letter ((n - 1) % 26)]
termination_by n
decreasing_by omega

/-- The digit of bijective base 26 that a letter is. -/
def digit (letter : Char) : Nat := letter.toNat - 'A'.toNat + 1

/-- A number, if a word holds it. -/
def fit? (n : Nat) : Option Nat := if n ≤ Numeral.wordMax then some n else none

/-- The number that one more letter on the right makes of a number. A word must hold what is carried
one place to the left, and then the sum. -/
def appendLetter? (value : Nat) (letter : Char) : Option Nat := do
  let carried ← fit? (26 * value)
  fit? (carried + digit letter)

/-- The number that letters spell, read from the left. -/
def columnNumber? (letters : List Char) : Option Nat := letters.foldlM appendLetter? 0

/-- The letters of a column. -/
def columnLetters (column : Nat) : String := String.ofList (spell (column + 1))

/-- The letters of a column index that may be negative, which has none. -/
def signedColumnLetters (column : Int) : String :=
  if column < 0 then "" else columnLetters column.toNat

/-! ## Codes -/

/-- The code of a slot. -/
def code (slot : Slot) : String := columnLetters slot.column ++ toString (slot.row + 1)

/-- The slot that a code names: letters `A` to `Z`, then digits, and nothing else. Both numbers
count from one and must fit a word. -/
def ofChars? (text : List Char) : Option Slot :=
  let column := columnNumber? (text.takeWhile Char.isUpper)
  let row := Numeral.word? (text.dropWhile Char.isUpper)
  match column, row with
  | some (column + 1), some (row + 1) => some ⟨column, row⟩
  | _, _ => none

/-- The slot that a code names, or the complaint that the text is no code. -/
def ofCode (text : String) : Except EvalError Slot :=
  match ofChars? text.toList with
  | some slot => .ok slot
  | none => .error (.malformedCode text)

end Slot

end SheetLedger
