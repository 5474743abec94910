import SheetLedger.Cell
import SheetLedger.Region
import SheetLedger.Token.Stream

/-!
# Formulas

The shape of a cell's text. Four shapes exist: a text that does not start with `=` is a literal, a
single range operand is a reference to one cell, a call of `SUM` or `AVERAGE` with a single range
operand is an aggregate, and every other text is unrecognized and stands for itself.

A shape keeps the text of its operand; that it names a slot or a region is found out when it is
evaluated.
-/

namespace SheetLedger

/-- What an aggregate does with the values of its region. -/
inductive Aggregate where
  | sum
  | average
deriving Repr, DecidableEq

/-- The name under which an aggregate is called. -/
def Aggregate.name : Aggregate → String
  | sum => "SUM"
  | average => "AVERAGE"

/-- The aggregate that is called by a name. -/
def Aggregate.ofName? (name : String) : Option Aggregate :=
  if name = "SUM" then some .sum
  else if name = "AVERAGE" then some .average
  else none

/-- The shape of a cell's text. -/
inductive Formula where
  | literal (raw : String)
  /-- A reference to one cell by the text of its code. -/
  | reference (code : String)
  /-- An aggregate over the region with this text. -/
  | aggregate (operation : Aggregate) (region : String)
  | unrecognized (raw : String)
deriving Repr, DecidableEq

namespace Formula

/-- The shape of a list of tokens, if it is a reference or an aggregate. -/
def ofTokens? : List Token → Option Formula
  | [.operand .range code] => some (.reference code)
  | [.callStart name, .operand .range region, .stop .call] =>
    (Aggregate.ofName? name).map (.aggregate · region)
  | _ => none

/-- The shape of a cell's text. -/
def classify (raw : String) : Formula :=
  if raw.toList.head? = some '=' then
    (ofTokens? (Token.ofText raw)).getD (.unrecognized raw)
  else .literal raw

end Formula

/-- The shape of the text that was entered in a cell. -/
def Cell.formula (cell : Cell) : Formula := Formula.classify cell.raw

end SheetLedger
