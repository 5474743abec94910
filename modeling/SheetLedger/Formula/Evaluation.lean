import SheetLedger.Formula.Basic
import SheetLedger.Text.Shortest

/-!
# Evaluation

The value of a formula against a snapshot, as a text. Only computed texts are read:

* a reference is the computed text of the first cell at its slot;
* a sum adds the computed texts in its region that are signed numbers of 64 bits and wraps around
  when the total does not fit;
* an average adds the ones that are numbers, in the order of the snapshot, and divides by their
  count; an empty average is `NaN`;
* literals and unrecognized texts are their own value.

`Formula.compute` puts the error marker in place of a value that does not exist.
-/

namespace SheetLedger

namespace Snapshot

/-- The computed texts of the cells in a region, in order. -/
def valuesIn (snapshot : Snapshot) (region : Region) : List String :=
  (List.filter (region.contains ·.slot) snapshot).map (·.computed)

end Snapshot

/-- The wrapped total of the texts that are signed numbers. -/
def Aggregate.total (values : List String) : Int64 :=
  (values.filterMap (Numeral.signed? ·.toList)).foldl (· + ·) 0

/-- The mean of the texts that are numbers. -/
def Aggregate.mean (values : List String) : Float :=
  let numbers := values.filterMap Decimal.float?
  numbers.foldl (· + ·) 0.0 / Float.ofNat numbers.length

/-- The text of an aggregate of some values. -/
def Aggregate.apply : Aggregate → List String → String
  | sum, values => Numeral.ofSigned (total values)
  | average, values => Shortest.ofFloat (mean values)

namespace Formula

/-- The value of a formula, or why it has none. -/
def evaluate (formula : Formula) (snapshot : Snapshot) : Except EvalError String :=
  match formula with
  | literal raw => .ok raw
  | unrecognized raw => .ok raw
  | reference code => do
    match snapshot.find? (← Slot.ofCode code) with
    | some cell => return cell.computed
    | none => throw (.missingCell code)
  | aggregate operation region => do
    return operation.apply (snapshot.valuesIn (← Region.ofText region))

end Formula

/-- A computed text, and why it stands in place of a value if it does. -/
structure Evaluation where
  value : String
  failure? : Option EvalError
deriving Repr, DecidableEq

/-- The value of a formula, or the marker in its place. -/
def Formula.compute (formula : Formula) (snapshot : Snapshot) (marker : String) : Evaluation :=
  match formula.evaluate snapshot with
  | .ok value => ⟨value, none⟩
  | .error cause => ⟨marker, some cause⟩

end SheetLedger
