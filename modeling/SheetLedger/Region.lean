import SheetLedger.Slot

/-!
# Regions

A region is the rectangle between two corner slots, both included. The corners are kept as they
were written: a region whose first corner lies after its last on either axis contains no slot.
-/

namespace SheetLedger

/-- The rectangle between two corners. -/
structure Region where
  first : Slot
  last : Slot
deriving Repr, DecidableEq

namespace Region

/-- Whether a slot lies between the corners on both axes. -/
def contains (region : Region) (slot : Slot) : Bool :=
  region.first.column ≤ slot.column && slot.column ≤ region.last.column &&
    region.first.row ≤ slot.row && slot.row ≤ region.last.row

/-- The codes of both corners, joined by a colon. -/
def text (region : Region) : String := region.first.code ++ ":" ++ region.last.code

/-- The two halves of a text with exactly one colon. -/
def halves? (text : List Char) : Option (List Char × List Char) :=
  match text.dropWhile (· ≠ ':') with
  | [] => none
  | _ :: last => if ':' ∈ last then none else some (text.takeWhile (· ≠ ':'), last)

/-- The region that a text names: two codes joined by one colon. A text without exactly one colon
is no region; otherwise a corner may be malformed, and the first is complained of first. -/
def ofText (text : String) : Except EvalError Region :=
  match halves? text.toList with
  | none => .error (.invalidRegion text)
  | some (first, last) => do
    let first ← Slot.ofCode (String.ofList first)
    let last ← Slot.ofCode (String.ofList last)
    return ⟨first, last⟩

end Region

end SheetLedger
