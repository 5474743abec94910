import SheetLedger.Formula.Basic

/-!
# What formulas read

A reference names a slot and an aggregate a region, if their texts do; that a reference does not is
a complaint of its own. A formula reads the slot that it names, or all slots of its region, and
nothing if its text does not read. The dependents of a changed slot are the cells that read it, and
no cell is its own dependent.
-/

namespace SheetLedger

namespace Formula

/-- The slot that a reference names. -/
def target? : Formula → Option (Except EvalError Slot)
  | reference code => some (Slot.ofCode code)
  | _ => none

/-- The region that an aggregate covers. -/
def region? : Formula → Option (Except EvalError Region)
  | aggregate _ region => some (Region.ofText region)
  | _ => none

/-- A reference whose text is not the code of a slot, as in `=A0`. -/
def isMalformedReference (formula : Formula) : Bool :=
  match formula.target? with
  | some (.error _) => true
  | _ => false

/-- Whether a formula reads the cell at a slot. -/
def dependsOn (formula : Formula) (slot : Slot) : Bool :=
  match formula with
  | reference code =>
    match Slot.ofCode code with
    | .ok target => target = slot
    | .error _ => false
  | aggregate _ region =>
    match Region.ofText region with
    | .ok region => region.contains slot
    | .error _ => false
  | literal _ | unrecognized _ => false

end Formula

/-- The cells of a snapshot, other than those at the changed slot, that read it. -/
def Snapshot.dependents (snapshot : Snapshot) (changed : Slot) : List Cell :=
  List.filter (fun cell => cell.slot ≠ changed && cell.formula.dependsOn changed) snapshot

end SheetLedger
