import SheetLedger.Text.Numeral

/-!
# Data

Self-describing data, as configuration files and messages hold it: nothing, truth values, integers,
texts, lists and records. Values of other kinds occur in such data but in nothing that is read here,
so they are not kept.

`Fields` are the fields of a record, each name once, and the readers of this module take a value
from a field by its name. A reader answers nothing when the datum is not of its kind. Two of them
depend on the `DataFormat` that the datum comes from.
-/

namespace SheetLedger

/-- A self-describing value. -/
inductive Datum where
  | null
  | boolean (value : Bool)
  | integer (value : Int)
  /-- A value of another kind: a number with a fraction or an exponent, or a date. -/
  | other
  | text (value : String)
  | list (items : List Datum)
  | record (fields : List (String × Datum))
deriving Repr, Inhabited

/-- The fields of a record. -/
abbrev Fields := List (String × Datum)

/-- What sets one format of data apart from another. -/
structure DataFormat where
  /-- Whether a datum says nothing beyond being there. -/
  isNothing : Datum → Bool
  /-- Whether a list of the values of a record may go on after the last of them. -/
  listsGoOn : Bool

namespace Datum

/-- A number of 64 bits without a sign. -/
def word? : Datum → Option Nat
  | integer value =>
    if 0 ≤ value ∧ value ≤ Numeral.wordMax then some value.toNat else none
  | _ => none

/-- A text. -/
def text? : Datum → Option String
  | text value => some value
  | _ => none

/-- The name that a datum chooses: a text, or the name of the only field of a record, which says
nothing more. -/
def choice? (format : DataFormat) : Datum → Option String
  | text name => some name
  | record [(name, value)] => if format.isNothing value then some name else none
  | _ => none

end Datum

/-- Messages have a datum for nothing, and their lists end with the last value of a record. -/
def DataFormat.message : DataFormat where
  isNothing
    | .null => true
    | _ => false
  listsGoOn := false

namespace Fields

variable {α : Type}

/-- Whether every field has one of these names. -/
def only (names : List String) (fields : Fields) : Bool :=
  fields.all fun field => names.contains field.1

/-- The fields of a datum that can have fields with these names: a record without others, or a list
of their values in this order, of which the last may be missing. -/
def named (format : DataFormat) (names : List String) : Datum → Option Fields
  | .record fields => if only names fields then some fields else none
  | .list items =>
    if names.length < items.length && !format.listsGoOn then none else some (names.zip items)
  | _ => none

/-- What a field holds, which must be there. -/
def required (name : String) (read : Datum → Option α) (fields : Fields) : Option α :=
  (fields.lookup name).bind read

/-- What a field holds, or something else when there is no such field. -/
def withDefault (name : String) (read : Datum → Option α) (default : α) (fields : Fields) :
    Option α :=
  match fields.lookup name with
  | some datum => read datum
  | none => some default

/-- What a field holds, if there is such a field. -/
def optional (name : String) (read : Datum → Option α) (fields : Fields) : Option (Option α) :=
  withDefault name (fun datum => (read datum).map some) none fields

end Fields

end SheetLedger
