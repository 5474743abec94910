import SheetLedger.Toml.Statement

/-!
# TOML documents

What the statements of a document say together: one record. A header opens a table, which may be
opened only once, and the assignments after it go there.
-/

namespace SheetLedger.Toml

/-- A header opens a table that is new or only implied. -/
def opening : Option Node → Option Node
  | none => some (.table .opened [])
  | some (.table .implied inner) => some (.table .opened inner)
  | _ => none

/-- A header in double brackets adds a table to an array. -/
def adding : Option Node → Option Node
  | none => some (.tables [] [])
  | some (.tables newest earlier) => some (.tables [] (newest :: earlier))
  | _ => none

/-- The table after the statements, of which assignments go to the table at `current`. -/
def build (current : List String) (table : Table) : List Statement → Option Table
  | [] => some table
  | .header path :: rest => (table.atPath false opening path).bind (build path · rest)
  | .element path :: rest => (table.atPath false adding path).bind (build path · rest)
  | .assign path datum :: rest =>
    (table.within false (Table.assign path datum) .opened current).bind (build current · rest)

/-- The fields of a document, if it is one. -/
def fields? (text : String) : Option Fields :=
  (statements? text).bind fun lines => (build [] [] lines).map Table.toFields

end SheetLedger.Toml
