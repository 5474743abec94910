import SheetLedger.Datum

/-!
# TOML tables

Tables as they grow while a document, or an inline table, is read. A path makes the tables on its
way, and how a table came about decides what may still be added to it.

* Headers open tables that are new or that stand on the way to one that was opened before.
* Paths of assignments are *dotted*: they make the tables on their way, add to tables that such
  paths made, and to no others. On the way they keep out of tables that a header opened.
* A value is complete once it is assigned, so that nothing is added to an inline table.
-/

namespace SheetLedger.Toml

/-- How a table came about. -/
inductive Origin where
  /-- On the way to a table that a header opened. -/
  | implied
  /-- On the way to the key of an assignment. -/
  | dotted
  /-- A header opened it. -/
  | opened
deriving DecidableEq

/-- What stands under a key. -/
inductive Node where
  | value (datum : Datum)
  | table (origin : Origin) (fields : List (String × Node))
  /-- An array of tables, the open one at the front. -/
  | tables (newest : List (String × Node)) (earlier : List (List (String × Node)))

/-- A table, each of its keys once. -/
abbrev Table := List (String × Node)

namespace Table

/-- Puts a node in the place of the one under its key, or at the end. -/
def put (key : String) (node : Node) : Table → Table
  | [] => [(key, node)]
  | (k, n) :: rest => if k = key then (key, node) :: rest else (k, n) :: put key node rest

/-- Changes the table at a path, which runs through the newest element of an array of tables. The
path starts in a table of the given origin. -/
def within (isDotted : Bool) (change : Table → Option Table) :
    Origin → List String → Table → Option Table
  | origin, [], table => if isDotted && origin ≠ .dotted then none else change table
  | _, key :: path, table =>
    match table.lookup key with
    | none =>
      let origin := if isDotted then .dotted else .implied
      (within isDotted change origin path []).map fun inner => table.put key (.table origin inner)
    | some (.table origin inner) =>
      if isDotted && origin = .opened then none
      else (within isDotted change origin path inner).map fun inner =>
        table.put key (.table origin inner)
    | some (.tables newest earlier) =>
      (within isDotted change .opened path newest).map fun newest =>
        table.put key (.tables newest earlier)
    | some (.value _) => none

/-- Changes what stands under the last key of a path. A path of one key adds to any table. -/
def atPath (isDotted : Bool) (change : Option Node → Option Node) (path : List String)
    (table : Table) : Option Table :=
  match path.getLast? with
  | none => none
  | some last =>
    table.within isDotted
      (fun inner => (change (inner.lookup last)).map fun node => inner.put last node)
      .dotted path.dropLast

/-- Assigns a value to a path, whose last key must hold nothing. -/
def assign (path : List String) (datum : Datum) (table : Table) : Option Table :=
  table.atPath true (fun
    | none => some (.value datum)
    | some _ => none) path

end Table

mutual

/-- The datum under a key. -/
def Node.toDatum : Node → Datum
  | .value datum => datum
  | .table _ fields => .record (Table.toFields fields)
  | .tables newest earlier =>
    .list ((.record (Table.toFields newest) :: Table.toRecords earlier).reverse)

/-- The fields of a table. -/
def Table.toFields : List (String × Node) → Fields
  | [] => []
  | (key, node) :: rest => (key, node.toDatum) :: Table.toFields rest

/-- The records of some tables. -/
def Table.toRecords : List (List (String × Node)) → List Datum
  | [] => []
  | table :: rest => .record (Table.toFields table) :: Table.toRecords rest

end

/-- Documents have no datum for nothing, but a table or an array without content says no more, and
their lists may go on. -/
def format : DataFormat where
  isNothing
    | .record [] | .list [] => true
    | _ => false
  listsGoOn := true

end SheetLedger.Toml
