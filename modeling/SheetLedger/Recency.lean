import SheetLedger.Cell

/-!
# Recency

Which of the stored versions of a slot is current. Rows are only ever added; the current row of a
slot is the one with the highest version, and among rows of one version the one that was stored
last, which has the highest id.

* `Cell.newer` compares two rows.
* `Recency.latest` keeps the current row of every slot, ordered by id.
* `Recency.latestAsOf` does so for the rows up to a version.
-/

namespace SheetLedger

/-- Whether a row is newer than another: by version first, then by id. -/
def Cell.newer (a b : Cell) : Bool :=
  b.version < a.version || (b.version = a.version && b.id < a.id)

namespace Recency

/-- The newest of some rows; of equally new ones the last. -/
def newest? (rows : List Cell) : Option Cell :=
  rows.foldl
    (fun best row =>
      match best with
      | some kept => if kept.newer row then some kept else some row
      | none => some row)
    none

/-- One more row among the current ones: it takes the place of the row of its slot if it is newer
than that one, and joins them if its slot is new. -/
def keep : List Cell → Cell → List Cell
  | [], row => [row]
  | kept :: rest, row =>
    if kept.slot = row.slot then (if row.newer kept then row else kept) :: rest
    else kept :: keep rest row

/-- The current row of every slot, ordered by id. -/
def latest (rows : List Cell) : Snapshot :=
  (rows.foldl keep []).mergeSort (fun a b => a.id ≤ b.id)

/-- The rows that were current when `version` was the newest version. -/
def latestAsOf (rows : List Cell) (version : Nat) : Snapshot :=
  latest (rows.filter (·.version ≤ version))

/-- Rows from the oldest to the newest. -/
def chronological (rows : List Cell) : List Cell :=
  rows.mergeSort (fun a b => !a.newer b)

end Recency

end SheetLedger
