import SheetLedger.Store.Basic

/-!
# Faulty stores

A store around another one that fails on purpose. It counts the rows it is asked to append, refuses
some of them before they reach the store inside, with an error of choice, leaves some slots out of
snapshots, and keeps a record of the rows that were appended through it. What an engine does after a
failure can be observed, and reasoned about, with any store inside.
-/

namespace SheetLedger

/-- A store that fails on purpose around a store of type `σ`. -/
structure FaultyStore (σ : Type) where
  inner : σ
  /-- Slots left out of a snapshot that excludes none. -/
  hidden : List Slot := []
  /-- Which rows are refused, by their number among all rows, counted from one. -/
  refused : List Nat := []
  /-- The number of rows so far, refused ones included. -/
  attempts : Nat := 0
  /-- The rows appended, in order. -/
  written : List Cell := []
  /-- What a refused row is answered with. -/
  cause : StoreError := .poisoned

namespace FaultyStore

variable {σ : Type}

/-- The rows under the ids they were given. -/
def numbered (cells : List Cell) (ids : List Nat) : List Cell :=
  cells.zipWith (fun cell id => { cell with id := id }) ids

/-- Appends rows by an action of the store inside, unless one of them is to be refused. -/
def attempt {α : Type} (cells : List Cell) (idsOf : α → List Nat)
    (act : EStateM StoreError σ α) : EStateM StoreError (FaultyStore σ) α := fun store =>
  let first := store.attempts + 1
  let counted := { store with attempts := store.attempts + cells.length }
  if (List.range' first cells.length).any store.refused.contains then .error store.cause counted
  else match act store.inner with
  | .ok answer inner =>
    .ok answer { counted with
      inner := inner, written := store.written ++ numbered cells (idsOf answer) }
  | .error cause inner => .error cause { counted with inner := inner }

end FaultyStore

instance {σ : Type} [CellStore σ] : CellStore (FaultyStore σ) where
  insert cell := FaultyStore.attempt [cell] (fun id => [id]) (CellStore.insert cell)
  insertAll cells := FaultyStore.attempt cells (fun ids => ids) (CellStore.insertAll cells)
  current? store := CellStore.current? store.inner
  snapshot store sheet excluded := do
    let cells ← CellStore.snapshot store.inner sheet excluded
    match excluded with
    | some _ => return cells
    | none => return store.hidden.foldl Snapshot.without cells
  history store := CellStore.history store.inner
  versions store := CellStore.versions store.inner
  snapshotAt store := CellStore.snapshotAt store.inner
  latestVersion store := CellStore.latestVersion store.inner

end SheetLedger
