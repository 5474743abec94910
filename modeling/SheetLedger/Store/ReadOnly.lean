import SheetLedger.Store.Basic

/-!
# Read-only stores

A store around another one that answers what the one inside answers and appends nothing. Appending
no rows at all succeeds. Otherwise the first row decides: the complaint is the one of the store
inside, if it does not take that row either, and else that the store is read-only.
-/

namespace SheetLedger

/-- A store of type `σ` that is only read. -/
structure ReadOnlyStore (σ : Type) where
  inner : σ
deriving Repr

namespace ReadOnlyStore

variable {σ : Type} [CellStore σ]

/-- Why a row is not appended. -/
def refusal (store : ReadOnlyStore σ) (cell : Cell) : StoreError :=
  match (CellStore.insert cell : EStateM StoreError σ Nat) store.inner with
  | .error cause _ => cause
  | .ok _ _ => .readOnly

end ReadOnlyStore

instance {σ : Type} [CellStore σ] : CellStore (ReadOnlyStore σ) where
  insert cell := fun store => .error (store.refusal cell) store
  insertAll
    | [] => fun store => .ok [] store
    | cell :: _ => fun store => .error (store.refusal cell) store
  current? store := CellStore.current? store.inner
  snapshot store := CellStore.snapshot store.inner
  history store := CellStore.history store.inner
  versions store := CellStore.versions store.inner
  snapshotAt store := CellStore.snapshotAt store.inner
  latestVersion store := CellStore.latestVersion store.inner

end SheetLedger
