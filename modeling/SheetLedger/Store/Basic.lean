import SheetLedger.Recency

/-!
# Cell stores

A store keeps every version of every cell. Rows are appended and never changed or removed, and each
gets an id of its own. Reads answer about the current state, about the whole history of a slot, or
about the state as of a version.

`CellStore` is what an engine asks of a store. Writes are actions on the state of the store, so
that a store may fail and still have changed; reads only look at it.
-/

namespace SheetLedger

/-- The numbers of a row that a store may be unable to hold. -/
inductive Field where
  | column
  | row
  | version
deriving Repr, DecidableEq

/-- The name of a field in complaints. -/
def Field.name : Field → String
  | column => "column_index"
  | row => "row_index"
  | version => "version"

/-- Why a store could not do what it was asked. -/
inductive StoreError where
  /-- A number is too large for this field. -/
  | tooLarge (field : Field)
  /-- A stored number cannot be a value of this field. -/
  | outOfRange (field : Field) (value : Int)
  /-- A stored row holds a number, in the result column with this index, that no cell can hold. -/
  | unreadable (value : Int) (index : Nat)
  /-- The store can be read but not written. -/
  | readOnly
  /-- The store is in a state in which it refuses to work. -/
  | poisoned
deriving Repr, DecidableEq

namespace StoreError

/-- The complaint of the database about a number that no cell can hold. -/
def unreadableText (value : Int) (index : Nat) : String :=
  "Integer " ++ toString value ++ " out of range at index " ++ toString index

/-- The complaint of the database about a row that it may not write. -/
def readOnlyText : String := "attempt to write a readonly database"

/-- The text shown for a store error. -/
def message : StoreError → String
  | tooLarge field => "Value too large to store in " ++ field.name
  | outOfRange field value => "Stored " ++ field.name ++ " out of range: " ++ toString value
  | unreadable value index => "SQLite error: " ++ unreadableText value index
  | readOnly => "SQLite error: " ++ readOnlyText
  | poisoned => "Store lock poisoned"

/-- The text of an error followed by the texts of its causes. -/
def chain : StoreError → List String
  | unreadable value index => [message (unreadable value index), unreadableText value index]
  | readOnly =>
    [message readOnly, readOnlyText, "Error code 8: Attempt to write a readonly database"]
  | error => [error.message]

end StoreError

/-- Append-only storage of cells with states of type `σ`. -/
class CellStore (σ : Type) where
  /-- Appends one row and answers its id. The id and the place of the given cell do not matter. -/
  insert (cell : Cell) : EStateM StoreError σ Nat
  /-- Appends several rows in order. -/
  insertAll (cells : List Cell) : EStateM StoreError σ (List Nat)
  /-- The current row of a slot. -/
  current? (store : σ) (sheet : String) (slot : Slot) : Except StoreError (Option Cell)
  /-- The current rows of a spreadsheet, without those at a slot if one is given. -/
  snapshot (store : σ) (sheet : String) (excluded : Option Slot) : Except StoreError Snapshot
  /-- Every row of a slot, the oldest first. -/
  history (store : σ) (sheet : String) (slot : Slot) : Except StoreError (List Cell)
  /-- The versions of a spreadsheet, each once, the newest first. -/
  versions (store : σ) (sheet : String) : Except StoreError (List Nat)
  /-- The rows of a spreadsheet that were current as of a version. -/
  snapshotAt (store : σ) (sheet : String) (version : Nat) : Except StoreError Snapshot
  /-- The newest version of any spreadsheet. -/
  latestVersion (store : σ) : Except StoreError (Option Nat)

/-- A snapshot without the cells at a slot, if one is given. -/
def Snapshot.excluding (snapshot : Snapshot) : Option Slot → Snapshot
  | some slot => snapshot.without slot
  | none => snapshot

/-- Goes on with an answer, or stops with the error in its place. -/
def orStop {ε σ α : Type} : Except ε α → EStateM ε σ α
  | .ok answer => pure answer
  | .error cause => throw cause

/-- A change that happens as a whole or, when it fails, not at all. -/
def atomically {ε σ α : Type} (change : σ → Except ε (α × σ)) : EStateM ε σ α := fun state =>
  match change state with
  | .ok (answer, state) => .ok answer state
  | .error cause => .error cause state

end SheetLedger
