import SheetLedger.Proofs.Revert.Restoration
import SheetLedger.Proofs.Store.Session

/-!
# Reverts that fail

A revert looks at all that it is going to write before it draws a stamp, and then stores it as one
batch. So it fails while nothing is written yet, or because the store refuses one row of the batch
(`Engine.RevertFailure`). Both stores take a batch as a whole or not at all (`AtomicStore`), so that
a failed revert leaves no trace in them: neither the reads nor the ids that are given later show
that it was ever called (`Engine.revert_atomic`). At most its stamp is used up.

Nothing is asked of the content of the store. A table may hold rows that no cell can be read from,
and the failure may be that one of them is met.
-/

namespace SheetLedger

/-! ## Batches -/

/-- A store that refuses a batch because of the first row that it does not take, and is then as it
was. -/
class AtomicStore (σ : Type) [CellStore σ] : Prop where
  store_eq {cells : List Cell} {store later : σ} {cause : StoreError} :
    CellStore.insertAll cells store = .error cause later → later = store
  exists_refused {cells : List Cell} {store later : σ} {cause : StoreError} :
    CellStore.insertAll cells store = .error cause later →
      ∃ front row back ids mid, cells = front ++ row :: back ∧
        CellStore.insertAll front store = .ok ids mid ∧ CellStore.insert row mid = .error cause mid

/-- A log refuses nothing. -/
instance : AtomicStore LogStore where
  store_eq h := by cases h
  exists_refused h := by cases h

theorem atomically_eq_error_iff {ε σ α : Type} {change : σ → Except ε (α × σ)} {store later : σ}
    {cause : ε} :
    atomically change store = .error cause later ↔ change store = .error cause ∧ later = store := by
  unfold atomically
  cases change store with
  | error complaint => simp [eq_comm]
  | ok answer => simp

theorem atomically_of_ok {ε σ α : Type} {change : σ → Except ε (α × σ)} {store later : σ}
    {answer : α} (h : change store = .ok (answer, later)) :
    atomically change store = .ok answer later := by
  rw [atomically, h]

/-- The rows in front of the one that is refused have been appended by then. -/
theorem TableStore.exists_refused {cells : List Cell} {store : TableStore} {cause : StoreError}
    (h : store.insertAll cells = .error cause) :
    ∃ front row back ids mid, cells = front ++ row :: back ∧
      store.insertAll front = .ok (ids, mid) ∧ mid.insert row = .error cause := by
  induction cells generalizing store with
  | nil => cases h
  | cons cell rest ih =>
    simp only [insertAll, bind, Except.bind] at h
    cases hinsert : store.insert cell with
    | error complaint =>
      rw [hinsert] at h
      cases h
      exact ⟨[], cell, rest, [], store, rfl, rfl, hinsert⟩
    | ok first =>
      rcases first with ⟨id, mid⟩
      rw [hinsert] at h
      cases hrest : mid.insertAll rest with
      | error complaint =>
        simp only [hrest] at h
        cases h
        obtain ⟨front, row, back, ids, moment, rfl, hfront, hrow⟩ := ih hrest
        refine ⟨cell :: front, row, back, id :: ids, moment, rfl, ?_, hrow⟩
        simp only [insertAll, hinsert, hfront, bind, Except.bind, pure, Except.pure]
      | ok more => simp [hrest, pure, Except.pure] at h

instance : AtomicStore TableStore where
  store_eq h := (atomically_eq_error_iff.1 h).2
  exists_refused h := by
    obtain ⟨front, row, back, ids, mid, hcells, hfront, hrow⟩ :=
      TableStore.exists_refused (atomically_eq_error_iff.1 h).1
    exact ⟨front, row, back, ids, mid, hcells, atomically_of_ok hfront,
      atomically_eq_error_iff.2 ⟨hrow, rfl⟩⟩

namespace Engine

variable {σ : Type} [CellStore σ] {engine later : Engine σ} {now : Nat} {sheet : String}
  {version : Nat} {cause : EngineError}

/-! ## Why a revert fails -/

/-- Why a revert fails, and what the engine is then. Without a plan nothing has happened. With one
the stamp has been drawn, and some row of the batch is refused when those in front of it are
stored. -/
inductive RevertFailure (engine : Engine σ) (now : Nat) (sheet : String) (version : Nat) :
    EngineError → Engine σ → Prop
  | unplanned {cause : EngineError} : RevertUnplanned engine sheet version cause →
      RevertFailure engine now sheet version cause engine
  | refused {changes : List (Slot × Contents)} {front back : List Cell} {row : Cell}
      {ids : List Nat} {mid : σ} {cause : StoreError} :
      engine.revertPlan sheet version = .ok changes →
        engine.restored now sheet changes = front ++ row :: back →
          CellStore.insertAll front engine.store = .ok ids mid →
            CellStore.insert row mid = .error cause mid →
              RevertFailure engine now sheet version (.store cause)
                { engine with clock := (engine.clock.next now).2 }

theorem revertFailure_of_error [AtomicStore σ]
    (h : revert now sheet version engine = .error cause later) :
    RevertFailure engine now sheet version cause later := by
  rcases revertPlan_cases engine sheet version with
    ⟨complaint, hplan, hunplanned⟩ | ⟨target, current, changes, hplan, -⟩
  · rw [revert_of_plan_error hplan] at h
    cases h
    exact .unplanned hunplanned
  · by_cases hne : changes = []
    · rw [revert_of_nil (hne ▸ hplan)] at h
      cases h
    · rw [revert_of_plan now hplan hne] at h
      simp only [onStore, EStateM.adaptExcept, bind, EStateM.bind] at h
      cases hinsert : CellStore.insertAll (engine.restored now sheet changes) engine.store with
      | ok ids store =>
        simp only [hinsert] at h
        cases h
      | error complaint store =>
        simp only [hinsert] at h
        cases h
        obtain ⟨front, row, back, ids, mid, hrows, hfront, hrow⟩ :=
          AtomicStore.exists_refused hinsert
        rw [AtomicStore.store_eq hinsert]
        exact .refused hplan hrows hfront hrow

/-! ## What is left of it -/

/-- Nothing but the clock of an engine has moved, so that no question and no write to its store is
answered in another way, and no id is another one. -/
structure Untouched (engine later : Engine σ) : Prop where
  frame : later = { engine with clock := later.clock }
  sheets : ∀ sheet, SameSheet engine later sheet
  session : ∀ requests, transcript later.store requests = transcript engine.store requests
  /-- A clock without a memory does not move either. -/
  wall : engine.clock = .wall → later = engine

theorem untouched_of_frame {clock : Clock} (hwall : engine.clock = .wall → clock = .wall) :
    Untouched engine { engine with clock := clock } where
  frame := rfl
  sheets _ := ⟨rfl, fun _ => rfl, rfl, fun _ => rfl, fun _ => rfl⟩
  session _ := rfl
  wall h := by rw [hwall h, ← h]

theorem RevertFailure.untouched (h : RevertFailure engine now sheet version cause later) :
    Untouched engine later := by
  cases h with
  | unplanned _ => exact untouched_of_frame id
  | refused _ _ _ _ =>
    refine untouched_of_frame fun hwall => ?_
    rw [hwall, Clock.next]

/-- A revert that fails leaves both stores as they were, whatever they hold and wherever it
fails. -/
theorem revert_atomic (now : Nat) (sheet : String) (version : Nat) :
    (∀ {engine later : Engine LogStore} {cause : EngineError},
      revert now sheet version engine = .error cause later →
        RevertFailure engine now sheet version cause later ∧ Untouched engine later) ∧
    ∀ {engine later : Engine TableStore} {cause : EngineError},
      revert now sheet version engine = .error cause later →
        RevertFailure engine now sheet version cause later ∧ Untouched engine later := by
  refine ⟨fun h => ?_, fun h => ?_⟩
  · have hfailure := revertFailure_of_error h
    exact ⟨hfailure, hfailure.untouched⟩
  · have hfailure := revertFailure_of_error h
    exact ⟨hfailure, hfailure.untouched⟩

/-- The disordered table with a clock whose next stamp it cannot hold. -/
def overdue : Engine TableStore := { disordered with clock := .monotonic tableLimit }

theorem revert_atomic_overdue :
    revert 0 "1" 2 overdue = .error (.store (.tooLarge .version))
        { overdue with clock := .monotonic (tableLimit + 1) } ∧
      RevertFailure overdue 0 "1" 2 (.store (.tooLarge .version))
        { overdue with clock := .monotonic (tableLimit + 1) } ∧
      Untouched overdue { overdue with clock := .monotonic (tableLimit + 1) } := by
  have hrevert : revert 0 "1" 2 overdue = .error (.store (.tooLarge .version))
      { overdue with clock := .monotonic (tableLimit + 1) } := by cbv
  exact ⟨hrevert, (revert_atomic 0 "1" 2).2 hrevert⟩

end Engine

end SheetLedger
