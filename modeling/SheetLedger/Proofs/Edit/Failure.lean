import SheetLedger.Proofs.Edit.Current
import SheetLedger.Proofs.Store.Faulty
import SheetLedger.Proofs.Store.Log

/-!
# Edits whose store fails

If the store refuses a row of an edit, wherever in the cascade, the edit fails with the error of the
store and is over. What it has appended until then is what it would have appended without the
refusal, up to the refused row (`Engine.edit_cleanPrefix`). This holds over any store inside, also
on spreadsheets in which cells read each other in a circle: all that a cascade does depends on the
snapshot it starts from and on the ids that it was given, and these are the same.
-/

namespace SheetLedger

open FaultyStore

variable {σ : Type} [CellStore σ]

/-! ## Cascades -/

namespace Cascade

variable {version : Nat}

theorem interruptible_refresh (snapshot : Snapshot) (dependent : Cell) :
    Interruptible (refresh version snapshot dependent :
      EStateM EngineError (FaultyStore σ) Cell) :=
  (interruptible_orStop _).bind fun _ _ _ _ =>
    (interruptible_insert _).bind fun _ _ _ _ => interruptible_pure _

theorem interruptible_refreshAll (snapshot : Snapshot) (dependents : List Cell) :
    Interruptible (refreshAll version snapshot dependents :
      EStateM EngineError (FaultyStore σ) (List Cell)) := by
  induction dependents with
  | nil => exact interruptible_pure _
  | cons dependent rest ih =>
    exact (interruptible_refresh snapshot dependent).bind fun _ _ _ _ =>
      ih.bind fun _ _ _ _ => interruptible_pure _

theorem interruptible_run (queue : List Pending) :
    Interruptible (run version queue : EStateM EngineError (FaultyStore σ) (List Cell)) := by
  induction queue using run.induct (σ := FaultyStore σ) version with
  | case1 =>
    rw [run]
    exact interruptible_pure _
  | case2 pending queue ih =>
    rw [run_cons_eq]
    refine (interruptible_refreshAll _ _).bind fun store rows mid hrows => ?_
    exact (ih store rows mid hrows).bind fun _ _ _ _ => interruptible_pure _

theorem interruptible_propagate (depth : Nat) (changed : Slot) (snapshot : Snapshot) :
    Interruptible (propagate depth version changed snapshot :
      EStateM EngineError (FaultyStore σ) (List Cell)) := by
  unfold propagate
  split
  · exact interruptible_pure _
  · exact interruptible_run _

end Cascade

/-! ## Edits -/

namespace Engine

variable {now : Nat} {sheet : String} {slot : Slot} {raw : String}

theorem interruptible_carryOut (depth : Nat) (cell : Cell) (failure? : Option EvalError) :
    Interruptible (carryOut depth cell failure? : EStateM EngineError (FaultyStore σ) Cell) := by
  refine (interruptible_insert cell).bind fun _ id _ _ => ?_
  refine (interruptible_read fun _ => rfl).bind fun _ snapshot _ _ => ?_
  refine (Cascade.interruptible_propagate _ _ _).bind fun _ _ _ _ => ?_
  cases failure? with
  | some cause => exact interruptible_throw _
  | none => exact interruptible_pure _

/-- The engine over the store without its refusals. -/
def unfailing (engine : Engine (FaultyStore σ)) : Engine (FaultyStore σ) :=
  { engine with store := engine.store.unfailing }

omit [CellStore σ] in
theorem store_leftBy_onStore {α : Type} (act : EStateM EngineError (FaultyStore σ) α)
    (engine : Engine (FaultyStore σ)) :
    (leftBy (onStore act engine)).store = stateAfter (act engine.store) := by
  unfold onStore
  cases act engine.store <;> rfl

/-- An edit of which some rows are stored and the next one is refused fails with the error of the
refusal, and nothing is tried after it. Its rows are the first ones that it would have stored under
the same stamp without the refusal, with their ids and in their order. -/
theorem edit_cleanPrefix {engine : Engine (FaultyStore σ)} {k : Nat}
    (hworks : WorksUntil engine.store (engine.store.attempts + k))
    (hrefused : engine.store.attempts + k + 1 ∈ engine.store.refused)
    (hcalls : engine.store.attempts + k <
      (leftBy (edit now sheet slot raw engine.unfailing)).store.attempts) :
    ∃ later rows all, edit now sheet slot raw engine = .error (.store engine.store.cause) later ∧
      later.store.written = engine.store.written ++ rows ∧
      Reached engine.store.inner later.store.inner rows ∧
      later.store.attempts = engine.store.attempts + k + 1 ∧
      rows.length = k ∧ rows <+: all ∧
      (leftBy (edit now sheet slot raw engine.unfailing)).store.written =
        engine.store.written ++ all ∧
      ∃ moment, Reached engine.store.inner moment all := by
  have hsame : engine.unfailing.plan sheet slot raw = engine.plan sheet slot raw := rfl
  cases hplan : engine.plan sheet slot raw with
  | error cause =>
    -- nothing is tried at all
    rw [edit_of_plan_error (hsame.trans hplan)] at hcalls
    exact absurd hcalls (Nat.not_lt_of_le (Nat.le_add_right _ _))
  | ok evaluation =>
    rw [edit_of_plan now (hsame.trans hplan), store_leftBy_onStore] at hcalls ⊢
    rw [edit_of_plan now hplan]
    obtain ⟨last, rows, all, hactual, hgrown, hlength, hfront, hended⟩ :=
      (interruptible_carryOut engine.settings.cascadeDepth
        ⟨0, sheet, slot, raw, evaluation.value, (engine.clock.next now).1⟩ evaluation.failure?
        engine.store).exists_last hworks hrefused hcalls
    let later : Engine (FaultyStore σ) :=
      { engine with
        store := { last with attempts := engine.store.attempts + k + 1 }
        clock := (engine.clock.next now).2 }
    refine ⟨later, rows, all, ?_, hgrown.written, hgrown.reached, rfl, hlength, hfront,
      hended.written, hended.exists_reached⟩
    simp only [onStore, hactual, later]

/-- The two cells that read each other, over a store that refuses its third row. -/
def brittle : Engine (FaultyStore LogStore) where
  store := { inner := mirror.store, refused := [3], cause := .readOnly }
  directory := mirror.directory
  clock := .wall
  settings := {}

/-- The rows that an edit of the first cell stores where none is refused. -/
def brittleRows : List Cell :=
  [⟨3, "1", ⟨0, 0⟩, "=B1", "1", 5⟩, ⟨4, "1", ⟨1, 0⟩, "=A1", "1", 5⟩,
    ⟨5, "1", ⟨0, 0⟩, "=B1", "1", 5⟩]

/-- The store without its refusals, once the first of these rows have been stored. -/
def brittleAfter (k : Nat) : FaultyStore LogStore where
  inner := (mirror.store.insertAll (brittleRows.take k)).2
  attempts := k
  written := brittleRows.take k
  cause := .readOnly

/-- The work of the first level, and that of the second. -/
def brittleWork : Pending :=
  ⟨⟨0, 0⟩, [⟨2, "1", ⟨1, 0⟩, "=A1", "1", 2⟩, ⟨3, "1", ⟨0, 0⟩, "=B1", "1", 5⟩], 2⟩

theorem propagate_brittle :
    Cascade.propagate 2 5 ⟨0, 0⟩ brittleWork.snapshot (brittleAfter 1) =
      .ok (brittleRows.drop 1) (brittleAfter 3) := by
  let below := brittleWork.follow ⟨4, "1", ⟨1, 0⟩, "=A1", "1", 5⟩
  have hfirst : Cascade.refreshAll 5 brittleWork.snapshot
      (brittleWork.snapshot.dependents brittleWork.changed) (brittleAfter 1) =
        .ok [⟨4, "1", ⟨1, 0⟩, "=A1", "1", 5⟩] (brittleAfter 2) := by cbv
  have hsecond : Cascade.refreshAll 5 below.snapshot (below.snapshot.dependents below.changed)
      (brittleAfter 2) = .ok [⟨5, "1", ⟨0, 0⟩, "=B1", "1", 5⟩] (brittleAfter 3) := by cbv
  have hlast : Cascade.run 5 ([] ++ below.next [⟨5, "1", ⟨0, 0⟩, "=B1", "1", 5⟩]) (brittleAfter 3) =
      .ok [] (brittleAfter 3) := by
    show Cascade.run 5 [] _ = _
    rw [Cascade.run]
    rfl
  exact Cascade.run_cons hfirst (Cascade.run_cons hsecond hlast)

/-- Without the refusal the edit tries three rows. -/
theorem attempts_brittle :
    (leftBy (edit 5 "1" ⟨0, 0⟩ "=B1" brittle.unfailing)).store.attempts = 3 := by
  have hplan : brittle.unfailing.plan "1" ⟨0, 0⟩ "=B1" = .ok ⟨"1", none⟩ := by cbv
  have hsnapshot : CellStore.snapshot (brittleAfter 1) "1" none = .ok brittleWork.snapshot := by cbv
  have hcarried : carryOut 2 ⟨0, "1", ⟨0, 0⟩, "=B1", "1", 5⟩ none brittle.unfailing.store =
      .ok ⟨3, "1", ⟨0, 0⟩, "=B1", "1", 5⟩ (brittleAfter 3) := by
    have hinsert : CellStore.insert ⟨0, "1", ⟨0, 0⟩, "=B1", "1", 5⟩ brittle.unfailing.store =
        .ok 3 (brittleAfter 1) := by cbv
    simp only [carryOut, EStateM.adaptExcept, bind, EStateM.bind, hinsert, hsnapshot,
      Except.mapError, orStop, pure, EStateM.pure, propagate_brittle]
  rw [edit_of_plan 5 hplan, store_leftBy_onStore]
  exact congrArg (fun result => (stateAfter result).attempts) hcarried

theorem edit_cleanPrefix_brittle :
    WorksUntil brittle.store (brittle.store.attempts + 2) ∧
      brittle.store.attempts + 2 + 1 ∈ brittle.store.refused ∧
      brittle.store.attempts + 2 <
        (leftBy (edit 5 "1" ⟨0, 0⟩ "=B1" brittle.unfailing)).store.attempts ∧
      ∃ later rows all, edit 5 "1" ⟨0, 0⟩ "=B1" brittle = .error (.store .readOnly) later ∧
        later.store.written = [] ++ rows ∧ Reached mirror.store later.store.inner rows ∧
        later.store.attempts = 3 ∧ rows.length = 2 ∧ rows <+: all ∧
        (leftBy (edit 5 "1" ⟨0, 0⟩ "=B1" brittle.unfailing)).store.written = [] ++ all ∧
        ∃ moment, Reached mirror.store moment all := by
  have hworks : WorksUntil brittle.store (brittle.store.attempts + 2) := by
    intro n hn _
    rw [List.mem_singleton.1 hn]
    decide
  have hrefused : brittle.store.attempts + 2 + 1 ∈ brittle.store.refused :=
    List.mem_singleton_self 3
  have hcalls : brittle.store.attempts + 2 <
      (leftBy (edit 5 "1" ⟨0, 0⟩ "=B1" brittle.unfailing)).store.attempts := by
    rw [attempts_brittle]
    decide
  exact ⟨hworks, hrefused, hcalls, edit_cleanPrefix hworks hrefused hcalls⟩

end Engine

end SheetLedger
