import Mathlib
import SheetLedger.Engine.Edit
import SheetLedger.Proofs.Cascade.Cone
import SheetLedger.Proofs.Cascade.Run
import SheetLedger.Proofs.Store.Table

/-!
# How an edit ends

On a lawful store an edit either is refused, and then the store is as it was, or it appends its cell
and after it the rows of the cascade (`Engine.edit_cases`). What could go wrong after the cell has
been appended does not: the snapshot can still be read, because the new row can be, every dependent
has a value, because the slot that it reads holds a cell, and no row is too large, because its slot
and its version have been stored before.

So an edit is all or nothing (`Engine.edit_allOrNothing`).

Mathlib is imported whole for the runs that are evaluated here and in the modules on top of this
one: they unfold functions on strings and states whose equations no single part of it brings along.
-/

namespace SheetLedger.Engine

open JournaledStore

variable {σ : Type} [CellStore σ] {engine : Engine σ} {now : Nat} {sheet : String} {slot : Slot}
  {raw : String} {evaluation : Evaluation}

/-! ## Reads -/

theorem ask_eq_ok_iff {σ α : Type} {engine : Engine σ} {read : σ → Except StoreError α}
    {answer : α} : engine.ask read = .ok answer ↔ read engine.store = .ok answer := by
  unfold ask
  cases read engine.store <;> simp [Except.mapError]

theorem ask_eq_error_iff {σ α : Type} {engine : Engine σ} {read : σ → Except StoreError α}
    {cause : EngineError} : engine.ask read = .error cause ↔
      ∃ complaint, read engine.store = .error complaint ∧ cause = .store complaint := by
  unfold ask
  cases read engine.store <;> simp [Except.mapError, eq_comm]

theorem snapshot_eq_ok_iff [LawfulStore σ] (hsound : Sound engine.store) {snapshot : Snapshot} :
    engine.snapshot sheet = .ok snapshot ↔
      (journal engine.store sheet).Readable ∧
        snapshot = Recency.latest (cells engine.store sheet) :=
  ask_eq_ok_iff.trans (LawfulStore.snapshot_eq_ok_iff hsound)

theorem snapshotAt_eq_ok_iff [LawfulStore σ] (hsound : Sound engine.store) {version : Nat}
    {snapshot : Snapshot} :
    engine.snapshotAt sheet version = .ok snapshot ↔
      ((journal engine.store sheet).asOf version).Readable ∧
        snapshot = Recency.latestAsOf (cells engine.store sheet) version :=
  ask_eq_ok_iff.trans (LawfulStore.snapshotAt_eq_ok_iff hsound)

/-! ## The plan -/

/-- What an accepted plan has found out. -/
structure Planned (engine : Engine σ) (sheet : String) (slot : Slot) (raw : String)
    (others : Snapshot) (evaluation : Evaluation) : Prop where
  within : engine.directory.check sheet slot = .ok ()
  read : CellStore.snapshot engine.store sheet (some slot) = .ok others
  evaluation_eq : evaluation = (Formula.classify raw).compute others engine.settings.errorMarker
  wellFormed : evaluation.failure? ≠ none → (Formula.classify raw).isMalformedReference = false

/-- Why a plan may be refused: before anything is stored. -/
def Refusal : EngineError → Prop
  | .outOfBounds _ | .formula _ _ | .store _ => True
  | .evaluation _ _ | .dependent _ _ => False

theorem Planned.plan_eq {others : Snapshot}
    (h : Planned engine sheet slot raw others evaluation) :
    engine.plan sheet slot raw = .ok evaluation := by
  rcases h with ⟨hwithin, hread, rfl, hwellFormed⟩
  cases hfailure : ((Formula.classify raw).compute others
      engine.settings.errorMarker).failure? with
  | none =>
    simp only [plan, withinBounds, ask, hwithin, hread, hfailure, Except.mapError, bind,
      Except.bind, pure, Except.pure]
  | some cause =>
    have hmalformed := hwellFormed (by simp [hfailure])
    simp only [plan, withinBounds, ask, hwithin, hread, hfailure, hmalformed, if_false,
      Except.mapError, bind, Except.bind, pure, Except.pure, Bool.false_eq_true]

theorem plan_cases (engine : Engine σ) (sheet : String) (slot : Slot) (raw : String) :
    (∃ cause, engine.plan sheet slot raw = .error cause ∧ Refusal cause) ∨
      ∃ others evaluation, engine.plan sheet slot raw = .ok evaluation ∧
        Planned engine sheet slot raw others evaluation := by
  cases hcheck : engine.directory.check sheet slot with
  | error cause =>
    refine Or.inl ⟨.outOfBounds cause, ?_, trivial⟩
    simp only [plan, withinBounds, hcheck, Except.mapError, bind, Except.bind]
  | ok within =>
    cases hread : CellStore.snapshot engine.store sheet (some slot) with
    | error cause =>
      refine Or.inl ⟨.store cause, ?_, trivial⟩
      simp only [plan, withinBounds, ask, hcheck, hread, Except.mapError, bind, Except.bind]
    | ok others =>
      cases hfailure : ((Formula.classify raw).compute others
          engine.settings.errorMarker).failure? with
      | none =>
        have hplanned : Planned engine sheet slot raw others _ :=
          ⟨hcheck, hread, rfl, fun hne => absurd hfailure hne⟩
        exact Or.inr ⟨others, _, hplanned.plan_eq, hplanned⟩
      | some cause =>
        -- a formula without a value stops the plan only if it is a malformed reference
        by_cases hmalformed : (Formula.classify raw).isMalformedReference = true
        · refine Or.inl ⟨.formula slot cause, ?_, trivial⟩
          simp only [plan, withinBounds, ask, hcheck, hread, hfailure, hmalformed, if_true,
            Except.mapError, bind, Except.bind]
          rfl
        · have hplanned : Planned engine sheet slot raw others _ :=
            ⟨hcheck, hread, rfl, fun _ => Bool.eq_false_iff.2 hmalformed⟩
          exact Or.inr ⟨others, _, hplanned.plan_eq, hplanned⟩

theorem planned_of_plan (h : engine.plan sheet slot raw = .ok evaluation) :
    ∃ others, Planned engine sheet slot raw others evaluation := by
  rcases plan_cases engine sheet slot raw with ⟨cause, hplan, -⟩ | ⟨others, found, hplan, hplanned⟩
  · rw [hplan] at h
    cases h
  · rw [hplan] at h
    cases h
    exact ⟨others, hplanned⟩

theorem edit_of_plan_error {cause : EngineError} (h : engine.plan sheet slot raw = .error cause) :
    edit now sheet slot raw engine = .error cause engine := by
  simp only [edit, h, orStop, bind, EStateM.bind, get, getThe, MonadStateOf.get, EStateM.get]
  rfl

/-! ## What comes after the plan -/

/-- What an edit does to the store, once its plan is accepted and its stamp is drawn: the cell is
stored, and then everything that reads it. -/
def carryOut (depth : Nat) (cell : Cell) (failure? : Option EvalError) :
    EStateM EngineError σ Cell := do
  let id ← EStateM.adaptExcept .store (CellStore.insert cell)
  let snapshot ← fun store =>
    orStop ((CellStore.snapshot store cell.sheet none).mapError .store) store
  let _ ← Cascade.propagate depth cell.version cell.slot snapshot
  match failure? with
  | some cause => throw (.evaluation { cell with id := id } cause)
  | none => return { cell with id := id }

theorem edit_of_plan (now : Nat)
    (h : engine.plan sheet slot raw = .ok evaluation) :
    edit now sheet slot raw engine =
      onStore (carryOut engine.settings.cascadeDepth
        { id := 0, sheet := sheet, slot := slot, raw := raw, computed := evaluation.value,
          version := (engine.clock.next now).1 } evaluation.failure?)
        { engine with clock := (engine.clock.next now).2 } := by
  simp only [edit, h, orStop, stamp, write, onStore, carryOut, snapshot, ask, EStateM.adaptExcept,
    bind, EStateM.bind, get, getThe, MonadStateOf.get, EStateM.get, set, EStateM.set, pure,
    EStateM.pure]
  cases CellStore.insert (σ := σ) _ engine.store with
  | error cause store => rfl
  | ok id store =>
    dsimp only
    cases (CellStore.snapshot store sheet none).mapError EngineError.store with
    | error cause => rfl
    | ok cells =>
      dsimp only [EStateM.pure]
      cases Cascade.propagate (σ := σ) _ _ _ _ _ with
      | error cause store => rfl
      | ok rows store => cases evaluation.failure? <;> rfl

/-! ## The rows of an edit -/

variable [LawfulStore σ]

/-- The cell that an edit stores if its plan is accepted. -/
def edited (engine : Engine σ) (now : Nat) (sheet : String) (slot : Slot) (raw : String)
    (evaluation : Evaluation) : Cell where
  id := lastId engine.store + 1
  sheet := sheet
  slot := slot
  raw := raw
  computed := evaluation.value
  version := (engine.clock.next now).1

/-- The current cells of the spreadsheet right after an edited cell has been appended. -/
def baseline (engine : Engine σ) (cell : Cell) : Snapshot :=
  Recency.latest (cells engine.store cell.sheet ++ [cell])

/-- The rows that follow an edited cell. -/
def cascadeRows (engine : Engine σ) (cell : Cell) : List Cell :=
  let depth := engine.settings.cascadeDepth
  Cascade.rows cell.version
    (Cascade.start depth cell.id cell.slot (engine.baseline cell)) depth

/-- How an edit ends once everything is appended. -/
def settle (evaluation : Evaluation) (cell : Cell) (later : Engine σ) :
    EStateM.Result EngineError (Engine σ) Cell :=
  match evaluation.failure? with
  | some cause => .error (.evaluation cell cause) later
  | none => .ok cell later

/-- An edit stores nothing if the store cannot hold the cell. -/
theorem edit_of_not_fits (hplan : engine.plan sheet slot raw = .ok evaluation)
    (hfits : ¬ Fits σ (engine.edited now sheet slot raw evaluation)) :
    ∃ cause, edit now sheet slot raw engine =
      .error (.store cause) { engine with clock := (engine.clock.next now).2 } := by
  obtain ⟨cause, hcause⟩ := LawfulStore.insert_of_not_fits engine.store
    { engine.edited now sheet slot raw evaluation with id := 0 } hfits
  refine ⟨cause, ?_⟩
  simp only [edited] at hcause
  rw [edit_of_plan now hplan]
  simp only [onStore, carryOut, EStateM.adaptExcept, bind, EStateM.bind, hcause]

section Baseline

variable (hsound : Sound engine.store) {cell : Cell} (hid : cell.id = lastId engine.store + 1)

include hsound hid

theorem ids_ne_baseline :
    (cells engine.store cell.sheet ++ [cell]).Pairwise fun a b => a.id ≠ b.id := by
  refine List.pairwise_append.2 ⟨LawfulStore.ids_ne hsound _, List.pairwise_singleton _ _, ?_⟩
  intro a ha b hb
  have hle := LawfulStore.cell_id_le hsound ha
  rw [List.mem_singleton.1 hb]
  omega

theorem orderly_baseline : (engine.baseline cell).Orderly :=
  Recency.orderly_latest (ids_ne_baseline hsound hid)

/-- The cells of the baseline were stored before, the edited one apart. -/
theorem mem_baseline {c : Cell} (h : c ∈ engine.baseline cell) :
    c ∈ cells engine.store cell.sheet ∨ c = cell := by
  simpa using Recency.mem_of_mem_latest (ids_ne_baseline hsound hid) h

theorem ready_baseline (depth : Nat) :
    (Cascade.start depth cell.id cell.slot (engine.baseline cell)).Ready
      (engine.baseline cell) cell.sheet := by
  refine Cascade.ready_start (orderly_baseline hsound hid) ?_ ?_ ?_
  · intro c hc
    rcases mem_baseline hsound hid hc with hold | rfl
    · have hle := LawfulStore.cell_id_le hsound hold
      omega
    · exact Nat.le_refl _
  · intro c hc
    rcases mem_baseline hsound hid hc with hold | rfl
    · exact LawfulStore.cell_sheet_eq hsound hold
    · rfl
  · exact Recency.exists_mem_latest (by simp)

theorem texts_of_mem_cascadeRows {row : Cell} (h : row ∈ engine.cascadeRows cell) :
    row.sheet = cell.sheet ∧ row.version = cell.version ∧
      ((engine.baseline cell).find? row.slot).map (·.raw) = some row.raw :=
  Cascade.texts_of_mem_rows (ready_baseline hsound hid _) h

/-- All rows of an edit are of its spreadsheet and under its stamp. -/
theorem stamped_of_mem {row : Cell} (h : row ∈ cell :: engine.cascadeRows cell) :
    row.sheet = cell.sheet ∧ row.version = cell.version := by
  rcases List.mem_cons.1 h with rfl | hmem
  · exact ⟨rfl, rfl⟩
  · rcases texts_of_mem_cascadeRows hsound hid hmem with ⟨hsheet, hversion, -⟩
    exact ⟨hsheet, hversion⟩

/-- Once the cell has been appended, the baseline can be read. -/
theorem exists_inserted (hreadable : (journal engine.store cell.sheet).Readable)
    (hfits : Fits σ cell) :
    ∃ mid, CellStore.insert { cell with id := 0 } engine.store = .ok cell.id mid ∧
      Appends engine.store mid [cell] ∧
      CellStore.snapshot mid cell.sheet none = .ok (engine.baseline cell) := by
  obtain ⟨mid, hinsert, hmid⟩ :=
    LawfulStore.insert_of_fits { cell with id := 0 } hsound hfits
  -- the store gives the cell the id that it was planned to have
  have hsame : { cell with id := lastId engine.store + 1 } = cell := by
    rw [← hid]
  rw [hsame] at hmid
  rw [← hid] at hinsert
  have hcells : cells mid cell.sheet = cells engine.store cell.sheet ++ [cell] :=
    hmid.cells_eq fun row hrow => List.mem_singleton.1 hrow ▸ rfl
  refine ⟨mid, hinsert, hmid, ?_⟩
  rw [LawfulStore.snapshot_eq_ok_iff hmid.sound, hmid.journal_eq, hcells]
  exact ⟨hreadable.append _, rfl⟩

/-- Then the cascade goes through. -/
theorem exists_cascaded {mid : σ} (hmid : Appends engine.store mid [cell]) (hfits : Fits σ cell) :
    ∃ later, Cascade.propagate engine.settings.cascadeDepth cell.version cell.slot
        (engine.baseline cell) mid = .ok (engine.cascadeRows cell) later ∧
      Appends mid later (engine.cascadeRows cell) := by
  have hlast : lastId mid = cell.id := hmid.lastId_eq.trans hid.symm
  -- rows of the cascade stand where cells of the baseline do, which the store holds already
  have hslots : ∀ c ∈ engine.baseline cell, FitsSlot σ c.slot := by
    intro c hc
    rcases mem_baseline hsound hid hc with hold | rfl
    · exact (LawfulStore.fits_of_mem hsound hold).1
    · exact hfits.1
  have hready := ready_baseline hsound hid engine.settings.cascadeDepth
  rw [← hlast] at hready
  have hcascade :=
    Cascade.propagate_eq hmid.sound hfits.2 engine.settings.cascadeDepth hready hslots
  rw [hlast] at hcascade
  exact hcascade

end Baseline

/-- What an edit has done once it is accepted. -/
structure Accepted (engine : Engine σ) (now : Nat) (sheet : String) (slot : Slot) (raw : String)
    (evaluation : Evaluation) (later : Engine σ) : Prop where
  planned : ∃ others, Planned engine sheet slot raw others evaluation
  fits : Fits σ (engine.edited now sheet slot raw evaluation)
  appends : Appends engine.store later.store (engine.edited now sheet slot raw evaluation ::
    engine.cascadeRows (engine.edited now sheet slot raw evaluation))
  frame : later = { engine with store := later.store, clock := (engine.clock.next now).2 }

/-- An edit whose plan is accepted and whose cell the store can hold appends everything. -/
theorem edit_of_fits (now : Nat) (hsound : Sound engine.store)
    (hplan : engine.plan sheet slot raw = .ok evaluation)
    (hfits : Fits σ (engine.edited now sheet slot raw evaluation)) :
    ∃ later, edit now sheet slot raw engine =
        settle evaluation (engine.edited now sheet slot raw evaluation) later ∧
      Accepted engine now sheet slot raw evaluation later := by
  rcases planned_of_plan hplan with ⟨others, hplanned⟩
  have hreadable := ((LawfulStore.snapshot_eq_ok_iff hsound).1 hplanned.read).1
  rcases exists_inserted hsound rfl hreadable hfits with ⟨mid, hinsert, hmid, hsnapshot⟩
  rcases exists_cascaded hsound rfl hmid hfits with ⟨later, hpropagate, happends⟩
  refine ⟨{ engine with store := later, clock := (engine.clock.next now).2 }, ?_,
    ⟨⟨others, hplanned⟩, hfits, hmid.append happends, rfl⟩⟩
  simp only [edited] at hinsert hpropagate hsnapshot
  rw [edit_of_plan now hplan]
  simp only [onStore, carryOut, orStop, EStateM.adaptExcept, bind, EStateM.bind, pure, EStateM.pure,
    hinsert, hsnapshot, hpropagate, Except.mapError]
  unfold settle
  cases evaluation.failure? <;> rfl

/-- An edit is refused and changes no row, or it is accepted. -/
theorem edit_cases (hsound : Sound engine.store) (now : Nat) (sheet : String) (slot : Slot)
    (raw : String) :
    (∃ cause later, edit now sheet slot raw engine = .error cause later ∧ Refusal cause ∧
        later.store = engine.store) ∨
      ∃ evaluation later, edit now sheet slot raw engine =
          settle evaluation (engine.edited now sheet slot raw evaluation) later ∧
        Accepted engine now sheet slot raw evaluation later := by
  rcases plan_cases engine sheet slot raw with ⟨cause, hplan, hrefusal⟩ | ⟨_, evaluation, hplan, -⟩
  · exact Or.inl ⟨cause, engine, edit_of_plan_error hplan, hrefusal, rfl⟩
  · by_cases hfits : Fits σ (engine.edited now sheet slot raw evaluation)
    · rcases edit_of_fits now hsound hplan hfits with ⟨later, hedit, haccepted⟩
      exact Or.inr ⟨evaluation, later, hedit, haccepted⟩
    · rcases edit_of_not_fits hplan hfits with ⟨cause, hedit⟩
      exact Or.inl ⟨.store cause, _, hedit, trivial, rfl⟩

/-- The engine that a call leaves, failed or not. -/
def leftBy {α : Type} : EStateM.Result EngineError (Engine σ) α → Engine σ
  | .ok _ later | .error _ later => later

/-- The cell that an edit has stored, and the engine that it leaves; nothing if it stored none. -/
def storedBy : EStateM.Result EngineError (Engine σ) Cell → Option (Cell × Engine σ)
  | .ok cell later | .error (.evaluation cell _) later => some (cell, later)
  | .error _ _ => none

omit [CellStore σ] [LawfulStore σ] in
theorem storedBy_settle (evaluation : Evaluation) (cell : Cell) (later : Engine σ) :
    storedBy (settle evaluation cell later) = some (cell, later) := by
  unfold settle
  cases evaluation.failure? <;> rfl

omit [CellStore σ] [LawfulStore σ] in
theorem leftBy_settle (evaluation : Evaluation) (cell : Cell) (later : Engine σ) :
    leftBy (settle evaluation cell later) = later := by
  unfold settle
  cases evaluation.failure? <;> rfl

omit [CellStore σ] [LawfulStore σ] in
/-- An edit that is refused has stored no cell. -/
theorem storedBy_error {cause : EngineError} (h : Refusal cause) (later : Engine σ) :
    storedBy (.error cause later) = none := by
  cases cause with
  | evaluation => exact h.elim
  | outOfBounds | formula | dependent | store => rfl

/-- An edit whose plan is accepted and whose cell the store can hold has stored that cell. -/
theorem storedBy_of_fits (now : Nat) (hsound : Sound engine.store)
    (hplan : engine.plan sheet slot raw = .ok evaluation)
    (hfits : Fits σ (engine.edited now sheet slot raw evaluation)) :
    ∃ later, storedBy (edit now sheet slot raw engine) =
        some (engine.edited now sheet slot raw evaluation, later) ∧
      Accepted engine now sheet slot raw evaluation later := by
  rcases edit_of_fits now hsound hplan hfits with ⟨later, hedit, haccepted⟩
  exact ⟨later, by rw [hedit, storedBy_settle], haccepted⟩

/-- An edit that has stored a cell was accepted. -/
theorem accepted_of_storedBy (hsound : Sound engine.store) {cell : Cell} {later : Engine σ}
    (h : storedBy (edit now sheet slot raw engine) = some (cell, later)) :
    ∃ evaluation, cell = engine.edited now sheet slot raw evaluation ∧
      Accepted engine now sheet slot raw evaluation later := by
  rcases edit_cases hsound now sheet slot raw with
    ⟨cause, _, hedit, hrefusal, -⟩ | ⟨evaluation, _, hedit, haccepted⟩
  · rw [hedit, storedBy_error hrefusal] at h
    cases h
  · rw [hedit, storedBy_settle] at h
    cases h
    exact ⟨evaluation, rfl, haccepted⟩

/-! ## All or nothing -/

/-- The cell was appended, and after it one row or more for each slot that the cascade reaches. -/
structure Whole (engine : Engine σ) (cell : Cell) (later : Engine σ) : Prop where
  appends : Appends engine.store later.store (cell :: engine.cascadeRows cell)
  reached : ∀ x, (∃ row ∈ engine.cascadeRows cell, row.slot = x) ↔
    (engine.baseline cell).ReachesWithin engine.settings.cascadeDepth cell.slot x

/-- The results of an edit that are whole, or change nothing. -/
def AllOrNothing (engine : Engine σ) (sheet : String) (slot : Slot) (raw : String) :
    EStateM.Result EngineError (Engine σ) Cell → Prop
  | .ok cell later | .error (.evaluation cell _) later =>
    (cell.sheet = sheet ∧ cell.slot = slot ∧ cell.raw = raw) ∧ Whole engine cell later
  | .error (.outOfBounds _) later | .error (.formula _ _) later | .error (.store _) later =>
    later.store = engine.store
  | .error (.dependent _ _) _ => False

theorem Accepted.whole {later : Engine σ} (hsound : Sound engine.store)
    (h : Accepted engine now sheet slot raw evaluation later) :
    Whole engine (engine.edited now sheet slot raw evaluation) later :=
  ⟨h.appends, fun _ => Cascade.exists_mem_rows_iff (orderly_baseline hsound rfl)
    (ready_baseline hsound rfl _)⟩

/-- An edit that answers with its cell, or complains that the stored cell has no value, has appended
everything; with any other complaint it has changed nothing. No dependent is without a value. -/
theorem edit_allOrNothing (hsound : Sound engine.store) (now : Nat) (sheet : String) (slot : Slot)
    (raw : String) :
    AllOrNothing engine sheet slot raw (edit now sheet slot raw engine) := by
  rcases edit_cases hsound now sheet slot raw with
    ⟨cause, later, hedit, hrefusal, hstore⟩ | ⟨evaluation, later, hedit, haccepted⟩
  -- refused: the cause is one of the three that come before the cell is stored
  · rw [hedit]
    cases cause with
    | outOfBounds => exact hstore
    | formula => exact hstore
    | store => exact hstore
    | evaluation => exact hrefusal.elim
    | dependent => exact hrefusal.elim
  -- accepted: a formula without a value is reported once everything has been appended
  · have hwhole := haccepted.whole hsound
    rw [hedit]
    unfold settle
    cases evaluation.failure? with
    | none => exact ⟨⟨rfl, rfl, rfl⟩, hwhole⟩
    | some cause => exact ⟨⟨rfl, rfl, rfl⟩, hwhole⟩

/-- A table in which something else has written negative numbers, under an engine. -/
def tampered : Engine TableStore where
  store := {
    rows := [⟨1, "1", 0, 0, "1", "1", -4⟩, ⟨2, "1", 0, 0, "1", "1", 3⟩,
      ⟨3, "1", 1, 0, "=A1", "1", 3⟩, ⟨4, "2", -1, 0, "x", "x", 1⟩]
    lastId := 4 }
  directory := { sheets := [⟨"1", "One", 10, 5⟩] }
  clock := .wall
  settings := {}

theorem sound_tampered : Sound tampered.store := by
  constructor <;> decide

theorem exists_edit_tampered :
    ∃ cell later, edit 7 "1" ⟨0, 0⟩ "2" tampered = .ok cell later := by
  have hplan : tampered.plan "1" ⟨0, 0⟩ "2" = .ok ⟨"2", none⟩ := by cbv
  have hfits : Fits TableStore (tampered.edited 7 "1" ⟨0, 0⟩ "2" ⟨"2", none⟩) := by decide
  rcases edit_of_fits 7 sound_tampered hplan hfits with ⟨later, hedit, -⟩
  exact ⟨_, later, hedit⟩

theorem edit_allOrNothing_tampered :
    Sound tampered.store ∧ ∃ cell later, edit 7 "1" ⟨0, 0⟩ "2" tampered = .ok cell later ∧
      AllOrNothing tampered "1" ⟨0, 0⟩ "2" (.ok cell later) := by
  rcases exists_edit_tampered with ⟨cell, later, hedit⟩
  have hall := edit_allOrNothing sound_tampered 7 "1" ⟨0, 0⟩ "2"
  rw [hedit] at hall
  exact ⟨sound_tampered, cell, later, hedit, hall⟩

end SheetLedger.Engine
