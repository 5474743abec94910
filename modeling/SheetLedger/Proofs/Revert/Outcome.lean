import SheetLedger.Engine.Revert
import SheetLedger.Proofs.Edit.Outcome

/-!
# How a revert ends

On a lawful store a revert either is refused, and then the store is as it was, or it appends one row
for each cell that has to change back, as one batch (`Engine.revert_cases`).
-/

namespace SheetLedger.Engine

open JournaledStore

variable {σ : Type} [CellStore σ] {engine : Engine σ} {now : Nat} {sheet : String} {version : Nat}
  {changes : List (Slot × Contents)}

/-! ## The plan -/

/-- What an accepted plan of a revert has found out. -/
structure RevertPlanned (engine : Engine σ) (sheet : String) (version : Nat)
    (target current : Snapshot) (changes : List (Slot × Contents)) : Prop where
  target_eq : engine.snapshotAt sheet version = .ok target
  current_eq : engine.snapshot sheet = .ok current
  changes_eq : changes = current.changesTo target
  within : ∀ change ∈ changes, engine.directory.check sheet change.1 = .ok ()

/-- Why a plan of a revert is not accepted: a read fails, or the first slot outside the bounds is
come to. -/
inductive RevertUnplanned (engine : Engine σ) (sheet : String) (version : Nat) :
    EngineError → Prop
  | past {cause : StoreError} :
      CellStore.snapshotAt engine.store sheet version = .error cause →
        RevertUnplanned engine sheet version (.store cause)
  | present {target : Snapshot} {cause : StoreError} :
      engine.snapshotAt sheet version = .ok target →
        CellStore.snapshot engine.store sheet none = .error cause →
          RevertUnplanned engine sheet version (.store cause)
  | outside {target current : Snapshot} {front back : List (Slot × Contents)}
      {change : Slot × Contents} {cause : BoundsError} :
      engine.snapshotAt sheet version = .ok target → engine.snapshot sheet = .ok current →
        current.changesTo target = front ++ change :: back →
          (∀ c ∈ front, engine.directory.check sheet c.1 = .ok ()) →
            engine.directory.check sheet change.1 = .error cause →
              RevertUnplanned engine sheet version (.outOfBounds cause)

theorem RevertUnplanned.refusal {cause : EngineError}
    (h : RevertUnplanned engine sheet version cause) : Refusal cause := by
  cases h <;> trivial

/-- Slots are checked one after another, until the first one that is outside. -/
theorem forM_withinBounds (directory : Directory) (sheet : String)
    (changes : List (Slot × Contents)) :
    (∃ front change back cause, changes = front ++ change :: back ∧
        (∀ c ∈ front, directory.check sheet c.1 = .ok ()) ∧
        directory.check sheet change.1 = .error cause ∧
        changes.forM (fun (slot, _) => withinBounds (directory.check sheet slot)) =
          .error (.outOfBounds cause)) ∨
      changes.forM (fun (slot, _) => withinBounds (directory.check sheet slot)) = .ok () ∧
        ∀ change ∈ changes, directory.check sheet change.1 = .ok () := by
  induction changes with
  | nil => exact Or.inr ⟨rfl, by simp⟩
  | cons change rest ih =>
    have hstep : (change :: rest).forM
        (fun (slot, _) => withinBounds (directory.check sheet slot)) = (do
          withinBounds (directory.check sheet change.1)
          rest.forM fun (slot, _) => withinBounds (directory.check sheet slot)) := rfl
    rw [hstep]
    cases hcheck : directory.check sheet change.1 with
    | error cause => exact Or.inl ⟨[], change, rest, cause, rfl, by simp, hcheck, rfl⟩
    | ok within =>
      have hcons : ∀ {checked : List (Slot × Contents)},
          (∀ c ∈ checked, directory.check sheet c.1 = .ok ()) →
            ∀ c ∈ change :: checked, directory.check sheet c.1 = .ok () := by
        intro checked hall
        exact List.forall_mem_cons.2 ⟨hcheck, hall⟩
      rcases ih with ⟨front, other, back, cause, rfl, hfront, hother, hbad⟩ | ⟨hok, hall⟩
      · exact Or.inl ⟨change :: front, other, back, cause, rfl, hcons hfront, hother, hbad⟩
      · exact Or.inr ⟨hok, hcons hall⟩

theorem revertPlan_cases (engine : Engine σ) (sheet : String) (version : Nat) :
    (∃ cause, engine.revertPlan sheet version = .error cause ∧
        RevertUnplanned engine sheet version cause) ∨
      ∃ target current changes, engine.revertPlan sheet version = .ok changes ∧
        RevertPlanned engine sheet version target current changes := by
  cases htarget : engine.snapshotAt sheet version with
  | error cause =>
    rcases ask_eq_error_iff.1 htarget with ⟨complaint, hread, rfl⟩
    refine Or.inl ⟨_, ?_, .past hread⟩
    simp only [revertPlan, htarget, bind, Except.bind]
  | ok target =>
    cases hcurrent : engine.snapshot sheet with
    | error cause =>
      rcases ask_eq_error_iff.1 hcurrent with ⟨complaint, hread, rfl⟩
      refine Or.inl ⟨_, ?_, .present htarget hread⟩
      simp only [revertPlan, htarget, hcurrent, bind, Except.bind]
    | ok current =>
      rcases forM_withinBounds engine.directory sheet (current.changesTo target) with
        ⟨front, change, back, cause, hchanges, hfront, hchange, hbad⟩ | ⟨hok, hall⟩
      · refine Or.inl ⟨_, ?_, .outside htarget hcurrent hchanges hfront hchange⟩
        simp only [revertPlan, htarget, hcurrent, hbad, bind, Except.bind]
      · refine Or.inr ⟨target, current, _, ?_, htarget, hcurrent, rfl, hall⟩
        simp only [revertPlan, htarget, hcurrent, hok, bind, Except.bind, pure, Except.pure]

theorem revert_of_plan_error {cause : EngineError}
    (h : engine.revertPlan sheet version = .error cause) :
    revert now sheet version engine = .error cause engine := by
  simp only [revert, h, orStop, bind, EStateM.bind, get, getThe, MonadStateOf.get, EStateM.get]
  rfl

theorem revert_of_nil (h : engine.revertPlan sheet version = .ok []) :
    revert now sheet version engine = .ok [] engine := by
  simp only [revert, h, orStop, bind, EStateM.bind, get, getThe, MonadStateOf.get, EStateM.get,
    pure, EStateM.pure, List.isEmpty_nil, if_true]

/-! ## The rows of a revert -/

/-- The rows that lead back, before they are numbered. -/
def restored (engine : Engine σ) (now : Nat) (sheet : String)
    (changes : List (Slot × Contents)) : List Cell :=
  changes.map fun (slot, contents) =>
    { id := 0, sheet := sheet, slot := slot, raw := contents.raw,
      computed := contents.computed, version := (engine.clock.next now).1 }

/-- What comes after the plan: a stamp is drawn, and the rows are stored as one batch. -/
theorem revert_of_plan (now : Nat) (h : engine.revertPlan sheet version = .ok changes)
    (hne : changes ≠ []) :
    revert now sheet version engine =
      onStore (do
          let ids ← EStateM.adaptExcept .store
            (CellStore.insertAll (engine.restored now sheet changes))
          return (engine.restored now sheet changes).zipWith
            (fun row id => { row with id := id }) ids)
        { engine with clock := (engine.clock.next now).2 } := by
  have hempty : changes.isEmpty = false := List.isEmpty_eq_false_iff.2 hne
  simp only [revert, h, orStop, stamp, onStore, EStateM.adaptExcept, bind, EStateM.bind, get,
    getThe, MonadStateOf.get, EStateM.get, set, EStateM.set, pure, EStateM.pure, hempty,
    Bool.false_eq_true, if_false, restored]
  cases CellStore.insertAll (σ := σ) _ engine.store <;> rfl

variable [LawfulStore σ]

omit [CellStore σ] [LawfulStore σ] in
/-- All rows of a revert are of its spreadsheet and under its stamp, at slots that change. -/
theorem mem_restored {firstId : Nat} {row : Cell}
    (h : row ∈ numbered firstId (engine.restored now sheet changes)) :
    (∃ change ∈ changes, row.slot = change.1) ∧ row.sheet = sheet ∧
      row.version = (engine.clock.next now).1 := by
  rcases mem_numbered h with ⟨cell, hcell, hsame⟩
  rcases List.mem_map.1 hcell with ⟨change, hchange, rfl⟩
  rw [hsame]
  exact ⟨⟨change, hchange, rfl⟩, rfl, rfl⟩

/-- What a revert has done once it is accepted; it may have found nothing to change. -/
structure Reverted (engine : Engine σ) (now : Nat) (sheet : String) (version : Nat)
    (rows : List Cell) (later : Engine σ) : Prop where
  planned : ∃ target current changes,
    RevertPlanned engine sheet version target current changes ∧
      rows = numbered (lastId engine.store + 1) (engine.restored now sheet changes)
  appends : Appends engine.store later.store rows
  frame : later = { engine with store := later.store, clock := later.clock }

theorem revert_of_not_fits (h : engine.revertPlan sheet version = .ok changes) (hne : changes ≠ [])
    (hfits : ∃ row ∈ engine.restored now sheet changes, ¬ Fits σ row) :
    ∃ cause, revert now sheet version engine =
      .error (.store cause) { engine with clock := (engine.clock.next now).2 } := by
  rcases LawfulStore.insertAll_of_not_fits engine.store hfits with ⟨cause, hcause⟩
  refine ⟨cause, ?_⟩
  rw [revert_of_plan now h hne]
  simp only [onStore, EStateM.adaptExcept, bind, EStateM.bind, hcause]

theorem revert_of_fits (hsound : Sound engine.store)
    (h : engine.revertPlan sheet version = .ok changes) (hne : changes ≠ [])
    (hfits : ∀ row ∈ engine.restored now sheet changes, Fits σ row) :
    ∃ later, revert now sheet version engine =
        .ok (numbered (lastId engine.store + 1) (engine.restored now sheet changes))
          { engine with store := later, clock := (engine.clock.next now).2 } ∧
      Appends engine.store later
        (numbered (lastId engine.store + 1) (engine.restored now sheet changes)) := by
  rcases LawfulStore.insertAll_of_fits hsound hfits with ⟨later, hlater, happends⟩
  refine ⟨later, ?_, happends⟩
  rw [revert_of_plan now h hne]
  simp only [onStore, EStateM.adaptExcept, bind, EStateM.bind, hlater]
  rfl

/-- A revert is refused and changes no row, or it is accepted. -/
theorem revert_cases (hsound : Sound engine.store) (now : Nat) (sheet : String) (version : Nat) :
    (∃ cause later, revert now sheet version engine = .error cause later ∧ Refusal cause ∧
        later.store = engine.store) ∨
      ∃ rows later, revert now sheet version engine = .ok rows later ∧
        Reverted engine now sheet version rows later := by
  rcases revertPlan_cases engine sheet version with
    ⟨cause, hplan, hunplanned⟩ | ⟨target, current, changes, hplan, hplanned⟩
  · exact Or.inl ⟨cause, engine, revert_of_plan_error hplan, hunplanned.refusal, rfl⟩
  -- without changes no stamp is drawn
  · by_cases hne : changes = []
    · subst hne
      exact Or.inr ⟨[], engine, revert_of_nil hplan,
        ⟨target, current, [], hplanned, rfl⟩, .nil hsound, rfl⟩
    · by_cases hfits : ∀ row ∈ engine.restored now sheet changes, Fits σ row
      · rcases revert_of_fits hsound hplan hne hfits with ⟨later, hrevert, happends⟩
        exact Or.inr ⟨_, _, hrevert, ⟨target, current, changes, hplanned, rfl⟩, happends, rfl⟩
      · push Not at hfits
        rcases revert_of_not_fits hplan hne hfits with ⟨cause, hrevert⟩
        exact Or.inl ⟨.store cause, _, hrevert, trivial, rfl⟩

end SheetLedger.Engine
