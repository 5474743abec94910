import SheetLedger.Proofs.Revert.Outcome
import SheetLedger.Proofs.Store.Queries

/-!
# Runs with the monotonic clock

A call is an edit or a revert at some time, and a run is a sequence of calls on one engine, failed
ones included. Nobody else writes to the store.

* A call draws no stamp and changes nothing, or draws one and appends rows under that stamp to a
  spreadsheet that can be read (`Engine.call_cases`).
* The monotonic clock starts at the newest version in the store. What every call preserves is that
  no stored version is above the clock (`Engine.Seeded`).
* So the stamps of a run increase until they reach the last one (`Seeded.pairwise_stamps`), and the
  rows of a run stand in the order of their versions, none below a stored one (`Engine.Ran`).
-/

namespace SheetLedger

open JournaledStore

/-! ## Calls -/

/-- A change to a spreadsheet. -/
inductive Change where
  | edit (sheet : String) (slot : Slot) (raw : String)
  | revert (sheet : String) (version : Nat)
deriving Repr, DecidableEq

/-- The spreadsheet that is changed. -/
def Change.sheet : Change → String
  | edit sheet _ _ => sheet
  | revert sheet _ => sheet

/-- A change at a time that a stamp can be. -/
structure Call where
  now : Nat
  change : Change
  now_le : now ≤ lastStamp

namespace Engine

section Run

variable {σ : Type} [CellStore σ]

/-- The engine after a call, failed or not. -/
def call (engine : Engine σ) (call : Call) : Engine σ :=
  match call.change with
  | .edit sheet slot raw => leftBy (edit call.now sheet slot raw engine)
  | .revert sheet version => leftBy (revert call.now sheet version engine)

/-- The engine after some calls. -/
def run (engine : Engine σ) (calls : List Call) : Engine σ :=
  calls.foldl call engine

/-- Whether a change is carried so far that a stamp is drawn for it: an edit whose plan is accepted,
or a revert that is accepted and has something to change. -/
def draws (engine : Engine σ) : Change → Bool
  | .edit sheet slot raw => (engine.plan sheet slot raw).isOk
  | .revert sheet version =>
    match engine.revertPlan sheet version with
    | .ok changes => !changes.isEmpty
    | .error _ => false

/-- The stamp that a call draws. -/
def stampOf? (engine : Engine σ) (call : Call) : Option Nat :=
  if engine.draws call.change then some (engine.clock.next call.now).1 else none

/-- The stamps that a run draws. -/
def stamps (engine : Engine σ) : List Call → List Nat
  | [] => []
  | call :: rest => (engine.stampOf? call).toList ++ (engine.call call).stamps rest

theorem run_append (engine : Engine σ) (calls later : List Call) :
    engine.run (calls ++ later) = (engine.run calls).run later :=
  List.foldl_append

theorem stamps_append (engine : Engine σ) (calls later : List Call) :
    engine.stamps (calls ++ later) = engine.stamps calls ++ (engine.run calls).stamps later := by
  induction calls generalizing engine with
  | nil => rfl
  | cons call rest ih =>
    rw [List.cons_append, stamps, ih, stamps, List.append_assoc]
    rfl

end Run

variable {σ : Type} [CellStore σ] {engine : Engine σ} {last : Nat} {calls : List Call}

/-! ## What a call does -/

/-- What a call has done that has drawn a stamp. -/
structure Stamped [LawfulStore σ] (engine : Engine σ) (call : Call) (stamp : Nat)
    (rows : List Cell) : Prop where
  next_eq : engine.clock.next call.now = (stamp, (engine.call call).clock)
  appends : Appends engine.store (engine.call call).store rows
  sheet_eq : ∀ row ∈ rows, row.sheet = call.change.sheet
  version_eq : ∀ row ∈ rows, row.version = stamp
  readable : (journal engine.store call.change.sheet).Readable

/-- A call without a stamp changes nothing. -/
theorem call_of_not_draws {call : Call} (h : engine.draws call.change = false) :
    engine.call call = engine := by
  rcases call with ⟨now, change, hnow⟩
  cases change with
  | edit sheet slot raw =>
    show leftBy (edit now sheet slot raw engine) = engine
    cases hplan : engine.plan sheet slot raw with
    | error cause => rw [edit_of_plan_error hplan, leftBy]
    | ok evaluation => simp [draws, hplan, Except.isOk, Except.toBool] at h
  | revert sheet version =>
    show leftBy (revert now sheet version engine) = engine
    cases hplan : engine.revertPlan sheet version with
    | error cause => rw [revert_of_plan_error hplan, leftBy]
    | ok changes =>
      have hnil : changes = [] := by simpa [draws, hplan] using h
      rw [revert_of_nil (hnil ▸ hplan), leftBy]

section Cases

variable [LawfulStore σ]

theorem stamped_of_call {call : Call} {later : σ} {rows : List Cell}
    (hcall : engine.call call =
      { engine with store := later, clock := (engine.clock.next call.now).2 })
    (happends : Appends engine.store later rows)
    (hrows : ∀ row ∈ rows, row.sheet = call.change.sheet ∧
      row.version = (engine.clock.next call.now).1)
    (hreadable : (journal engine.store call.change.sheet).Readable) :
    Stamped engine call (engine.clock.next call.now).1 rows where
  next_eq := by rw [hcall]
  appends := by
    rw [hcall]
    exact happends
  sheet_eq row hrow := (hrows row hrow).1
  version_eq row hrow := (hrows row hrow).2
  readable := hreadable

variable (hsound : Sound engine.store) {now : Nat} (hnow : now ≤ lastStamp)

include hsound

/-- An edit whose plan is accepted uses up its stamp even if the store cannot hold the cell. -/
theorem stamped_edit {sheet : String} {slot : Slot} {raw : String} {evaluation : Evaluation}
    (hplan : engine.plan sheet slot raw = .ok evaluation) :
    ∃ rows, Stamped engine ⟨now, .edit sheet slot raw, hnow⟩ (engine.clock.next now).1 rows := by
  rcases planned_of_plan hplan with ⟨others, hplanned⟩
  have hreadable := ((LawfulStore.snapshot_eq_ok_iff hsound).1 hplanned.read).1
  by_cases hfits : Fits σ (engine.edited now sheet slot raw evaluation)
  · rcases edit_of_fits now hsound hplan hfits with ⟨later, hedit, haccepted⟩
    refine ⟨_, stamped_of_call ?_ haccepted.appends ?_ hreadable⟩
    · show leftBy (edit now sheet slot raw engine) = _
      rw [hedit, leftBy_settle]
      exact haccepted.frame
    · intro row hrow
      exact stamped_of_mem hsound rfl hrow
  · rcases edit_of_not_fits hplan hfits with ⟨cause, hedit⟩
    refine ⟨[], stamped_of_call ?_ (.nil hsound) (by simp) hreadable⟩
    show leftBy (edit now sheet slot raw engine) = _
    rw [hedit, leftBy]

/-- A revert that has something to change uses up its stamp even if the store cannot hold the
rows. -/
theorem stamped_revert {sheet : String} {version : Nat} {changes : List (Slot × Contents)}
    (hplan : engine.revertPlan sheet version = .ok changes) (hne : changes ≠ []) :
    ∃ rows, Stamped engine ⟨now, .revert sheet version, hnow⟩ (engine.clock.next now).1 rows := by
  have hreadable : (journal engine.store sheet).Readable := by
    rcases revertPlan_cases engine sheet version with
      ⟨cause, herror, -⟩ | ⟨target, current, found, -, hplanned⟩
    · rw [hplan] at herror
      cases herror
    · exact ((snapshot_eq_ok_iff hsound).1 hplanned.current_eq).1
  by_cases hfits : ∀ row ∈ engine.restored now sheet changes, Fits σ row
  · rcases revert_of_fits hsound hplan hne hfits with ⟨later, hrevert, happends⟩
    refine ⟨_, stamped_of_call ?_ happends ?_ hreadable⟩
    · show leftBy (revert now sheet version engine) = _
      rw [hrevert, leftBy]
    · intro row hrow
      exact (mem_restored hrow).2
  · push Not at hfits
    rcases revert_of_not_fits hplan hne hfits with ⟨cause, hrevert⟩
    refine ⟨[], stamped_of_call ?_ (.nil hsound) (by simp) hreadable⟩
    show leftBy (revert now sheet version engine) = _
    rw [hrevert, leftBy]

theorem exists_stamped {call : Call} (h : engine.draws call.change = true) :
    ∃ rows, Stamped engine call (engine.clock.next call.now).1 rows := by
  rcases call with ⟨now, change, hnow⟩
  cases change with
  | edit sheet slot raw =>
    cases hplan : engine.plan sheet slot raw with
    | error cause => simp [draws, hplan, Except.isOk, Except.toBool] at h
    | ok evaluation => exact stamped_edit hsound hnow hplan
  | revert sheet version =>
    cases hplan : engine.revertPlan sheet version with
    | error cause => simp [draws, hplan] at h
    | ok changes =>
      have hne : changes ≠ [] := by simpa [draws, hplan] using h
      exact stamped_revert hsound hnow hplan hne

/-- A call changes nothing, or draws a stamp and appends rows under it. -/
theorem call_cases (call : Call) :
    (engine.stampOf? call = none ∧ engine.call call = engine) ∨
      ∃ stamp rows, engine.stampOf? call = some stamp ∧ Stamped engine call stamp rows := by
  unfold stampOf?
  cases hdraws : engine.draws call.change with
  | false => exact Or.inl ⟨rfl, call_of_not_draws hdraws⟩
  | true =>
    rcases exists_stamped hsound hdraws with ⟨rows, hstamped⟩
    exact Or.inr ⟨_, rows, rfl, hstamped⟩

end Cases

end Engine

/-! ## The monotonic clock -/

namespace Clock

/-- A stamp that may come after `last`: a later one, or the last of all again and again. -/
def Follows (stamp last : Nat) : Prop :=
  stamp ≤ lastStamp ∧ (last < stamp ∨ stamp = lastStamp)

theorem Follows.trans {a b c : Nat} (hab : Follows b a) (hbc : Follows c b) : Follows c a := by
  unfold Follows at *
  omega

theorem Follows.le {a b : Nat} (h : Follows b a) (ha : a ≤ lastStamp) : a ≤ b := by
  unfold Follows at h
  omega

/-- Below the last stamp, stamps increase. -/
theorem Follows.lt {a b : Nat} (h : Follows b a) (hb : b < lastStamp) : a < b := by
  unfold Follows at h
  omega

theorem follows_of_next {now last stamp : Nat} {clock : Clock} (hnow : now ≤ lastStamp)
    (h : (Clock.monotonic last).next now = (stamp, clock)) :
    clock = .monotonic stamp ∧ Follows stamp last := by
  simp only [next, Prod.mk.injEq] at h
  rcases h with ⟨hstamp, hclock⟩
  refine ⟨by rw [← hclock, hstamp], ?_⟩
  unfold Follows
  omega

end Clock

namespace Engine

open Clock

variable {σ : Type} [CellStore σ] {engine : Engine σ} {last : Nat}

/-- An engine whose clock is monotonic and not below any stored version. -/
structure Seeded [LawfulStore σ] (engine : Engine σ) (last : Nat) : Prop where
  sound : Sound engine.store
  clock_eq : engine.clock = .monotonic last
  version_le : ∀ sheet, ∀ row ∈ journal engine.store sheet,
    row.version ≤ last ∧ row.version ≤ lastStamp

section Seeded

variable [LawfulStore σ]

/-- A stamp that is drawn follows the one before, and no stored version is above it. -/
theorem Seeded.stamped (h : Seeded engine last) {call : Call} {stamp : Nat} {rows : List Cell}
    (hstamped : Stamped engine call stamp rows) :
    Follows stamp last ∧ Seeded (engine.call call) stamp := by
  have hnext := hstamped.next_eq
  rw [h.clock_eq] at hnext
  rcases follows_of_next call.now_le hnext with ⟨hclock, hfollows⟩
  refine ⟨hfollows, hstamped.appends.sound, hclock, ?_⟩
  intro sheet row hrow
  unfold Follows at hfollows
  rw [hstamped.appends.journal_eq, List.mem_append] at hrow
  rcases hrow with hold | hnew
  · have hle := h.version_le sheet row hold
    omega
  · rcases List.mem_map.1 hnew with ⟨cell, hcell, rfl⟩
    have hversion := hstamped.version_eq cell (List.mem_of_mem_filter hcell)
    simp only [TableRow.ofCell]
    omega

/-- The stamps of a run follow one another. -/
theorem Seeded.pairwise_stamps (h : Seeded engine last) (calls : List Call) :
    (last :: engine.stamps calls).Pairwise fun a b => Follows b a := by
  induction calls generalizing engine last with
  | nil => exact List.pairwise_singleton _ _
  | cons call rest ih =>
    rw [stamps]
    rcases call_cases h.sound call with ⟨hnone, hsame⟩ | ⟨stamp, rows, hsome, hstamped⟩
    · rw [hnone, hsame]
      exact ih h
    · rcases h.stamped hstamped with ⟨hfollows, hseeded⟩
      have hrest := ih hseeded
      rw [hsome, Option.toList_some, List.singleton_append, List.pairwise_cons]
      refine ⟨?_, hrest⟩
      intro later hlater
      rcases List.mem_cons.1 hlater with rfl | hmem
      · exact hfollows
      · exact hfollows.trans ((List.pairwise_cons.1 hrest).1 later hmem)

theorem Seeded.follows (h : Seeded engine last) {calls : List Call} {stamp : Nat}
    (hstamp : stamp ∈ engine.stamps calls) : Follows stamp last :=
  (List.pairwise_cons.1 (h.pairwise_stamps calls)).1 stamp hstamp

/-! ## Runs -/

/-- What a run has appended that the clock has entered at the stamp `last`. -/
structure Ran (engine : Engine σ) (last : Nat) (calls : List Call) (rows : List Cell) : Prop where
  /-- The clock is left at the stamp drawn last. -/
  seeded : Seeded (engine.run calls) ((engine.stamps calls).getLastD last)
  appends : Appends engine.store (engine.run calls).store rows
  stamped : ∀ row ∈ rows, row.version ∈ engine.stamps calls
  sorted : rows.Pairwise fun a b => a.version ≤ b.version
  readable : ∀ row ∈ rows, (journal engine.store row.sheet).Readable

/-- A run after one more call in front. -/
theorem Ran.cons {call : Call} {rest : List Call} {stamp : Nat} {rows more : List Cell}
    (hseeded : Seeded (engine.call call) stamp) (hstamp : engine.stampOf? call = some stamp)
    (hstamped : Stamped engine call stamp rows) (hran : Ran (engine.call call) stamp rest more)
    (hle : stamp ≤ lastStamp) : Ran engine last (call :: rest) (rows ++ more) where
  seeded := by
    rw [stamps, hstamp, Option.toList_some, List.singleton_append, List.getLastD_cons]
    exact hran.seeded
  appends := hstamped.appends.append hran.appends
  stamped row hrow := by
    rw [stamps, hstamp, Option.toList_some, List.singleton_append, List.mem_cons]
    rcases List.mem_append.1 hrow with hmem | hmem
    · exact Or.inl (hstamped.version_eq row hmem)
    · exact Or.inr (hran.stamped row hmem)
  sorted := by
    refine List.pairwise_append.2 ⟨?_, hran.sorted, ?_⟩
    · refine List.pairwise_of_forall_mem_list ?_
      intro a ha b hb
      rw [hstamped.version_eq a ha, hstamped.version_eq b hb]
    · intro a ha b hb
      rw [hstamped.version_eq a ha]
      exact (hseeded.follows (hran.stamped b hb)).le hle
  readable row hrow := by
    rcases List.mem_append.1 hrow with hmem | hmem
    · rw [hstamped.sheet_eq row hmem]
      exact hstamped.readable
    · -- the call appends nothing to other spreadsheets than its own
      by_cases hsheet : row.sheet = call.change.sheet
      · rw [hsheet]
        exact hstamped.readable
      · have hreadable := hran.readable row hmem
        rw [hstamped.appends.journal_of_ne hstamped.sheet_eq hsheet] at hreadable
        exact hreadable

theorem Seeded.exists_ran (h : Seeded engine last) (calls : List Call) :
    ∃ rows, Ran engine last calls rows := by
  induction calls generalizing engine last with
  | nil => exact ⟨[], h, .nil h.sound, by simp, .nil, by simp⟩
  | cons call rest ih =>
    rcases call_cases h.sound call with ⟨hnone, hsame⟩ | ⟨stamp, rows, hsome, hstamped⟩
    · rcases ih h with ⟨rows, hran⟩
      have hrun : engine.run (call :: rest) = engine.run rest := by
        show (engine.call call).run rest = engine.run rest
        rw [hsame]
      have hstamps : engine.stamps (call :: rest) = engine.stamps rest := by
        rw [stamps, hnone, hsame]
        rfl
      refine ⟨rows, ?_, ?_, ?_, hran.sorted, hran.readable⟩
      · rw [hrun, hstamps]
        exact hran.seeded
      · rw [hrun]
        exact hran.appends
      · rw [hstamps]
        exact hran.stamped
    · rcases h.stamped hstamped with ⟨hfollows, hseeded⟩
      rcases ih hseeded with ⟨more, hran⟩
      exact ⟨rows ++ more, .cons hseeded hsome hstamped hran hfollows.1⟩

/-- No row of a run is older than what was stored before. -/
theorem Ran.version_le {calls : List Call} {rows : List Cell} (hran : Ran engine last calls rows)
    (h : Seeded engine last) {sheet : String} {old : TableRow}
    (hold : old ∈ journal engine.store sheet) {row : Cell} (hrow : row ∈ rows) :
    old.version ≤ row.version := by
  have hle := h.version_le sheet old hold
  have hfollows := h.follows (hran.stamped row hrow)
  unfold Follows at hfollows
  omega

end Seeded

/-! ## Starting -/

/-- An engine with the monotonic clock, made for a store whose versions are stamps. -/
structure Started [LawfulStore σ] (store : σ) (directory : Directory) (settings : Settings)
    (engine : Engine σ) : Prop where
  sound : Sound store
  version_le : ∀ sheet, ∀ row ∈ journal store sheet, row.version ≤ lastStamp
  clock_eq : settings.clock = .monotonic
  start_eq : Engine.start store directory settings = .ok engine

theorem Started.seeded [QueriedStore σ] {store : σ} {directory : Directory} {settings : Settings}
    (h : Started store directory settings engine) :
    engine.store = store ∧ ∃ last, Seeded engine last := by
  have hstart := h.start_eq
  unfold Engine.start at hstart
  cases hlatest : CellStore.latestVersion store with
  | error cause =>
    rw [hlatest] at hstart
    cases hstart
  | ok latest =>
    rw [hlatest, h.clock_eq] at hstart
    cases hstart
    refine ⟨rfl, latest.getD 0, h.sound, rfl, ?_⟩
    intro sheet row hrow
    exact ⟨QueriedStore.version_le hlatest hrow, h.version_le sheet row hrow⟩

end Engine

end SheetLedger
