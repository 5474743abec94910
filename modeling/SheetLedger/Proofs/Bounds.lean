import SheetLedger.Proofs.Edit.Cone
import SheetLedger.Proofs.Revert.Outcome
import SheetLedger.Proofs.Store.Log

/-!
# Which writes stay inside the bounds

A revert checks every slot that it writes, so all its rows lie inside the dimensions that the
directory holds. An edit checks its own slot only. The rows of its cascade stand where cells stood
before, which may be outside by now, so an edit stays inside the bounds exactly if the cascade
reaches no such slot (`Engine.writesWithin_iff`).
-/

namespace SheetLedger

namespace Engine

open JournaledStore

variable {σ : Type} [CellStore σ] [LawfulStore σ] {engine later : Engine σ} {rows : List Cell}

/-- Every row added lies inside the dimensions that the directory holds for its spreadsheet. -/
def WritesWithin (engine later : Engine σ) : Prop :=
  ∀ sheet cell, Added engine.store later.store sheet cell → engine.directory.Within sheet cell.slot

theorem writesWithin_of_store_eq (hsound : Sound engine.store) (h : later.store = engine.store) :
    WritesWithin engine later := by
  intro sheet cell hadded
  rw [h, LawfulStore.added_iff hsound (.nil hsound)] at hadded
  cases hadded.1

/-- For rows of one spreadsheet only their slots matter. -/
theorem writesWithin_iff_of_appends {sheet : String} (hsound : Sound engine.store)
    (h : Appends engine.store later.store rows) (hsheet : ∀ row ∈ rows, row.sheet = sheet) :
    WritesWithin engine later ↔ ∀ row ∈ rows, engine.directory.Within sheet row.slot := by
  constructor
  · intro hwithin row hrow
    exact hwithin sheet row ((LawfulStore.added_iff hsound h).2 ⟨hrow, hsheet row hrow⟩)
  · intro hall other cell hadded
    rcases (LawfulStore.added_iff hsound h).1 hadded with ⟨hmem, rfl⟩
    rw [hsheet cell hmem]
    exact hall cell hmem

/-- A revert writes inside the bounds. -/
theorem writesWithin_of_reverted {now : Nat} {sheet : String} {version : Nat}
    (hsound : Sound engine.store) (h : Reverted engine now sheet version rows later) :
    WritesWithin engine later := by
  rcases h.planned with ⟨target, current, changes, hplanned, hrows⟩
  have hrow : ∀ row ∈ rows, row.sheet = sheet ∧ engine.directory.Within sheet row.slot := by
    intro row hrow
    rw [hrows] at hrow
    rcases mem_restored hrow with ⟨⟨change, hchange, hslot⟩, hsheet, -⟩
    rw [hslot]
    exact ⟨hsheet, Directory.check_eq_ok_iff.1 (hplanned.within change hchange)⟩
  rw [writesWithin_iff_of_appends hsound h.appends fun row hr => (hrow row hr).1]
  exact fun row hr => (hrow row hr).2

/-- An edit writes inside the bounds if the slots that its cascade reaches are inside them. -/
theorem writesWithin_iff_of_accepted {now : Nat} {sheet : String} {slot : Slot} {raw : String}
    {evaluation : Evaluation} (hsound : Sound engine.store)
    (h : Accepted engine now sheet slot raw evaluation later) :
    WritesWithin engine later ↔
      ∀ x, (engine.baseline (engine.edited now sheet slot raw evaluation)).ReachesWithin
        engine.settings.cascadeDepth slot x → engine.directory.Within sheet x := by
  rcases h.planned with ⟨others, hplanned⟩
  have hown := Directory.check_eq_ok_iff.1 hplanned.within
  have hreached := (h.whole hsound).reached
  have hsheet : ∀ row ∈ engine.edited now sheet slot raw evaluation ::
      engine.cascadeRows (engine.edited now sheet slot raw evaluation), row.sheet = sheet := by
    intro row hrow
    exact (stamped_of_mem hsound rfl hrow).1
  -- the plan has checked the edited cell, so the rows of the cascade decide
  rw [writesWithin_iff_of_appends hsound h.appends hsheet, List.forall_mem_cons]
  constructor
  · rintro ⟨-, hall⟩ x hx
    rcases (hreached x).2 hx with ⟨row, hrow, rfl⟩
    exact hall row hrow
  · intro hall
    exact ⟨hown, fun row hrow => hall row.slot ((hreached row.slot).1 ⟨row, hrow, rfl⟩)⟩

/-- A revert always writes inside the bounds; an edit does exactly if it stores nothing or its
cascade reaches no slot outside them. -/
theorem writesWithin_iff (hsound : Sound engine.store) (now : Nat) (sheet : String) :
    (∀ slot raw, WritesWithin engine (leftBy (edit now sheet slot raw engine)) ↔
      ∀ cell later, storedBy (edit now sheet slot raw engine) = some (cell, later) →
        ∀ x, (engine.baseline cell).ReachesWithin engine.settings.cascadeDepth slot x →
          engine.directory.Within sheet x) ∧
      ∀ version, WritesWithin engine (leftBy (revert now sheet version engine)) := by
  constructor
  · intro slot raw
    rcases edit_cases hsound now sheet slot raw with
      ⟨cause, later, hedit, hrefusal, hstore⟩ | ⟨evaluation, later, hedit, haccepted⟩
    · rw [hedit, storedBy_error hrefusal]
      simp [leftBy, writesWithin_of_store_eq hsound hstore]
    · rw [hedit, storedBy_settle, leftBy_settle, writesWithin_iff_of_accepted hsound haccepted]
      simp
  · intro version
    rcases revert_cases hsound now sheet version with
      ⟨cause, later, hrevert, -, hstore⟩ | ⟨rows, later, hrevert, hreverted⟩
    · rw [hrevert]
      exact writesWithin_of_store_eq hsound hstore
    · rw [hrevert]
      exact writesWithin_of_reverted hsound hreverted

/-- A spreadsheet that was larger when its second cell was stored. -/
def shrunk : Engine LogStore where
  store := ((({} : LogStore).insert ⟨0, "1", ⟨0, 0⟩, "1", "1", 1⟩).2.insert
    ⟨0, "1", ⟨20, 20⟩, "=A1", "1", 2⟩).2
  directory := { sheets := [⟨"1", "One", 10, 5⟩] }
  clock := .wall
  settings := {}

theorem sound_shrunk : Sound shrunk.store :=
  (LogStore.sound_empty.insert _).insert _

theorem writesWithin_iff_shrunk :
    Sound shrunk.store ∧
      (∀ slot raw, WritesWithin shrunk (leftBy (edit 5 "1" slot raw shrunk)) ↔
        ∀ cell later, storedBy (edit 5 "1" slot raw shrunk) = some (cell, later) →
          ∀ x, (shrunk.baseline cell).ReachesWithin shrunk.settings.cascadeDepth slot x →
            shrunk.directory.Within "1" x) ∧
      ∀ version, WritesWithin shrunk (leftBy (revert 5 "1" version shrunk)) :=
  ⟨sound_shrunk, writesWithin_iff sound_shrunk 5 "1"⟩

/-- An edit of the first cell writes the second one, outside the bounds. -/
theorem not_writesWithin_shrunk :
    Sound shrunk.store ∧ ¬ WritesWithin shrunk (leftBy (edit 5 "1" ⟨0, 0⟩ "2" shrunk)) := by
  refine ⟨sound_shrunk, ?_⟩
  have hplan : shrunk.plan "1" ⟨0, 0⟩ "2" = .ok ⟨"2", none⟩ := by cbv
  rcases edit_of_fits 5 sound_shrunk hplan (LogStore.fits _) with ⟨later, hedit, haccepted⟩
  have hbaseline : shrunk.baseline (shrunk.edited 5 "1" ⟨0, 0⟩ "2" ⟨"2", none⟩) =
      [⟨2, "1", ⟨20, 20⟩, "=A1", "1", 2⟩, ⟨3, "1", ⟨0, 0⟩, "2", "2", 5⟩] := by cbv
  have hfeeds : (shrunk.baseline (shrunk.edited 5 "1" ⟨0, 0⟩ "2" ⟨"2", none⟩)).Feeds ⟨0, 0⟩
      ⟨20, 20⟩ := by
    rw [hbaseline]
    exact ⟨by decide, _, List.mem_cons_self, rfl, by cbv⟩
  rw [hedit, leftBy_settle, writesWithin_iff_of_accepted sound_shrunk haccepted]
  intro hall
  obtain ⟨sheet, hsheet, hrow, -⟩ :=
    hall ⟨20, 20⟩ ⟨[⟨20, 20⟩], by simp, by decide, .single hfeeds⟩
  cases hsheet
  exact absurd hrow (by decide)

end Engine

end SheetLedger
