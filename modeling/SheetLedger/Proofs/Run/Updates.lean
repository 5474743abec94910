import SheetLedger.Proofs.Run.Calls

/-!
# No update is lost

With the monotonic clock, a row that a run appends is the current one of its slot from the moment at
which it is appended until another row of that slot is (`Engine.no_update_lost`). A moment is a
state of the store with the rows of the run up to some row. At the end of the range of stamps, where
all rows have the last stamp, the order of their ids still decides.
-/

namespace SheetLedger

open JournaledStore

/-- No row of a list takes the place of another row. -/
def Spares (rows : List Cell) (row : Cell) : Prop :=
  ∀ other ∈ rows, other.sheet = row.sheet → other.slot ≠ row.slot

namespace Engine

variable {σ : Type} [CellStore σ] [QueriedStore σ] {store : σ} {engine : Engine σ} {last : Nat}
  {calls : List Call}

/-- At every moment the last row of each slot is shown. -/
theorem Ran.shows {rows earlier between rest : List Cell} {row : Cell} {moment : σ}
    (hran : Ran engine last calls rows) (h : Seeded engine last)
    (hsplit : rows = earlier ++ row :: (between ++ rest)) (hspares : Spares between row)
    (hmoment : Appends engine.store moment (earlier ++ row :: between)) : Shows moment row := by
  have hrow : row ∈ earlier ++ row :: between := by simp
  have hin : row ∈ rows := by simp [hsplit]
  refine shows_of_forall_le hmoment.sound ?_ (hmoment.mem_journal hrow) ?_
  · rw [hmoment.journal_eq]
    exact (hran.readable row hin).append _
  · intro other hother
    rcases Journal.mem_rowsAt.1 hother with ⟨hmem, hat⟩
    rw [hmoment.journal_eq, List.mem_append] at hmem
    rcases hmem with hold | hnew
    · -- what was stored before the run is older in both respects
      have hid := LawfulStore.id_le h.sound hold
      have hlast := hmoment.lastId_lt hrow
      exact ⟨hran.version_le h hold hin, by omega⟩
    · rcases List.mem_map.1 hnew with ⟨cell, hcell, rfl⟩
      rcases List.mem_filter.1 hcell with ⟨hcell, hsheet⟩
      rcases List.mem_append.1 hcell with hbefore | hfrom
      · -- rows before it in the run have lower ids and no higher versions
        have hsorted := hran.sorted
        rw [hsplit] at hsorted
        have hversion : cell.version ≤ row.version :=
          (List.pairwise_append.1 hsorted).2.2 cell hbefore row List.mem_cons_self
        have hid : cell.id < row.id :=
          (List.pairwise_append.1 hmoment.increasing_ids).2.2 cell hbefore row List.mem_cons_self
        exact ⟨Int.ofNat_le.2 hversion, Nat.le_of_lt hid⟩
      · rcases List.mem_cons.1 hfrom with rfl | hafter
        · exact ⟨Int.le_refl _, Nat.le_refl _⟩
        · exact absurd (TableRow.ofCell_at_iff.1 hat)
            (hspares cell hafter (of_decide_eq_true hsheet))

/-- After some of the calls the store is at a moment of the whole run. -/
theorem Ran.exists_written {rows : List Cell} (hran : Ran engine last calls rows)
    (h : Seeded engine last) {done rest : List Call} (hcalls : calls = done ++ rest) :
    ∃ written, written <+: rows ∧ Appends engine.store (engine.run done).store written := by
  rcases h.exists_ran done with ⟨written, hdone⟩
  rcases hdone.seeded.exists_ran rest with ⟨more, hrest⟩
  have hwhole : Appends engine.store (engine.run calls).store (written ++ more) := by
    rw [hcalls, run_append]
    exact hdone.appends.append hrest.appends
  refine ⟨written, ⟨more, ?_⟩, hdone.appends⟩
  exact LawfulStore.rows_unique h.sound hwhole hran.appends

/-! ## The run as a whole -/

/-- The rows that a run appends, each of them shown from its own moment to the one of the next row
of its slot. -/
structure Keeps (store : σ) (engine : Engine σ) (calls : List Call) (rows : List Cell) : Prop where
  appends : Appends store (engine.run calls).store rows
  stamped : ∀ row ∈ rows, row.version ∈ engine.stamps calls
  /-- After some of the calls the clock is at the stamp drawn last. -/
  clock_eq : ∀ done rest, calls = done ++ rest →
    ∀ stamp, (engine.stamps done).getLast? = some stamp →
      (engine.run done).clock = .monotonic stamp
  /-- After some of the calls the store is at a moment. -/
  written : ∀ done rest, calls = done ++ rest →
    ∃ written, written <+: rows ∧ Appends store (engine.run done).store written
  /-- There is a moment for each row. -/
  moments : ∀ written, written <+: rows → ∃ moment, Appends store moment written
  shows : ∀ earlier row between rest, rows = earlier ++ row :: (between ++ rest) →
    Spares between row →
    ∀ moment, Appends store moment (earlier ++ row :: between) → Shows moment row

/-- With the monotonic clock, stamps increase below the last one, and every row that a run appends
is the current one of its slot until the next row of that slot is appended. -/
theorem no_update_lost {directory : Directory} {settings : Settings}
    (h : Started store directory settings engine) (calls : List Call) :
    (engine.stamps calls).Pairwise
        (fun earlier later => earlier < later ∨ earlier = lastStamp ∧ later = lastStamp) ∧
      ∃ rows, Keeps store engine calls rows := by
  rcases h.seeded with ⟨rfl, last, hseeded⟩
  rcases hseeded.exists_ran calls with ⟨rows, hran⟩
  constructor
  · have hfollows := (List.pairwise_cons.1 (hseeded.pairwise_stamps calls)).2
    refine hfollows.imp_of_mem ?_
    intro earlier later hearlier _ hfollow
    have hle := (hseeded.follows hearlier).1
    unfold Clock.Follows at hfollow
    omega
  · refine ⟨rows, hran.appends, hran.stamped, ?_, ?_, ?_, ?_⟩
    · intro done rest _ stamp hlast
      rcases hseeded.exists_ran done with ⟨_, hdone⟩
      have hclock := hdone.seeded.clock_eq
      rw [List.getLastD_eq_getLast?, hlast, Option.getD_some] at hclock
      exact hclock
    · intro done rest hcalls
      exact hran.exists_written hseeded hcalls
    · intro written hwritten
      exact LawfulStore.exists_moment hseeded.sound hran.appends hwritten
    · intro earlier row between rest hsplit hspares moment hmoment
      exact hran.shows hseeded hsplit hspares hmoment

/-- A spreadsheet with one cell, and the monotonic clock, which goes on from its version. -/
def steady : Engine LogStore where
  store := (({} : LogStore).insert ⟨0, "1", ⟨0, 0⟩, "1", "1", 4⟩).2
  directory := { sheets := [⟨"1", "One", 10, 5⟩] }
  clock := .monotonic 4
  settings := { clock := .monotonic }

theorem started_steady : Started steady.store steady.directory steady.settings steady where
  sound := LogStore.sound_empty.insert _
  version_le sheet row hrow := by
    have hlatest : CellStore.latestVersion steady.store = .ok (some 4) := by cbv
    exact Int.le_trans (QueriedStore.version_le hlatest hrow) (by decide)
  clock_eq := rfl
  start_eq := by cbv

/-- Calls at times that go back and then to the end: edits, one of them outside the spreadsheet, and
a revert. -/
def restless : List Call :=
  [⟨50, .edit "1" ⟨0, 0⟩ "2", by decide⟩, ⟨10, .edit "1" ⟨9, 9⟩ "3", by decide⟩,
    ⟨10, .revert "1" 4, by decide⟩, ⟨lastStamp, .edit "1" ⟨0, 0⟩ "5", by decide⟩,
    ⟨20, .edit "1" ⟨0, 0⟩ "7", by decide⟩]

/-- Two edits and a revert to follow them, at a time before the stamps of the calls in front. -/
def belated : List Call :=
  [⟨20, .edit "1" ⟨0, 0⟩ "5", by decide⟩, ⟨20, .edit "1" ⟨1, 0⟩ "8", by decide⟩,
    ⟨20, .revert "1" 50, by decide⟩]

theorem no_update_lost_restless :
    Started steady.store steady.directory steady.settings steady ∧
      steady.stamps restless = [50, 51, lastStamp, lastStamp] ∧
      ∃ rows, Keeps steady.store steady restless rows := by
  refine ⟨started_steady, ?_, (no_update_lost started_steady restless).2⟩
  cbv

end Engine

end SheetLedger
