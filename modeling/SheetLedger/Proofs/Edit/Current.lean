import SheetLedger.Proofs.Edit.Consistency
import SheetLedger.Proofs.Store.Queries

/-!
# What is current after an edit

Under a stamp that no stored version is above, the rows of an edit supersede what was stored, and
among themselves the later ones supersede the earlier ones. So the current row of a slot is the last
row that the edit has appended there, or else the one that was current before
(`Engine.Fresh.find?_eq`). In particular an edit answers with the current cell of its slot unless
its cascade comes back to that slot, which it does along a closed walk of dependents no longer than
the depth (`Engine.edit_answer_current_iff`).
-/

namespace SheetLedger.Engine

open JournaledStore Snapshot Cascade

variable {σ : Type} [CellStore σ] {engine later : Engine σ} {now : Nat} {sheet : String}
  {slot x : Slot} {raw : String} {cell row : Cell}

namespace Fresh

section

variable [LawfulStore σ] (h : Fresh engine cell later)

include h

theorem stamped {row : Cell} (hrow : row ∈ cell :: engine.cascadeRows cell) :
    row.sheet = cell.sheet ∧ row.version = cell.version :=
  stamped_of_mem h.sound h.id_eq hrow

/-- The last row that an edit appends at a slot has no higher version or id beside it. -/
theorem id_le_of_getLast?
    (hlast : ((cell :: engine.cascadeRows cell).filter (·.slot = x)).getLast? = some row)
    {other : Cell} (hother : other ∈ cell :: engine.cascadeRows cell) (hslot : other.slot = x) :
    other.id ≤ row.id := by
  have hmem : other ∈ (cell :: engine.cascadeRows cell).filter (·.slot = x) :=
    List.mem_filter.2 ⟨hother, decide_eq_true hslot⟩
  have hsorted := h.appends.increasing_ids.filter (·.slot = x)
  rcases List.getLast?_eq_some_iff.1 hlast with ⟨front, hfront⟩
  rw [hfront] at hmem hsorted
  rcases List.mem_append.1 hmem with hin | hin
  · exact Nat.le_of_lt ((List.pairwise_append.1 hsorted).2.2 other hin row (by simp))
  · rw [List.mem_singleton.1 hin]

/-- The rows stored at a slot before the edit have no higher versions than its own, whatever they
hold. -/
theorem version_le_of_mem_journal {other : TableRow}
    (hother : other ∈ (journal engine.store cell.sheet).rowsAt x) :
    other.version ≤ cell.version := by
  rcases Journal.mem_rowsAt.1 hother with ⟨hmem, hcolumn, hrow⟩
  by_cases hversion : 0 ≤ other.version
  · obtain ⟨old, rfl⟩ := TableRow.exists_eq_ofCell (by omega) (by omega) hversion
    exact Int.ofNat_le.2 (h.version_le old (Journal.mem_cells.2 hmem))
  · omega

/-- The current row of a slot is the last one that the edit has appended there, or else the one that
was current before. -/
theorem find?_eq (x : Slot) :
    (later.currentCells cell.sheet).find? x =
      ((cell :: engine.cascadeRows cell).filter (·.slot = x)).getLast?.or
        ((engine.currentCells cell.sheet).find? x) := by
  cases hlast : ((cell :: engine.cascadeRows cell).filter (·.slot = x)).getLast? with
  | none =>
    rw [List.getLast?_eq_none_iff] at hlast
    rw [Option.none_or]
    refine Recency.find?_latest_congr h.ids_ne (LawfulStore.ids_ne h.sound _) ?_
    rw [h.cells_eq, List.filter_append, hlast, List.append_nil]
  | some row =>
    rcases List.mem_filter.1 (List.mem_of_getLast? hlast) with ⟨hrow, hslot⟩
    obtain rfl := of_decide_eq_true hslot
    rw [Option.some_or]
    have hmem : row ∈ cells later.store cell.sheet := by
      rw [h.cells_eq]
      exact List.mem_append_right _ hrow
    refine Recency.find?_latest_of_forall_le h.ids_ne hmem fun other hother hat => ?_
    rw [(h.stamped hrow).2]
    rw [h.cells_eq, List.mem_append] at hother
    rcases hother with hold | hnew
    · have hid := LawfulStore.cell_id_le h.sound hold
      exact ⟨h.version_le other hold, Nat.le_of_lt (Nat.lt_of_le_of_lt hid
        (h.appends.lastId_lt hrow))⟩
    · exact ⟨Nat.le_of_eq (h.stamped hnew).2, h.id_le_of_getLast? hlast hnew hat⟩

/-- An edit appends a row at its own slot, and every row there has the text that was entered. -/
theorem exists_getLast? :
    ∃ row, ((cell :: engine.cascadeRows cell).filter (·.slot = cell.slot)).getLast? = some row ∧
      row ∈ cell :: engine.cascadeRows cell ∧ row.slot = cell.slot ∧ row.raw = cell.raw := by
  have hne : (cell :: engine.cascadeRows cell).filter (·.slot = cell.slot) ≠ [] := by simp
  have hlast := List.getLast?_eq_some_getLast hne
  rcases List.mem_filter.1 (List.getLast_mem hne) with ⟨hrow, hslot⟩
  refine ⟨_, hlast, hrow, of_decide_eq_true hslot, ?_⟩
  rcases List.mem_cons.1 hrow with heq | hcascade
  · rw [heq]
  · -- the cascade keeps the raw text of the baseline, which is that of the edited cell
    have htexts := (texts_of_mem_cascadeRows h.sound h.id_eq hcascade).2.2
    rw [of_decide_eq_true hslot, h.baseline_eq, find?_replace, if_pos rfl] at htexts
    exact (Option.some.inj htexts).symm

/-- The last row at the edited slot is the edited cell unless the cascade comes back to it. -/
theorem getLast?_eq_cell_iff
    (hlast : ((cell :: engine.cascadeRows cell).filter (·.slot = cell.slot)).getLast? = some row) :
    row = cell ↔ ¬ (later.currentCells cell.sheet).ReachesWithin engine.settings.cascadeDepth
      cell.slot cell.slot := by
  have hreached : (∃ r ∈ engine.cascadeRows cell, r.slot = cell.slot) ↔
      (later.currentCells cell.sheet).ReachesWithin engine.settings.cascadeDepth
        cell.slot cell.slot := by
    have hiff : (∃ r ∈ engine.cascadeRows cell, r.slot = cell.slot) ↔
        (engine.baseline cell).ReachesWithin engine.settings.cascadeDepth cell.slot cell.slot :=
      exists_mem_rows_iff (orderly_baseline h.sound h.id_eq) (ready_baseline h.sound h.id_eq _)
    refine hiff.trans (exists_congr fun path => ?_)
    rw [h.sameTexts.chain_iff (orderly_baseline h.sound h.id_eq) h.orderly_later]
  rw [← hreached]
  constructor
  · rintro rfl ⟨r, hr, hslot⟩
    -- a row of the cascade has a higher id than the cell, which would be the last one
    have hle := h.id_le_of_getLast? hlast (List.mem_cons_of_mem _ hr) hslot
    have hlt := (List.pairwise_cons.1 h.appends.increasing_ids).1 r hr
    omega
  · intro hnone
    rcases List.mem_filter.1 (List.mem_of_getLast? hlast) with ⟨hrow, hslot⟩
    rcases List.mem_cons.1 hrow with heq | hcascade
    · exact heq
    · exact absurd ⟨row, hcascade, of_decide_eq_true hslot⟩ hnone

end

/-- The last row at a slot is what the store shows there. -/
theorem shows_of_getLast? [QueriedStore σ] (h : Fresh engine cell later)
    (hreadable : (journal engine.store cell.sheet).Readable)
    (hlast : ((cell :: engine.cascadeRows cell).filter (·.slot = x)).getLast? = some row) :
    Shows later.store row := by
  rcases List.mem_filter.1 (List.mem_of_getLast? hlast) with ⟨hrow, hslot⟩
  obtain rfl := of_decide_eq_true hslot
  rcases h.stamped hrow with ⟨hsheet, hversion⟩
  refine shows_of_forall_le h.appends.sound ?_ (h.appends.mem_journal hrow) ?_
  · rw [hsheet, h.appends.journal_eq]
    exact hreadable.append _
  · intro other hother
    rcases Journal.mem_rowsAt.1 hother with ⟨hmem, hat⟩
    rw [hsheet, h.appends.journal_eq, List.mem_append] at hmem
    rcases hmem with hold | hnew
    · have hle := h.version_le_of_mem_journal (Journal.mem_rowsAt.2 ⟨hold, hat⟩)
      have hid := LawfulStore.id_le h.sound hold
      have hlater := h.appends.lastId_lt hrow
      exact ⟨hversion ▸ hle, by omega⟩
    · rcases List.mem_map.1 hnew with ⟨c, hc, rfl⟩
      have hin := (List.mem_filter.1 hc).1
      refine ⟨?_, h.id_le_of_getLast? hlast hin (TableRow.ofCell_at_iff.1 hat)⟩
      rw [hversion]
      exact Int.ofNat_le.2 (Nat.le_of_eq (h.stamped hin).2)

end Fresh

/-- An accepted edit whose stamp no stored version is above. -/
theorem Accepted.fresh [LawfulStore σ] {evaluation : Evaluation} (hsound : Sound engine.store)
    (h : Accepted engine now sheet slot raw evaluation later)
    (hstamp : ∀ c ∈ cells engine.store sheet, c.version ≤ (engine.clock.next now).1) :
    Fresh engine (engine.edited now sheet slot raw evaluation) later :=
  ⟨hsound, rfl, h.appends, hstamp⟩

theorem Accepted.readable [LawfulStore σ] {evaluation : Evaluation} (hsound : Sound engine.store)
    (h : Accepted engine now sheet slot raw evaluation later) :
    (journal engine.store sheet).Readable ∧ (journal later.store sheet).Readable := by
  rcases h.planned with ⟨others, hplanned⟩
  have hreadable := ((LawfulStore.snapshot_eq_ok_iff hsound).1 hplanned.read).1
  refine ⟨hreadable, ?_⟩
  rw [h.appends.journal_eq]
  exact hreadable.append _

/-- After an edit that has stored a cell, a read of its slot finds the text that was entered under
the stamp of the edit. It finds the cell itself exactly if no chain of dependents within the depth
leads from the slot back to it. -/
theorem edit_answer_current_iff [QueriedStore σ] (hsound : Sound engine.store)
    (hstored : storedBy (edit now sheet slot raw engine) = some (cell, later))
    (hstamp : ∀ c ∈ cells engine.store sheet, c.version ≤ cell.version) :
    later.snapshot sheet = .ok (later.currentCells sheet) ∧
      ∃ row, later.current? sheet slot = .ok (some row) ∧
        (later.currentCells sheet).find? slot = some row ∧
        row.raw = raw ∧ row.version = cell.version ∧
        (row = cell ↔ ¬ (later.currentCells sheet).ReachesWithin engine.settings.cascadeDepth
          slot slot) := by
  rcases accepted_of_storedBy hsound hstored with ⟨evaluation, rfl, haccepted⟩
  have hfresh := haccepted.fresh hsound hstamp
  rcases haccepted.readable hsound with ⟨hreadable, hafter⟩
  rcases hfresh.exists_getLast? with ⟨row, hlast, hrow, hslot, hraw⟩
  rcases hfresh.stamped hrow with ⟨hsheet, hversion⟩
  have hshows := (hfresh.shows_of_getLast? hreadable hlast).1
  rw [hsheet, hslot] at hshows
  refine ⟨snapshot_eq_currentCells haccepted.appends.sound hafter, row,
    ask_eq_ok_iff.2 hshows, ?_, hraw, hversion, hfresh.getLast?_eq_cell_iff hlast⟩
  have hfind := hfresh.find?_eq slot
  rw [show (engine.edited now sheet slot raw evaluation).slot = slot from rfl] at hlast
  rw [hlast] at hfind
  exact hfind

/-- A spreadsheet whose second cell reads the first one. -/
def mirror : Engine LogStore where
  store := ((({} : LogStore).insert ⟨0, "1", ⟨0, 0⟩, "1", "1", 1⟩).2.insert
    ⟨0, "1", ⟨1, 0⟩, "=A1", "1", 2⟩).2
  directory := { sheets := [⟨"1", "One", 10, 5⟩] }
  clock := .wall
  settings := {}

theorem sound_mirror : Sound mirror.store :=
  (LogStore.sound_empty.insert _).insert _

/-- Once the first cell reads the second one as well, the cascade comes back to it. -/
theorem exists_edit_mirror :
    ∃ later, storedBy (edit 5 "1" ⟨0, 0⟩ "=B1" mirror) =
        some (⟨3, "1", ⟨0, 0⟩, "=B1", "1", 5⟩, later) ∧
      later.currentCells "1" =
        [⟨4, "1", ⟨1, 0⟩, "=A1", "1", 5⟩, ⟨5, "1", ⟨0, 0⟩, "=B1", "1", 5⟩] := by
  have hplan : mirror.plan "1" ⟨0, 0⟩ "=B1" = .ok ⟨"1", none⟩ := by cbv
  have hbaseline : mirror.baseline ⟨3, "1", ⟨0, 0⟩, "=B1", "1", 5⟩ =
      [⟨2, "1", ⟨1, 0⟩, "=A1", "1", 2⟩, ⟨3, "1", ⟨0, 0⟩, "=B1", "1", 5⟩] := by cbv
  have hrows : mirror.cascadeRows ⟨3, "1", ⟨0, 0⟩, "=B1", "1", 5⟩ =
      [⟨4, "1", ⟨1, 0⟩, "=A1", "1", 5⟩, ⟨5, "1", ⟨0, 0⟩, "=B1", "1", 5⟩] := by
    unfold cascadeRows
    rw [hbaseline]
    decide +kernel
  have hedited : mirror.edited 5 "1" ⟨0, 0⟩ "=B1" ⟨"1", none⟩ =
      ⟨3, "1", ⟨0, 0⟩, "=B1", "1", 5⟩ := by cbv
  rcases storedBy_of_fits 5 sound_mirror hplan (LogStore.fits _) with ⟨later, hstored, haccepted⟩
  have happends := haccepted.appends
  rw [hedited] at hstored happends
  rw [hrows] at happends
  refine ⟨later, hstored, ?_⟩
  rw [currentCells, happends.cells_eq (by simp)]
  cbv

theorem edit_answer_current_iff_mirror :
    Sound mirror.store ∧ ∃ cell later,
      storedBy (edit 5 "1" ⟨0, 0⟩ "=B1" mirror) = some (cell, later) ∧
      (∀ c ∈ cells mirror.store "1", c.version ≤ cell.version) ∧
      later.snapshot "1" = .ok (later.currentCells "1") ∧
      ∃ row, later.current? "1" ⟨0, 0⟩ = .ok (some row) ∧
        (later.currentCells "1").find? ⟨0, 0⟩ = some row ∧
        row.raw = "=B1" ∧ row.version = cell.version ∧
        (row = cell ↔ ¬ (later.currentCells "1").ReachesWithin 2 ⟨0, 0⟩ ⟨0, 0⟩) ∧
        row ≠ cell := by
  rcases exists_edit_mirror with ⟨later, hstored, hcurrent⟩
  have hstamp : ∀ c ∈ cells mirror.store "1", c.version ≤ 5 := by decide +kernel
  rcases edit_answer_current_iff sound_mirror hstored hstamp with
    ⟨hsnapshot, row, hrow, hfind, hraw, hversion, hiff⟩
  refine ⟨sound_mirror, _, later, hstored, hstamp, hsnapshot, row, hrow, hfind, hraw, hversion,
    hiff, ?_⟩
  rw [hcurrent] at hfind
  cases hfind
  decide

end SheetLedger.Engine
