import SheetLedger.Proofs.Edit.Cone
import SheetLedger.Proofs.Edit.Consistency
import SheetLedger.Proofs.Revert.Outcome

/-!
# What a revert restores

A revert that is accepted leaves every slot of its spreadsheet with the texts that it had as of the
version, and empties the slots that had no row then (`Engine.revert_restores`). It writes one row
for each slot whose texts differ, all under one stamp, and touches no other spreadsheet.

The new rows never fall among those up to the version. If the stamp were one of them then so would
be all stored versions, and there would be nothing to change. So the spreadsheet as of the version
is the same afterwards, and a second revert finds nothing to do.
-/

namespace SheetLedger

/-! ## Texts of snapshots -/

namespace Snapshot

variable {snapshot current target : Snapshot} {cell : Cell}

theorem contentsAt_of_find? {slot : Slot} (h : snapshot.find? slot = some cell) :
    snapshot.contentsAt slot = cell.contents := by
  rw [contentsAt, h]
  rfl

theorem Orderly.contentsAt_eq (h : snapshot.Orderly) (hmem : cell ∈ snapshot) :
    snapshot.contentsAt cell.slot = cell.contents :=
  contentsAt_of_find? (h.find?_eq_some_iff.2 ⟨hmem, rfl⟩)

theorem mem_changesTo {change : Slot × Contents} :
    change ∈ current.changesTo target ↔
      ∃ cell ∈ current, cell.contents ≠ target.contentsAt cell.slot ∧
        change = (cell.slot, target.contentsAt cell.slot) := by
  simp only [changesTo, List.mem_filterMap]
  refine exists_congr fun cell => and_congr_right fun _ => ?_
  by_cases h : cell.contents = target.contentsAt cell.slot
  · simp [h]
  · simp [h, eq_comm]

theorem changesTo_eq_nil_iff :
    current.changesTo target = [] ↔
      ∀ cell ∈ current, cell.contents = target.contentsAt cell.slot := by
  simp [changesTo, List.filterMap_eq_nil_iff]

/-- Each slot changes once. -/
theorem Orderly.single_changesTo (h : current.Orderly) (target : Snapshot) :
    (current.changesTo target).Pairwise fun a b => a.1 ≠ b.1 := by
  refine List.Pairwise.filterMap _ ?_ h.single
  intro a b hab x hx y hy
  have hslot : ∀ {cell : Cell} {change : Slot × Contents},
      (if cell.contents = target.contentsAt cell.slot then none
        else some (cell.slot, target.contentsAt cell.slot)) = some change →
      change.1 = cell.slot := by
    intro cell change hchange
    by_cases hsame : cell.contents = target.contentsAt cell.slot
    · rw [if_pos hsame] at hchange
      cases hchange
    · rw [if_neg hsame] at hchange
      cases hchange
      rfl
  rw [hslot hx, hslot hy]
  exact hab

end Snapshot

namespace Engine

open JournaledStore Snapshot

variable {σ : Type} [CellStore σ] [LawfulStore σ] {engine later : Engine σ} {now : Nat}
  {sheet : String} {version : Nat} {rows : List Cell} {target before after : Snapshot}

/-! ## Reads after rows have been appended -/

theorem snapshot_of_appends (hsound : Sound engine.store)
    (h : Appends engine.store later.store rows) (hread : engine.snapshot sheet = .ok before) :
    later.snapshot sheet = .ok (later.currentCells sheet) := by
  have hreadable := ((snapshot_eq_ok_iff hsound).1 hread).1
  refine snapshot_eq_currentCells h.sound ?_
  rw [h.journal_eq]
  exact hreadable.append _

theorem snapshotAt_of_appends (hsound : Sound engine.store)
    (h : Appends engine.store later.store rows)
    (hread : engine.snapshotAt sheet version = .ok target) :
    later.snapshotAt sheet version =
      .ok (Recency.latestAsOf (cells later.store sheet) version) := by
  have hreadable := ((snapshotAt_eq_ok_iff hsound).1 hread).1
  refine (snapshotAt_eq_ok_iff h.sound).2 ⟨?_, rfl⟩
  rw [h.journal_eq, Journal.asOf_append]
  exact hreadable.append _

/-! ## The rows of a revert -/

/-- What a revert has made of a spreadsheet: `target` is what it held as of the version, `before`
what it held when the revert was called, and `after` what it holds now. -/
structure Restores (engine later : Engine σ) (now : Nat) (sheet : String) (rows : List Cell)
    (target before after : Snapshot) : Prop where
  after_eq : later.snapshot sheet = .ok after
  /-- The texts as of the version, which are empty where no row was. -/
  texts : ∀ cell ∈ after, cell.contents = target.contentsAt cell.slot
  slots : ∀ x, (∃ cell ∈ after, cell.slot = x) ↔ ∃ cell ∈ before, cell.slot = x
  appends : Appends engine.store later.store rows
  single : rows.Pairwise fun a b => a.slot ≠ b.slot
  changed : ∀ x, (∃ row ∈ rows, row.slot = x) ↔ before.contentsAt x ≠ target.contentsAt x
  stamped : ∀ row ∈ rows, row.sheet = sheet ∧ row.version = (engine.clock.next now).1
  current : ∀ row ∈ rows, after.find? row.slot = some row
  sheets : ∀ other, other ≠ sheet → SameSheet engine later other

/-- What the rows of a revert are. -/
structure LeadsBack (engine : Engine σ) (now : Nat) (sheet : String) (version : Nat)
    (target before : Snapshot) (rows : List Cell) : Prop where
  target_eq : engine.snapshotAt sheet version = .ok target
  before_eq : engine.snapshot sheet = .ok before
  changes : rows.map (fun row => (row.slot, row.contents)) = before.changesTo target
  stamped : ∀ row ∈ rows, row.sheet = sheet ∧ row.version = (engine.clock.next now).1

theorem Reverted.leadsBack (h : Reverted engine now sheet version rows later) :
    ∃ target before, LeadsBack engine now sheet version target before rows := by
  rcases h.planned with ⟨target, before, changes, hplanned, rfl⟩
  refine ⟨target, before, hplanned.target_eq, hplanned.current_eq, ?_, ?_⟩
  · rw [map_numbered fun _ _ => rfl, restored, List.map_map, ← hplanned.changes_eq]
    exact List.map_id _
  · intro row hrow
    exact (mem_restored hrow).2

namespace LeadsBack

variable (h : LeadsBack engine now sheet version target before rows)

include h

omit [LawfulStore σ] in
/-- A row stands where the texts differ, and has the old ones. -/
theorem of_mem {row : Cell} (hrow : row ∈ rows) :
    row.contents = target.contentsAt row.slot ∧
      ∃ cell ∈ before, cell.slot = row.slot ∧ cell.contents ≠ target.contentsAt row.slot := by
  have hchange : (row.slot, row.contents) ∈ before.changesTo target :=
    h.changes ▸ List.mem_map_of_mem hrow
  rcases mem_changesTo.1 hchange with ⟨cell, hcell, hne, heq⟩
  obtain ⟨hslot, hcontents⟩ := Prod.mk.inj heq
  rw [hslot]
  exact ⟨hcontents, cell, hcell, rfl, hne⟩

omit [LawfulStore σ] in
/-- Where the texts of a current cell differ there is a row. -/
theorem exists_mem {cell : Cell} (hcell : cell ∈ before)
    (hne : cell.contents ≠ target.contentsAt cell.slot) : ∃ row ∈ rows, row.slot = cell.slot := by
  have hchange : (cell.slot, target.contentsAt cell.slot) ∈ before.changesTo target :=
    mem_changesTo.2 ⟨cell, hcell, hne, rfl⟩
  rw [← h.changes] at hchange
  rcases List.mem_map.1 hchange with ⟨row, hrow, heq⟩
  exact ⟨row, hrow, congrArg Prod.fst heq⟩

variable (hsound : Sound engine.store)

include hsound

theorem before_eq_currentCells : before = engine.currentCells sheet :=
  ((snapshot_eq_ok_iff hsound).1 h.before_eq).2

theorem orderly_before : before.Orderly := by
  rw [h.before_eq_currentCells hsound]
  exact Recency.orderly_latest (LawfulStore.ids_ne hsound sheet)

theorem target_eq_latestAsOf : target = Recency.latestAsOf (cells engine.store sheet) version :=
  ((snapshotAt_eq_ok_iff hsound).1 h.target_eq).2

theorem single : rows.Pairwise fun a b => a.slot ≠ b.slot := by
  have hsingle := (h.orderly_before hsound).single_changesTo target
  rw [← h.changes, List.pairwise_map] at hsingle
  exact hsingle

/-- A slot that held no row as of the version may hold one now, but not the other way round. -/
theorem contentsAt_of_not_mem {x : Slot} (hx : ∀ cell ∈ before, cell.slot ≠ x) :
    before.contentsAt x = {} ∧ target.contentsAt x = {} := by
  have hbefore : before.find? x = none := find?_eq_none_iff.2 hx
  have htarget : target.find? x = none := by
    refine find?_eq_none_iff.2 fun cell hcell hslot => ?_
    rw [h.target_eq_latestAsOf hsound] at hcell
    have hstored : cell ∈ cells engine.store sheet :=
      (List.mem_filter.1 (Recency.mem_of_mem_latest
        ((LawfulStore.ids_ne hsound sheet).filter _) hcell)).1
    rcases Recency.exists_mem_latest hstored with ⟨current, hcurrent, heq⟩
    refine hx current ?_ (heq.trans hslot)
    rw [h.before_eq_currentCells hsound]
    exact hcurrent
  rw [contentsAt, contentsAt, hbefore, htarget]
  exact ⟨rfl, rfl⟩

/-- There is a row exactly where the texts differ. -/
theorem exists_mem_iff (x : Slot) :
    (∃ row ∈ rows, row.slot = x) ↔ before.contentsAt x ≠ target.contentsAt x := by
  constructor
  · rintro ⟨row, hrow, rfl⟩
    rcases (h.of_mem hrow).2 with ⟨cell, hcell, hslot, hne⟩
    rw [← hslot] at hne ⊢
    rw [(h.orderly_before hsound).contentsAt_eq hcell]
    exact hne
  · intro hne
    by_cases hx : ∃ cell ∈ before, cell.slot = x
    · rcases hx with ⟨cell, hcell, rfl⟩
      rw [(h.orderly_before hsound).contentsAt_eq hcell] at hne
      exact h.exists_mem hcell hne
    · push Not at hx
      rcases h.contentsAt_of_not_mem hsound hx with ⟨hbefore, htarget⟩
      exact absurd (hbefore.trans htarget.symm) hne

/-- A row is never as old as the version: all that is stored would be, too, and the snapshot as of
the version would be the current one. -/
theorem lt_version (hstamp : ∀ row ∈ rows, ∀ c ∈ cells engine.store sheet,
    c.version ≤ row.version) {row : Cell} (hrow : row ∈ rows) : version < row.version := by
  refine Nat.lt_of_not_le fun hle => ?_
  have hall : (cells engine.store sheet).filter (·.version ≤ version) =
      cells engine.store sheet := by
    rw [List.filter_eq_self]
    intro c hc
    exact decide_eq_true (Nat.le_trans (hstamp row hrow c hc) hle)
  have hsame : target = before := by
    rw [h.target_eq_latestAsOf hsound, h.before_eq_currentCells hsound, Recency.latestAsOf, hall]
    rfl
  exact (h.exists_mem_iff hsound row.slot).1 ⟨row, hrow, rfl⟩ (hsame ▸ rfl)

/-! ## What is current afterwards -/

variable (happends : Appends engine.store later.store rows)
  (hstamp : ∀ row ∈ rows, ∀ c ∈ cells engine.store sheet, c.version ≤ row.version)

include happends

omit hsound in
theorem cells_eq : cells later.store sheet = cells engine.store sheet ++ rows :=
  happends.cells_eq fun row hrow => (h.stamped row hrow).1

/-- Slots without a new row hold what they held. -/
theorem find?_of_forall_ne {x : Slot} (hx : ∀ row ∈ rows, row.slot ≠ x) :
    (later.currentCells sheet).find? x = before.find? x := by
  rw [h.before_eq_currentCells hsound]
  refine Recency.find?_latest_congr (LawfulStore.ids_ne happends.sound sheet)
    (LawfulStore.ids_ne hsound sheet) ?_
  have hnone : rows.filter (·.slot = x) = [] := by
    rw [List.filter_eq_nil_iff]
    intro row hrow hslot
    exact hx row hrow (of_decide_eq_true hslot)
  rw [h.cells_eq happends, List.filter_append, hnone, List.append_nil]

include hstamp

/-- The new rows are the current ones of their slots. -/
theorem find?_of_mem {row : Cell} (hrow : row ∈ rows) :
    (later.currentCells sheet).find? row.slot = some row := by
  have hcells := h.cells_eq happends
  refine Recency.find?_latest_of_forall_le (LawfulStore.ids_ne happends.sound sheet) ?_ ?_
  · rw [hcells]
    exact List.mem_append_right _ hrow
  · intro other hother hslot
    rw [hcells] at hother
    rcases List.mem_append.1 hother with hold | hnew
    · have hid := LawfulStore.cell_id_le hsound hold
      have hlast := happends.lastId_lt hrow
      exact ⟨hstamp row hrow other hold, by omega⟩
    · -- of the new rows there is one for each slot
      have hsame : other = row :=
        List.inj_on_of_nodup_map (List.pairwise_map.2 (h.single hsound)) hnew hrow hslot
      rw [hsame]
      exact ⟨Nat.le_refl _, Nat.le_refl _⟩

theorem restores :
    Restores engine later now sheet rows target before (later.currentCells sheet) := by
  have hbefore := h.orderly_before hsound
  have hafter : (later.currentCells sheet).Orderly :=
    Recency.orderly_latest (LawfulStore.ids_ne happends.sound sheet)
  have hcurrent : ∀ row ∈ rows, (later.currentCells sheet).find? row.slot = some row :=
    fun row hrow => h.find?_of_mem hsound happends hstamp hrow
  have hkept : ∀ {x : Slot}, (¬ ∃ row ∈ rows, row.slot = x) →
      (later.currentCells sheet).find? x = before.find? x := by
    intro x hx
    exact h.find?_of_forall_ne hsound happends fun row hrow hslot => hx ⟨row, hrow, hslot⟩
  refine ⟨snapshot_of_appends hsound happends h.before_eq, ?_, ?_, happends, h.single hsound,
    h.exists_mem_iff hsound, h.stamped, hcurrent, ?_⟩
  · intro cell hcell
    have hfind := hafter.find?_eq_some_iff.2 ⟨hcell, rfl⟩
    by_cases hx : ∃ row ∈ rows, row.slot = cell.slot
    · rcases hx with ⟨row, hrow, hslot⟩
      rw [← hslot, hcurrent row hrow] at hfind
      cases hfind
      exact (h.of_mem hrow).1
    -- without a new row the texts have not changed, so they did not differ
    · rw [hkept hx] at hfind
      have hsame := (not_congr (h.exists_mem_iff hsound cell.slot)).1 hx
      rw [← contentsAt_of_find? hfind]
      exact not_not.1 hsame
  · intro x
    by_cases hx : ∃ row ∈ rows, row.slot = x
    · rcases hx with ⟨row, hrow, rfl⟩
      rcases (h.of_mem hrow).2 with ⟨cell, hcell, hslot, -⟩
      have hfind := hcurrent row hrow
      exact iff_of_true ⟨row, mem_of_find? hfind, rfl⟩ ⟨cell, hcell, hslot⟩
    · have hsome : ∀ {snapshot : Snapshot}, (∃ cell ∈ snapshot, cell.slot = x) ↔
          snapshot.find? x ≠ none := by
        intro snapshot
        rw [Ne, find?_eq_none_iff]
        push Not
        rfl
      rw [hsome, hsome, hkept hx]
  · intro other hne
    exact sameSheet_of_appends happends (fun row hrow => (h.stamped row hrow).1) hne

/-- As of the version nothing has changed, so there is nothing left to revert. -/
theorem revertPlan_eq_nil : later.revertPlan sheet version = .ok [] := by
  have htarget : later.snapshotAt sheet version = .ok target := by
    rw [snapshotAt_of_appends hsound happends h.target_eq, h.target_eq_latestAsOf hsound,
      h.cells_eq happends, Recency.latestAsOf, Recency.latestAsOf,
      List.filter_append]
    have hnone : rows.filter (·.version ≤ version) = [] := by
      rw [List.filter_eq_nil_iff]
      intro row hrow hle
      exact absurd (of_decide_eq_true hle) (Nat.not_le.2 (h.lt_version hsound hstamp hrow))
    rw [hnone, List.append_nil]
  have hrestores := h.restores hsound happends hstamp
  have hnil : (later.currentCells sheet).changesTo target = [] :=
    changesTo_eq_nil_iff.2 hrestores.texts
  simp only [revertPlan, htarget, hrestores.after_eq, hnil, bind, Except.bind]
  rfl

end LeadsBack

/-! ## Reverts restore -/

/-- A revert restores the texts as of the version, by one row for each slot that differs, and
leaves nothing for a second revert to do, at whatever time that is called. -/
theorem revert_restores (hsound : Sound engine.store)
    (h : revert now sheet version engine = .ok rows later)
    (hstamp : ∀ row ∈ rows, ∀ c ∈ cells engine.store sheet, c.version ≤ row.version) :
    (∃ target before after, engine.snapshotAt sheet version = .ok target ∧
      engine.snapshot sheet = .ok before ∧
      Restores engine later now sheet rows target before after) ∧
      ∀ again, revert again sheet version later = .ok [] later := by
  rcases revert_cases hsound now sheet version with
    ⟨cause, _, hrevert, -⟩ | ⟨found, _, hrevert, hreverted⟩
  · rw [hrevert] at h
    cases h
  · rw [hrevert] at h
    cases h
    rcases hreverted.leadsBack with ⟨target, before, hleads⟩
    refine ⟨⟨target, before, _, hleads.target_eq, hleads.before_eq,
      hleads.restores hsound hreverted.appends hstamp⟩, ?_⟩
    intro again
    exact revert_of_nil (hleads.revertPlan_eq_nil hsound hreverted.appends hstamp)

/-- A table whose rows were not stored in the order of their versions. Its first cell has changed
since version 2, its second one did not exist then, and something else has written a negative
version. -/
def disordered : Engine TableStore where
  store := {
    rows := [⟨1, "1", 0, 0, "2", "2", 5⟩, ⟨2, "1", 0, 0, "1", "1", 2⟩,
      ⟨3, "1", 1, 0, "=A1", "2", 5⟩, ⟨4, "1", 0, 0, "x", "x", -1⟩, ⟨5, "2", 0, 0, "9", "9", 7⟩]
    lastId := 5 }
  directory := { sheets := [⟨"1", "One", 10, 5⟩] }
  clock := .wall
  settings := {}

theorem sound_disordered : Sound disordered.store := by
  constructor <;> decide

/-- The stamp is the newest version stored, so the rows are current by their ids. -/
theorem revert_restores_disordered :
    Sound disordered.store ∧ ∃ later,
      revert 5 "1" 2 disordered =
        .ok [⟨6, "1", ⟨0, 0⟩, "1", "1", 5⟩, ⟨7, "1", ⟨1, 0⟩, "", "", 5⟩] later ∧
      (∀ row ∈ ([⟨6, "1", ⟨0, 0⟩, "1", "1", 5⟩, ⟨7, "1", ⟨1, 0⟩, "", "", 5⟩] : List Cell),
        ∀ c ∈ cells disordered.store "1", c.version ≤ row.version) ∧
      (∃ target before after, disordered.snapshotAt "1" 2 = .ok target ∧
        disordered.snapshot "1" = .ok before ∧
        Restores disordered later 5 "1"
          [⟨6, "1", ⟨0, 0⟩, "1", "1", 5⟩, ⟨7, "1", ⟨1, 0⟩, "", "", 5⟩] target before after) ∧
      ∀ again, revert again "1" 2 later = .ok [] later := by
  have hplan : disordered.revertPlan "1" 2 = .ok [(⟨0, 0⟩, ⟨"1", "1"⟩), (⟨1, 0⟩, {})] := by cbv
  have hfits : ∀ row ∈ disordered.restored 5 "1" [(⟨0, 0⟩, ⟨"1", "1"⟩), (⟨1, 0⟩, {})],
      Fits TableStore row := by decide
  rcases revert_of_fits sound_disordered hplan (by simp) hfits with ⟨later, hrevert, -⟩
  have hstamp : ∀ row ∈ ([⟨6, "1", ⟨0, 0⟩, "1", "1", 5⟩, ⟨7, "1", ⟨1, 0⟩, "", "", 5⟩] : List Cell),
      ∀ c ∈ cells disordered.store "1", c.version ≤ row.version := by decide
  exact ⟨sound_disordered, _, hrevert, hstamp, revert_restores sound_disordered hrevert hstamp⟩

end Engine

end SheetLedger
