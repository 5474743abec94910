import SheetLedger.Proofs.Edit.Outcome
import SheetLedger.Proofs.Store.Faults

/-!
# What an edit touches

The *cone* of an edit holds its slot and the slots that chains of dependents no longer than the
cascade lead to. An edit adds rows at exactly these slots, all of its spreadsheet and under its
stamp, and what any read answers about another spreadsheet, or about a slot outside the cone, stays
the same (`Engine.edit_touchesCone`), with one exception.

As of an earlier version there may be slots none of whose rows holds a cell, and then nothing of the
spreadsheet can be read. If such a slot lies in the cone of an edit whose stamp is not above that
version, the edit brings it a row that holds a cell. So the snapshot that failed may be read from
then on, the other slots included (`Engine.snapshotAt_ne_buried`). Then these show what was stored
there before.
-/

namespace SheetLedger.Engine

open JournaledStore

variable {σ : Type} [CellStore σ]

/-! ## Reads that stay the same -/

/-- No read of a spreadsheet has another answer. -/
structure SameSheet (engine later : Engine σ) (sheet : String) : Prop where
  snapshot : later.snapshot sheet = engine.snapshot sheet
  snapshotAt : ∀ version, later.snapshotAt sheet version = engine.snapshotAt sheet version
  versions : later.versions sheet = engine.versions sheet
  current : ∀ x, later.current? sheet x = engine.current? sheet x
  history : ∀ x, later.history sheet x = engine.history sheet x

variable [LawfulStore σ] {engine later : Engine σ} {rows : List Cell} {sheet : String}

/-- No read of a spreadsheet has another answer about a slot, as of any version that is not
uncovered. As of the others, what is read there afterwards has been stored before. -/
structure SameSlot (engine later : Engine σ) (sheet : String) (x : Slot) (uncovered : Nat → Prop) :
    Prop where
  current : later.current? sheet x = engine.current? sheet x
  history : later.history sheet x = engine.history sheet x
  snapshot : (later.snapshot sheet).map (·.find? x) = (engine.snapshot sheet).map (·.find? x)
  snapshotAt : ∀ version, ¬ uncovered version →
    (later.snapshotAt sheet version).map (·.find? x) =
      (engine.snapshotAt sheet version).map (·.find? x)
  stored : ∀ version after, later.snapshotAt sheet version = .ok after →
    after.find? x = (Recency.latestAsOf (cells engine.store sheet) version).find? x

/-- Rows of one spreadsheet leave all reads of another one as they were. -/
theorem sameSheet_of_appends {other : String} (h : Appends engine.store later.store rows)
    (hsheet : ∀ row ∈ rows, row.sheet = sheet) (hne : other ≠ sheet) :
    SameSheet engine later other := by
  have hjournal := h.journal_of_ne hsheet hne
  rcases LawfulStore.sheet_reads_congr hjournal with ⟨hsnapshot, hat, hversions⟩
  have hslot : ∀ x,
      CellStore.current? later.store other x = CellStore.current? engine.store other x ∧
      CellStore.history later.store other x = CellStore.history engine.store other x := fun x =>
    LawfulStore.slot_reads_congr (congrArg (Journal.rowsAt · x) hjournal)
  constructor
  · simp only [snapshot, ask, hsnapshot]
  · intro version
    simp only [snapshotAt, ask, hat]
  · simp only [versions, ask, hversions]
  · intro x
    simp only [current?, ask, (hslot x).1]
  · intro x
    simp only [history, ask, (hslot x).2]

/-- The cells at a slot stay the same, as of any version, if no row is appended there. -/
theorem filter_cells_of_forall_ne {x : Slot} (h : Appends engine.store later.store rows)
    (hsheet : ∀ row ∈ rows, row.sheet = sheet) (hx : ∀ row ∈ rows, row.slot ≠ x)
    (p : Cell → Bool) :
    ((cells later.store sheet).filter p).filter (·.slot = x) =
      ((cells engine.store sheet).filter p).filter (·.slot = x) := by
  have hnone : (rows.filter p).filter (·.slot = x) = [] := by
    rw [List.filter_eq_nil_iff]
    intro row hrow hslot
    exact hx row (List.mem_filter.1 hrow).1 (of_decide_eq_true hslot)
  rw [h.cells_eq hsheet, List.filter_append, List.filter_append, hnone, List.append_nil]

section Reporting

variable {σ : Type} [CellStore σ] [ReportingStore σ] {engine later : Engine σ}

/-- A snapshot that fails goes on to fail with the same complaint, if no row is appended where no
cell was to be read. -/
theorem snapshotAt_eq_error_of_appends (hsound : Sound engine.store)
    (h : Appends engine.store later.store rows) {version : Nat} {cause : EngineError}
    (hcovered : ∀ row ∈ rows, row.version ≤ version →
      (((journal engine.store sheet).asOf version).rowsAt row.slot).Readable)
    (hread : engine.snapshotAt sheet version = .error cause) :
    later.snapshotAt sheet version = .error cause := by
  rcases ask_eq_error_iff.1 hread with ⟨complaint, hfails, rfl⟩
  refine ask_eq_error_iff.2 ⟨complaint, ?_, rfl⟩
  rw [ReportingStore.snapshotAt_eq_error_iff hsound] at hfails
  rw [ReportingStore.snapshotAt_eq_error_iff h.sound, h.journal_eq, Journal.asOf_append,
    Journal.complains_append]
  · exact hfails
  · intro row hrow
    rcases List.mem_filter.1 hrow with ⟨hmem, hle⟩
    exact hcovered row (List.mem_of_mem_filter hmem) (of_decide_eq_true hle)

/-- Rows of other slots leave the reads of a slot as they were, as of any version for which no row is
appended where no cell was to be read. -/
theorem sameSlot_of_appends {x : Slot} {uncovered : Nat → Prop} (hsound : Sound engine.store)
    (hreadable : (journal engine.store sheet).Readable)
    (h : Appends engine.store later.store rows) (hsheet : ∀ row ∈ rows, row.sheet = sheet)
    (hx : ∀ row ∈ rows, row.slot ≠ x)
    (hcovered : ∀ version, ¬ uncovered version → ∀ row ∈ rows, row.version ≤ version →
      (((journal engine.store sheet).asOf version).rowsAt row.slot).Readable) :
    SameSlot engine later sheet x uncovered := by
  rcases LawfulStore.slot_reads_congr (h.rowsAt_of_forall_ne sheet hx) with ⟨hcurrent, hhistory⟩
  -- as of any version the rows of the slot are the same ones, and so is the current one
  have hids := fun p : Cell → Bool => (LawfulStore.ids_ne hsound sheet).filter p
  have hids' := fun p : Cell → Bool => (LawfulStore.ids_ne h.sound sheet).filter p
  have hfind := fun p : Cell → Bool => Recency.find?_latest_congr (hids' p) (hids p)
    (filter_cells_of_forall_ne h hsheet hx p)
  constructor
  · simp only [current?, ask, hcurrent]
  · simp only [history, ask, hhistory]
  · have hafter : (journal later.store sheet).Readable := by
      rw [h.journal_eq]
      exact hreadable.append _
    have hbefore := (snapshot_eq_ok_iff hsound).2 ⟨hreadable, rfl⟩
    have hlater := (snapshot_eq_ok_iff h.sound).2 ⟨hafter, rfl⟩
    have hsame := hfind fun _ => true
    simp only [List.filter_true] at hsame
    rw [hbefore, hlater]
    exact congrArg Except.ok hsame
  · intro version hversion
    cases hread : engine.snapshotAt sheet version with
    | ok before =>
      rcases (snapshotAt_eq_ok_iff hsound).1 hread with ⟨hasOf, rfl⟩
      have hafter : ((journal later.store sheet).asOf version).Readable := by
        rw [h.journal_eq, Journal.asOf_append]
        exact hasOf.append _
      rw [(snapshotAt_eq_ok_iff h.sound).2 ⟨hafter, rfl⟩]
      exact congrArg Except.ok (hfind fun cell => cell.version ≤ version)
    | error cause =>
      rw [snapshotAt_eq_error_of_appends hsound h (hcovered version hversion) hread]
  · intro version after hread
    rw [((snapshotAt_eq_ok_iff h.sound).1 hread).2]
    exact hfind fun cell => cell.version ≤ version

end Reporting

/-! ## The cone -/

/-- The slots that an edit rewrites. -/
def InCone (engine : Engine σ) (cell : Cell) (x : Slot) : Prop :=
  x = cell.slot ∨
    (engine.baseline cell).ReachesWithin engine.settings.cascadeDepth cell.slot x

/-- An edit uncovers a version that is not below its stamp if it rewrites a slot of which there are
rows up to that version, but none that holds a cell. -/
def Uncovers (engine : Engine σ) (cell : Cell) (version : Nat) : Prop :=
  cell.version ≤ version ∧ ∃ y, engine.InCone cell y ∧
    ¬ (((journal engine.store cell.sheet).asOf version).rowsAt y).Readable

/-- The rows of an edit stand at the slots of its cone, all of its spreadsheet and with its stamp,
and those of the cascade have the raw texts that were there. Nothing else is to be seen, except as
of versions that could not be read at all. -/
structure TouchesCone (engine : Engine σ) (cell : Cell) (later : Engine σ) : Prop where
  /-- The baseline is what can be read once the cell has been appended. -/
  baseline : ∃ mid, CellStore.insert { cell with id := 0 } engine.store = .ok cell.id mid ∧
    CellStore.snapshot mid cell.sheet none = .ok (engine.baseline cell)
  appends : Appends engine.store later.store (cell :: engine.cascadeRows cell)
  slots : ∀ x, (∃ row ∈ cell :: engine.cascadeRows cell, row.slot = x) ↔ engine.InCone cell x
  stamped : ∀ row ∈ cell :: engine.cascadeRows cell,
    row.sheet = cell.sheet ∧ row.version = cell.version
  texts : ∀ row ∈ engine.cascadeRows cell,
    ((engine.baseline cell).find? row.slot).map (·.raw) = some row.raw
  sheets : ∀ other, other ≠ cell.sheet → SameSheet engine later other
  outside : ∀ x, ¬ engine.InCone cell x → SameSlot engine later cell.sheet x (engine.Uncovers cell)
  uncovered : ∀ version, engine.Uncovers cell version →
    ∃ cause, engine.snapshotAt cell.sheet version = .error cause

variable {now : Nat} {slot : Slot} {raw : String} {cell : Cell}

/-- As of a version that an edit uncovers nothing could be read before. -/
theorem Uncovers.exists_error (hsound : Sound engine.store) {version : Nat}
    (h : engine.Uncovers cell version) :
    ∃ cause, engine.snapshotAt cell.sheet version = .error cause := by
  rcases h with ⟨-, y, -, hunreadable⟩
  cases hread : engine.snapshotAt cell.sheet version with
  | error cause => exact ⟨cause, rfl⟩
  | ok before => exact absurd (((snapshotAt_eq_ok_iff hsound).1 hread).1.rowsAt y) hunreadable

/-- An edit that stores its cell touches its cone and nothing else, but for the snapshots as of
versions that it uncovers. -/
theorem edit_touchesCone {σ : Type} [CellStore σ] [ReportingStore σ] {engine later : Engine σ}
    (hsound : Sound engine.store)
    (h : storedBy (edit now sheet slot raw engine) = some (cell, later)) :
    (cell.sheet = sheet ∧ cell.slot = slot ∧ cell.raw = raw ∧
        cell.version = (engine.clock.next now).1) ∧
      TouchesCone engine cell later := by
  rcases accepted_of_storedBy hsound h with ⟨evaluation, rfl, haccepted⟩
  rcases haccepted.planned with ⟨others, hplanned⟩
  have hreadable := ((LawfulStore.snapshot_eq_ok_iff hsound).1 hplanned.read).1
  rcases haccepted.whole hsound with ⟨happends, hreached⟩
  generalize hcell : engine.edited now sheet slot raw evaluation = cell at *
  have hid : cell.id = lastId engine.store + 1 := by
    rw [← hcell]
    rfl
  have hsheet : cell.sheet = sheet := by
    rw [← hcell]
    rfl
  have hslots : ∀ x, (∃ row ∈ cell :: engine.cascadeRows cell, row.slot = x) ↔
      engine.InCone cell x := by
    intro x
    rw [InCone, ← hreached]
    simp only [List.mem_cons, exists_eq_or_imp, eq_comm (a := x)]
  have hstamped : ∀ row ∈ cell :: engine.cascadeRows cell,
      row.sheet = cell.sheet ∧ row.version = cell.version := by
    intro row hrow
    exact stamped_of_mem hsound hid hrow
  obtain ⟨mid, hinsert, -, hread⟩ :=
    exists_inserted hsound hid (hsheet ▸ hreadable) (hcell ▸ haccepted.fits)
  refine ⟨⟨hsheet, hcell ▸ rfl, hcell ▸ rfl, hcell ▸ rfl⟩, ⟨mid, hinsert, hread⟩, happends, hslots,
    hstamped, ?_, ?_, ?_, fun version hversion => hversion.exists_error hsound⟩
  · intro row hrow
    exact (texts_of_mem_cascadeRows hsound hid hrow).2.2
  · intro other hne
    exact sameSheet_of_appends happends (fun row hrow => (hstamped row hrow).1) hne
  · intro x hx
    refine sameSlot_of_appends hsound (hsheet ▸ hreadable) happends
      (fun row hrow => (hstamped row hrow).1) ?_ ?_
    · intro row hrow hslot
      exact hx ((hslots x).1 ⟨row, hrow, hslot⟩)
    · intro version hversion row hrow hle
      by_contra hunreadable
      have hcone := (hslots row.slot).1 ⟨row, hrow, rfl⟩
      exact hversion ⟨(hstamped row hrow).2 ▸ hle, row.slot, hcone, hunreadable⟩

theorem edit_touchesCone_tampered :
    Sound tampered.store ∧ ∃ cell later,
      storedBy (edit 7 "1" ⟨0, 0⟩ "2" tampered) = some (cell, later) ∧
        (cell.sheet = "1" ∧ cell.slot = ⟨0, 0⟩ ∧ cell.raw = "2" ∧ cell.version = 7) ∧
        TouchesCone tampered cell later := by
  rcases exists_edit_tampered with ⟨cell, later, hedit⟩
  have hstored : storedBy (edit 7 "1" ⟨0, 0⟩ "2" tampered) = some (cell, later) := by
    rw [hedit]
    rfl
  exact ⟨sound_tampered, cell, later, hstored, edit_touchesCone sound_tampered hstored⟩

/-- A table under an engine, in which the first cell has a row under a negative version and only a
late one that holds a cell. -/
def buried : Engine TableStore where
  store := {
    rows := [⟨1, "1", 0, 0, "1", "1", -4⟩, ⟨2, "1", 0, 0, "2", "2", 10⟩,
      ⟨3, "1", 1, 0, "3", "3", 1⟩]
    lastId := 3 }
  directory := tampered.directory
  clock := .wall
  settings := {}

/-- What an edit of the first cell leaves there. -/
def unburied : Engine TableStore :=
  { buried with store := buried.store.append ⟨0, "1", 0, 0, "4", "4", 5⟩ }

/-- Once the first cell has a row under stamp five, the second cell can be read as of this stamp. -/
theorem snapshotAt_ne_buried :
    Sound buried.store ∧ ∃ cell later,
      storedBy (edit 5 "1" ⟨0, 0⟩ "4" buried) = some (cell, later) ∧
        ¬ buried.InCone cell ⟨1, 0⟩ ∧
        buried.snapshotAt "1" 5 = .error (.store (.unreadable (-4) 6)) ∧
        (later.snapshotAt "1" 5).map (·.find? ⟨1, 0⟩) =
          .ok (some ⟨3, "1", ⟨1, 0⟩, "3", "3", 1⟩) := by
  have hsound : Sound buried.store := by constructor <;> decide
  have hbefore : buried.snapshotAt "1" 5 = .error (.store (.unreadable (-4) 6)) := by cbv
  have hrows : buried.cascadeRows ⟨4, "1", ⟨0, 0⟩, "4", "4", 5⟩ = [] := by cbv
  have hstored : storedBy (edit 5 "1" ⟨0, 0⟩ "4" buried) =
      some (⟨4, "1", ⟨0, 0⟩, "4", "4", 5⟩, unburied) := by cbv
  have hafter : unburied.snapshotAt "1" 5 =
      .ok [⟨3, "1", ⟨1, 0⟩, "3", "3", 1⟩, ⟨4, "1", ⟨0, 0⟩, "4", "4", 5⟩] := by cbv
  refine ⟨hsound, _, unburied, hstored, ?_, hbefore, by rw [hafter]; rfl⟩
  rintro (hslot | hreach)
  · revert hslot
    decide
  · rcases (Cascade.exists_mem_rows_iff (orderly_baseline hsound rfl)
      (ready_baseline hsound rfl _)).2 hreach with ⟨row, hrow, -⟩
    have hmem : row ∈ buried.cascadeRows ⟨4, "1", ⟨0, 0⟩, "4", "4", 5⟩ := hrow
    rw [hrows] at hmem
    cases hmem

end SheetLedger.Engine
