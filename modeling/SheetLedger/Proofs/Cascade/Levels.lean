import Mathlib.Data.List.Basic
import Mathlib.Logic.Function.Iterate
import SheetLedger.Engine.Cascade
import SheetLedger.Proofs.Chain
import SheetLedger.Proofs.Store.Lawful

/-!
# The cascade, level by level

The queue of a cascade holds what is left of one level and, after it, the work of the next one. So
the rows that a cascade writes are the rows of its levels, one after the other, and each level is
made from the rows of the one above. This module says which rows these are under consecutive ids
(`Cascade.level`). A cascade over a lawful store writes exactly them (`Cascade.propagate_eq`): on
the way no dependent is without a value and no row is refused.

The invariant behind this is `Pending.Ready`: the snapshot of every entry of the queue holds the
same raw texts as the snapshot that the cascade started from, and a cell at the changed slot.
-/

namespace SheetLedger

/-! ## Rows of a level -/

/-- The row that a cell is stored as when its formula is computed anew. -/
def Cell.renewed (cell : Cell) (id version : Nat) (snapshot : Snapshot) : Cell :=
  { cell with id := id, computed := cell.formula.value snapshot, version := version }

/-- A row written by a cascade, with the entry of the queue that it is written for. -/
structure Visit where
  entry : Pending
  row : Cell

/-- The work that follows from a visit. -/
def Visit.follow (visit : Visit) : Pending := visit.entry.follow visit.row

namespace Cascade

/-- The visits to some dependents of an entry, under the ids that follow the one given last. -/
def visitAll (version : Nat) (entry : Pending) (lastId : Nat) : List Cell → List Visit
  | [] => []
  | dependent :: rest =>
    ⟨entry, dependent.renewed (lastId + 1) version entry.snapshot⟩ ::
      visitAll version entry (lastId + 1) rest

/-- The visits to all dependents of some entries. -/
def sweep (version lastId : Nat) : List Pending → List Visit
  | [] => []
  | entry :: rest =>
    let visits := visitAll version entry lastId (entry.snapshot.dependents entry.changed)
    visits ++ sweep version (lastId + visits.length) rest

/-- The work of a level, and the id given last before it. -/
structure Frontier where
  lastId : Nat
  entries : List Pending

/-- The work of the level below. -/
def Frontier.next (version : Nat) (frontier : Frontier) : Frontier :=
  let visits := sweep version frontier.lastId frontier.entries
  { lastId := frontier.lastId + visits.length, entries := visits.map Visit.follow }

/-- The visits of a level, counted from zero. -/
def level (version : Nat) (start : Frontier) (k : Nat) : List Visit :=
  let frontier := (Frontier.next version)^[k] start
  sweep version frontier.lastId frontier.entries

/-- The visits of a number of levels. -/
def visits (version : Nat) (start : Frontier) (depth : Nat) : List Visit :=
  (List.range depth).flatMap (level version start)

/-- The rows of a number of levels. -/
def rows (version : Nat) (start : Frontier) (depth : Nat) : List Cell :=
  (visits version start depth).map (·.row)

/-- The work that a cascade starts with. -/
def start (depth lastId : Nat) (changed : Slot) (snapshot : Snapshot) : Frontier where
  lastId := lastId
  entries := [{ changed := changed, snapshot := snapshot, levels := depth }]

variable {version lastId : Nat} {entry : Pending} {visit : Visit}

theorem ids_visitAll (dependents : List Cell) :
    (visitAll version entry lastId dependents).map (·.row.id) =
      List.range' (lastId + 1) dependents.length := by
  induction dependents generalizing lastId with
  | nil => rfl
  | cons dependent rest ih =>
    simp only [visitAll, List.map_cons, List.length_cons, List.range'_succ, ih]
    rfl

theorem length_visitAll (dependents : List Cell) :
    (visitAll version entry lastId dependents).length = dependents.length := by
  have h : ((visitAll version entry lastId dependents).map (·.row.id)).length =
      (List.range' (lastId + 1) dependents.length).length :=
    congrArg List.length (ids_visitAll dependents)
  simpa using h

theorem mem_visitAll {dependents : List Cell}
    (h : visit ∈ visitAll version entry lastId dependents) :
    visit.entry = entry ∧ ∃ dependent ∈ dependents,
      visit.row = dependent.renewed visit.row.id version entry.snapshot := by
  induction dependents generalizing lastId with
  | nil => cases h
  | cons dependent rest ih =>
    rcases List.mem_cons.1 h with rfl | hmem
    · exact ⟨rfl, dependent, List.mem_cons_self, rfl⟩
    · rcases ih hmem with ⟨hentry, d, hd, hrow⟩
      exact ⟨hentry, d, List.mem_cons_of_mem _ hd, hrow⟩

theorem slots_visitAll (dependents : List Cell) :
    (visitAll version entry lastId dependents).map (·.row.slot) = dependents.map (·.slot) := by
  induction dependents generalizing lastId with
  | nil => rfl
  | cons dependent rest ih =>
    simp only [visitAll, List.map_cons, ih]
    rfl

theorem sweep_append (a b : List Pending) :
    sweep version lastId (a ++ b) =
      sweep version lastId a ++ sweep version (lastId + (sweep version lastId a).length) b := by
  induction a generalizing lastId with
  | nil => rfl
  | cons entry rest ih =>
    simp only [List.cons_append, sweep, ih, List.length_append, List.append_assoc, Nat.add_assoc]

theorem ids_sweep (entries : List Pending) :
    (sweep version lastId entries).map (·.row.id) =
      List.range' (lastId + 1) (sweep version lastId entries).length := by
  induction entries generalizing lastId with
  | nil => rfl
  | cons entry rest ih =>
    rw [sweep, List.map_append, ih, ids_visitAll, List.length_append, ← List.range'_append_1,
      length_visitAll, Nat.add_right_comm]

/-- The rows of a level have ids above the one given last. -/
theorem id_of_mem_sweep {entries : List Pending} (h : visit ∈ sweep version lastId entries) :
    lastId < visit.row.id ∧ visit.row.id ≤ lastId + (sweep version lastId entries).length := by
  have hid : visit.row.id ∈ (sweep version lastId entries).map (·.row.id) :=
    List.mem_map_of_mem h
  rw [ids_sweep, List.mem_range'_1] at hid
  omega

/-- Every row is a dependent of its entry, computed anew. -/
theorem mem_sweep {entries : List Pending} (h : visit ∈ sweep version lastId entries) :
    visit.entry ∈ entries ∧
      ∃ dependent ∈ visit.entry.snapshot.dependents visit.entry.changed,
        visit.row = dependent.renewed visit.row.id version visit.entry.snapshot := by
  induction entries generalizing lastId with
  | nil => cases h
  | cons entry rest ih =>
    rcases List.mem_append.1 h with hmem | hmem
    · rcases mem_visitAll hmem with ⟨rfl, hrow⟩
      exact ⟨List.mem_cons_self, hrow⟩
    · rcases ih hmem with ⟨hentry, hrow⟩
      exact ⟨List.mem_cons_of_mem _ hentry, hrow⟩

/-- Every dependent of an entry gains a row for it. -/
theorem exists_mem_sweep {entries : List Pending} (h : entry ∈ entries) {dependent : Cell}
    (hdep : dependent ∈ entry.snapshot.dependents entry.changed) :
    ∃ visit ∈ sweep version lastId entries,
      visit.entry = entry ∧ visit.row.slot = dependent.slot := by
  induction entries generalizing lastId with
  | nil => cases h
  | cons first rest ih =>
    rcases List.mem_cons.1 h with rfl | hmem
    -- the visits to an entry's dependents stand at their slots, in order
    · have hslot : dependent.slot ∈ (visitAll version entry lastId
          (entry.snapshot.dependents entry.changed)).map (·.row.slot) := by
        rw [slots_visitAll]
        exact List.mem_map_of_mem hdep
      rcases List.mem_map.1 hslot with ⟨visit, hvisit, heq⟩
      exact ⟨visit, List.mem_append_left _ hvisit, (mem_visitAll hvisit).1, heq⟩
    · rcases ih hmem with ⟨visit, hvisit, hentry⟩
      exact ⟨visit, List.mem_append_right _ hvisit, hentry⟩

end Cascade

/-! ## What holds of all work -/

/-- The snapshot of an entry holds the raw texts of the snapshot that the cascade started from, all
of one spreadsheet, and a cell at the changed slot. -/
structure Pending.Ready (base : Snapshot) (sheet : String) (lastId : Nat) (entry : Pending) :
    Prop where
  orderly : entry.snapshot.Orderly
  id_le : ∀ cell ∈ entry.snapshot, cell.id ≤ lastId
  sheet_eq : ∀ cell ∈ entry.snapshot, cell.sheet = sheet
  texts : base.SameTexts entry.snapshot
  stands : ∃ cell ∈ entry.snapshot, cell.slot = entry.changed

/-- The cells of a ready entry have the raw texts that the first snapshot has at their slots. -/
theorem Pending.Ready.raw_eq {base : Snapshot} {sheet : String} {lastId : Nat} {entry : Pending}
    (h : entry.Ready base sheet lastId) {cell : Cell} (hmem : cell ∈ entry.snapshot) :
    (base.find? cell.slot).map (·.raw) = some cell.raw := by
  rw [h.texts, h.orderly.find?_eq_some_iff.2 ⟨hmem, rfl⟩]
  rfl

/-- All entries of a frontier are ready. -/
def Cascade.Frontier.Ready (base : Snapshot) (sheet : String) (frontier : Cascade.Frontier) :
    Prop :=
  ∀ entry ∈ frontier.entries, entry.Ready base sheet frontier.lastId

namespace Cascade

variable {base snapshot : Snapshot} {sheet : String} {version lastId bound depth k : Nat}
  {changed : Slot} {visit : Visit} {frontier : Frontier} {dependent : Cell}

/-- The row written for a ready entry leaves ready work. -/
theorem ready_follow (h : visit.entry.Ready base sheet lastId)
    (hmem : dependent ∈ visit.entry.snapshot)
    (hrow : visit.row = dependent.renewed visit.row.id version visit.entry.snapshot)
    (hlt : lastId < visit.row.id) (hle : visit.row.id ≤ bound) :
    visit.follow.Ready base sheet bound := by
  -- the row stands where the dependent stood, in the same spreadsheet and with its raw text, so
  -- only the ids and the computed text of that slot are new
  have hslot : visit.row.slot = dependent.slot := by
    rw [hrow]
    rfl
  have hin : ∀ {cell : Cell}, cell ∈ visit.follow.snapshot →
      cell ∈ visit.entry.snapshot ∨ cell = visit.row := by
    intro cell hcell
    rcases Snapshot.mem_replace.1 hcell with ⟨hold, -⟩ | hnew
    · exact Or.inl hold
    · exact Or.inr hnew
  constructor
  · exact h.orderly.replace fun cell hcell => Nat.lt_of_le_of_lt (h.id_le cell hcell) hlt
  · intro cell hcell
    rcases hin hcell with hold | rfl
    · exact Nat.le_trans (h.id_le cell hold) (Nat.le_trans (Nat.le_of_lt hlt) hle)
    · exact hle
  · intro cell hcell
    rcases hin hcell with hold | rfl
    · exact h.sheet_eq cell hold
    · rw [hrow]
      exact h.sheet_eq dependent hmem
  · have hfind : visit.entry.snapshot.find? visit.row.slot = some dependent :=
      h.orderly.find?_eq_some_iff.2 ⟨hmem, hslot.symm⟩
    refine h.texts.replace hfind ?_
    rw [hrow]
    rfl
  · exact ⟨visit.row, Snapshot.mem_replace.2 (Or.inr rfl), rfl⟩

/-- The work of the level below is ready. -/
theorem Frontier.Ready.next (h : frontier.Ready base sheet) (version : Nat) :
    (frontier.next version).Ready base sheet := by
  intro entry hentry
  rcases List.mem_map.1 hentry with ⟨visit, hvisit, rfl⟩
  rcases mem_sweep hvisit with ⟨hin, dependent, hdep, hrow⟩
  rcases id_of_mem_sweep hvisit with ⟨hlt, hle⟩
  exact ready_follow (h _ hin) (Snapshot.mem_dependents.1 hdep).1 hrow hlt hle

theorem Frontier.Ready.iterate (h : frontier.Ready base sheet) (version k : Nat) :
    ((Frontier.next version)^[k] frontier).Ready base sheet := by
  induction k with
  | zero => exact h
  | succ k ih =>
    rw [Function.iterate_succ_apply']
    exact ih.next version

theorem ready_start (horderly : snapshot.Orderly) (hid : ∀ cell ∈ snapshot, cell.id ≤ lastId)
    (hsheet : ∀ cell ∈ snapshot, cell.sheet = sheet)
    (hstands : ∃ cell ∈ snapshot, cell.slot = changed) :
    (start depth lastId changed snapshot).Ready snapshot sheet := by
  intro entry hentry
  rw [List.mem_singleton.1 hentry]
  exact ⟨horderly, hid, hsheet, .refl snapshot, hstands⟩

/-- What is known of a row of a level. -/
theorem mem_level {start : Frontier} (hready : start.Ready base sheet)
    (h : visit ∈ level version start k) :
    ∃ dependent ∈ visit.entry.snapshot.dependents visit.entry.changed,
      visit.row = dependent.renewed visit.row.id version visit.entry.snapshot ∧
        visit.entry.Ready base sheet ((Frontier.next version)^[k] start).lastId := by
  rcases mem_sweep h with ⟨hentry, dependent, hdep, hrow⟩
  exact ⟨dependent, hdep, hrow, hready.iterate version k _ hentry⟩

theorem rows_succ (version : Nat) (frontier : Frontier) (depth : Nat) :
    rows version frontier (depth + 1) =
      (sweep version frontier.lastId frontier.entries).map (·.row) ++
        rows version (frontier.next version) depth := by
  simp only [rows, visits, List.range_succ_eq_map, List.flatMap_cons, List.map_append,
    List.flatMap_map]
  rfl

theorem mem_visits {start : Frontier} :
    visit ∈ visits version start depth ↔ ∃ k < depth, visit ∈ level version start k := by
  simp [visits]

theorem mem_rows {start : Frontier} {row : Cell} :
    row ∈ rows version start depth ↔
      ∃ k < depth, ∃ visit ∈ level version start k, visit.row = row := by
  simp only [rows, List.mem_map, mem_visits]
  constructor
  · rintro ⟨visit, ⟨k, hk, hvisit⟩, hrow⟩
    exact ⟨k, hk, visit, hvisit, hrow⟩
  · rintro ⟨k, hk, visit, hvisit, hrow⟩
    exact ⟨visit, ⟨k, hk, hvisit⟩, hrow⟩

/-- Every row of a cascade has its version and spreadsheet, and the raw text that the first snapshot
has at its slot. -/
theorem texts_of_mem_rows {start : Frontier} {row : Cell} (hready : start.Ready base sheet)
    (h : row ∈ rows version start depth) :
    row.sheet = sheet ∧ row.version = version ∧
      (base.find? row.slot).map (·.raw) = some row.raw := by
  rcases mem_rows.1 h with ⟨k, -, visit, hvisit, rfl⟩
  rcases mem_level hready hvisit with ⟨dependent, hdep, hrow, hentry⟩
  have hmem := (Snapshot.mem_dependents.1 hdep).1
  have hraw : (base.find? dependent.slot).map (·.raw) = some dependent.raw := hentry.raw_eq hmem
  rw [hrow]
  exact ⟨hentry.sheet_eq dependent hmem, rfl, hraw⟩

end Cascade

end SheetLedger
