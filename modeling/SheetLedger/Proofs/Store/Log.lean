import SheetLedger.Proofs.Store.Lawful
import SheetLedger.Store.Log

/-!
# The log store is lawful

The journal of a spreadsheet is its log. The store holds every number and every row of it holds a
cell, so nothing is ever refused and everything can be read.
-/

namespace SheetLedger

namespace LogStore

/-- Logs whose rows stand where they belong, under increasing ids. -/
structure Sound (store : LogStore) : Prop where
  sheet_eq : ∀ sheet, ∀ row ∈ store.log sheet, row.sheet = sheet
  increasing : ∀ sheet, (store.log sheet).Pairwise fun a b => a.id < b.id
  id_le : ∀ sheet, ∀ row ∈ store.log sheet, row.id ≤ store.lastId

/-- The empty store is sound. -/
theorem sound_empty : Sound {} := by
  constructor <;> intro sheet <;> simp [log]

theorem lookup_appendTo (logs : List (String × List Cell)) (row : Cell) (sheet : String) :
    ((appendTo logs row).lookup sheet).getD [] =
      (logs.lookup sheet).getD [] ++ if row.sheet = sheet then [row] else [] := by
  have hbeq : ∀ {a b : String}, a ≠ b → (a == b) = false := beq_eq_false_iff_ne.2
  -- the row goes to the first log of its name, which is the one that is looked up
  induction logs with
  | nil =>
    unfold appendTo
    by_cases h : row.sheet = sheet
    · simp [h]
    · simp [List.lookup_cons, h, hbeq (Ne.symm h)]
  | cons entry rest ih =>
    rcases entry with ⟨name, log⟩
    unfold appendTo
    by_cases hname : name = row.sheet
    · by_cases hsheet : row.sheet = sheet
      · simp [hname, hsheet]
      · simp [List.lookup_cons, hname, hsheet, hbeq (Ne.symm hsheet)]
    · rw [if_neg hname, List.lookup_cons, List.lookup_cons]
      by_cases hsheet : sheet = name
      · simp [hsheet, Ne.symm hname]
      · simpa only [hbeq hsheet] using ih

/-- A row goes to the end of the log of its spreadsheet. -/
theorem log_insert (store : LogStore) (cell : Cell) (sheet : String) :
    (store.insert cell).2.log sheet =
      store.log sheet ++
        if cell.sheet = sheet then [{ cell with id := store.lastId + 1 }] else [] :=
  lookup_appendTo store.logs { cell with id := store.lastId + 1 } sheet

theorem Sound.insert {store : LogStore} (h : store.Sound) (cell : Cell) :
    (store.insert cell).2.Sound := by
  constructor
  · intro sheet row hrow
    rw [log_insert] at hrow
    rcases List.mem_append.1 hrow with hmem | hmem
    · exact h.sheet_eq sheet row hmem
    · by_cases hsheet : cell.sheet = sheet
      · rw [if_pos hsheet, List.mem_singleton] at hmem
        rw [hmem, ← hsheet]
      · simp [hsheet] at hmem
  · intro sheet
    rw [log_insert]
    refine List.pairwise_append.2 ⟨h.increasing sheet, ?_, ?_⟩
    · by_cases hsheet : cell.sheet = sheet <;> simp [hsheet]
    · intro a ha b hb
      -- the new row has an id above all that were given
      have hid := h.id_le sheet a ha
      by_cases hsheet : cell.sheet = sheet
      · rw [if_pos hsheet, List.mem_singleton] at hb
        rw [hb]
        exact Nat.lt_succ_of_le hid
      · simp [hsheet] at hb
  · intro sheet row hrow
    rw [log_insert] at hrow
    show row.id ≤ store.lastId + 1
    rcases List.mem_append.1 hrow with hmem | hmem
    · exact Nat.le_succ_of_le (h.id_le sheet row hmem)
    · by_cases hsheet : cell.sheet = sheet
      · rw [if_pos hsheet, List.mem_singleton] at hmem
        exact hmem ▸ Nat.le_refl _
      · simp [hsheet] at hmem

instance : JournaledStore LogStore where
  Holds _ := True
  Sound := Sound
  lastId store := store.lastId
  journal store sheet := (store.log sheet).map TableRow.ofCell

open JournaledStore

theorem cells_eq (store : LogStore) (sheet : String) : cells store sheet = store.log sheet :=
  Journal.cells_map_ofCell _

theorem fitsSlot (slot : Slot) : FitsSlot LogStore slot := ⟨trivial, trivial⟩

theorem fits (cell : Cell) : Fits LogStore cell := ⟨fitsSlot cell.slot, trivial⟩

/-- Every journal of the log store can be read. -/
theorem readable (log : List Cell) : Journal.Readable (log.map TableRow.ofCell) := by
  intro row hrow
  rcases List.mem_map.1 hrow with ⟨cell, -, rfl⟩
  exact ⟨cell, hrow, rfl, rfl⟩

theorem appends_insert {store : LogStore} (h : store.Sound) (cell : Cell) :
    Appends store (store.insert cell).2 [{ cell with id := store.lastId + 1 }] where
  sound := h.insert cell
  ids := rfl
  lastId_eq := rfl
  journal_eq sheet := by
    show ((store.insert cell).2.log sheet).map _ = (store.log sheet).map _ ++ _
    rw [log_insert, List.map_append]
    by_cases hsheet : cell.sheet = sheet <;> simp [hsheet]

theorem appends_insertAll {store : LogStore} (h : store.Sound) (rows : List Cell) :
    (store.insertAll rows).1 = List.range' (store.lastId + 1) rows.length ∧
      Appends store (store.insertAll rows).2 (numbered (store.lastId + 1) rows) := by
  induction rows generalizing store with
  | nil => exact ⟨rfl, .nil h⟩
  | cons row rest ih =>
    rcases ih (h.insert row) with ⟨hids, happends⟩
    constructor
    · show _ :: ((store.insert row).2.insertAll rest).1 = _
      rw [hids]
      rfl
    · exact (appends_insert h row).append happends

theorem rowsAt_journal (store : LogStore) (sheet : String) (slot : Slot) :
    (journal store sheet).rowsAt slot = (store.rowsAt sheet slot).map TableRow.ofCell :=
  Journal.rowsAt_map_ofCell (store.log sheet) slot

theorem map_ofCell_injective {a b : List Cell}
    (h : a.map TableRow.ofCell = b.map TableRow.ofCell) : a = b :=
  (List.map_inj_right fun _ _ => TableRow.ofCell_injective).1 h

instance : LawfulStore LogStore where
  sheet_eq h hmem := by
    rcases List.mem_map.1 hmem with ⟨cell, hcell, rfl⟩
    exact h.sheet_eq _ cell hcell
  increasing sheet h := List.pairwise_map.2 (h.increasing sheet)
  id_le h hmem := by
    rcases List.mem_map.1 hmem with ⟨cell, hcell, rfl⟩
    exact h.id_le _ cell hcell
  fits_of_mem _ _ := fits _
  insert_of_fits _ h _ := ⟨_, rfl, appends_insert h _⟩
  insert_of_not_fits _ _ h := absurd (fits _) h
  insertAll_of_fits {store rows} h _ := by
    rcases appends_insertAll h rows with ⟨hids, happends⟩
    exact ⟨_, congrArg (fun ids => EStateM.Result.ok ids (store.insertAll rows).2) hids, happends⟩
  insertAll_of_not_fits _ {_} h := by
    rcases h with ⟨cell, -, hcell⟩
    exact absurd (fits cell) hcell
  snapshot_eq_ok_iff {store sheet excluded snapshot} _ := by
    rw [cells_eq]
    constructor
    · intro h
      exact ⟨readable _, (Except.ok.inj h).symm⟩
    · rintro ⟨-, rfl⟩
      rfl
  snapshotAt_eq_ok_iff {store sheet version snapshot} _ := by
    rw [cells_eq]
    have hreadable : ((journal store sheet).asOf version).Readable := by
      show Journal.Readable (List.filter _ ((store.log sheet).map TableRow.ofCell))
      rw [List.filter_map]
      exact readable _
    constructor
    · intro h
      exact ⟨hreadable, (Except.ok.inj h).symm⟩
    · rintro ⟨-, rfl⟩
      rfl
  sheet_reads_congr {store other sheet} h := by
    have hlog : store.log sheet = other.log sheet := map_ofCell_injective h
    refine ⟨?_, ?_, ?_⟩ <;>
      simp only [CellStore.snapshot, CellStore.snapshotAt, CellStore.versions, versions, hlog]
  slot_reads_congr {store other sheet slot} h := by
    rw [rowsAt_journal, rowsAt_journal] at h
    have hrows := map_ofCell_injective h
    simp only [CellStore.current?, CellStore.history, hrows, and_self]

end LogStore

end SheetLedger
