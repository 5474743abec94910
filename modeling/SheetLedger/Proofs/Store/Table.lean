import Mathlib.Data.List.Basic
import Mathlib.Data.List.Induction
import SheetLedger.Proofs.Store.Lawful

/-!
# The table store is lawful

The journal of a spreadsheet is made of its rows of the table, also of those that hold no cell. Only
numbers up to `tableLimit` are held. What the query for current rows selects are the cells that are
current among those in the journal, unless it selects a row that holds no cell: it does exactly if
no row of that slot holds one (`snapshotAt_eq_ok_iff_readable`), because a row with a negative
version is older than every row that holds a cell.
-/

namespace SheetLedger

namespace TableRow

theorem older_iff {a b : TableRow} :
    a.older b = true ↔ a.version < b.version ∨ a.version = b.version ∧ a.id < b.id := by
  simp [older]

theorem sameSlot_iff {a b : TableRow} :
    a.sameSlot b = true ↔ a.sheet = b.sheet ∧ a.column = b.column ∧ a.row = b.row := by
  simp [sameSlot, and_assoc]

/-- A row without negative numbers holds a cell. -/
theorem exists_eq_ofCell {row : TableRow} (hcolumn : 0 ≤ row.column) (hrow : 0 ≤ row.row)
    (hversion : 0 ≤ row.version) : ∃ cell, row = ofCell cell := by
  rcases Int.eq_ofNat_of_zero_le hcolumn with ⟨column, hc⟩
  rcases Int.eq_ofNat_of_zero_le hrow with ⟨index, hr⟩
  rcases Int.eq_ofNat_of_zero_le hversion with ⟨version, hv⟩
  rcases row with ⟨id, sheet, _, _, raw, computed, _⟩
  subst hc hr hv
  exact ⟨⟨id, sheet, ⟨column, index⟩, raw, computed, version⟩, rfl⟩

/-- Rows read as cells exactly if they are the rows that hold those. -/
theorem mapM_toCell_eq_ok_iff {rows : List TableRow} {cells : List Cell} :
    rows.mapM toCell = .ok cells ↔ rows = cells.map ofCell := by
  induction rows generalizing cells with
  | nil => cases cells <;> simp [pure, Except.pure]
  | cons row rest ih =>
    rw [List.mapM_cons]
    cases hrow : row.toCell with
    | error cause =>
      have hnone : ∀ cell, row ≠ ofCell cell := by
        intro cell heq
        rw [toCell_eq_ok_iff.2 heq] at hrow
        cases hrow
      cases cells <;> simp [bind, Except.bind, hnone]
    | ok cell =>
      rw [toCell_eq_ok_iff] at hrow
      subst hrow
      cases hrest : rest.mapM toCell with
      | error cause =>
        have hnone : ∀ more : List Cell, rest ≠ more.map ofCell := by
          intro more heq
          rw [ih.2 heq] at hrest
          cases hrest
        cases cells <;> simp [bind, Except.bind, hnone]
      | ok more =>
        rw [ih] at hrest
        subst hrest
        have hinj : ∀ {c : Cell}, ofCell cell = ofCell c ↔ cell = c :=
          ⟨ofCell_injective, congrArg ofCell⟩
        cases cells <;> simp [bind, Except.bind, pure, Except.pure, hinj,
          List.map_inj_right fun _ _ => ofCell_injective]

end TableRow

namespace TableStore

/-! ## The newest row -/

theorem newest?_concat (rows : List TableRow) (row : TableRow) :
    newest? (rows ++ [row]) =
      match newest? rows with
      | some kept => if row.older kept then some kept else some row
      | none => some row :=
  List.foldl_concat _ none row rows

/-- Where there are rows, one is the newest. -/
theorem exists_newest? {rows : List TableRow} {row : TableRow} (h : row ∈ rows) :
    ∃ newest, newest? rows = some newest := by
  induction rows using List.reverseRecOn with
  | nil => cases h
  | append_singleton rows last _ =>
    rw [newest?_concat]
    cases newest? rows with
    | none => exact ⟨last, rfl⟩
    | some kept =>
      by_cases hold : last.older kept = true
      · exact ⟨kept, if_pos hold⟩
      · exact ⟨last, if_neg hold⟩

theorem newest?_spec {rows : List TableRow} (hids : rows.Pairwise fun a b => a.id ≠ b.id)
    {newest : TableRow} (h : newest? rows = some newest) :
    newest ∈ rows ∧ ∀ other ∈ rows, other = newest ∨ other.older newest = true := by
  induction rows using List.reverseRecOn generalizing newest with
  | nil => cases h
  | append_singleton rows last ih =>
    rw [List.pairwise_append] at hids
    rw [newest?_concat] at h
    cases hkept : newest? rows with
    | none =>
      have hnil : rows = [] := by
        rw [List.eq_nil_iff_forall_not_mem]
        intro row hrow
        rcases exists_newest? hrow with ⟨_, hsome⟩
        rw [hkept] at hsome
        cases hsome
      rw [hkept] at h
      cases h
      subst hnil
      simp
    | some kept =>
      rcases ih hids.1 hkept with ⟨hmem, hall⟩
      have hid : kept.id ≠ last.id := hids.2.2 kept hmem last (by simp)
      simp only [hkept] at h
      by_cases hold : last.older kept = true
      · rw [if_pos hold] at h
        cases h
        refine ⟨List.mem_append_left _ hmem, ?_⟩
        intro other hother
        rcases List.mem_append.1 hother with ho | ho
        · exact hall other ho
        · exact Or.inr (List.mem_singleton.1 ho ▸ hold)
      · rw [if_neg hold] at h
        cases h
        refine ⟨by simp, ?_⟩
        intro other hother
        rcases List.mem_append.1 hother with ho | ho
        · -- `other` is not newer than the row kept so far, which the last row beats
          refine Or.inr ?_
          rw [TableRow.older_iff] at hold ⊢
          rcases hall other ho with rfl | hlt
          · omega
          · rw [TableRow.older_iff] at hlt
            omega
        · exact Or.inl (List.mem_singleton.1 ho)

/-- Of rows with ids of their own, the newest is the one that all others are older than. -/
theorem newest?_eq_some_iff {rows : List TableRow} (hids : rows.Pairwise fun a b => a.id ≠ b.id)
    {row : TableRow} : newest? rows = some row ↔
      row ∈ rows ∧ ∀ other ∈ rows, other = row ∨ other.older row = true := by
  constructor
  · exact newest?_spec hids
  · rintro ⟨hmem, hall⟩
    rcases exists_newest? hmem with ⟨newest, hnewest⟩
    rcases newest?_spec hids hnewest with ⟨hmem', hall'⟩
    rw [hnewest]
    rcases hall newest hmem' with heq | hlt
    · rw [heq]
    · rcases hall' row hmem with heq | hgt
      · rw [heq]
      · rw [TableRow.older_iff] at hlt hgt
        omega

/-! ## Sound tables -/

/-- A table whose rows have increasing ids and numbers that it holds. -/
structure Sound (store : TableStore) : Prop where
  increasing : store.rows.Pairwise fun a b => a.id < b.id
  id_le : ∀ row ∈ store.rows, row.id ≤ store.lastId
  column_le : ∀ row ∈ store.rows, row.column ≤ tableLimit
  row_le : ∀ row ∈ store.rows, row.row ≤ tableLimit
  version_le : ∀ row ∈ store.rows, row.version ≤ tableLimit

/-- The empty table is sound. -/
theorem sound_empty : Sound {} := by
  constructor <;> simp

/-- Any row with numbers of the table may be appended, negative ones included. -/
theorem Sound.append {store : TableStore} (h : store.Sound) {row : TableRow}
    (hcolumn : row.column ≤ tableLimit) (hrow : row.row ≤ tableLimit)
    (hversion : row.version ≤ tableLimit) : (store.append row).Sound := by
  have hmem : ∀ {P : TableRow → Prop}, (∀ r ∈ store.rows, P r) →
      P { row with id := store.lastId + 1 } → ∀ r ∈ (store.append row).rows, P r := by
    intro P hold hnew r hr
    rcases List.mem_append.1 hr with hmem | hmem
    · exact hold r hmem
    · exact List.mem_singleton.1 hmem ▸ hnew
  refine ⟨?_, ?_, hmem h.column_le hcolumn, hmem h.row_le hrow, hmem h.version_le hversion⟩
  · refine List.pairwise_append.2 ⟨h.increasing, List.pairwise_singleton _ _, ?_⟩
    intro a ha b hb
    rw [List.mem_singleton.1 hb]
    exact Nat.lt_succ_of_le (h.id_le a ha)
  · exact hmem (fun r hr => Nat.le_succ_of_le (h.id_le r hr)) (Nat.le_refl (store.lastId + 1))

instance : JournaledStore TableStore where
  Holds n := n ≤ tableLimit
  Sound := Sound
  lastId store := store.lastId
  journal store sheet := store.rows.filter (·.sheet = sheet)

instance (cell : Cell) : Decidable (JournaledStore.Fits TableStore cell) :=
  inferInstanceAs (Decidable ((_ ≤ tableLimit ∧ _ ≤ tableLimit) ∧ _ ≤ tableLimit))

/-! ## The query for current rows -/

section Query

open JournaledStore Recency

variable {store : TableStore} {sheet : String}

theorem mem_journal {row : TableRow} :
    row ∈ journal store sheet ↔ row ∈ store.rows ∧ row.sheet = sheet := by
  simp [journal]

theorem increasing_journal (h : store.Sound) (sheet : String) :
    (journal store sheet).Pairwise fun a b => a.id < b.id :=
  h.increasing.filter _

/-- A row is selected if all other rows of its slot up to the version are older. -/
theorem mem_currentAsOf (h : store.Sound) {version : Int} {row : TableRow} :
    row ∈ store.currentAsOf sheet version ↔
      (row ∈ journal store sheet ∧ row.version ≤ version) ∧
        ∀ other ∈ journal store sheet, other.column = row.column ∧ other.row = row.row →
          other.version ≤ version → other = row ∨ other.older row = true := by
  have hids : (journal store sheet).Pairwise fun a b => a.id ≠ b.id :=
    (increasing_journal h sheet).imp Nat.ne_of_lt
  show row ∈ List.mergeSort (List.filter _ (journal store sheet)) _ ↔ _
  rw [List.mem_mergeSort, List.mem_filter, decide_eq_true_eq, Option.map_eq_some_iff]
  constructor
  · rintro ⟨hmem, newest, hnewest, hid⟩
    have hspec := newest?_spec (hids.filter _) hnewest
    have hin : newest ∈ journal store sheet := (List.mem_filter.1 hspec.1).1
    -- the query compares ids only, and no other row has that of the newest one
    have heq : newest = row := List.inj_on_of_nodup_map (List.pairwise_map.2 hids) hin hmem hid
    subst heq
    simp only [List.mem_filter, Bool.and_eq_true, decide_eq_true_eq] at hspec
    refine ⟨⟨hmem, hspec.1.2.2⟩, fun other hother hslot hversion => hspec.2 other ?_⟩
    have hsheet : other.sheet = newest.sheet :=
      (mem_journal.1 hother).2.trans (mem_journal.1 hmem).2.symm
    exact ⟨hother, TableRow.sameSlot_iff.2 ⟨hsheet, hslot⟩, hversion⟩
  · rintro ⟨⟨hmem, hversion⟩, hall⟩
    refine ⟨hmem, row, (newest?_eq_some_iff (hids.filter _)).2 ?_, rfl⟩
    simp only [List.mem_filter, Bool.and_eq_true, decide_eq_true_eq]
    refine ⟨⟨hmem, TableRow.sameSlot_iff.2 ⟨rfl, rfl, rfl⟩, hversion⟩, ?_⟩
    rintro other ⟨hother, hslot, hother'⟩
    exact hall other hother (TableRow.sameSlot_iff.1 hslot).2 hother'

/-- The selected rows stand in the order of their ids. -/
theorem increasing_currentAsOf (h : store.Sound) (sheet : String) (version : Int) :
    (store.currentAsOf sheet version).Pairwise fun a b => a.id < b.id := by
  unfold currentAsOf
  -- what is sorted stands in order already
  have hrows := (increasing_journal h sheet).filter fun row =>
    (newest? ((journal store sheet).filter fun r => r.sameSlot row && r.version ≤ version)).map
      (·.id) = some row.id
  have hsorted := hrows.imp fun {a b} hab => decide_eq_true (Nat.le_of_lt hab)
  exact (List.mergeSort_of_pairwise hsorted) ▸ hrows

/-- The newest row of every slot with a row up to the version is selected. -/
theorem exists_mem_currentAsOf (h : store.Sound) {version : Int} {row : TableRow}
    (hmem : row ∈ journal store sheet) (hversion : row.version ≤ version) :
    ∃ newest ∈ store.currentAsOf sheet version,
      newest.column = row.column ∧ newest.row = row.row := by
  have hids : (journal store sheet).Pairwise fun a b => a.id ≠ b.id :=
    (increasing_journal h sheet).imp Nat.ne_of_lt
  have hgroup : row ∈ (journal store sheet).filter fun r =>
      (r.column = row.column ∧ r.row = row.row) ∧ r.version ≤ version := by
    simp [hmem, hversion]
  rcases exists_newest? hgroup with ⟨newest, hnewest⟩
  have hspec := newest?_spec (hids.filter _) hnewest
  simp only [List.mem_filter, decide_eq_true_eq] at hspec
  rcases hspec with ⟨⟨hin, hslot, hle⟩, hall⟩
  refine ⟨newest, (mem_currentAsOf h).2 ⟨⟨hin, hle⟩, ?_⟩, hslot⟩
  intro other hother hsame hother'
  exact hall other ⟨hother, ⟨hsame.1.trans hslot.1, hsame.2.trans hslot.2⟩, hother'⟩

/-- A row that holds a cell is selected exactly if the cell is current: a row with a negative
version is older, and one at a negative slot is elsewhere. -/
theorem ofCell_mem_currentAsOf (h : store.Sound) {version : Nat} {cell : Cell} :
    TableRow.ofCell cell ∈ store.currentAsOf sheet version ↔
      IsCurrent ((journal store sheet).asOf version).cells cell := by
  have hmem : ∀ {c : Cell}, c ∈ ((journal store sheet).asOf version).cells ↔
      TableRow.ofCell c ∈ journal store sheet ∧ (TableRow.ofCell c).version ≤ version := by
    intro c
    rw [Journal.mem_cells, Journal.mem_asOf]
  have holder : ∀ {a b : Cell},
      (TableRow.ofCell a).older (TableRow.ofCell b) = true ↔ b.newer a = true := by
    intro a b
    rw [TableRow.older_iff, Cell.newer_iff]
    simp only [TableRow.ofCell]
    omega
  rw [mem_currentAsOf h, IsCurrent, hmem]
  refine and_congr_right ?_
  intro _
  constructor
  · intro hall other hother hslot
    rw [hmem] at hother
    rcases hall _ hother.1 (TableRow.ofCell_at_iff.2 hslot) hother.2 with heq | hold
    · exact Or.inl (TableRow.ofCell_injective heq)
    · exact Or.inr (holder.1 hold)
  · intro hall other hother hslot hversion
    -- a negative version is below that of any cell, and other negative numbers stand elsewhere
    by_cases hneg : other.version < 0
    · refine Or.inr (TableRow.older_iff.2 (Or.inl ?_))
      simp only [TableRow.ofCell]
      omega
    · have hcolumn : (TableRow.ofCell cell).column = (cell.slot.column : Int) := rfl
      have hrow : (TableRow.ofCell cell).row = (cell.slot.row : Int) := rfl
      obtain ⟨o, rfl⟩ : ∃ o, other = TableRow.ofCell o :=
        TableRow.exists_eq_ofCell (by omega) (by omega) (by omega)
      rcases hall o (hmem.2 ⟨hother, hversion⟩) (TableRow.ofCell_at_iff.1 hslot) with heq | hnew
      · exact Or.inl (congrArg TableRow.ofCell heq)
      · exact Or.inr (holder.2 hnew)

/-- The cells that the selected rows hold are the current ones, if each of those rows holds one. -/
theorem currentAsOf_eq_map_iff (h : store.Sound) {version : Nat} {snapshot : Snapshot} :
    store.currentAsOf sheet version = snapshot.map TableRow.ofCell ↔
      ((journal store sheet).asOf version).Readable ∧
        snapshot = latestAsOf (cells store sheet) version := by
  have hcells : (cells store sheet).filter (·.version ≤ version) =
      ((journal store sheet).asOf version).cells := (Journal.cells_asOf version).symm
  have hids : ((journal store sheet).asOf version).cells.Pairwise fun a b => a.id ≠ b.id :=
    ids_ne (Journal.increasing_cells ((increasing_journal h sheet).filter _))
  have hlatest : ∀ {c : Cell}, c ∈ latestAsOf (cells store sheet) version ↔
      TableRow.ofCell c ∈ store.currentAsOf sheet version := by
    intro c
    rw [latestAsOf, hcells, mem_latest hids, ofCell_mem_currentAsOf h]
  have horderly : (latestAsOf (cells store sheet) version).Orderly := by
    rw [latestAsOf, hcells]
    exact orderly_latest hids
  have hincreasing := increasing_currentAsOf h sheet version
  constructor
  · intro heq
    constructor
    -- each slot with a row has a selected one, and that one holds a cell
    · intro row hrow
      rw [Journal.mem_asOf] at hrow
      rcases exists_mem_currentAsOf h hrow.1 hrow.2 with ⟨newest, hnewest, hslot⟩
      have hin := ((mem_currentAsOf h).1 hnewest).1
      rw [heq] at hnewest
      rcases List.mem_map.1 hnewest with ⟨cell, -, rfl⟩
      exact ⟨cell, Journal.mem_asOf.2 hin, hslot.1.symm, hslot.2.symm⟩
    · have hsnapshot : snapshot.Pairwise fun a b => a.id < b.id := by
        rw [heq, List.pairwise_map] at hincreasing
        exact hincreasing
      refine eq_of_increasing hsnapshot horderly.increasing ?_
      intro c
      rw [hlatest, heq, List.mem_map_of_injective fun _ _ => TableRow.ofCell_injective]
  · rintro ⟨hreadable, rfl⟩
    have hmap : ((latestAsOf (cells store sheet) version).map TableRow.ofCell).Pairwise
        fun a b => a.id < b.id := List.pairwise_map.2 horderly.increasing
    refine eq_of_increasing hincreasing hmap ?_
    intro row
    rw [List.mem_map]
    constructor
    · intro hrow
      rcases (mem_currentAsOf h).1 hrow with ⟨hin, hall⟩
      rcases hreadable row (Journal.mem_asOf.2 hin) with ⟨cell, hcell, hcolumn, hindex⟩
      rw [Journal.mem_asOf] at hcell
      -- the selected row is not older than the one that holds a cell, so it is not negative
      have hversion : 0 ≤ row.version := by
        rcases hall _ hcell.1 ⟨hcolumn.symm, hindex.symm⟩ hcell.2 with heq | hold
        · rw [← heq]
          exact Int.natCast_nonneg _
        · rw [TableRow.older_iff] at hold
          simp only [TableRow.ofCell] at hold
          omega
      rcases TableRow.exists_eq_ofCell (by omega) (by omega) hversion with ⟨c, rfl⟩
      exact ⟨c, hlatest.2 hrow, rfl⟩
    · rintro ⟨c, hc, rfl⟩
      exact hlatest.1 hc

/-- No row has a version that the table cannot hold. -/
theorem currentAsOf_min (h : store.Sound) (version : Nat) :
    store.currentAsOf sheet (min version tableLimit : Nat) = store.currentAsOf sheet version := by
  refine eq_of_increasing (increasing_currentAsOf h _ _) (increasing_currentAsOf h _ _) ?_
  have hle : ∀ {row : TableRow}, row ∈ journal store sheet →
      (row.version ≤ (min version tableLimit : Nat) ↔ row.version ≤ version) := by
    intro row hmem
    have := h.version_le row (mem_journal.1 hmem).1
    omega
  intro row
  rw [mem_currentAsOf h, mem_currentAsOf h]
  constructor
  · rintro ⟨⟨hmem, hversion⟩, hall⟩
    exact ⟨⟨hmem, (hle hmem).1 hversion⟩,
      fun other hother hslot hother' => hall other hother hslot ((hle hother).2 hother')⟩
  · rintro ⟨⟨hmem, hversion⟩, hall⟩
    exact ⟨⟨hmem, (hle hmem).2 hversion⟩,
      fun other hother hslot hother' => hall other hother hslot ((hle hother).1 hother')⟩

theorem snapshotAt_eq_ok_iff (h : store.Sound) {version : Nat} {snapshot : Snapshot} :
    store.snapshotAt sheet version = .ok snapshot ↔
      ((journal store sheet).asOf version).Readable ∧
        snapshot = latestAsOf (cells store sheet) version := by
  rw [snapshotAt, currentAsOf_min h, TableRow.mapM_toCell_eq_ok_iff, currentAsOf_eq_map_iff h]

/-- Every row is one up to the limit. -/
theorem asOf_tableLimit (h : store.Sound) (sheet : String) :
    (journal store sheet).asOf tableLimit = journal store sheet := by
  unfold Journal.asOf
  rw [List.filter_eq_self]
  intro row hmem
  exact decide_eq_true (h.version_le row (mem_journal.1 hmem).1)

end Query

/-! ## Appending -/

section Appending

open JournaledStore

variable {store : TableStore}

theorem fit_eq_ok_iff {field : Field} {n : Nat} {value : Int} :
    fit field n = .ok value ↔ n ≤ tableLimit ∧ value = n := by
  unfold fit
  by_cases hn : n ≤ tableLimit
  · simp [hn, eq_comm]
  · simp [hn]

theorem fit_of_le {field : Field} {n : Nat} (h : n ≤ tableLimit) : fit field n = .ok n :=
  fit_eq_ok_iff.2 ⟨h, rfl⟩

theorem fit_of_lt (field : Field) {n : Nat} (h : tableLimit < n) :
    fit field n = .error (.tooLarge field) :=
  if_neg (Nat.not_le_of_lt h)

theorem insert_of_fits {cell : Cell} (h : Fits TableStore cell) :
    store.insert cell = .ok (store.lastId + 1, store.append (TableRow.ofCell cell)) := by
  rcases h with ⟨⟨hcolumn, hrow⟩, hversion⟩
  simp only [insert, fit_of_le hcolumn, fit_of_le hrow, fit_of_le hversion, bind, Except.bind,
    pure, Except.pure]
  rfl

/-- The first number of a cell that the table cannot hold. -/
def oversized? (cell : Cell) : Option Field :=
  if tableLimit < cell.slot.column then some .column
  else if tableLimit < cell.slot.row then some .row
  else if tableLimit < cell.version then some .version
  else none

theorem oversized?_eq_none_iff {cell : Cell} : oversized? cell = none ↔ Fits TableStore cell := by
  show _ ↔ (cell.slot.column ≤ tableLimit ∧ cell.slot.row ≤ tableLimit) ∧
    cell.version ≤ tableLimit
  unfold oversized?
  by_cases hcolumn : tableLimit < cell.slot.column
  · simp only [if_pos hcolumn, reduceCtorEq, false_iff]
    omega
  · by_cases hrow : tableLimit < cell.slot.row
    · simp only [if_neg hcolumn, if_pos hrow, reduceCtorEq, false_iff]
      omega
    · by_cases hversion : tableLimit < cell.version
      · simp only [if_neg hcolumn, if_neg hrow, if_pos hversion, reduceCtorEq, false_iff]
        omega
      · simp only [if_neg hcolumn, if_neg hrow, if_neg hversion, true_iff]
        omega

/-- A cell is refused for the first number that the table cannot hold. -/
theorem insert_of_oversized (store : TableStore) {cell : Cell} {field : Field}
    (h : oversized? cell = some field) : store.insert cell = .error (.tooLarge field) := by
  unfold oversized? at h
  unfold insert
  by_cases hcolumn : tableLimit < cell.slot.column
  · rw [if_pos hcolumn, Option.some.injEq] at h
    rw [fit_of_lt .column hcolumn, ← h]
    rfl
  · rw [if_neg hcolumn] at h
    rw [fit_of_le (Nat.le_of_not_lt hcolumn)]
    by_cases hrow : tableLimit < cell.slot.row
    · rw [if_pos hrow, Option.some.injEq] at h
      rw [fit_of_lt .row hrow, ← h]
      rfl
    · rw [if_neg hrow] at h
      rw [fit_of_le (Nat.le_of_not_lt hrow)]
      by_cases hversion : tableLimit < cell.version
      · rw [if_pos hversion, Option.some.injEq] at h
        rw [fit_of_lt .version hversion, ← h]
        rfl
      · simp [if_neg hversion] at h

theorem appends_append (h : store.Sound) {cell : Cell} (hfits : Fits TableStore cell) :
    Appends store (store.append (TableRow.ofCell cell))
      [{ cell with id := store.lastId + 1 }] where
  sound := h.append (Int.ofNat_le.2 hfits.1.1) (Int.ofNat_le.2 hfits.1.2) (Int.ofNat_le.2 hfits.2)
  ids := rfl
  lastId_eq := rfl
  journal_eq sheet := by
    show List.filter _ (store.rows ++ [_]) = List.filter _ store.rows ++ _
    rw [List.filter_append]
    by_cases hsheet : cell.sheet = sheet <;> simp [TableRow.ofCell, hsheet]

theorem insertAll_of_fits (h : store.Sound) {rows : List Cell}
    (hfits : ∀ row ∈ rows, Fits TableStore row) :
    ∃ later, store.insertAll rows = .ok (List.range' (store.lastId + 1) rows.length, later) ∧
      Appends store later (numbered (store.lastId + 1) rows) := by
  induction rows generalizing store with
  | nil => exact ⟨store, rfl, .nil h⟩
  | cons row rest ih =>
    have hrow := hfits row List.mem_cons_self
    have happends := appends_append h hrow
    obtain ⟨later, hlater, hmore⟩ :=
      ih happends.sound fun r hr => hfits r (List.mem_cons_of_mem _ hr)
    refine ⟨later, ?_, happends.append hmore⟩
    simp only [insertAll, insert_of_fits hrow, hlater, bind, Except.bind, pure, Except.pure]
    rfl

/-- Cells are refused for the first number of any of them that the table cannot hold. -/
theorem insertAll_of_oversized (store : TableStore) {rows : List Cell} {field : Field}
    (h : rows.findSome? oversized? = some field) :
    store.insertAll rows = .error (.tooLarge field) := by
  induction rows generalizing store with
  | nil => cases h
  | cons row rest ih =>
    unfold insertAll
    cases hrow : oversized? row with
    | some first =>
      rw [List.findSome?_cons, hrow] at h
      rw [insert_of_oversized store hrow, Option.some.inj h]
      rfl
    | none =>
      -- rows in front of the one that is refused are appended, to be rolled back by the caller
      rw [List.findSome?_cons, hrow] at h
      rw [insert_of_fits (oversized?_eq_none_iff.1 hrow)]
      simp only [bind, Except.bind, ih _ h]

theorem refuses_insert (store : TableStore) {cell : Cell} {field : Field}
    (h : oversized? cell = some field) :
    CellStore.insert cell store = .error (.tooLarge field) store := by
  simp only [CellStore.insert, atomically, insert_of_oversized store h]

/-- A batch is refused as a whole. -/
theorem refuses_insertAll (store : TableStore) {rows : List Cell} {field : Field}
    (h : rows.findSome? oversized? = some field) :
    CellStore.insertAll rows store = .error (.tooLarge field) store := by
  simp only [CellStore.insertAll, atomically, insertAll_of_oversized store h]

theorem exists_oversized {rows : List Cell} (h : ∃ row ∈ rows, ¬ Fits TableStore row) :
    ∃ field, rows.findSome? oversized? = some field := by
  rcases h with ⟨row, hmem, hrow⟩
  refine Option.ne_none_iff_exists'.1 ?_
  intro hnone
  exact hrow (oversized?_eq_none_iff.1 (List.findSome?_eq_none_iff.1 hnone row hmem))

/-- The rows of a slot are found in the journal, unless the table cannot hold its numbers. -/
theorem rowsAt_eq_journal (store : TableStore) (sheet : String) (slot : Slot) :
    store.rowsAt sheet slot = (do
      let _ ← fit .column slot.column
      let _ ← fit .row slot.row
      return (journal store sheet).rowsAt slot) := by
  unfold rowsAt
  have hrows : ∀ {column row : Int}, fit .column slot.column = .ok column →
      fit .row slot.row = .ok row →
      (store.rows.filter fun r => r.sheet = sheet && r.column = column && r.row = row) =
        (journal store sheet).rowsAt slot := by
    intro column row hcolumn hrow
    rw [(fit_eq_ok_iff.1 hcolumn).2, (fit_eq_ok_iff.1 hrow).2]
    show _ = List.filter _ (List.filter _ store.rows)
    rw [List.filter_filter]
    refine List.filter_congr ?_
    intro r _
    simp only [Bool.decide_and, Bool.and_assoc, Bool.and_comm]
  cases hcolumn : fit .column slot.column with
  | error cause => rfl
  | ok column =>
    cases hrow : fit .row slot.row with
    | error cause => rfl
    | ok row => exact congrArg Except.ok (hrows hcolumn hrow)

end Appending

open JournaledStore in
instance : LawfulStore TableStore where
  sheet_eq _ hmem := (mem_journal.1 hmem).2
  increasing sheet h := increasing_journal h sheet
  id_le h hmem := h.id_le _ (mem_journal.1 hmem).1
  fits_of_mem {store sheet cell} h hmem := by
    have hrow := (mem_journal.1 (Journal.mem_cells.1 hmem)).1
    exact ⟨⟨Int.ofNat_le.1 (h.column_le _ hrow), Int.ofNat_le.1 (h.row_le _ hrow)⟩,
      Int.ofNat_le.1 (h.version_le _ hrow)⟩
  insert_of_fits {store} cell h hfits := by
    refine ⟨_, ?_, appends_append h hfits⟩
    simp only [CellStore.insert, atomically, insert_of_fits hfits]
    rfl
  insert_of_not_fits store cell h := by
    rcases Option.ne_none_iff_exists'.1 (mt oversized?_eq_none_iff.1 h) with ⟨field, hfield⟩
    exact ⟨.tooLarge field, refuses_insert store hfield⟩
  insertAll_of_fits {store rows} h hfits := by
    rcases insertAll_of_fits h hfits with ⟨later, hlater, happends⟩
    exact ⟨later, by simp only [CellStore.insertAll, atomically, hlater]; rfl, happends⟩
  insertAll_of_not_fits store {rows} h := by
    rcases exists_oversized h with ⟨field, hfield⟩
    exact ⟨.tooLarge field, refuses_insertAll store hfield⟩
  snapshot_eq_ok_iff {store sheet excluded snapshot} h := by
    have hall : Recency.latestAsOf (cells store sheet) tableLimit =
        Recency.latest (cells store sheet) := by
      rw [Recency.latestAsOf, cells, ← Journal.cells_asOf, asOf_tableLimit h]
    have hiff : ∀ current, store.snapshotAt sheet tableLimit = .ok current ↔
        ((journal store sheet).asOf tableLimit).Readable ∧
          current = Recency.latestAsOf (cells store sheet) tableLimit :=
      fun _ => snapshotAt_eq_ok_iff h
    simp only [asOf_tableLimit h, hall] at hiff
    simp only [CellStore.snapshot]
    cases hread : store.snapshotAt sheet tableLimit with
    | error cause =>
      simp only [Except.map, reduceCtorEq, false_iff]
      rintro ⟨hreadable, -⟩
      rw [(hiff _).2 ⟨hreadable, rfl⟩] at hread
      cases hread
    | ok current =>
      rcases (hiff _).1 hread with ⟨hreadable, hcurrent⟩
      simp only [Except.map, Except.ok.injEq, hreadable, true_and, hcurrent, eq_comm]
  snapshotAt_eq_ok_iff h := snapshotAt_eq_ok_iff h
  sheet_reads_congr {store other sheet} h := by
    have hrows : store.rows.filter (·.sheet = sheet) = other.rows.filter (·.sheet = sheet) := h
    have hat : ∀ version, store.snapshotAt sheet version = other.snapshotAt sheet version := by
      intro version
      simp only [snapshotAt, currentAsOf, hrows]
    refine ⟨?_, funext hat, ?_⟩
    · simp only [CellStore.snapshot, hat]
    · simp only [CellStore.versions, versions, hrows]
  slot_reads_congr {store other sheet slot} h := by
    have hrows : store.rowsAt sheet slot = other.rowsAt sheet slot := by
      rw [rowsAt_eq_journal, rowsAt_eq_journal, h]
    simp only [CellStore.current?, CellStore.history, current?, history, hrows, and_self]

end TableStore

end SheetLedger
