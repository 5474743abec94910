import Mathlib.Data.Int.Order.Basic
import Mathlib.Data.List.Sort
import SheetLedger.Proofs.Store.Log
import SheetLedger.Proofs.Store.Table

/-!
# Reads as queries of the journal

The reads that `LawfulStore` leaves open are queries of the journal as well, the same ones for the
log store and for the table store (`QueriedStore`):

* the current row of a slot is the newest of its rows (`Journal.current?`);
* its history is its rows, from the oldest to the newest (`Journal.history`);
* the versions of a spreadsheet are those of its rows, the newest first (`Journal.versions`).

A query may meet a row that holds no cell, and then it fails. Rows that are appended under versions
not below the ones in the journal go to the end of a history (`Journal.history_append`), those above
all of them bring versions to the front (`Journal.versions_append`).
-/

namespace SheetLedger

/-! ## Lists without their repetitions -/

section EraseDups

variable {α : Type} [DecidableEq α]

theorem eraseDups_concat (l : List α) (a : α) :
    (l ++ [a]).eraseDups = if a ∈ l then l.eraseDups else l.eraseDups ++ [a] := by
  rw [List.eraseDups_append]
  by_cases ha : a ∈ l
  · simp [List.removeAll, ha]
  · have hlast : [a].removeAll l = [a] := by simp [List.removeAll, ha]
    rw [hlast, if_neg ha]
    rfl

theorem nodup_eraseDups (l : List α) : l.eraseDups.Nodup := by
  induction l using List.reverseRecOn with
  | nil => exact List.nodup_nil
  | append_singleton l a ih =>
    rw [eraseDups_concat]
    by_cases ha : a ∈ l
    · rw [if_pos ha]
      exact ih
    · rw [if_neg ha]
      refine List.nodup_append.2 ⟨ih, List.nodup_singleton a, ?_⟩
      intro x hx y hy heq
      rw [List.mem_singleton.1 hy] at heq
      exact ha (List.mem_eraseDups.1 (heq ▸ hx))

theorem eraseDups_map {β : Type} [DecidableEq β] {f : α → β} (hf : Function.Injective f)
    (l : List α) : (l.map f).eraseDups = l.eraseDups.map f := by
  induction l using List.reverseRecOn with
  | nil => rfl
  | append_singleton l a ih =>
    rw [List.map_append, List.map_singleton, eraseDups_concat, eraseDups_concat, ih]
    by_cases ha : a ∈ l
    · rw [if_pos ha, if_pos (List.mem_map_of_mem ha)]
    · rw [if_neg ha, if_neg fun h => ha ((List.mem_map_of_injective hf).1 h), List.map_append,
        List.map_singleton]

end EraseDups

/-! ## Sorted rows -/

namespace TableRow

/-- The order of version and id is the one in which rows that hold cells are newer. -/
theorem older_ofCell_iff {a b : Cell} :
    (ofCell a).older (ofCell b) = true ↔ b.newer a = true := by
  rw [older_iff, Cell.newer_iff]
  simp only [ofCell]
  omega

theorem older_ofCell (a b : Cell) : (ofCell a).older (ofCell b) = b.newer a :=
  Bool.eq_iff_iff.2 older_ofCell_iff

end TableRow

namespace Journal

variable {journal : Journal} {rows : List Cell} {slot : Slot}

/-- The rows from the oldest to the newest. -/
def chronological (journal : Journal) : List TableRow :=
  List.mergeSort journal fun a b => !b.older a

/-- Rows that stand in order, the oldest first. -/
def Chronological (rows : List TableRow) : Prop :=
  rows.Pairwise fun a b => b.older a = false

theorem chronological_perm (journal : Journal) : journal.chronological.Perm journal :=
  List.mergeSort_perm _ _

theorem pairwise_chronological (journal : Journal) : Chronological journal.chronological := by
  refine (List.pairwise_mergeSort ?_ ?_ journal).imp ?_
  · intro a b c hab hbc
    simp only [Bool.not_eq_true', Bool.eq_false_iff, ne_eq, TableRow.older_iff] at *
    omega
  · intro a b
    simp only [Bool.or_eq_true, Bool.not_eq_true', Bool.eq_false_iff, ne_eq, TableRow.older_iff]
    omega
  · intro a b hab
    exact Bool.not_eq_true' _ ▸ hab

/-- Rows with ids of their own have one chronological order. -/
theorem eq_chronological {sorted : List TableRow}
    (hids : List.Pairwise (fun a b => a.id ≠ b.id) journal) (hperm : sorted.Perm journal)
    (hsorted : Chronological sorted) : sorted = journal.chronological := by
  refine (hperm.trans journal.chronological_perm.symm).eq_of_pairwise ?_ hsorted
    journal.pairwise_chronological
  intro a b ha hb hab hba
  have hid : a.id = b.id := by
    rw [← Bool.not_eq_true, TableRow.older_iff] at hab hba
    omega
  exact List.inj_on_of_nodup_map (List.pairwise_map.2 hids) (hperm.subset ha)
    (journal.chronological_perm.subset hb) hid

/-! ## Queries -/

/-- The cell of the newest row of a slot. -/
def current? (journal : Journal) (slot : Slot) : Except StoreError (Option Cell) := do
  match TableStore.newest? (journal.rowsAt slot) with
  | some row => return some (← row.toCell)
  | none => return none

/-- The cells of the rows of a slot, the oldest first. -/
def history (journal : Journal) (slot : Slot) : Except StoreError (List Cell) :=
  (journal.rowsAt slot).chronological.mapM TableRow.toCell

/-- The versions of the rows, each once, the newest first. -/
def stamps (journal : Journal) : List Int :=
  (List.map (·.version) journal).eraseDups.mergeSort fun a b => b ≤ a

/-- The versions of a spreadsheet, none of which may be negative. -/
def versions (journal : Journal) : Except StoreError (List Nat) :=
  journal.stamps.mapM (TableRow.number 0)

/-! ## The current row -/

/-- A row is current if no other one of its slot has a higher version or a higher id. -/
theorem current?_of_forall_le (hids : List.Pairwise (fun a b => a.id ≠ b.id) journal) {row : Cell}
    (hmem : TableRow.ofCell row ∈ journal)
    (h : ∀ other ∈ journal.rowsAt row.slot, other.version ≤ row.version ∧ other.id ≤ row.id) :
    journal.current? row.slot = .ok (some row) := by
  have hat : TableRow.ofCell row ∈ journal.rowsAt row.slot := mem_rowsAt.2 ⟨hmem, rfl, rfl⟩
  have hnewest : TableStore.newest? (journal.rowsAt row.slot) = some (TableRow.ofCell row) := by
    refine (TableStore.newest?_eq_some_iff (List.Pairwise.filter _ hids)).2 ⟨hat, ?_⟩
    intro other hother
    by_cases hid : other.id = row.id
    · exact Or.inl (List.inj_on_of_nodup_map (List.pairwise_map.2 hids)
        (mem_rowsAt.1 hother).1 hmem hid)
    · have hle := h other hother
      refine Or.inr (TableRow.older_iff.2 ?_)
      simp only [TableRow.ofCell]
      omega
  simp only [current?, hnewest, TableRow.toCell_eq_ok_iff.2 rfl, bind, Except.bind, pure,
    Except.pure]

theorem newest?_map_ofCell (rows : List Cell) :
    TableStore.newest? (rows.map TableRow.ofCell) =
      (Recency.newest? rows).map TableRow.ofCell := by
  unfold TableStore.newest? Recency.newest?
  rw [List.foldl_map]
  show rows.foldl _ (Option.map TableRow.ofCell none) = _
  refine List.foldl_hom (Option.map TableRow.ofCell) ?_
  intro best row
  cases best with
  | none => rfl
  | some kept =>
    simp only [Option.map_some, TableRow.older_ofCell]
    by_cases h : kept.newer row = true <;> simp [h]

theorem current?_map_ofCell (rows : List Cell) :
    current? (rows.map TableRow.ofCell) slot =
      .ok (Recency.newest? (rows.filter (·.slot = slot))) := by
  simp only [current?, rowsAt_map_ofCell, newest?_map_ofCell]
  cases Recency.newest? (rows.filter (·.slot = slot)) with
  | none => rfl
  | some row =>
    simp only [Option.map_some, TableRow.toCell_eq_ok_iff.2 rfl, bind, Except.bind, pure,
      Except.pure]

/-! ## Histories -/

theorem mapM_toCell_map_ofCell (rows : List Cell) :
    (rows.map TableRow.ofCell).mapM TableRow.toCell = .ok rows :=
  TableRow.mapM_toCell_eq_ok_iff.2 rfl

theorem history_map_ofCell (rows : List Cell) :
    history (rows.map TableRow.ofCell) slot =
      .ok (Recency.chronological (rows.filter (·.slot = slot))) := by
  have hsort : chronological ((rows.filter (·.slot = slot)).map TableRow.ofCell) =
      (Recency.chronological (rows.filter (·.slot = slot))).map TableRow.ofCell := by
    unfold chronological Recency.chronological
    refine (List.map_mergeSort ?_).symm
    intro a _ b _
    rw [TableRow.older_ofCell]
  rw [history, rowsAt_map_ofCell, hsort, mapM_toCell_map_ofCell]

/-- Rows that are appended in order, none older than the ones at their slot, go to the end of the
histories. -/
theorem history_append (hids : List.Pairwise (fun a b => a.id < b.id)
      (journal ++ rows.map TableRow.ofCell))
    (hle : ∀ old ∈ journal, ∀ row ∈ rows, old.version ≤ row.version)
    (hsorted : rows.Pairwise fun a b => a.version ≤ b.version) (slot : Slot) :
    history (journal ++ rows.map TableRow.ofCell) slot =
      (journal.history slot).map (· ++ rows.filter (·.slot = slot)) := by
  rcases List.pairwise_append.1 hids with ⟨-, hrows, hold⟩
  have hchronological : Chronological ((journal.rowsAt slot).chronological ++
      (rows.filter (·.slot = slot)).map TableRow.ofCell) := by
    refine List.pairwise_append.2 ⟨pairwise_chronological _, ?_, ?_⟩
    · rw [List.pairwise_map] at hrows ⊢
      refine ((hsorted.and hrows).filter _).imp ?_
      intro a b hab
      rw [← Bool.not_eq_true, TableRow.older_iff]
      have hversion : a.version ≤ b.version := hab.1
      have hid : a.id < b.id := hab.2
      simp only [TableRow.ofCell]
      omega
    · intro a ha b hb
      have hin := (mem_rowsAt.1 ((chronological_perm _).subset ha)).1
      rcases List.mem_map.1 hb with ⟨row, hrow, rfl⟩
      have hmem := (List.mem_filter.1 hrow).1
      have hid := hold a hin _ (List.mem_map_of_mem hmem)
      have hversion := hle a hin row hmem
      rw [← Bool.not_eq_true, TableRow.older_iff]
      simp only [TableRow.ofCell] at hid ⊢
      omega
  have hsort : (rowsAt (journal ++ rows.map TableRow.ofCell) slot).chronological =
      (journal.rowsAt slot).chronological ++
        (rows.filter (·.slot = slot)).map TableRow.ofCell := by
    have hperm : ((journal.rowsAt slot).chronological ++
        (rows.filter (·.slot = slot)).map TableRow.ofCell).Perm
          (rowsAt (journal ++ rows.map TableRow.ofCell) slot) := by
      rw [rowsAt_append, rowsAt_map_ofCell]
      exact (chronological_perm _).append_right _
    exact (eq_chronological ((hids.imp Nat.ne_of_lt).filter _) hperm hchronological).symm
  rw [history, hsort, List.mapM_append, mapM_toCell_map_ofCell, history]
  cases (journal.rowsAt slot).chronological.mapM TableRow.toCell <;> rfl

/-! ## Versions -/

theorem mem_stamps {version : Int} :
    version ∈ journal.stamps ↔ ∃ row ∈ journal, row.version = version := by
  simp [stamps]

/-- The versions decrease. -/
theorem pairwise_stamps (journal : Journal) : journal.stamps.Pairwise fun a b => b < a := by
  have hsorted : journal.stamps.Pairwise fun a b => b ≤ a := by
    refine (List.pairwise_mergeSort ?_ ?_ _).imp ?_
    · intro a b c hab hbc
      simp only [decide_eq_true_eq] at *
      omega
    · intro a b
      simp only [Bool.or_eq_true, decide_eq_true_eq]
      omega
    · intro a b hab
      exact of_decide_eq_true hab
  have hnodup : journal.stamps.Nodup :=
    (List.mergeSort_perm _ _).nodup_iff.2 (nodup_eraseDups _)
  refine (hsorted.and hnodup).imp ?_
  intro a b hab
  have hne : a ≠ b := hab.2
  omega

/-- Decreasing versions are known by which ones they are. -/
theorem eq_stamps {versions : List Int} (hsorted : versions.Pairwise fun a b => b < a)
    (hmem : ∀ version, version ∈ versions ↔ ∃ row ∈ journal, row.version = version) :
    versions = journal.stamps := by
  have : Std.Antisymm fun a b : Int => b < a := ⟨fun a b hab hba => by omega⟩
  have : Std.Irrefl fun a b : Int => b < a := ⟨fun a ha => Int.lt_irrefl a ha⟩
  refine hsorted.eq_of_mem_iff journal.pairwise_stamps ?_
  intro version
  rw [hmem, mem_stamps]

theorem stamps_append {more : Journal}
    (h : ∀ old ∈ journal, ∀ row ∈ more, old.version < row.version) :
    stamps (journal ++ more) = more.stamps ++ journal.stamps := by
  refine (eq_stamps ?_ ?_).symm
  · refine List.pairwise_append.2 ⟨pairwise_stamps _, pairwise_stamps _, ?_⟩
    intro a ha b hb
    rcases mem_stamps.1 ha with ⟨row, hrow, rfl⟩
    rcases mem_stamps.1 hb with ⟨old, hold, rfl⟩
    exact h old hold row hrow
  · intro version
    simp only [List.mem_append, mem_stamps, or_and_right, exists_or]
    exact or_comm

theorem mapM_number_map_ofNat (versions : List Nat) :
    (versions.map Int.ofNat).mapM (TableRow.number 0) = .ok versions := by
  induction versions with
  | nil => rfl
  | cons n rest ih =>
    have hn : TableRow.number 0 (Int.ofNat n) = .ok n := TableRow.number_eq_ok_iff.2 rfl
    rw [List.map_cons, List.mapM_cons, hn, ih]
    rfl

/-- Rows that hold cells have versions that can be read. -/
theorem exists_stamps_eq (rows : List Cell) :
    ∃ versions : List Nat, stamps (rows.map TableRow.ofCell) = versions.map Int.ofNat := by
  refine ⟨(stamps (rows.map TableRow.ofCell)).map Int.toNat, ?_⟩
  rw [List.map_map]
  refine (List.map_id _).symm.trans (List.map_congr_left ?_)
  intro version hversion
  rcases mem_stamps.1 hversion with ⟨_, hrow, rfl⟩
  rcases List.mem_map.1 hrow with ⟨row, -, rfl⟩
  rfl

/-- Rows under versions above all others bring their versions to the front. -/
theorem versions_append (h : ∀ old ∈ journal, ∀ row ∈ rows, old.version < row.version) :
    ∃ front, versions (journal ++ rows.map TableRow.ofCell) =
      journal.versions.map (front ++ ·) := by
  have habove : ∀ old ∈ journal, ∀ row ∈ rows.map TableRow.ofCell, old.version < row.version := by
    intro old hold _ hmem
    rcases List.mem_map.1 hmem with ⟨row, hrow, rfl⟩
    exact h old hold row hrow
  rcases exists_stamps_eq rows with ⟨front, hfront⟩
  refine ⟨front, ?_⟩
  rw [versions, stamps_append habove, hfront, List.mapM_append, mapM_number_map_ofNat, versions]
  cases journal.stamps.mapM (TableRow.number 0) <;> rfl

end Journal

/-! ## Stores that answer by queries -/

open JournaledStore

/-- A lawful store that answers all reads from its journals. -/
class QueriedStore (σ : Type) [CellStore σ] extends LawfulStore σ where
  current?_eq (store : σ) (sheet : String) {slot : Slot} : FitsSlot σ slot →
    CellStore.current? store sheet slot = (journal store sheet).current? slot
  history_eq (store : σ) (sheet : String) {slot : Slot} : FitsSlot σ slot →
    CellStore.history store sheet slot = (journal store sheet).history slot
  versions_eq (store : σ) (sheet : String) :
    CellStore.versions store sheet = (journal store sheet).versions
  /-- The snapshot as of a version is a matter of the rows up to it. -/
  snapshotAt_congr {store other : σ} {sheet : String} {version : Nat} : Sound store → Sound other →
    (journal store sheet).asOf version = (journal other sheet).asOf version →
      CellStore.snapshotAt store sheet version = CellStore.snapshotAt other sheet version
  version_le {store : σ} {latest : Option Nat} {sheet : String} {row : TableRow} :
    CellStore.latestVersion store = .ok latest → row ∈ journal store sheet →
      row.version ≤ latest.getD 0

/-- A store in which a row is the current one of its slot, by itself and in the snapshot. -/
def Shows {σ : Type} [CellStore σ] (store : σ) (row : Cell) : Prop :=
  CellStore.current? store row.sheet row.slot = .ok (some row) ∧
    ∃ snapshot, CellStore.snapshot store row.sheet none = .ok snapshot ∧
      snapshot.find? row.slot = some row

/-- A row is shown if no other one of its slot has a higher version or a higher id. -/
theorem shows_of_forall_le {σ : Type} [CellStore σ] [QueriedStore σ] {store : σ} {row : Cell}
    (hsound : Sound store) (hreadable : (journal store row.sheet).Readable)
    (hmem : TableRow.ofCell row ∈ journal store row.sheet)
    (hle : ∀ other ∈ (journal store row.sheet).rowsAt row.slot,
      other.version ≤ row.version ∧ other.id ≤ row.id) : Shows store row := by
  have hcell : row ∈ cells store row.sheet := Journal.mem_cells.2 hmem
  refine ⟨?_, _, (LawfulStore.snapshot_eq_ok_iff hsound).2 ⟨hreadable, rfl⟩, ?_⟩
  · rw [QueriedStore.current?_eq store row.sheet (LawfulStore.fits_of_mem hsound hcell).1]
    exact Journal.current?_of_forall_le
      ((LawfulStore.increasing row.sheet hsound).imp Nat.ne_of_lt) hmem hle
  · refine Recency.find?_latest_of_forall_le (LawfulStore.ids_ne hsound row.sheet) hcell ?_
    intro other hother hslot
    have hat : TableRow.ofCell other ∈ (journal store row.sheet).rowsAt row.slot :=
      Journal.mem_rowsAt.2 ⟨Journal.mem_cells.1 hother, TableRow.ofCell_at_iff.2 hslot⟩
    have hother := hle _ hat
    exact ⟨Int.ofNat_le.1 hother.1, hother.2⟩

namespace LogStore

theorem journal_eq (store : LogStore) (sheet : String) :
    journal store sheet = (store.log sheet).map TableRow.ofCell :=
  rfl

theorem versions_journal (store : LogStore) (sheet : String) :
    (journal store sheet).versions = .ok (store.versions sheet) := by
  have hmap : (journal store sheet).map (·.version) =
      ((store.log sheet).map (·.version)).map Int.ofNat := by
    rw [journal_eq, List.map_map, List.map_map]
    rfl
  have hstamps : (journal store sheet).stamps = (store.versions sheet).map Int.ofNat := by
    rw [Journal.stamps, hmap, eraseDups_map fun _ _ => Int.ofNat.inj, versions]
    refine (List.map_mergeSort ?_).symm
    intro a _ b _
    exact decide_eq_decide.2 Int.ofNat_le.symm
  rw [Journal.versions, hstamps, Journal.mapM_number_map_ofNat]

theorem exists_mem_logs {store : LogStore} {sheet : String} {row : Cell}
    (h : row ∈ store.log sheet) : ∃ log, (sheet, log) ∈ store.logs ∧ row ∈ log := by
  unfold log at h
  cases hlookup : store.logs.lookup sheet with
  | none => simp [hlookup] at h
  | some log =>
    rw [hlookup] at h
    rcases List.lookup_eq_some_iff.1 hlookup with ⟨front, rest, hlogs, -⟩
    refine ⟨log, ?_, h⟩
    rw [hlogs]
    simp

/-- No row has a version above the newest one. -/
theorem version_le_latestVersion {store : LogStore} {sheet : String} {row : Cell}
    (h : row ∈ store.log sheet) : row.version ≤ store.latestVersion.getD 0 := by
  rcases exists_mem_logs h with ⟨log, hlog, hrow⟩
  have hversion : row.version ∈ log.map (·.version) := List.mem_map_of_mem hrow
  cases hlast : (log.map (·.version)).max? with
  | none => simp [List.max?_eq_none_iff.1 hlast] at hversion
  | some last =>
    have hle := (List.max?_eq_some_iff.1 hlast).2 _ hversion
    have hmem : last ∈ store.logs.filterMap fun entry => (entry.2.map (·.version)).max? :=
      List.mem_filterMap.2 ⟨_, hlog, hlast⟩
    change row.version ≤
      (store.logs.filterMap fun entry => (entry.2.map (·.version)).max?).max?.getD 0
    cases hlatest : (store.logs.filterMap fun entry => (entry.2.map (·.version)).max?).max? with
    | none => simp [List.max?_eq_none_iff.1 hlatest] at hmem
    | some latest =>
      exact Nat.le_trans hle ((List.max?_eq_some_iff.1 hlatest).2 _ hmem)

instance : QueriedStore LogStore where
  current?_eq store sheet slot _ := (Journal.current?_map_ofCell (store.log sheet)).symm
  history_eq store sheet slot _ := (Journal.history_map_ofCell (store.log sheet)).symm
  versions_eq store sheet := (versions_journal store sheet).symm
  snapshotAt_congr {store other sheet version} _ _ h := by
    have hcells := congrArg Journal.cells h
    rw [Journal.cells_asOf, Journal.cells_asOf] at hcells
    simp only [CellStore.snapshotAt, Recency.latestAsOf]
    rw [← cells_eq, ← cells_eq, cells, cells, hcells]
  version_le {store latest sheet row} hlatest hrow := by
    cases hlatest
    rcases List.mem_map.1 hrow with ⟨cell, hcell, rfl⟩
    exact Int.ofNat_le.2 (version_le_latestVersion hcell)

end LogStore

namespace TableStore

/-- Which rows are current as of a version is a matter of the rows up to it. -/
theorem currentAsOf_congr {store other : TableStore} {sheet : String} {version : Nat}
    (hstore : store.Sound) (hother : other.Sound)
    (h : (journal store sheet).asOf version = (journal other sheet).asOf version) :
    store.currentAsOf sheet version = other.currentAsOf sheet version := by
  have hmem : ∀ row, row ∈ journal store sheet ∧ row.version ≤ version ↔
      row ∈ journal other sheet ∧ row.version ≤ version := by
    intro row
    rw [← Journal.mem_asOf, ← Journal.mem_asOf, h]
  refine eq_of_increasing (increasing_currentAsOf hstore _ _) (increasing_currentAsOf hother _ _) ?_
  intro row
  rw [mem_currentAsOf hstore, mem_currentAsOf hother, hmem]
  refine and_congr_right fun _ => forall_congr' fun o => ?_
  constructor
  · intro hall hin hslot hversion
    exact hall ((hmem o).2 ⟨hin, hversion⟩).1 hslot hversion
  · intro hall hin hslot hversion
    exact hall ((hmem o).1 ⟨hin, hversion⟩).1 hslot hversion

theorem rowsAt_of_fits (store : TableStore) (sheet : String) {slot : Slot}
    (h : FitsSlot TableStore slot) :
    store.rowsAt sheet slot = .ok ((journal store sheet).rowsAt slot) := by
  rw [rowsAt_eq_journal, fit_of_le h.1, fit_of_le h.2]
  rfl

instance : QueriedStore TableStore where
  current?_eq store sheet slot h := by
    show TableStore.current? store sheet slot = _
    unfold TableStore.current?
    rw [rowsAt_of_fits store sheet h]
    rfl
  history_eq store sheet slot h := by
    show TableStore.history store sheet slot = _
    unfold TableStore.history
    rw [rowsAt_of_fits store sheet h]
    rfl
  versions_eq store sheet := rfl
  snapshotAt_congr {store other sheet version} hstore hother h := by
    simp only [CellStore.snapshotAt, TableStore.snapshotAt]
    rw [currentAsOf_min hstore, currentAsOf_min hother, currentAsOf_congr hstore hother h]
  version_le {store latest sheet row} hlatest hrow := by
    have hmem : row.version ∈ store.rows.map (·.version) :=
      List.mem_map_of_mem (mem_journal.1 hrow).1
    simp only [CellStore.latestVersion, TableStore.latestVersion] at hlatest
    cases hmax : (store.rows.map (·.version)).max? with
    | none => simp [List.max?_eq_none_iff.1 hmax] at hmem
    | some newest =>
      have hle := (List.max?_eq_some_iff.1 hmax).2 _ hmem
      rw [hmax] at hlatest
      by_cases hneg : newest < 0
      · simp [hneg] at hlatest
      · simp only [hneg, if_false, Except.ok.injEq] at hlatest
        subst hlatest
        simp only [Option.getD_some]
        omega

end TableStore

end SheetLedger
