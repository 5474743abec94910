import SheetLedger.Proofs.Store.Queries
import SheetLedger.Proofs.Store.Writing

/-!
# The reads of a store agree

A store is filled by writes that it accepts, in any order of versions (`Reached`). Each of its reads
selects rows in a way of its own, and yet they tell one story (`reads_agree`):

* the history of a slot lists the rows stored there, each once, from the oldest to the newest;
* the current row is the last one of the history, and the only one at its slot in the snapshot;
* as of a version, it is the last one of the history up to that version;
* the snapshots change at the versions of the spreadsheet and nowhere in between.

What ties the reads together is that a sorted history ends with the row that all others are older
than (`Recency.getLast?_eq_some_iff`), which is the row that the other reads look for.
-/

namespace SheetLedger

/-! ## The end of a history -/

namespace Recency

variable {rows : List Cell} {slot : Slot} {c : Cell}

/-- Rows that stand in order, the oldest first. -/
def Chronological (rows : List Cell) : Prop :=
  rows.Pairwise fun a b => b.newer a = true

theorem chronological_perm (rows : List Cell) : (chronological rows).Perm rows :=
  List.mergeSort_perm _ _

theorem mem_chronological : c ∈ chronological rows ↔ c ∈ rows :=
  (chronological_perm rows).mem_iff

theorem pairwise_chronological (hids : rows.Pairwise fun a b => a.id ≠ b.id) :
    Chronological (chronological rows) := by
  have hsorted : (chronological rows).Pairwise fun a b => a.newer b = false := by
    refine (List.pairwise_mergeSort ?_ ?_ rows).imp ?_
    · intro a b c hab hbc
      simp only [Bool.not_eq_true', Bool.eq_false_iff, ne_eq, Cell.newer_iff] at *
      omega
    · intro a b
      simp only [Bool.or_eq_true, Bool.not_eq_true', Bool.eq_false_iff, ne_eq, Cell.newer_iff]
      omega
    · intro a b hab
      exact Bool.not_eq_true' _ ▸ hab
  have hids' : (chronological rows).Pairwise fun a b => a.id ≠ b.id :=
    (chronological_perm rows).symm.pairwise hids Ne.symm
  refine (hsorted.and hids').imp ?_
  rintro a b ⟨hnewer, hid⟩
  rcases Cell.newer_total hid with h | h
  · rw [hnewer] at h
    cases h
  · exact h

/-- Rows in order end with the one that all others are older than. -/
theorem getLast?_eq_some_iff (h : Chronological rows) :
    rows.getLast? = some c ↔ c ∈ rows ∧ ∀ other ∈ rows, other = c ∨ c.newer other = true := by
  rcases List.eq_nil_or_concat rows with rfl | ⟨earlier, last, rfl⟩
  · simp
  · rw [List.concat_eq_append] at h ⊢
    have hlast : ∀ other ∈ earlier, last.newer other = true := by
      intro other hother
      exact (List.pairwise_append.1 h).2.2 other hother last (List.mem_singleton_self last)
    rw [List.getLast?_concat, Option.some.injEq]
    constructor
    · rintro rfl
      refine ⟨by simp, ?_⟩
      intro other hother
      rcases List.mem_append.1 hother with hmem | hmem
      · exact Or.inr (hlast other hmem)
      · exact Or.inl (List.mem_singleton.1 hmem)
    · rintro ⟨hmem, hall⟩
      rcases List.mem_append.1 hmem with hc | hc
      · rcases hall last (by simp) with heq | hnewer
        · exact heq
        · rw [Cell.newer_asymm (hlast c hc)] at hnewer
          cases hnewer
      · exact (List.mem_singleton.1 hc).symm

/-- Of the rows of a slot, the current one is the last in order. -/
theorem isCurrent_iff_getLast? {sorted : List Cell} (h : Chronological sorted)
    (hmem : ∀ row, row ∈ sorted ↔ row ∈ rows.filter (·.slot = slot)) :
    IsCurrent (rows.filter (·.slot = slot)) c ↔ sorted.getLast? = some c := by
  rw [getLast?_eq_some_iff h, IsCurrent, hmem]
  refine and_congr_right ?_
  intro hc
  have hslot : ∀ row ∈ rows.filter (·.slot = slot), row.slot = slot := by
    intro row hrow
    exact of_decide_eq_true (List.mem_filter.1 hrow).2
  constructor
  · intro hall other hother
    rw [hmem] at hother
    exact hall other hother ((hslot other hother).trans (hslot c hc).symm)
  · intro hall other hother _
    exact hall other ((hmem other).2 hother)

/-- What is current at a slot is the last of its rows in order. -/
theorem find?_latest_eq_getLast? (hids : rows.Pairwise fun a b => a.id ≠ b.id)
    {sorted : List Cell} (h : Chronological sorted)
    (hmem : ∀ row, row ∈ sorted ↔ row ∈ rows.filter (·.slot = slot)) :
    (latest rows).find? slot = sorted.getLast? := by
  refine Option.ext ?_
  intro c
  rw [find?_latest_eq_some_iff hids, isCurrent_iff_getLast? h hmem]

theorem newest?_eq_getLast? (hids : rows.Pairwise fun a b => a.id ≠ b.id) :
    newest? rows = (chronological rows).getLast? := by
  have hrows : (rows.map TableRow.ofCell).Pairwise fun a b => a.id ≠ b.id :=
    List.pairwise_map.2 hids
  refine Option.ext ?_
  intro c
  have hsome : newest? rows = some c ↔
      TableStore.newest? (rows.map TableRow.ofCell) = some (TableRow.ofCell c) := by
    rw [Journal.newest?_map_ofCell]
    cases newest? rows with
    | none => simp
    | some row =>
      rw [Option.map_some, Option.some.injEq, Option.some.injEq]
      exact ⟨congrArg TableRow.ofCell, TableRow.ofCell_injective⟩
  rw [hsome, TableStore.newest?_eq_some_iff hrows,
    getLast?_eq_some_iff (pairwise_chronological hids), mem_chronological,
    List.mem_map_of_injective fun _ _ => TableRow.ofCell_injective]
  refine and_congr_right ?_
  intro _
  simp only [List.forall_mem_map, TableRow.older_ofCell, mem_chronological]
  refine forall_congr' fun other => imp_congr_right fun _ => or_congr_left ?_
  exact ⟨fun heq => TableRow.ofCell_injective heq, congrArg TableRow.ofCell⟩

/-! ## The past -/

/-- Versions with the same rows up to them have the same past. -/
theorem latestAsOf_congr {v w : Nat} (h : ∀ row ∈ rows, row.version ≤ v ↔ row.version ≤ w) :
    latestAsOf rows v = latestAsOf rows w := by
  refine congrArg latest (List.filter_congr ?_)
  intro row hrow
  exact decide_eq_decide.2 (h row hrow)

theorem latestAsOf_eq_nil {version : Nat} (h : ∀ row ∈ rows, version < row.version) :
    latestAsOf rows version = [] := by
  have hnil : rows.filter (·.version ≤ version) = [] := by
    rw [List.filter_eq_nil_iff]
    intro row hrow hle
    exact Nat.not_le_of_lt (h row hrow) (of_decide_eq_true hle)
  rw [latestAsOf, hnil, latest, List.foldl_nil, List.mergeSort_nil]

end Recency

/-- The cells of an orderly snapshot at a slot are the one that is found there. -/
theorem Snapshot.Orderly.filter_slot {snapshot : Snapshot} (h : snapshot.Orderly) (slot : Slot) :
    List.filter (·.slot = slot) snapshot = (snapshot.find? slot).toList := by
  have hone : ((snapshot.find? slot).toList).Pairwise fun a b : Cell => a.id < b.id := by
    cases snapshot.find? slot <;> simp
  refine eq_of_increasing (h.filter _).increasing hone ?_
  intro cell
  rw [List.mem_filter, decide_eq_true_eq, Option.mem_toList, h.find?_eq_some_iff]

/-! ## Stores that accepted writes lead to -/

open JournaledStore Recency

section Reached

variable {σ : Type} [CellStore σ]

/-- A store without rows. -/
structure Blank [JournaledStore σ] (store : σ) : Prop where
  sound : Sound store
  journal_eq : ∀ sheet, journal store sheet = []

/-- The answers of a store about a spreadsheet, to whose state `rows` were written, tell one story.
The history is that of a slot, and the past is the snapshot as of a version. -/
structure Agrees (store : σ) (rows : List Cell) (sheet : String) (slot : Slot) (version : Nat)
    (history : List Cell) (snapshot past : Snapshot) (versions : List Nat) : Prop where
  history_eq : CellStore.history store sheet slot = .ok history
  /-- Every row stored at the slot is listed once. -/
  history_perm : history.Perm (rows.filter fun row => row.sheet = sheet ∧ row.slot = slot)
  history_increasing : history.Pairwise fun a b =>
    a.version < b.version ∨ a.version = b.version ∧ a.id < b.id
  current_eq : CellStore.current? store sheet slot = .ok history.getLast?
  snapshot_eq : CellStore.snapshot store sheet none = .ok snapshot
  snapshot_slot : List.filter (·.slot = slot) snapshot = history.getLast?.toList
  others_eq : CellStore.snapshot store sheet (some slot) =
    .ok (List.filter (·.slot ≠ slot) snapshot)
  past_eq : CellStore.snapshotAt store sheet version = .ok past
  past_slot : List.filter (·.slot = slot) past =
    (history.filter (·.version ≤ version)).getLast?.toList
  versions_eq : CellStore.versions store sheet = .ok versions
  versions_decreasing : versions.Pairwise fun a b => b < a
  mem_versions : ∀ v, v ∈ versions ↔ ∃ row ∈ rows, row.sheet = sheet ∧ row.version = v
  /-- The past is that of the newest version up to the one asked for. -/
  past_of_newest : ∀ v ∈ versions, v ≤ version → (∀ u ∈ versions, u ≤ version → u ≤ v) →
    CellStore.snapshotAt store sheet v = .ok past
  past_of_none : (∀ v ∈ versions, version < v) → past = []

/-- The versions of rows that hold cells can be read, and decrease. -/
theorem Journal.exists_versions_eq (rows : List Cell) :
    ∃ versions : List Nat, Journal.versions (rows.map TableRow.ofCell) = .ok versions ∧
      versions.Pairwise (fun a b => b < a) ∧
      ∀ v, v ∈ versions ↔ ∃ row ∈ rows, row.version = v := by
  rcases Journal.exists_stamps_eq rows with ⟨versions, hstamps⟩
  refine ⟨versions, ?_, ?_, ?_⟩
  · rw [Journal.versions, hstamps, Journal.mapM_number_map_ofNat]
  · have hsorted := Journal.pairwise_stamps (rows.map TableRow.ofCell)
    rw [hstamps, List.pairwise_map] at hsorted
    exact hsorted.imp Int.ofNat_lt.1
  · intro v
    have hmem : (v : Int) ∈ Journal.stamps (rows.map TableRow.ofCell) ↔ v ∈ versions := by
      rw [hstamps]
      exact List.mem_map_of_injective fun _ _ => Int.ofNat.inj
    rw [← hmem, Journal.mem_stamps]
    simp only [List.mem_map, exists_exists_and_eq_and, TableRow.ofCell, Int.natCast_inj]

/-- The snapshot as of a version holds the rows up to it that are current among them. -/
theorem snapshotAt_eq_of_journal_eq [LawfulStore σ] {store : σ} {sheet : String} {rows : List Cell}
    (hsound : Sound store) (h : journal store sheet = rows.map TableRow.ofCell) (version : Nat) :
    CellStore.snapshotAt store sheet version = .ok (latestAsOf rows version) := by
  refine (LawfulStore.snapshotAt_eq_ok_iff hsound).2 ⟨?_, ?_⟩
  · rw [h]
    have hasOf : Journal.asOf ([] ++ rows.map TableRow.ofCell) version = _ :=
      Journal.asOf_append version rows
    rw [List.nil_append] at hasOf
    rw [hasOf]
    exact LogStore.readable _
  · rw [cells, h, Journal.cells_map_ofCell]

theorem snapshot_eq_of_journal_eq [LawfulStore σ] {store : σ} {sheet : String} {rows : List Cell}
    (hsound : Sound store) (h : journal store sheet = rows.map TableRow.ofCell)
    (excluded : Option Slot) :
    CellStore.snapshot store sheet excluded = .ok ((latest rows).excluding excluded) := by
  refine (LawfulStore.snapshot_eq_ok_iff hsound).2 ⟨?_, ?_⟩
  · rw [h]
    exact LogStore.readable rows
  · rw [cells, h, Journal.cells_map_ofCell]

/-- The reads of any store that answers by queries agree, once accepted writes have filled it. -/
theorem Reached.agrees [QueriedStore σ] {first store : σ} {rows : List Cell} (hfirst : Blank first)
    (h : Reached first store rows) {slot : Slot} (hslot : FitsSlot σ slot) (sheet : String)
    (version : Nat) :
    ∃ history snapshot past versions,
      Agrees store rows sheet slot version history snapshot past versions := by
  have happends := h.appends hfirst.sound
  have hsound := happends.sound
  let mine := rows.filter (·.sheet = sheet)
  have hjournal : journal store sheet = mine.map TableRow.ofCell := by
    rw [happends.journal_eq, hfirst.journal_eq, List.nil_append]
  have hids : mine.Pairwise fun a b => a.id ≠ b.id :=
    (ids_ne happends.increasing_ids).filter _
  have hsorted : Chronological (chronological (mine.filter (·.slot = slot))) :=
    pairwise_chronological (hids.filter _)
  have hpast := snapshotAt_eq_of_journal_eq hsound hjournal
  rcases Journal.exists_versions_eq mine with ⟨versions, hversions, hdecreasing, hmem⟩
  refine ⟨chronological (mine.filter (·.slot = slot)), latest mine, latestAsOf mine version,
    versions, ?_⟩
  constructor
  · rw [QueriedStore.history_eq store sheet hslot, hjournal, Journal.history_map_ofCell]
  · refine (chronological_perm _).trans (List.Perm.of_eq ?_)
    rw [List.filter_filter]
    refine List.filter_congr ?_
    intro row _
    simp only [Bool.decide_and, Bool.and_comm]
  · refine hsorted.imp ?_
    intro a b hab
    exact Cell.newer_iff.1 hab
  · rw [QueriedStore.current?_eq store sheet hslot, hjournal, Journal.current?_map_ofCell,
      newest?_eq_getLast? (hids.filter _)]
  · exact snapshot_eq_of_journal_eq hsound hjournal none
  · rw [(orderly_latest hids).filter_slot, find?_latest_eq_getLast? hids hsorted]
    intro row
    exact mem_chronological
  · exact snapshot_eq_of_journal_eq hsound hjournal (some slot)
  · exact hpast version
  · rw [latestAsOf, (orderly_latest (hids.filter _)).filter_slot,
      find?_latest_eq_getLast? (hids.filter _) (hsorted.filter _)]
    intro row
    simp only [List.mem_filter, mem_chronological]
    exact and_right_comm
  · rw [QueriedStore.versions_eq, hjournal, hversions]
  · exact hdecreasing
  · intro v
    rw [hmem]
    simp only [mine, List.mem_filter, decide_eq_true_eq, and_assoc]
  · intro v _ hle hnewest
    rw [hpast, latestAsOf_congr]
    intro row hrow
    constructor
    · intro hrowle
      exact Nat.le_trans hrowle hle
    · intro hrowle
      exact hnewest row.version ((hmem _).2 ⟨row, hrow, rfl⟩) hrowle
  · intro hnone
    apply latestAsOf_eq_nil
    intro row hrow
    exact hnone row.version ((hmem _).2 ⟨row, hrow, rfl⟩)

end Reached

theorem LogStore.blank_empty : Blank ({} : LogStore) where
  sound := LogStore.sound_empty
  journal_eq _ := rfl

theorem TableStore.blank_empty : Blank ({} : TableStore) where
  sound := TableStore.sound_empty
  journal_eq _ := rfl

/-- The reads of a log store and of a table store agree, whatever accepted writes have filled
them. -/
theorem reads_agree (rows : List Cell) (sheet : String) (slot : Slot) (version : Nat) :
    (∀ store, Reached ({} : LogStore) store rows →
      ∃ history snapshot past versions,
        Agrees store rows sheet slot version history snapshot past versions) ∧
    ∀ store, Reached ({} : TableStore) store rows → FitsSlot TableStore slot →
      ∃ history snapshot past versions,
        Agrees store rows sheet slot version history snapshot past versions := by
  constructor
  · intro store h
    exact h.agrees LogStore.blank_empty (LogStore.fitsSlot slot) sheet version
  · intro store h hslot
    exact h.agrees TableStore.blank_empty hslot sheet version

/-- Rows of two spreadsheets whose versions are out of order and meet in a tie. -/
def shuffled : List Cell :=
  [⟨1, "a", ⟨0, 0⟩, "first", "first", 20⟩, ⟨2, "b", ⟨0, 0⟩, "other", "other", 30⟩,
    ⟨3, "a", ⟨0, 0⟩, "late", "late", 10⟩, ⟨4, "a", ⟨0, 0⟩, "tie", "tie", 20⟩]

theorem reads_agree_shuffled :
    ∃ store, Reached ({} : TableStore) store shuffled ∧ FitsSlot TableStore ⟨0, 0⟩ ∧
      CellStore.history store "a" ⟨0, 0⟩ =
        .ok [⟨3, "a", ⟨0, 0⟩, "late", "late", 10⟩, ⟨1, "a", ⟨0, 0⟩, "first", "first", 20⟩,
          ⟨4, "a", ⟨0, 0⟩, "tie", "tie", 20⟩] ∧
      ∃ history snapshot past versions,
        Agrees store shuffled "a" ⟨0, 0⟩ 15 history snapshot past versions := by
  let cell (sheet raw : String) (version : Nat) : Cell := ⟨0, sheet, ⟨0, 0⟩, raw, raw, version⟩
  have hfirst : Reached ({} : TableStore) _ [] := .start
  have hone := @Reached.insert _ _ _ _ _ _ (cell "a" "first" 20) _ hfirst rfl
  have hthree :=
    @Reached.insertAll _ _ _ _ _ _ [cell "b" "other" 30, cell "a" "late" 10] _ hone rfl
  have hreached := @Reached.insert _ _ _ _ _ _ (cell "a" "tie" 20) _ hthree rfl
  have hfits : FitsSlot TableStore ⟨0, 0⟩ := by
    constructor <;> exact Nat.zero_le _
  refine ⟨_, hreached, hfits, ?_, (reads_agree shuffled "a" ⟨0, 0⟩ 15).2 _ hreached hfits⟩
  -- the one order of the three rows of the slot
  have hsorted : Journal.Chronological (List.map TableRow.ofCell
      [⟨3, "a", ⟨0, 0⟩, "late", "late", 10⟩, ⟨1, "a", ⟨0, 0⟩, "first", "first", 20⟩,
        ⟨4, "a", ⟨0, 0⟩, "tie", "tie", 20⟩]) := by
    unfold Journal.Chronological
    decide
  rw [QueriedStore.history_eq _ "a" hfits, Journal.history,
    ← Journal.eq_chronological (by decide) (by decide) hsorted]
  rfl

end SheetLedger
