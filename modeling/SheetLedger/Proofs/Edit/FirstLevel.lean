import SheetLedger.Proofs.Edit.Consistency
import SheetLedger.Proofs.Formula.Sum

/-!
# The first level of a cascade

The rows of the first level are one for each dependent of the edited cell, in the order of the
snapshot that is read once the cell is stored. A dependent is computed from this snapshot as it is,
while an edit computes a text without the cell that it takes the place of. The two values differ
exactly if the dependent *counts itself*: it is an aggregate over a region that it stands in, and
its old text has a part in the aggregate (`Engine.edit_firstLevel`). A sum over a column that ends
with the sum itself is one (`Engine.firstLevel_ne_tally`).
-/

namespace SheetLedger

/-! ## Aggregates without one of their texts -/

namespace Aggregate

/-- A sum is the same without one of its texts exactly if that one counts as zero. -/
theorem apply_sum_eq_iff (front back : List String) (own : String) :
    sum.apply (front ++ back) = sum.apply (front ++ own :: back) ↔
      (Numeral.signed? own.toList).getD 0 = 0 := by
  show Numeral.ofSigned _ = Numeral.ofSigned _ ↔ _
  rw [Numeral.ofSigned_inj, ← List.singleton_append, total_append, total_append, total_append,
    total_singleton, Int64.add_right_inj, eq_comm, Int64.add_eq_right]

/-- An average is the same without a text that is no number. -/
theorem apply_average_eq {own : String} (h : Decimal.float? own = none)
    (front back : List String) :
    average.apply (front ++ back) = average.apply (front ++ own :: back) := by
  simp only [apply, mean, List.filterMap_append, List.filterMap_cons, h]

end Aggregate

/-! ## Cells that count themselves -/

/-- The text that a cell holds has a part in the value of its own formula: that is an aggregate over
a region with the cell in it, and the text is a number that changes the aggregate. For a sum the
text alone tells: it is a number other than zero. Whether a number changes an average is a matter of
how the means with it and without it are rounded, so there the condition only gives the difference a
name. -/
def Cell.CountsItself (cell : Cell) (snapshot : Snapshot) : Prop :=
  ∃ operation range region, cell.formula = .aggregate operation range ∧
    Region.ofText range = .ok region ∧ region.contains cell.slot = true ∧
    match operation with
    | .sum => (Numeral.signed? cell.computed.toList).getD 0 ≠ 0
    | .average => Decimal.float? cell.computed ≠ none ∧
        Aggregate.average.apply ((snapshot.without cell.slot).valuesIn region) ≠
          Aggregate.average.apply (snapshot.valuesIn region)

variable {snapshot : Snapshot} {changed : Slot} {dependent : Cell} {value marker : String}

/-- An orderly snapshot without one of its cells has all others left, in their order. -/
theorem Snapshot.Orderly.exists_split (h : snapshot.Orderly) {cell : Cell}
    (hmem : cell ∈ snapshot) :
    ∃ front back, snapshot = front ++ cell :: back ∧
      snapshot.without cell.slot = front ++ back := by
  rcases List.append_of_mem hmem with ⟨front, back, rfl⟩
  refine ⟨front, back, rfl, ?_⟩
  rcases List.pairwise_append.1 h.single with ⟨-, hback, hfront⟩
  have hkeep : ∀ other ∈ front ++ back, decide (other.slot ≠ cell.slot) = true := by
    intro other hother
    rcases List.mem_append.1 hother with hin | hin
    · exact decide_eq_true (hfront other hin cell List.mem_cons_self)
    · exact decide_eq_true (Ne.symm ((List.pairwise_cons.1 hback).1 other hin))
  have hleft := List.filter_eq_self.2 hkeep
  rw [List.filter_append] at hleft
  rw [Snapshot.without, List.filter_append, List.filter_cons_of_neg (by simp), hleft]

/-- An aggregate over a region with its own cell in it counts itself if it is another one without
that cell. -/
theorem Cell.countsItself_iff {cell : Cell} {operation : Aggregate} {range : String}
    {region : Region} (h : snapshot.Orderly) (hmem : cell ∈ snapshot)
    (hformula : cell.formula = .aggregate operation range)
    (hrange : Region.ofText range = .ok region) (hown : region.contains cell.slot = true) :
    cell.CountsItself snapshot ↔
      operation.apply ((snapshot.without cell.slot).valuesIn region) ≠
        operation.apply (snapshot.valuesIn region) := by
  -- the text of the cell stands between those of the others
  obtain ⟨front, back, hvalues, hothers⟩ : ∃ front back,
      snapshot.valuesIn region = front ++ cell.computed :: back ∧
      (snapshot.without cell.slot).valuesIn region = front ++ back := by
    rcases h.exists_split hmem with ⟨before, after, hsplit, hwithout⟩
    refine ⟨Snapshot.valuesIn before region, Snapshot.valuesIn after region, ?_, ?_⟩
    · rw [hsplit]
      simp only [Snapshot.valuesIn, List.filter_append, List.filter_cons, hown, if_true,
        List.map_append, List.map_cons]
    · rw [hwithout]
      simp only [Snapshot.valuesIn, List.filter_append, List.map_append]
  rw [hvalues, hothers]
  constructor
  · rintro ⟨_, _, _, heq, hregion, -, hcounts⟩
    rw [hformula] at heq
    cases heq
    rw [hrange] at hregion
    cases hregion
    cases operation with
    | sum => exact (Aggregate.apply_sum_eq_iff _ _ _).not.2 hcounts
    | average => rw [← hvalues, ← hothers]; exact hcounts.2
  · intro hne
    refine ⟨operation, range, region, hformula, hrange, hown, ?_⟩
    cases operation with
    | sum => exact (Aggregate.apply_sum_eq_iff _ _ _).not.1 hne
    | average =>
      rw [hvalues, hothers]
      exact ⟨fun hnone => hne (Aggregate.apply_average_eq hnone _ _), hne⟩

/-- A dependent has the same value without its own cell exactly if it does not count itself. -/
theorem Cell.compute_without_eq_iff (h : snapshot.Orderly)
    (hdependent : dependent ∈ snapshot.dependents changed)
    (hvalue : dependent.formula.evaluate snapshot = .ok value) :
    (dependent.formula.compute (snapshot.without dependent.slot) marker).value = value ↔
      ¬ dependent.CountsItself snapshot := by
  rcases Snapshot.mem_dependents.1 hdependent with ⟨hmem, hne, hreads⟩
  -- a formula that does not read its own slot has the same value without it
  have hsame : dependent.formula.dependsOn dependent.slot = false →
      (dependent.formula.compute (snapshot.without dependent.slot) marker).value = value := by
    intro hown
    have hwithout : dependent.formula.evaluate (snapshot.without dependent.slot) = .ok value := by
      rw [← hvalue]
      refine Formula.evaluate_eq_of_find?_eq (h.without _) h fun y hy => ?_
      rw [Snapshot.find?_without, if_neg]
      rintro rfl
      rw [hown] at hy
      cases hy
    exact Formula.compute_of_evaluate hwithout
  cases hformula : dependent.formula with
  | literal raw | unrecognized raw =>
    rw [hformula] at hreads
    cases hreads
  | reference code =>
    -- it reads the changed slot and no other
    rw [hformula] at hsame hreads
    refine iff_of_true (hsame ?_) ?_
    · simp only [Formula.dependsOn] at hreads ⊢
      cases hcode : Slot.ofCode code with
      | error cause => rfl
      | ok target =>
        simp only [hcode, decide_eq_true_eq] at hreads
        exact decide_eq_false fun htarget => hne (htarget.symm.trans hreads)
    · rintro ⟨_, _, _, heq, -⟩
      rw [hformula] at heq
      cases heq
  | aggregate operation range =>
    rw [hformula] at hsame hreads hvalue
    cases hrange : Region.ofText range with
    | error cause => simp [Formula.dependsOn, hrange] at hreads
    | ok region =>
      by_cases hown : region.contains dependent.slot = true
      · have hevaluate : ∀ s : Snapshot, (Formula.aggregate operation range).evaluate s =
            .ok (operation.apply (s.valuesIn region)) := fun s => by
          simp [Formula.evaluate, hrange, bind, Except.bind, pure, Except.pure]
        rw [hevaluate, Except.ok.injEq] at hvalue
        rw [Formula.compute_of_evaluate (hevaluate _), countsItself_iff h hmem hformula hrange hown,
          not_not, hvalue]
      · refine iff_of_true (hsame ?_) ?_
        · simpa [Formula.dependsOn, hrange] using hown
        · rintro ⟨_, _, _, heq, hregion, hcontains, -⟩
          rw [hformula] at heq
          cases heq
          rw [hrange] at hregion
          cases hregion
          exact hown hcontains

/-! ## The rows of the first level -/

/-- A row of the first level for a dependent in the snapshot that is read after the edit. -/
structure Cell.FirstLevel (snapshot : Snapshot) (marker : String) (dependent row : Cell) :
    Prop where
  slot_eq : row.slot = dependent.slot
  raw_eq : row.raw = dependent.raw
  /-- It holds the value of its formula in the snapshot as it is, which exists. -/
  evaluate_eq : dependent.formula.evaluate snapshot = .ok row.computed
  /-- That is the value that an edit would compute if the dependent does not count itself, and only
  then. -/
  agrees_iff : (dependent.formula.compute (snapshot.without dependent.slot) marker).value =
    row.computed ↔ ¬ dependent.CountsItself snapshot

theorem Cell.firstLevel_renewed (h : snapshot.Orderly)
    (hstands : ∃ cell ∈ snapshot, cell.slot = changed)
    (hdependent : dependent ∈ snapshot.dependents changed) (id version : Nat) :
    FirstLevel snapshot marker dependent (dependent.renewed id version snapshot) := by
  obtain ⟨value, hvalue⟩ :=
    Formula.exists_value_of_dependsOn (Snapshot.mem_dependents.1 hdependent).2.2 hstands
  have hcomputed : (dependent.renewed id version snapshot).computed = value :=
    Formula.value_of_evaluate hvalue
  refine ⟨rfl, rfl, ?_, ?_⟩
  · rw [hcomputed, hvalue]
  · rw [hcomputed]
    exact compute_without_eq_iff h hdependent hvalue

/-- The visits to some dependents bring one row for each of them, in their order. -/
theorem Cascade.forall₂_visitAll_row {version lastId : Nat} {entry : Pending}
    {related : Cell → Cell → Prop} {dependents : List Cell}
    (h : ∀ d ∈ dependents, ∀ id, related d (d.renewed id version entry.snapshot)) :
    List.Forall₂ related dependents
      ((visitAll version entry lastId dependents).map (·.row)) := by
  induction dependents generalizing lastId with
  | nil => exact .nil
  | cons d rest ih =>
    exact .cons (h d List.mem_cons_self _) (ih fun e he => h e (List.mem_cons_of_mem _ he))

/-- The rows of a cascade are those of its first level, and then others. -/
theorem Cascade.rows_start_succ (version lastId n : Nat) (changed : Slot) (snapshot : Snapshot) :
    rows version (start (n + 1) lastId changed snapshot) (n + 1) =
      (visitAll version ⟨changed, snapshot, n + 1⟩ lastId (snapshot.dependents changed)).map
          (·.row) ++
        rows version ((start (n + 1) lastId changed snapshot).next version) n := by
  rw [rows_succ]
  simp only [start, sweep, List.append_nil]

namespace Engine

open JournaledStore

variable {σ : Type} [CellStore σ] [LawfulStore σ] {engine later : Engine σ} {now : Nat}
  {sheet raw : String} {slot : Slot} {cell : Cell}

/-- After an edited cell come the rows for its dependents, in the order of the snapshot that can be
read once the cell is stored. -/
theorem edit_firstLevel (hsound : Sound engine.store)
    (hstored : storedBy (edit now sheet slot raw engine) = some (cell, later))
    (hdepth : 0 < engine.settings.cascadeDepth) :
    ∃ mid first rest,
      CellStore.insert { cell with id := 0 } engine.store = .ok cell.id mid ∧
      CellStore.snapshot mid sheet none = .ok (engine.baseline cell) ∧
      Appends engine.store later.store (cell :: (first ++ rest)) ∧
      List.Forall₂ (Cell.FirstLevel (engine.baseline cell) engine.settings.errorMarker)
        ((engine.baseline cell).dependents slot) first := by
  rcases accepted_of_storedBy hsound hstored with ⟨evaluation, hcell, haccepted⟩
  rcases haccepted.planned with ⟨others, hplanned⟩
  have hreadable := ((LawfulStore.snapshot_eq_ok_iff hsound).1 hplanned.read).1
  have happends := haccepted.appends
  have hfits := haccepted.fits
  rw [← hcell] at happends hfits
  have hid : cell.id = lastId engine.store + 1 := by rw [hcell]; rfl
  have hsheet : cell.sheet = sheet := by rw [hcell]; rfl
  have hslot : cell.slot = slot := by rw [hcell]; rfl
  obtain ⟨mid, hinsert, -, hsnapshot⟩ := exists_inserted hsound hid (hsheet ▸ hreadable) hfits
  have hready := ready_baseline hsound hid engine.settings.cascadeDepth _ List.mem_cons_self
  rcases Nat.exists_eq_succ_of_ne_zero (Nat.ne_of_gt hdepth) with ⟨n, hn⟩
  rw [cascadeRows, hn, Cascade.rows_start_succ] at happends
  refine ⟨mid, _, _, hinsert, hsheet ▸ hsnapshot, happends, ?_⟩
  rw [← hslot]
  exact Cascade.forall₂_visitAll_row fun d hd id =>
    Cell.firstLevel_renewed (orderly_baseline hsound hid) hready.stands hd id _

/-- A spreadsheet whose second cell adds up the first one and itself. -/
def tally : Engine LogStore where
  store := ((({} : LogStore).insert ⟨0, "1", ⟨0, 0⟩, "1", "1", 1⟩).2.insert
    ⟨0, "1", ⟨1, 0⟩, "=SUM(A1:B1)", "1", 2⟩).2
  directory := { sheets := [⟨"1", "One", 10, 5⟩] }
  clock := .wall
  settings := {}

theorem sound_tally : Sound tally.store :=
  (LogStore.sound_empty.insert _).insert _

theorem baseline_tally : tally.baseline ⟨3, "1", ⟨0, 0⟩, "2", "2", 5⟩ =
    [⟨2, "1", ⟨1, 0⟩, "=SUM(A1:B1)", "1", 2⟩, ⟨3, "1", ⟨0, 0⟩, "2", "2", 5⟩] := by
  cbv

/-- The old value of the sum is a part of the new one. -/
theorem exists_edit_tally :
    ∃ later, storedBy (edit 5 "1" ⟨0, 0⟩ "2" tally) =
        some (⟨3, "1", ⟨0, 0⟩, "2", "2", 5⟩, later) ∧
      Appends tally.store later.store
        [⟨3, "1", ⟨0, 0⟩, "2", "2", 5⟩, ⟨4, "1", ⟨1, 0⟩, "=SUM(A1:B1)", "3", 5⟩] := by
  have hplan : tally.plan "1" ⟨0, 0⟩ "2" = .ok ⟨"2", none⟩ := by cbv
  have hrows : tally.cascadeRows ⟨3, "1", ⟨0, 0⟩, "2", "2", 5⟩ =
      [⟨4, "1", ⟨1, 0⟩, "=SUM(A1:B1)", "3", 5⟩] := by
    unfold cascadeRows
    rw [baseline_tally]
    decide +kernel
  have hedited : tally.edited 5 "1" ⟨0, 0⟩ "2" ⟨"2", none⟩ = ⟨3, "1", ⟨0, 0⟩, "2", "2", 5⟩ := by cbv
  rcases storedBy_of_fits 5 sound_tally hplan (LogStore.fits _) with ⟨later, hstored, haccepted⟩
  have happends := haccepted.appends
  rw [hedited] at hstored happends
  rw [hrows] at happends
  exact ⟨later, hstored, happends⟩

theorem edit_firstLevel_tally :
    Sound tally.store ∧ 0 < tally.settings.cascadeDepth ∧
    ∃ later mid first rest,
      storedBy (edit 5 "1" ⟨0, 0⟩ "2" tally) = some (⟨3, "1", ⟨0, 0⟩, "2", "2", 5⟩, later) ∧
      CellStore.insert ⟨0, "1", ⟨0, 0⟩, "2", "2", 5⟩ tally.store = .ok 3 mid ∧
      CellStore.snapshot mid "1" none = .ok (tally.baseline ⟨3, "1", ⟨0, 0⟩, "2", "2", 5⟩) ∧
      Appends tally.store later.store
        (⟨3, "1", ⟨0, 0⟩, "2", "2", 5⟩ :: (first ++ rest)) ∧
      List.Forall₂ (Cell.FirstLevel (tally.baseline ⟨3, "1", ⟨0, 0⟩, "2", "2", 5⟩) "ERROR")
        [⟨2, "1", ⟨1, 0⟩, "=SUM(A1:B1)", "1", 2⟩] first := by
  rcases exists_edit_tally with ⟨later, hstored, -⟩
  have hdepth : 0 < tally.settings.cascadeDepth := by decide
  rcases edit_firstLevel sound_tally hstored hdepth with
    ⟨mid, first, rest, hinsert, hsnapshot, happends, hfirst⟩
  have hdependents : (tally.baseline ⟨3, "1", ⟨0, 0⟩, "2", "2", 5⟩).dependents ⟨0, 0⟩ =
      [⟨2, "1", ⟨1, 0⟩, "=SUM(A1:B1)", "1", 2⟩] := by
    rw [baseline_tally]
    decide +kernel
  rw [hdependents] at hfirst
  exact ⟨sound_tally, hdepth, later, mid, first, rest, hstored, hinsert, hsnapshot, happends,
    hfirst⟩

/-- The cascade brings the sum to three, while an edit that writes the same text into its cell
computes two. -/
theorem firstLevel_ne_tally :
    ∃ later dependent row,
      storedBy (edit 5 "1" ⟨0, 0⟩ "2" tally) = some (⟨3, "1", ⟨0, 0⟩, "2", "2", 5⟩, later) ∧
      dependent ∈ (tally.baseline ⟨3, "1", ⟨0, 0⟩, "2", "2", 5⟩).dependents ⟨0, 0⟩ ∧
      Appends tally.store later.store [⟨3, "1", ⟨0, 0⟩, "2", "2", 5⟩, row] ∧
      row.slot = dependent.slot ∧ row.raw = dependent.raw ∧ row.computed = "3" ∧
      (dependent.formula.compute
        ((tally.baseline ⟨3, "1", ⟨0, 0⟩, "2", "2", 5⟩).without dependent.slot) "ERROR").value =
          "2" := by
  rcases exists_edit_tally with ⟨later, hstored, happends⟩
  refine ⟨later, ⟨2, "1", ⟨1, 0⟩, "=SUM(A1:B1)", "1", 2⟩, _, hstored, ?_, happends, rfl, rfl, rfl,
    ?_⟩
  · rw [baseline_tally]
    decide +kernel
  · rw [baseline_tally]
    decide +kernel

end Engine

end SheetLedger
