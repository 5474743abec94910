import SheetLedger.Formula.Dependents
import SheetLedger.Formula.Evaluation
import SheetLedger.Proofs.Snapshot

/-!
# What a formula reads

`Formula.dependsOn` and `Formula.evaluate` are separate interpretations of a formula, and this
module ties them together: a formula's value is settled by what it sees of the cells at the slots it
depends on, in their order (`Formula.evaluate_eq_of_seen_eq`), and a formula that depends on a slot
where a cell stands has a value (`Formula.exists_value_of_dependsOn`). Nor is it said to depend on
a slot for nothing: some two cells there give it different values (`Formula.dependsOn_exact`).
-/

namespace SheetLedger

/-- What is seen of a cell by a formula that reads it and by the search for dependents: neither its
id nor its version. -/
def Cell.seen (cell : Cell) : Slot × String × String := (cell.slot, cell.raw, cell.computed)

theorem Cell.seen_eq_iff {a b : Cell} :
    a.seen = b.seen ↔ a.slot = b.slot ∧ a.raw = b.raw ∧ a.computed = b.computed := by
  simp [seen]

namespace Snapshot

/-- Taking out the cells at a slot leaves those at other slots as they are. -/
theorem filter_without {p : Slot → Bool} {slot : Slot} (h : p slot = false) (snapshot : Snapshot) :
    List.filter (fun cell => p cell.slot) (snapshot.without slot) =
      List.filter (fun cell => p cell.slot) snapshot := by
  rw [without, List.filter_filter]
  refine List.filter_congr fun cell _ => ?_
  by_cases hslot : cell.slot = slot
  · simp [hslot, h]
  · simp [hslot]

/-- So does swapping in a cell. -/
theorem filter_replace {p : Slot → Bool} {fresh : Cell} (h : p fresh.slot = false)
    (snapshot : Snapshot) :
    List.filter (fun cell => p cell.slot) (snapshot.replace fresh) =
      List.filter (fun cell => p cell.slot) snapshot := by
  rw [replace, List.filter_append, filter_without h, List.filter_singleton, h]
  exact List.append_nil _

end Snapshot

/-- An aggregate tells a zero from a one. -/
theorem Aggregate.apply_zero_ne_one (operation : Aggregate) :
    operation.apply ["0"] ≠ operation.apply ["1"] := by
  cases operation <;> decide +kernel

namespace Formula

variable {formula : Formula} {a b : Snapshot} {slot : Slot}

/-- Two snapshots in which a formula sees the same of the cells that it depends on give it the same
value. -/
theorem evaluate_eq_of_seen_eq
    (h : (List.filter (fun cell => formula.dependsOn cell.slot) a).map Cell.seen =
      (List.filter (fun cell => formula.dependsOn cell.slot) b).map Cell.seen) :
    formula.evaluate a = formula.evaluate b := by
  cases formula with
  | literal raw => rfl
  | unrecognized raw => rfl
  | reference code =>
    simp only [dependsOn] at h
    cases hcode : Slot.ofCode code with
    | error cause => simp [evaluate, hcode, bind, Except.bind]
    | ok target =>
      simp only [hcode] at h
      -- `find?` takes the first of the cells that the hypothesis says look the same
      have hfind : (a.find? target).map Cell.seen = (b.find? target).map Cell.seen := by
        simp only [Snapshot.find?, ← List.head?_filter, eq_comm (b := target), ← List.head?_map]
        exact congrArg List.head? h
      have hcomputed := congrArg (Option.map (·.2.2)) hfind
      simp only [Option.map_map, Function.comp_def, Cell.seen] at hcomputed
      simp only [evaluate, hcode, bind, Except.bind]
      cases ha : a.find? target <;> cases hb : b.find? target <;> simp_all
  | aggregate operation region =>
    simp only [dependsOn] at h
    cases hregion : Region.ofText region with
    | error cause => simp [evaluate, hregion, bind, Except.bind]
    | ok rectangle =>
      simp only [hregion] at h
      have hvalues : a.valuesIn rectangle = b.valuesIn rectangle := by
        have hcomputed := congrArg (List.map (·.2.2)) h
        simpa only [List.map_map, Function.comp_def, Cell.seen, Snapshot.valuesIn] using hcomputed
      simp [evaluate, hregion, bind, Except.bind, hvalues]

/-- Two orderly snapshots that hold the same at the slots that a formula depends on give it the
same value. -/
theorem evaluate_eq_of_find?_eq (ha : a.Orderly) (hb : b.Orderly)
    (h : ∀ slot, formula.dependsOn slot = true → a.find? slot = b.find? slot) :
    formula.evaluate a = formula.evaluate b :=
  evaluate_eq_of_seen_eq (congrArg (List.map Cell.seen)
    (Snapshot.filter_eq_of_find?_eq ha hb formula.dependsOn h))

/-- A formula that depends on a slot where a cell stands has a value. -/
theorem exists_value_of_dependsOn (h : formula.dependsOn slot = true)
    (hmem : ∃ cell ∈ a, cell.slot = slot) : ∃ value, formula.evaluate a = .ok value := by
  cases formula with
  | literal raw => exact ⟨raw, rfl⟩
  | unrecognized raw => exact ⟨raw, rfl⟩
  | reference code =>
    simp only [dependsOn] at h
    cases hcode : Slot.ofCode code with
    | error cause => simp [hcode] at h
    | ok target =>
      -- a reference depends on one slot, so the given slot is its target
      have htarget : target = slot := by simpa [hcode] using h
      rcases hmem with ⟨cell, hcell, hslot⟩
      rcases Snapshot.exists_find?_of_mem hcell with ⟨found, hfound⟩
      rw [hslot, ← htarget] at hfound
      refine ⟨found.computed, ?_⟩
      simp [evaluate, hcode, bind, Except.bind, hfound, pure, Except.pure]
  | aggregate operation region =>
    simp only [dependsOn] at h
    cases hregion : Region.ofText region with
    | error cause => simp [hregion] at h
    | ok rectangle =>
      -- an aggregate has a value over any rectangle, also over one without cells
      refine ⟨operation.apply (a.valuesIn rectangle), ?_⟩
      simp [evaluate, hregion, bind, Except.bind, pure, Except.pure]

/-- The value of a formula, an empty text where it has none. -/
def value (formula : Formula) (snapshot : Snapshot) : String :=
  (formula.compute snapshot "").value

theorem value_of_evaluate {text : String} (h : formula.evaluate a = .ok text) :
    formula.value a = text := by
  simp [value, compute, h]

theorem compute_of_evaluate {text marker : String} (h : formula.evaluate a = .ok text) :
    (formula.compute a marker).value = text := by
  simp [compute, h]

theorem compute_eq_of_evaluate_eq {marker : String} (h : formula.evaluate a = formula.evaluate b) :
    formula.compute a marker = formula.compute b marker := by
  unfold compute
  rw [h]

/-! ## Slots that make a difference -/

/-- A cell at a slot that a formula does not depend on, or none there, makes no difference. -/
theorem evaluate_without (h : formula.dependsOn slot = false) (snapshot : Snapshot) :
    formula.evaluate (snapshot.without slot) = formula.evaluate snapshot :=
  evaluate_eq_of_seen_eq (congrArg (List.map Cell.seen) (Snapshot.filter_without h snapshot))

theorem evaluate_replace {fresh : Cell} (h : formula.dependsOn fresh.slot = false)
    (snapshot : Snapshot) : formula.evaluate (snapshot.replace fresh) = formula.evaluate snapshot :=
  evaluate_eq_of_seen_eq (congrArg (List.map Cell.seen) (Snapshot.filter_replace h snapshot))

/-- At a slot that a formula depends on, a zero and a one make a difference. -/
theorem evaluate_zero_ne_one (h : formula.dependsOn slot = true) :
    formula.evaluate [⟨0, "", slot, "0", "0", 0⟩] ≠
      formula.evaluate [⟨0, "", slot, "1", "1", 0⟩] := by
  cases formula with
  | literal raw | unrecognized raw => cases h
  | reference code =>
    simp only [dependsOn] at h
    cases hcode : Slot.ofCode code with
    | error cause => simp [hcode] at h
    | ok target =>
      have htarget : target = slot := by simpa [hcode] using h
      simp [evaluate, hcode, htarget, Snapshot.find?, bind, Except.bind, pure, Except.pure]
  | aggregate operation range =>
    simp only [dependsOn] at h
    cases hrange : Region.ofText range with
    | error cause => simp [hrange] at h
    | ok region =>
      have hin : region.contains slot = true := by simpa [hrange] using h
      simpa [evaluate, hrange, hin, Snapshot.valuesIn, bind, Except.bind, pure, Except.pure]
        using operation.apply_zero_ne_one

/-- A formula depends on a slot exactly if what stands there can make a difference to its value. -/
theorem dependsOn_exact (formula : Formula) (slot : Slot) :
    (formula.dependsOn slot = true ↔
      ∃ (snapshot : Snapshot) (x y : Cell), x.slot = slot ∧ y.slot = slot ∧
        formula.evaluate (snapshot.replace x) ≠ formula.evaluate (snapshot.replace y)) ∧
    (formula.dependsOn slot = false →
      ∀ snapshot : Snapshot,
        formula.evaluate (snapshot.without slot) = formula.evaluate snapshot ∧
        ∀ x : Cell, x.slot = slot →
          formula.evaluate (snapshot.replace x) = formula.evaluate snapshot) := by
  have hunread : formula.dependsOn slot = false → ∀ (snapshot : Snapshot) (x : Cell),
      x.slot = slot → formula.evaluate (snapshot.replace x) = formula.evaluate snapshot := by
    rintro h snapshot x rfl
    exact evaluate_replace h snapshot
  refine ⟨⟨?_, ?_⟩, ?_⟩
  · intro h
    exact ⟨[], _, _, rfl, rfl, evaluate_zero_ne_one h⟩
  · rintro ⟨snapshot, x, y, hx, hy, hne⟩
    by_contra h
    rw [Bool.not_eq_true] at h
    exact hne ((hunread h snapshot x hx).trans (hunread h snapshot y hy).symm)
  · intro h snapshot
    exact ⟨evaluate_without h snapshot, hunread h snapshot⟩

end Formula

namespace Snapshot

variable {snapshot : Snapshot} {changed : Slot} {cell : Cell}

theorem mem_dependents :
    cell ∈ snapshot.dependents changed ↔
      cell ∈ snapshot ∧ cell.slot ≠ changed ∧ cell.formula.dependsOn changed = true := by
  simp [dependents]

end Snapshot

end SheetLedger
