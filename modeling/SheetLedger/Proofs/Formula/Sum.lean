import Mathlib.Algebra.BigOperators.Group.List.Basic
import Mathlib.Data.List.Forall2
import SheetLedger.Formula.Evaluation
import SheetLedger.Proofs.Text.Signed

/-!
# Sums

A sum wraps around after each number that it adds, and still its text is that of the exact sum of
all its numbers, brought once into the range of 64 bits (`Formula.evaluate_sum`): wrapping respects
addition. So the cells may stand in any order, and of regions without a common slot the sums may be
taken one by one. As the text of a sum is read back as its number, these sums may also be taken by
cells, over which another sum goes (`Formula.sum_exact`).
-/

namespace SheetLedger

/-! ## Totals of texts -/

/-- The exact sum of the texts that are signed numbers of 64 bits. -/
def Numeral.exactSum (texts : List String) : Int :=
  ((texts.filterMap (Numeral.signed? ·.toList)).map Int64.toInt).sum

/-- The number of 64 bits that is left of a total once all multiples of `2 ^ 64` are taken off. -/
structure Numeral.IsResidue (total n : Int) : Prop where
  lower : -2 ^ 63 ≤ n
  upper : n < 2 ^ 63
  dvd : 2 ^ 64 ∣ n - total

namespace Numeral

variable {total m n : Int}

theorem isResidue_ofInt (total : Int) : IsResidue total (Int64.ofInt total).toInt where
  lower := Int64.le_toInt _
  upper := Int64.toInt_lt _
  dvd := by
    rw [Int64.toInt_ofInt]
    exact Int.dvd_bmod_sub_self

theorem IsResidue.unique (hm : IsResidue total m) (hn : IsResidue total n) : m = n := by
  obtain ⟨a, ha⟩ := hm.dvd
  obtain ⟨b, hb⟩ := hn.dvd
  have := hm.lower
  have := hm.upper
  have := hn.lower
  have := hn.upper
  omega

theorem exactSum_append (front back : List String) :
    exactSum (front ++ back) = exactSum front + exactSum back := by
  simp only [exactSum, List.filterMap_append, List.map_append, List.sum_append]

theorem exactSum_perm {texts others : List String} (h : texts.Perm others) :
    exactSum texts = exactSum others :=
  ((h.filterMap _).map _).sum_eq

end Numeral

namespace Aggregate

theorem total_append (front back : List String) :
    total (front ++ back) = total front + total back := by
  unfold total
  rw [List.filterMap_append, List.foldl_append]
  generalize (front.filterMap _).foldl _ _ = n
  nth_rewrite 1 [← Int64.add_zero n]
  rw [List.foldl_assoc]

/-- A text that is no signed number counts as zero. -/
theorem total_singleton (text : String) :
    total [text] = (Numeral.signed? text.toList).getD 0 := by
  unfold total
  rw [List.filterMap_cons]
  cases Numeral.signed? text.toList <;> simp

/-- Wrapping around at every step comes to the same as wrapping once. -/
theorem total_eq_ofInt (texts : List String) :
    total texts = Int64.ofInt (Numeral.exactSum texts) := by
  induction texts with
  | nil => rfl
  | cons text rest ih =>
    have hfirst : total [text] = Int64.ofInt (Numeral.exactSum [text]) := by
      rw [total_singleton, Numeral.exactSum]
      cases h : Numeral.signed? text.toList with
      | none => simp [h]
      | some m => simp [h]
    calc total (text :: rest)
        = total [text] + total rest := total_append [text] rest
      _ = Int64.ofInt (Numeral.exactSum [text]) + Int64.ofInt (Numeral.exactSum rest) := by
          rw [hfirst, ih]
      _ = Int64.ofInt (Numeral.exactSum (text :: rest)) := by
          rw [← Int64.ofInt_add, ← Numeral.exactSum_append, List.singleton_append]

end Aggregate

/-! ## Totals of slots -/

/-- Two regions have no slot in common. -/
def Region.Disjoint (a b : Region) : Prop :=
  ∀ slot, ¬ (a.contains slot = true ∧ b.contains slot = true)

/-- The two parts of a region that is cut behind one of its columns or rows but the last. -/
inductive Region.Cut (region : Region) : Region → Region → Prop where
  | column {c : Nat} : region.first.column ≤ c → c < region.last.column →
      Cut region ⟨region.first, ⟨c, region.last.row⟩⟩ ⟨⟨c + 1, region.first.row⟩, region.last⟩
  | row {r : Nat} : region.first.row ≤ r → r < region.last.row →
      Cut region ⟨region.first, ⟨region.last.column, r⟩⟩ ⟨⟨region.first.column, r + 1⟩, region.last⟩

theorem Region.contains_iff {region : Region} {slot : Slot} :
    region.contains slot = true ↔
      (region.first.column ≤ slot.column ∧ slot.column ≤ region.last.column) ∧
        region.first.row ≤ slot.row ∧ slot.row ≤ region.last.row := by
  simp [contains, and_assoc]

/-- The parts of a region are disjoint and make up the region. -/
theorem Region.Cut.spec {region left right : Region} (h : region.Cut left right) :
    left.Disjoint right ∧
      ∀ slot, (left.contains slot || right.contains slot) = region.contains slot := by
  have hiff : (∀ slot, left.contains slot = true ∨ right.contains slot = true ↔
      region.contains slot = true) ∧ left.Disjoint right := by
    cases h <;> simp only [Disjoint, Region.contains_iff] <;> constructor <;> intro slot <;> omega
  refine ⟨hiff.2, fun slot => Bool.eq_iff_iff.2 ?_⟩
  rw [Bool.or_eq_true]
  exact hiff.1 slot

namespace Snapshot

variable {p q : Slot → Bool}

/-- The exact sum of the numbers that cells at some slots hold. -/
def exactSum (snapshot : Snapshot) (within : Slot → Bool) : Int :=
  Numeral.exactSum ((List.filter (within ·.slot) snapshot).map (·.computed))

theorem exactSum_perm {snapshot other : Snapshot} (h : other.Perm snapshot)
    (within : Slot → Bool) : other.exactSum within = snapshot.exactSum within :=
  Numeral.exactSum_perm ((h.filter _).map _)

theorem exactSum_cons (cell : Cell) (snapshot : Snapshot) (within : Slot → Bool) :
    exactSum (cell :: snapshot) within =
      (if within cell.slot = true then Numeral.exactSum [cell.computed] else 0) +
        exactSum snapshot within := by
  unfold exactSum
  rw [List.filter_cons]
  by_cases h : within cell.slot = true
  · rw [if_pos h, if_pos h, List.map_cons, ← List.singleton_append, Numeral.exactSum_append]
  · rw [if_neg h, if_neg h, Int.zero_add]

/-- Over slots of two kinds, none of which is of both, the sums add up. -/
theorem exactSum_or (h : ∀ slot, ¬ (p slot = true ∧ q slot = true)) (snapshot : Snapshot) :
    snapshot.exactSum (fun slot => p slot || q slot) =
      snapshot.exactSum p + snapshot.exactSum q := by
  induction snapshot with
  | nil => rfl
  | cons cell rest ih =>
    have hcell := h cell.slot
    rw [exactSum_cons, exactSum_cons, exactSum_cons, ih]
    cases hp : p cell.slot <;> cases hq : q cell.slot <;> simp [hp, hq] at hcell ⊢ <;> omega

/-- So do they over regions without a common slot. -/
theorem exactSum_any {parts : List Region} (h : parts.Pairwise Region.Disjoint)
    (snapshot : Snapshot) :
    snapshot.exactSum (fun slot => parts.any (·.contains slot)) =
      (parts.map fun part => snapshot.exactSum part.contains).sum := by
  induction parts with
  | nil =>
    have hnone : List.filter (fun _ : Cell => false) snapshot = [] := by simp
    simp only [exactSum, List.any_nil, hnone]
    rfl
  | cons part rest ih =>
    rw [List.pairwise_cons] at h
    have hsplit : ∀ slot, ¬ (part.contains slot = true ∧ rest.any (·.contains slot) = true) := by
      rintro slot ⟨hpart, hrest⟩
      rcases List.any_eq_true.1 hrest with ⟨other, hother, hcontains⟩
      exact h.1 other hother slot ⟨hpart, hcontains⟩
    simp only [List.any_cons, List.map_cons, List.sum_cons]
    rw [exactSum_or hsplit, ih h.2]

end Snapshot

/-! ## Sums of sums -/

/-- The subtotals of parts are read back, and their total is that of all the parts. -/
theorem Aggregate.total_map_sum (snapshot : Snapshot) (parts : List Region) :
    total (parts.map fun part => sum.apply (snapshot.valuesIn part)) =
      Int64.ofInt (parts.map fun part => snapshot.exactSum part.contains).sum := by
  induction parts with
  | nil => rfl
  | cons part rest ih =>
    have hpart : total [sum.apply (snapshot.valuesIn part)] =
        Int64.ofInt (snapshot.exactSum part.contains) := by
      rw [total_singleton]
      show (Numeral.signed? (Numeral.ofSigned (total (snapshot.valuesIn part))).toList).getD 0 = _
      rw [Numeral.signed?_ofSigned, total_eq_ofInt]
      rfl
    rw [List.map_cons, ← List.singleton_append, total_append, hpart, ih, List.map_cons,
      List.sum_cons, Int64.ofInt_add]

namespace Formula

variable {range outer : String} {region target : Region} {snapshot holding : Snapshot}

/-- An aggregate over a range that can be read. -/
theorem evaluate_aggregate (h : Region.ofText range = .ok region) (operation : Aggregate)
    (snapshot : Snapshot) :
    (aggregate operation range).evaluate snapshot =
      .ok (operation.apply (snapshot.valuesIn region)) := by
  simp only [evaluate, h, bind, Except.bind, pure, Except.pure]

theorem evaluate_sum (h : Region.ofText range = .ok region) (snapshot : Snapshot) :
    (aggregate .sum range).evaluate snapshot =
      .ok (Numeral.ofSigned (Int64.ofInt (snapshot.exactSum region.contains))) := by
  rw [evaluate_aggregate h, Aggregate.apply, Aggregate.total_eq_ofInt]
  rfl

/-- The cells of `holding` in a region hold, one by one, the sums over some disjoint ranges of
another snapshot or of the same. -/
structure Subtotals (snapshot holding : Snapshot) (target : Region) (ranges : List String)
    (parts : List Region) : Prop where
  readable : List.Forall₂ (fun range part => Region.ofText range = .ok part) ranges parts
  disjoint : parts.Pairwise Region.Disjoint
  held : List.Forall₂ (fun range text => (aggregate .sum range).evaluate snapshot = .ok text)
    ranges (holding.valuesIn target)

theorem Subtotals.values_eq {ranges : List String} {parts : List Region}
    (h : Subtotals snapshot holding target ranges parts) :
    holding.valuesIn target =
      parts.map fun part => Aggregate.sum.apply (snapshot.valuesIn part) := by
  have hheld := h.held
  generalize holding.valuesIn target = texts at hheld
  have hreadable := h.readable
  clear h
  induction hreadable generalizing texts with
  | nil => rw [List.forall₂_nil_left_iff.1 hheld, List.map_nil]
  | cons hpart _ ih =>
    obtain ⟨text, rest, htext, hrest, rfl⟩ := List.forall₂_cons_left_iff.1 hheld
    rw [evaluate_aggregate hpart] at htext
    rw [ih rest hrest, List.map_cons, Except.ok.inj htext]

/-- A sum over subtotals is the sum over all slots of their ranges. -/
theorem Subtotals.evaluate_sum {ranges : List String} {parts : List Region}
    (h : Subtotals snapshot holding target ranges parts)
    (houter : Region.ofText outer = .ok target) :
    (aggregate .sum outer).evaluate holding =
      .ok (Numeral.ofSigned (Int64.ofInt
        (snapshot.exactSum fun slot => parts.any (·.contains slot)))) := by
  rw [evaluate_aggregate houter, h.values_eq, Snapshot.exactSum_any h.disjoint,
    ← Aggregate.total_map_sum]
  rfl

/-- The sum over a range is the canonical text of the one number of 64 bits that is congruent to the
exact sum of the numbers there, and it is read back as this number. The order of the cells does not
matter, the sum over a range that is cut in two is the wrapped sum of its parts, and a sum over the
subtotals of disjoint ranges is the sum over their union. -/
theorem sum_exact (hrange : Region.ofText range = .ok region) (snapshot : Snapshot) :
    (∃ (text : String) (m : Int64), (aggregate .sum range).evaluate snapshot = .ok text ∧
      Numeral.IsResidue (snapshot.exactSum region.contains) m.toInt ∧
      (∀ n, Numeral.IsResidue (snapshot.exactSum region.contains) n → n = m.toInt) ∧
      Numeral.IsCanonical text.toList m.toInt ∧ Numeral.signed? text.toList = some m) ∧
    (∀ text (m : Int64), Numeral.signed? text = some m ↔ Numeral.Denotes text m.toInt) ∧
    (∀ other : Snapshot, other.Perm snapshot →
      (aggregate .sum range).evaluate other = (aggregate .sum range).evaluate snapshot) ∧
    (∀ left right leftRange rightRange, region.Cut left right →
      Region.ofText leftRange = .ok left → Region.ofText rightRange = .ok right →
        ∃ a b : Int64, (aggregate .sum leftRange).evaluate snapshot = .ok (Numeral.ofSigned a) ∧
          (aggregate .sum rightRange).evaluate snapshot = .ok (Numeral.ofSigned b) ∧
          (aggregate .sum range).evaluate snapshot = .ok (Numeral.ofSigned (a + b))) ∧
    ∀ holding outer target ranges parts, Region.ofText outer = .ok target →
      Subtotals snapshot holding target ranges parts →
        (∃ m : Int64,
          Numeral.IsResidue (snapshot.exactSum fun slot => parts.any (·.contains slot)) m.toInt ∧
          (aggregate .sum outer).evaluate holding = .ok (Numeral.ofSigned m)) ∧
        ((∀ slot, parts.any (·.contains slot) = region.contains slot) →
          (aggregate .sum outer).evaluate holding = (aggregate .sum range).evaluate snapshot) := by
  have hresidue := Numeral.isResidue_ofInt (snapshot.exactSum region.contains)
  refine ⟨⟨_, _, evaluate_sum hrange snapshot, hresidue, fun n hn => hn.unique hresidue,
    Numeral.canonical_toString _, Numeral.signed?_ofSigned _⟩,
    fun _ _ => Numeral.signed?_eq_some_iff, fun other hother => ?_, ?_, ?_⟩
  · rw [evaluate_sum hrange, evaluate_sum hrange, Snapshot.exactSum_perm hother]
  · intro left right leftRange rightRange hcut hleft hright
    rcases hcut.spec with ⟨hdisjoint, hunion⟩
    refine ⟨_, _, evaluate_sum hleft snapshot, evaluate_sum hright snapshot, ?_⟩
    rw [evaluate_sum hrange, ← Int64.ofInt_add, ← Snapshot.exactSum_or hdisjoint]
    simp only [hunion]
  · intro holding outer target ranges parts houter hsubtotals
    have hsum := hsubtotals.evaluate_sum houter
    refine ⟨⟨_, Numeral.isResidue_ofInt _, hsum⟩, fun hunion => ?_⟩
    rw [hsum, evaluate_sum hrange]
    simp only [hunion]

/-- Numbers in several spellings, the greatest and the lowest one among them, beside texts that are
no numbers of 64 bits. -/
def spelledNumbers : Snapshot :=
  [⟨1, "1", ⟨0, 0⟩, "", "9223372036854775807", 1⟩, ⟨2, "1", ⟨0, 1⟩, "", "+0012", 1⟩,
    ⟨3, "1", ⟨1, 0⟩, "", "9223372036854775808", 1⟩, ⟨4, "1", ⟨1, 1⟩, "", "-0", 1⟩,
    ⟨5, "1", ⟨1, 2⟩, "", "-9223372036854775808", 1⟩, ⟨6, "1", ⟨0, 2⟩, "", "2.5", 1⟩]

/-- Cells that hold the sums over its two columns. -/
def columnTotals : Snapshot :=
  [⟨7, "1", ⟨0, 5⟩, "", "-9223372036854775797", 1⟩, ⟨8, "1", ⟨1, 5⟩, "", "-9223372036854775808", 1⟩]

theorem subtotals_columns :
    Subtotals spelledNumbers columnTotals ⟨⟨0, 5⟩, ⟨1, 5⟩⟩ ["A1:A3", "B1:B3"]
      [⟨⟨0, 0⟩, ⟨0, 2⟩⟩, ⟨⟨1, 0⟩, ⟨1, 2⟩⟩] where
  readable := .cons rfl (.cons rfl .nil)
  disjoint := by
    refine List.pairwise_pair.2 fun slot => ?_
    simp only [Region.contains_iff]
    omega
  held := .cons rfl (.cons rfl .nil)

theorem sum_exact_spelled :
    Region.ofText "A1:B3" = .ok ⟨⟨0, 0⟩, ⟨1, 2⟩⟩ ∧
      (aggregate .sum "A1:B3").evaluate spelledNumbers = .ok "11" ∧
      Region.Cut ⟨⟨0, 0⟩, ⟨1, 2⟩⟩ ⟨⟨0, 0⟩, ⟨0, 2⟩⟩ ⟨⟨1, 0⟩, ⟨1, 2⟩⟩ ∧
      (∃ a b : Int64, (aggregate .sum "A1:A3").evaluate spelledNumbers = .ok (Numeral.ofSigned a) ∧
        (aggregate .sum "B1:B3").evaluate spelledNumbers = .ok (Numeral.ofSigned b) ∧
        (aggregate .sum "A1:B3").evaluate spelledNumbers = .ok (Numeral.ofSigned (a + b))) ∧
      (aggregate .sum "A1:B3").evaluate spelledNumbers.reverse = .ok "11" ∧
      (aggregate .sum "A6:B6").evaluate columnTotals = .ok "11" := by
  have hrange : Region.ofText "A1:B3" = .ok ⟨⟨0, 0⟩, ⟨1, 2⟩⟩ := rfl
  have hsum : (aggregate .sum "A1:B3").evaluate spelledNumbers = .ok "11" := rfl
  have hcut : Region.Cut ⟨⟨0, 0⟩, ⟨1, 2⟩⟩ ⟨⟨0, 0⟩, ⟨0, 2⟩⟩ ⟨⟨1, 0⟩, ⟨1, 2⟩⟩ :=
    .column (c := 0) (by decide) (by decide)
  rcases sum_exact hrange spelledNumbers with ⟨-, -, hperm, hparts, htotals⟩
  refine ⟨hrange, hsum, hcut, hparts _ _ "A1:A3" "B1:B3" hcut rfl rfl, ?_, ?_⟩
  · rw [hperm _ (List.reverse_perm _), hsum]
  · rw [← hsum]
    refine (htotals _ "A6:B6" _ _ _ rfl subtotals_columns).2 fun slot => ?_
    rw [← hcut.spec.2 slot]
    simp

end Formula

end SheetLedger
