import Mathlib.Data.Finset.Lattice.Fold
import Mathlib.Data.List.Forall2
import Mathlib.Data.List.GetD
import Mathlib.Order.Lattice.Nat
import SheetLedger.Clock

/-!
# The stamps of the monotonic clock

If stamps had no end, the monotonic clock would count on from its seed, and from every time that it
is told, by one for each later call, and hand out the highest of these counts (`Clock.count`). The
end of stamps cuts this number off, and a clock that has been cut off goes on as if it had not been:
what it would have been ahead is cut off from all later stamps too (`Clock.min_count_min`). So each
stamp is the highest count or the last stamp, whichever is lower (`Clock.stamps_eq_map`), and the
order of the counts is that of the stamps (`Clock.stamps_closedForm`).
-/

namespace SheetLedger.Clock

variable {seed now m n : Nat} {times : List Nat}

/-! ## Counts without an end -/

/-- The highest count at the call `n`. Calls are numbered from zero: up to this one, the seed has
been counted on `n + 1` times and the time of the call `i` as often as calls have followed on it. -/
def count (seed : Nat) (times : List Nat) (n : Nat) : Nat :=
  max (seed + (n + 1)) ((Finset.range (n + 1)).sup fun i => times.getD i 0 + (n - i))

theorem seed_lt_count (seed : Nat) (times : List Nat) (n : Nat) : seed < count seed times n :=
  lt_max_of_lt_left (by omega)

theorem getD_add_le_count (seed : Nat) (times : List Nat) (h : m ≤ n) :
    times.getD m 0 + (n - m) ≤ count seed times n := by
  have hmem : m ∈ Finset.range (n + 1) := Finset.mem_range.2 (by omega)
  exact le_max_of_le_right (Finset.le_sup (f := fun i => times.getD i 0 + (n - i)) hmem)

/-- Every count is one higher at the next call. -/
theorem count_lt_count (seed : Nat) (times : List Nat) (h : m < n) :
    count seed times m < count seed times n := by
  have hseed := seed_lt_count seed times n
  refine max_lt (lt_max_of_lt_left (by omega)) ?_
  rw [Finset.sup_lt_iff (Nat.zero_lt_of_lt hseed)]
  intro i hi
  have hle : i ≤ m := Finset.mem_range_succ_iff.1 hi
  have hcount := getD_add_le_count seed times (Nat.le_trans hle h.le)
  omega

theorem count_zero (seed now : Nat) (times : List Nat) :
    count seed (now :: times) 0 = max (seed + 1) now := by
  simp [count]

/-- After a first call the clock counts on from the count that is highest there. -/
theorem count_succ (seed now : Nat) (times : List Nat) (n : Nat) :
    count seed (now :: times) (n + 1) = count (max (seed + 1) now) times n := by
  have hsup : ((Finset.range (n + 2)).sup fun i => (now :: times).getD i 0 + (n + 1 - i)) =
      max (now + (n + 1)) ((Finset.range (n + 1)).sup fun i => times.getD i 0 + (n - i)) := by
    rw [Finset.range_add_one', Finset.sup_insert, Finset.sup_map]
    refine congrArg (max (now + (n + 1))) (Finset.sup_congr rfl fun i _ => ?_)
    show (now :: times).getD (i + 1) 0 + (n + 1 - (i + 1)) = times.getD i 0 + (n - i)
    rw [List.getD_cons_succ, Nat.add_sub_add_right]
  rw [count, hsup, count]
  omega

/-! ## Counts up to the last stamp -/

/-- Where the start is cut off at the last stamp, so is every count. -/
theorem min_count_min (start : Nat) (times : List Nat) (n : Nat) :
    min lastStamp (count (min lastStamp start) times n) =
      min lastStamp (count start times n) := by
  unfold count
  omega

theorem next_monotonic (seed : Nat) (hnow : now ≤ lastStamp) :
    (monotonic seed).next now =
      (min lastStamp (max (seed + 1) now), .monotonic (min lastStamp (max (seed + 1) now))) := by
  have hstamp : max now (min (seed + 1) lastStamp) = min lastStamp (max (seed + 1) now) := by
    omega
  rw [next, hstamp]

/-- Each stamp is the highest count, or the last stamp if that is lower. -/
theorem stamps_eq_map (seed : Nat) (htimes : ∀ now ∈ times, now ≤ lastStamp) :
    (monotonic seed).stamps times =
      (List.range times.length).map fun n => min lastStamp (count seed times n) := by
  induction times generalizing seed with
  | nil => rfl
  | cons now rest ih =>
    rw [List.forall_mem_cons] at htimes
    rw [stamps, next_monotonic seed htimes.1, ih _ htimes.2, List.length_cons,
      List.range_succ_eq_map, List.map_cons, List.map_map, count_zero]
    refine congrArg _ (List.map_congr_left fun n _ => ?_)
    show _ = min lastStamp (count seed (now :: rest) (n + 1))
    rw [min_count_min, count_succ]

/-- The stamps of the monotonic clock in closed form. They increase up to the last stamp and stay
there, all others are above the seed, and none is below the time of its call. -/
theorem stamps_closedForm (seed : Nat) (htimes : ∀ now ∈ times, now ≤ lastStamp) :
    (monotonic seed).stamps times =
        (List.range times.length).map (fun n => min lastStamp (count seed times n)) ∧
      ((monotonic seed).stamps times).Pairwise
        (fun earlier later => earlier < later ∨ earlier = lastStamp ∧ later = lastStamp) ∧
      (∀ stamp ∈ (monotonic seed).stamps times,
        stamp ≤ lastStamp ∧ (stamp < lastStamp → seed < stamp)) ∧
      List.Forall₂ (· ≤ ·) times ((monotonic seed).stamps times) := by
  rw [stamps_eq_map seed htimes]
  refine ⟨rfl, ?_, ?_, ?_⟩
  · rw [List.pairwise_map]
    refine List.pairwise_lt_range.imp fun {m n} h => ?_
    have hlt := count_lt_count seed times h
    omega
  · intro stamp hstamp
    rcases List.mem_map.1 hstamp with ⟨n, -, rfl⟩
    have hlt := seed_lt_count seed times n
    omega
  · rw [List.forall₂_iff_get]
    refine ⟨by simp, fun n hn _ => ?_⟩
    have hle := getD_add_le_count seed times (Nat.le_refl n)
    have hnow := htimes _ (List.getElem_mem hn)
    rw [List.getD_eq_getElem times 0 hn] at hle
    simp only [List.get_eq_getElem, List.getElem_map, List.getElem_range]
    omega

/-- Times that repeat, go back, and come to the end of stamps. -/
def unsteady : List Nat := [5, 100, 100, 50, lastStamp - 1, 3, 3, 90]

theorem stamps_closedForm_unsteady :
    (∀ now ∈ unsteady, now ≤ lastStamp) ∧
      (monotonic 7).stamps unsteady =
        [8, 100, 101, 102, lastStamp - 1, lastStamp, lastStamp, lastStamp] ∧
      (List.range unsteady.length).map (fun n => min lastStamp (count 7 unsteady n)) =
        [8, 100, 101, 102, lastStamp - 1, lastStamp, lastStamp, lastStamp] := by
  have hle : ∀ now ∈ unsteady, now ≤ lastStamp := by decide
  have hstamps : (monotonic 7).stamps unsteady =
      [8, 100, 101, 102, lastStamp - 1, lastStamp, lastStamp, lastStamp] := by decide
  exact ⟨hle, hstamps, (stamps_closedForm 7 hle).1.symm.trans hstamps⟩

end SheetLedger.Clock
