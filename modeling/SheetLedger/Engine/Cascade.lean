import SheetLedger.Engine.Basic
import SheetLedger.Formula.Dependents
import SheetLedger.Formula.Evaluation

/-!
# The cascade

After a slot has changed, the cells that read it are computed anew, then the cells that read those,
down to a number of levels. The work still to be done stands in a queue: a changed slot, the
snapshot against which its dependents are computed, and the number of levels left.

A dependent is computed once for every way in which the change reaches it. Each time it is stored
as a new row, and the work that follows from it sees it in the snapshot in place of its old row. The
levels bound the work even where cells read each other in a circle: `Pending.cost` says how much
work can come of an entry of the queue, and it shrinks with every entry that is taken.
-/

namespace SheetLedger

/-- A changed slot whose dependents have still to be computed. -/
structure Pending where
  changed : Slot
  /-- What the dependents are computed from, the changed cell included. -/
  snapshot : Snapshot
  /-- The levels left, this one included. -/
  levels : Nat
deriving Repr, DecidableEq

namespace Cascade

variable {σ : Type} [CellStore σ]

/-- Computes a dependent anew and stores it as a row of the given version. -/
def refresh (version : Nat) (snapshot : Snapshot) (dependent : Cell) :
    EStateM EngineError σ Cell := do
  let value ← orStop
    ((dependent.formula.evaluate snapshot).mapError (.dependent dependent.slot ·))
  let fresh := { dependent with id := 0, computed := value, version := version }
  let id ← EStateM.adaptExcept .store (CellStore.insert fresh)
  return { fresh with id := id }

/-- Computes some dependents anew, one after another. -/
def refreshAll (version : Nat) (snapshot : Snapshot) : List Cell → EStateM EngineError σ (List Cell)
  | [] => pure []
  | dependent :: rest => do
    let row ← refresh version snapshot dependent
    let rows ← refreshAll version snapshot rest
    return row :: rows

end Cascade

namespace Pending

/-- The work that follows from one row written for an entry of the queue: the level below, with the
row in the snapshot. -/
def follow (pending : Pending) (row : Cell) : Pending :=
  { changed := row.slot
    snapshot := pending.snapshot.replace row
    levels := pending.levels - 1 }

/-- The work that follows from the rows written for an entry of the queue; the last level leaves
none. -/
def next (pending : Pending) (rows : List Cell) : List Pending :=
  if pending.levels ≤ 1 then [] else rows.map pending.follow

/-- One entry with `size` cells in its snapshot costs itself and, with a level to spare, at most as
many entries of the next level as there are cells. -/
def costOf (size : Nat) : Nat → Nat
  | 0 => 1
  | levels + 1 => 1 + size * costOf size levels

/-- A bound on the number of entries that can come of an entry of the queue. -/
def cost (pending : Pending) : Nat := costOf pending.snapshot.length pending.levels

end Pending

/-! ## The queue shrinks -/

namespace Cascade

variable {σ : Type} [CellStore σ]

/-- A row that is written stands where the dependent stood. -/
theorem slot_of_refresh {version : Nat} {snapshot : Snapshot} {dependent row : Cell} {s t : σ}
    (h : refresh version snapshot dependent s = .ok row t) : row.slot = dependent.slot := by
  simp only [refresh, bind, EStateM.bind, pure, EStateM.pure] at h
  split at h
  · split at h
    · cases h; rfl
    · cases h
  · cases h

/-- The rows that are written stand where the dependents stood. -/
theorem slots_of_refreshAll {version : Nat} {snapshot : Snapshot} {dependents rows : List Cell}
    {s t : σ} (h : refreshAll version snapshot dependents s = .ok rows t) :
    rows.map (·.slot) = dependents.map (·.slot) := by
  induction dependents generalizing rows s with
  | nil => cases h; rfl
  | cons dependent rest ih =>
    simp only [refreshAll, bind, EStateM.bind, pure, EStateM.pure] at h
    split at h
    · rename_i row u hrow
      split at h
      · rename_i more v hmore
        cases h
        simp only [List.map_cons, slot_of_refresh hrow, ih hmore]
      · cases h
    · cases h

end Cascade

namespace Snapshot

/-- Putting a row in the place of a cell of the snapshot does not make it longer. -/
theorem length_replace_le {snapshot : Snapshot} {row cell : Cell} (hmem : cell ∈ snapshot)
    (hslot : cell.slot = row.slot) : (snapshot.replace row).length ≤ snapshot.length := by
  have hlt : (snapshot.without row.slot).length < snapshot.length := by
    refine Nat.lt_of_le_of_ne (List.length_filter_le _ _) fun heq => ?_
    have := List.length_filter_eq_length_iff.1 heq cell hmem
    simp [hslot] at this
  simp only [replace, List.length_append, List.length_singleton]
  omega

end Snapshot

namespace Pending

/-- The cost does not shrink when the snapshot grows. -/
theorem costOf_mono {m n : Nat} (h : m ≤ n) (levels : Nat) : costOf m levels ≤ costOf n levels := by
  induction levels with
  | zero => exact Nat.le_refl _
  | succ levels ih => exact Nat.add_le_add_left (Nat.mul_le_mul h ih) 1

/-- An entry costs something. -/
theorem cost_pos (pending : Pending) : 0 < pending.cost := by
  unfold cost
  cases pending.levels with
  | zero => exact Nat.one_pos
  | succ levels => exact Nat.lt_add_right _ Nat.one_pos

/-- The cost of all entries of a queue. -/
def totalCost : List Pending → Nat
  | [] => 0
  | pending :: queue => pending.cost + totalCost queue

@[simp] theorem totalCost_append (a b : List Pending) :
    totalCost (a ++ b) = totalCost a + totalCost b := by
  induction a with
  | nil => simp [totalCost]
  | cons pending rest ih => simp only [List.cons_append, totalCost, ih, Nat.add_assoc]

/-- Entries that cost at most `bound` each cost at most that many times `bound`. -/
theorem totalCost_le_length_mul {bound : Nat} {queue : List Pending}
    (h : ∀ pending ∈ queue, pending.cost ≤ bound) : totalCost queue ≤ queue.length * bound := by
  induction queue with
  | nil => simp [totalCost]
  | cons pending rest ih =>
    have hfirst := h pending List.mem_cons_self
    have hrest := ih fun p hp => h p (List.mem_cons_of_mem _ hp)
    simp only [totalCost, List.length_cons, Nat.succ_mul]
    omega

/-- What follows from a row that stands in the place of a cell of the snapshot costs no more than
the snapshot allows for the level below. -/
theorem cost_follow_le {pending : Pending} {row cell : Cell} (hmem : cell ∈ pending.snapshot)
    (hslot : cell.slot = row.slot) :
    (pending.follow row).cost ≤ costOf pending.snapshot.length (pending.levels - 1) :=
  costOf_mono (Snapshot.length_replace_le hmem hslot) _

/-- What is left of the queue after an entry costs less than the entry did. -/
theorem cost_next_lt {pending : Pending} {rows : List Cell}
    (hslots : rows.map (·.slot) = (pending.snapshot.dependents pending.changed).map (·.slot)) :
    totalCost (pending.next rows) < pending.cost := by
  unfold next
  split
  · exact cost_pos pending
  · rename_i hlevels
    have hrows : rows.length ≤ pending.snapshot.length := by
      have hlength := congrArg List.length hslots
      simp only [List.length_map] at hlength
      exact hlength ▸ List.length_filter_le _ _
    have heach : ∀ entry ∈ rows.map pending.follow,
        entry.cost ≤ costOf pending.snapshot.length (pending.levels - 1) := by
      intro entry hentry
      obtain ⟨row, hrow, rfl⟩ := List.mem_map.1 hentry
      have hslot : row.slot ∈ rows.map (·.slot) := List.mem_map_of_mem hrow
      rw [hslots, List.mem_map] at hslot
      obtain ⟨cell, hcell, heq⟩ := hslot
      exact cost_follow_le (List.mem_filter.1 hcell).1 heq
    have htotal := totalCost_le_length_mul heach
    rw [List.length_map] at htotal
    refine Nat.lt_of_le_of_lt (Nat.le_trans htotal (Nat.mul_le_mul_right _ hrows)) ?_
    obtain ⟨levels, hl⟩ : ∃ levels, pending.levels = levels + 1 := ⟨pending.levels - 1, by omega⟩
    -- the entry itself is the one by which its cost is larger
    rw [cost, hl, costOf, Nat.add_sub_cancel]
    exact Nat.lt_add_of_pos_left Nat.one_pos

end Pending

/-! ## The cascade itself -/

namespace Cascade

variable {σ : Type} [CellStore σ]

/-- Works off the queue: the dependents of the first entry are computed and stored, and the work
that follows from them goes to the end of the queue. The answer is the rows written, in order. -/
def run (version : Nat) : List Pending → EStateM EngineError σ (List Cell)
  | [] => pure []
  | pending :: queue => fun store =>
    match _h : refreshAll version pending.snapshot
        (pending.snapshot.dependents pending.changed) store with
    | .error cause store => .error cause store
    | .ok rows store =>
      -- new work goes behind the rest of its level
      match run version (queue ++ pending.next rows) store with
      | .error cause store => .error cause store
      | .ok more store => .ok (rows ++ more) store
termination_by queue => Pending.totalCost queue
decreasing_by
  have := Pending.cost_next_lt (slots_of_refreshAll _h)
  simp only [Pending.totalCost_append, Pending.totalCost]
  omega

/-- Recomputes what reads the changed slot, down to `depth` levels, under one version. -/
def propagate (depth version : Nat) (changed : Slot) (snapshot : Snapshot) :
    EStateM EngineError σ (List Cell) :=
  if depth = 0 then pure []
  else run version [{ changed := changed, snapshot := snapshot, levels := depth }]

end Cascade

end SheetLedger
