import Mathlib.Data.List.Nodup
import SheetLedger.Cell

/-!
# Orderly snapshots

A snapshot that a store answers is *orderly*: its cells stand in the order of their ids, and there
is one for each slot. Such a snapshot is known by what it holds at each slot
(`filter_eq_of_find?_eq`), and it stays orderly when a newer row is swapped in.
-/

namespace SheetLedger

/-- Rows in the order of their ids are known by which rows they are. -/
theorem eq_of_increasing {α : Type} {id : α → Nat} {a b : List α}
    (ha : a.Pairwise fun x y => id x < id y) (hb : b.Pairwise fun x y => id x < id y)
    (h : ∀ row, row ∈ a ↔ row ∈ b) : a = b := by
  have hnodup : ∀ {l : List α}, (l.Pairwise fun x y => id x < id y) → l.Nodup := by
    intro l hl
    refine hl.imp ?_
    rintro x _ hlt rfl
    exact Nat.lt_irrefl _ hlt
  -- equal members without repetition make a permutation, and two sorted lists that are
  -- permutations of each other are equal
  have hperm : a.Perm b := (List.perm_ext_iff_of_nodup (hnodup ha) (hnodup hb)).2 h
  exact hperm.eq_of_pairwise (fun x y _ _ hxy hyx => absurd hxy (Nat.lt_asymm hyx)) ha hb

namespace Snapshot

/-! ## What stands at a slot -/

theorem mem_without {snapshot : Snapshot} {slot : Slot} {cell : Cell} :
    cell ∈ snapshot.without slot ↔ cell ∈ snapshot ∧ cell.slot ≠ slot := by
  simp [without]

theorem mem_replace {snapshot : Snapshot} {fresh cell : Cell} :
    cell ∈ snapshot.replace fresh ↔
      (cell ∈ snapshot ∧ cell.slot ≠ fresh.slot) ∨ cell = fresh := by
  simp [replace, mem_without]

theorem find?_eq_none_iff {snapshot : Snapshot} {slot : Slot} :
    snapshot.find? slot = none ↔ ∀ cell ∈ snapshot, cell.slot ≠ slot := by
  simp [find?]

theorem mem_of_find? {snapshot : Snapshot} {slot : Slot} {cell : Cell}
    (h : snapshot.find? slot = some cell) : cell ∈ snapshot :=
  List.mem_of_find?_eq_some h

theorem slot_of_find? {snapshot : Snapshot} {slot : Slot} {cell : Cell}
    (h : snapshot.find? slot = some cell) : cell.slot = slot := by
  simpa using List.find?_some h

/-- Where a cell stands, some cell is found. -/
theorem exists_find?_of_mem {snapshot : Snapshot} {cell : Cell} (h : cell ∈ snapshot) :
    ∃ found, snapshot.find? cell.slot = some found := by
  cases hf : snapshot.find? cell.slot with
  | none => exact absurd rfl (find?_eq_none_iff.1 hf cell h)
  | some found => exact ⟨found, rfl⟩

@[simp] theorem find?_replace (snapshot : Snapshot) (fresh : Cell) (slot : Slot) :
    (snapshot.replace fresh).find? slot =
      if fresh.slot = slot then some fresh else snapshot.find? slot := by
  unfold find? replace without
  rw [List.find?_append, List.find?_filter]
  by_cases h : fresh.slot = slot
  -- at its own slot nothing is left of the old cells, so the search reaches the fresh one
  · have hnone : List.find? (fun _ : Cell => false) snapshot = none := by simp
    simp [h, hnone]
  · have hsame : ∀ cell : Cell, cell.slot ≠ fresh.slot ∧ cell.slot = slot ↔ cell.slot = slot := by
      intro cell
      exact ⟨fun hc => hc.2, fun hc => ⟨fun hf => h (hf.symm.trans hc), hc⟩⟩
    simp [h, hsame]

theorem find?_without (snapshot : Snapshot) (slot x : Slot) :
    (snapshot.without slot).find? x = if slot = x then none else snapshot.find? x := by
  unfold find? without
  rw [List.find?_filter]
  by_cases h : slot = x
  · simp [h]
  · have hsame : ∀ cell : Cell, cell.slot ≠ slot ∧ cell.slot = x ↔ cell.slot = x := by
      intro cell
      exact ⟨fun hc => hc.2, fun hc => ⟨fun hs => h (hs.symm.trans hc), hc⟩⟩
    simp [h, hsame]

/-- Swapping in rows at other slots does not change what stands at a slot. -/
theorem find?_foldl_replace_of_forall_ne {rows : List Cell} {slot : Slot} (snapshot : Snapshot)
    (h : ∀ row ∈ rows, row.slot ≠ slot) :
    (rows.foldl replace snapshot).find? slot = snapshot.find? slot := by
  induction rows generalizing snapshot with
  | nil => rfl
  | cons row rest ih =>
    rw [List.foldl_cons, ih _ fun r hr => h r (List.mem_cons_of_mem _ hr), find?_replace,
      if_neg (h row List.mem_cons_self)]

/-! ## Orderly snapshots -/

/-- The cells of a snapshot stand in the order of their ids, one for each slot. -/
structure Orderly (snapshot : Snapshot) : Prop where
  increasing : List.Pairwise (fun a b => a.id < b.id) snapshot
  single : List.Pairwise (fun a b => a.slot ≠ b.slot) snapshot

/-- Two cells of an orderly snapshot at one slot are the same cell. -/
theorem Orderly.eq_of_slot_eq {snapshot : Snapshot} (h : snapshot.Orderly) {a b : Cell}
    (ha : a ∈ snapshot) (hb : b ∈ snapshot) (hslot : a.slot = b.slot) : a = b :=
  List.inj_on_of_nodup_map (List.pairwise_map.2 h.single) ha hb hslot

theorem Orderly.find?_eq_some_iff {snapshot : Snapshot} (h : snapshot.Orderly) {slot : Slot}
    {cell : Cell} : snapshot.find? slot = some cell ↔ cell ∈ snapshot ∧ cell.slot = slot := by
  constructor
  · intro hf
    exact ⟨mem_of_find? hf, slot_of_find? hf⟩
  · rintro ⟨hmem, rfl⟩
    rcases exists_find?_of_mem hmem with ⟨found, hfound⟩
    have hsame : found = cell :=
      h.eq_of_slot_eq (mem_of_find? hfound) hmem (slot_of_find? hfound)
    rw [hfound, hsame]

theorem Orderly.filter {snapshot : Snapshot} (h : snapshot.Orderly) (p : Cell → Bool) :
    Orderly (List.filter p snapshot) :=
  ⟨h.increasing.filter p, h.single.filter p⟩

theorem Orderly.without {snapshot : Snapshot} (h : snapshot.Orderly) (slot : Slot) :
    (snapshot.without slot).Orderly :=
  h.filter _

/-- A row with a higher id than all cells may be swapped in. -/
theorem Orderly.replace {snapshot : Snapshot} (h : snapshot.Orderly) {fresh : Cell}
    (hid : ∀ cell ∈ snapshot, cell.id < fresh.id) : (snapshot.replace fresh).Orderly := by
  have hrest := h.without fresh.slot
  constructor
  · refine List.pairwise_append.2 ⟨hrest.increasing, List.pairwise_singleton _ _, ?_⟩
    intro a ha b hb
    rw [List.mem_singleton.1 hb]
    exact hid a (mem_without.1 ha).1
  · refine List.pairwise_append.2 ⟨hrest.single, List.pairwise_singleton _ _, ?_⟩
    intro a ha b hb
    rw [List.mem_singleton.1 hb]
    exact (mem_without.1 ha).2

/-- Two orderly snapshots that hold the same at all slots with a property hold the same cells
with it, in the same order. -/
theorem filter_eq_of_find?_eq {a b : Snapshot} (ha : a.Orderly) (hb : b.Orderly)
    (p : Slot → Bool) (h : ∀ slot, p slot = true → a.find? slot = b.find? slot) :
    List.filter (fun cell => p cell.slot) a = List.filter (fun cell => p cell.slot) b := by
  refine eq_of_increasing (ha.filter _).increasing (hb.filter _).increasing ?_
  intro cell
  have hsame : p cell.slot = true → (cell ∈ a ↔ cell ∈ b) := by
    intro hp
    have hfind := h cell.slot hp
    have hia : a.find? cell.slot = some cell ↔ cell ∈ a ∧ cell.slot = cell.slot :=
      ha.find?_eq_some_iff
    have hib : b.find? cell.slot = some cell ↔ cell ∈ b ∧ cell.slot = cell.slot :=
      hb.find?_eq_some_iff
    rw [hfind, hib] at hia
    simpa using hia.symm
  simp only [List.mem_filter]
  constructor
  · rintro ⟨hmem, hp⟩
    exact ⟨(hsame hp).1 hmem, hp⟩
  · rintro ⟨hmem, hp⟩
    exact ⟨(hsame hp).2 hmem, hp⟩

end Snapshot

end SheetLedger
