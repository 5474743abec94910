import Mathlib.Data.List.Permutation
import SheetLedger.Proofs.Snapshot
import SheetLedger.Recency

/-!
# The current rows of a log

Among rows with ids of their own, `Recency.latest` keeps exactly the rows that are newer than all
others of their slot (`mem_latest`), and what it keeps is orderly (`orderly_latest`). A row that is
appended last, under an id above all others, either takes the place of its slot's row
(`latest_concat`) or is older than that one; in both cases every slot that had a row still has one
(`exists_mem_latest`).

So the current rows need not be looked for again while a log goes on with rows that are not older
than those they supersede (`GoesOn`): swapping these in is enough (`snapshot_upToDate`).
-/

namespace SheetLedger

/-! ## Newer rows -/

theorem Cell.newer_iff {a b : Cell} :
    a.newer b = true ↔ b.version < a.version ∨ b.version = a.version ∧ b.id < a.id := by
  simp [newer]

theorem Cell.newer_trans {a b c : Cell} (hab : a.newer b = true) (hbc : b.newer c = true) :
    a.newer c = true := by
  rw [newer_iff] at *
  omega

theorem Cell.newer_asymm {a b : Cell} (hab : a.newer b = true) : b.newer a = false := by
  rw [← Bool.not_eq_true]
  rw [newer_iff] at *
  omega

/-- Of two rows with different ids one is newer. -/
theorem Cell.newer_total {a b : Cell} (h : a.id ≠ b.id) : a.newer b = true ∨ b.newer a = true := by
  rw [newer_iff, newer_iff]
  omega

namespace Recency

/-- A row of a list that is newer than all others of its slot. -/
def IsCurrent (rows : List Cell) (row : Cell) : Prop :=
  row ∈ rows ∧ ∀ other ∈ rows, other.slot = row.slot → other = row ∨ row.newer other = true

/-! ## Keeping one more row -/

/-- A slot that has a row keeps one, and the new row's slot has one. -/
theorem exists_mem_keep_iff {kept : List Cell} {row : Cell} {slot : Slot} :
    (∃ c ∈ keep kept row, c.slot = slot) ↔ (∃ c ∈ kept, c.slot = slot) ∨ row.slot = slot := by
  induction kept with
  | nil => simp [keep]
  | cons k rest ih =>
    unfold keep
    by_cases hk : k.slot = row.slot
    · by_cases hn : row.newer k = true <;> simp only [hk, hn, if_true, List.mem_cons] <;> grind
    · simp only [hk, if_false, List.mem_cons, exists_eq_or_imp, ih, or_assoc]

theorem single_keep {kept : List Cell} (row : Cell)
    (h : kept.Pairwise fun a b => a.slot ≠ b.slot) :
    (keep kept row).Pairwise fun a b => a.slot ≠ b.slot := by
  induction kept with
  | nil => exact List.pairwise_singleton _ _
  | cons k rest ih =>
    rw [List.pairwise_cons] at h
    unfold keep
    by_cases hk : k.slot = row.slot
    -- the winner stays at the head, at the slot that `k` had
    · rw [if_pos hk]
      refine List.pairwise_cons.2 ⟨fun b hb => ?_, h.2⟩
      by_cases hn : row.newer k = true
      · rw [if_pos hn, ← hk]
        exact h.1 b hb
      · rw [if_neg hn]
        exact h.1 b hb
    · rw [if_neg hk]
      refine List.pairwise_cons.2 ⟨fun b hb => ?_, ih h.2⟩
      rcases exists_mem_keep_iff.1 ⟨b, hb, rfl⟩ with ⟨c, hc, hslot⟩ | hslot
      · rw [← hslot]
        exact h.1 c hc
      · rw [← hslot]
        exact hk

/-- What is kept once there is one more row: the rows that it does not supersede, and the row
itself where it is the newer one. -/
theorem mem_keep {kept : List Cell} {row c : Cell}
    (h : kept.Pairwise fun a b => a.slot ≠ b.slot) :
    c ∈ keep kept row ↔
      (c ∈ kept ∧ (c.slot = row.slot → row.newer c = false)) ∨
        (c = row ∧ ∀ k ∈ kept, k.slot = row.slot → row.newer k = true) := by
  induction kept with
  | nil => simp [keep]
  | cons k rest ih =>
    rw [List.pairwise_cons] at h
    -- `keep` stops at the first row of the slot: behind it there is no other
    have hrest : k.slot = row.slot → ∀ c ∈ rest, c.slot ≠ row.slot := by
      intro hk c hc heq
      exact h.1 c hc (hk.trans heq.symm)
    unfold keep
    by_cases hk : k.slot = row.slot
    · rw [if_pos hk]
      by_cases hn : row.newer k = true
      · simp only [hn, if_true, List.mem_cons]
        constructor
        · rintro (rfl | hc)
          · refine Or.inr ⟨rfl, ?_⟩
            rintro k' (rfl | hk') hslot
            · exact hn
            · exact absurd hslot (hrest hk k' hk')
          · exact Or.inl ⟨Or.inr hc, fun hslot => absurd hslot (hrest hk c hc)⟩
        · rintro (⟨rfl | hc, hnot⟩ | ⟨rfl, -⟩)
          · rw [hnot hk] at hn
            cases hn
          · exact Or.inr hc
          · exact Or.inl rfl
      · rw [Bool.not_eq_true] at hn
        simp only [hn, Bool.false_eq_true, if_false, List.mem_cons]
        constructor
        · rintro (rfl | hc)
          · exact Or.inl ⟨Or.inl rfl, fun _ => hn⟩
          · exact Or.inl ⟨Or.inr hc, fun hslot => absurd hslot (hrest hk c hc)⟩
        · rintro (⟨hc, -⟩ | ⟨rfl, hall⟩)
          · exact hc
          · rw [hall k (Or.inl rfl) hk] at hn
            cases hn
    · rw [if_neg hk, List.mem_cons, ih h.2]
      simp only [List.mem_cons]
      constructor
      · rintro (rfl | ⟨hc, hnot⟩ | ⟨rfl, hall⟩)
        · exact Or.inl ⟨Or.inl rfl, fun hslot => absurd hslot hk⟩
        · exact Or.inl ⟨Or.inr hc, hnot⟩
        · refine Or.inr ⟨rfl, ?_⟩
          rintro k' (rfl | hk') hslot
          · exact absurd hslot hk
          · exact hall k' hk' hslot
      · rintro (⟨rfl | hc, hnot⟩ | ⟨rfl, hall⟩)
        · exact Or.inl rfl
        · exact Or.inr (Or.inl ⟨hc, hnot⟩)
        · exact Or.inr (Or.inr ⟨rfl, fun k' hk' => hall k' (Or.inr hk')⟩)

/-! ## Keeping all rows -/

theorem single_foldl_keep (rows : List Cell) :
    (rows.foldl keep []).Pairwise fun a b => a.slot ≠ b.slot := by
  induction rows using List.reverseRecOn with
  | nil => exact List.Pairwise.nil
  | append_singleton rows row ih =>
    rw [List.foldl_append, List.foldl_cons, List.foldl_nil]
    exact single_keep row ih

theorem exists_mem_foldl_keep_iff {rows : List Cell} {slot : Slot} :
    (∃ c ∈ rows.foldl keep [], c.slot = slot) ↔ ∃ c ∈ rows, c.slot = slot := by
  induction rows using List.reverseRecOn with
  | nil => simp
  | append_singleton rows row ih =>
    rw [List.foldl_append, List.foldl_cons, List.foldl_nil, exists_mem_keep_iff, ih]
    simp [or_and_right, exists_or]

/-- What is kept of rows with ids of their own are the current ones. -/
theorem mem_foldl_keep {rows : List Cell} (hids : rows.Pairwise fun a b => a.id ≠ b.id)
    {c : Cell} : c ∈ rows.foldl keep [] ↔ IsCurrent rows c := by
  induction rows using List.reverseRecOn generalizing c with
  | nil => simp [IsCurrent]
  | append_singleton rows row ih =>
    rw [List.pairwise_append] at hids
    have hrow : ∀ r ∈ rows, r.id ≠ row.id := fun r hr => hids.2.2 r hr row (by simp)
    have hne : ∀ r ∈ rows, r ≠ row := fun r hr heq => hrow r hr (congrArg Cell.id heq)
    rw [List.foldl_append, List.foldl_cons, List.foldl_nil, mem_keep (single_foldl_keep rows)]
    simp only [ih hids.1]
    constructor
    -- a kept row is current: either an old one that the new row does not beat, or the new one
    · rintro (⟨hc, hnot⟩ | ⟨rfl, hall⟩)
      · refine ⟨List.mem_append_left _ hc.1, ?_⟩
        intro other hother hslot
        rcases List.mem_append.1 hother with hmem | hmem
        · exact hc.2 other hmem hslot
        · rw [List.mem_singleton] at hmem
          subst hmem
          rcases Cell.newer_total (hrow c hc.1) with hn | hn
          · exact Or.inr hn
          · rw [hnot hslot.symm] at hn
            cases hn
      · refine ⟨by simp, ?_⟩
        intro other hother hslot
        rcases List.mem_append.1 hother with hmem | hmem
        · -- the row kept so far at this slot is newer than `other` and older than the new row
          rcases exists_mem_foldl_keep_iff.2 ⟨other, hmem, hslot⟩ with ⟨k, hk, hkslot⟩
          have hkcur := (ih hids.1).1 hk
          rcases hkcur.2 other hmem (hslot.trans hkslot.symm) with rfl | hn
          · exact Or.inr (hall other hkcur hslot)
          · exact Or.inr (Cell.newer_trans (hall k hkcur hkslot) hn)
        · exact Or.inl (List.mem_singleton.1 hmem)
    -- a current row is kept: being current among more rows is being current among fewer
    · rintro ⟨hmem, hall⟩
      rcases List.mem_append.1 hmem with hc | hc
      · refine Or.inl ⟨⟨hc, fun other hother => hall other (List.mem_append_left _ hother)⟩, ?_⟩
        intro hslot
        rcases hall row (by simp) hslot.symm with heq | hn
        · exact absurd heq.symm (hne c hc)
        · exact Cell.newer_asymm hn
      · rw [List.mem_singleton] at hc
        refine Or.inr ⟨hc, ?_⟩
        intro k hk hslot
        rcases hall k (List.mem_append_left _ hk.1) (hslot.trans (congrArg Cell.slot hc.symm))
          with heq | hn
        · exact absurd (heq.trans hc) (hne k hk.1)
        · exact hc ▸ hn

/-! ## The current rows -/

variable {rows : List Cell}

/-- Rows in the order of their ids have ids of their own. -/
theorem ids_ne (h : rows.Pairwise fun a b => a.id < b.id) :
    rows.Pairwise fun a b => a.id ≠ b.id :=
  h.imp Nat.ne_of_lt

/-- An id above all others leaves the ids apart. -/
theorem ids_ne_concat {row : Cell} (hids : rows.Pairwise fun a b => a.id ≠ b.id)
    (hid : ∀ r ∈ rows, r.id < row.id) : (rows ++ [row]).Pairwise fun a b => a.id ≠ b.id := by
  refine List.pairwise_append.2 ⟨hids, List.pairwise_singleton _ _, ?_⟩
  intro a ha b hb
  rw [List.mem_singleton.1 hb]
  exact Nat.ne_of_lt (hid a ha)

theorem eq_of_id_eq (hids : rows.Pairwise fun a b => a.id ≠ b.id) {a b : Cell} (ha : a ∈ rows)
    (hb : b ∈ rows) (h : a.id = b.id) : a = b :=
  List.inj_on_of_nodup_map (List.pairwise_map.2 hids) ha hb h

theorem mem_latest (hids : rows.Pairwise fun a b => a.id ≠ b.id) {c : Cell} :
    c ∈ latest rows ↔ IsCurrent rows c := by
  rw [latest, List.mem_mergeSort, mem_foldl_keep hids]

theorem mem_of_mem_latest (hids : rows.Pairwise fun a b => a.id ≠ b.id) {c : Cell}
    (h : c ∈ latest rows) : c ∈ rows :=
  ((mem_latest hids).1 h).1

/-- Every slot that has a row has a current one. -/
theorem exists_mem_latest {c : Cell} (h : c ∈ rows) : ∃ k ∈ latest rows, k.slot = c.slot := by
  simp only [latest, List.mem_mergeSort]
  exact exists_mem_foldl_keep_iff.2 ⟨c, h, rfl⟩

theorem pairwise_mergeSort_id (rows : List Cell) :
    (rows.mergeSort fun a b => a.id ≤ b.id).Pairwise fun a b => a.id ≤ b.id := by
  refine (List.pairwise_mergeSort ?_ ?_ rows).imp ?_
  · intro a b c hab hbc
    simp only [decide_eq_true_eq] at *
    omega
  · intro a b
    simp only [Bool.or_eq_true, decide_eq_true_eq]
    omega
  · intro a b hab
    exact of_decide_eq_true hab

theorem orderly_latest (hids : rows.Pairwise fun a b => a.id ≠ b.id) :
    (latest rows).Orderly := by
  have hperm : (latest rows).Perm (rows.foldl keep []) := List.mergeSort_perm _ _
  have hsingle : List.Pairwise (fun a b => a.slot ≠ b.slot) (latest rows) :=
    hperm.symm.pairwise (single_foldl_keep rows) Ne.symm
  have hsorted : List.Pairwise (fun a b => a.id ≤ b.id) (latest rows) :=
    pairwise_mergeSort_id _
  refine ⟨?_, hsingle⟩
  refine List.Pairwise.imp_of_mem ?_ (hsorted.and hsingle)
  intro a b ha hb hab
  -- sorting leaves `≤`, and rows of two slots are two rows, so their ids differ
  have hid : a.id ≠ b.id := by
    intro heq
    exact hab.2 (congrArg Cell.slot
      (eq_of_id_eq hids (mem_of_mem_latest hids ha) (mem_of_mem_latest hids hb) heq))
  omega

theorem find?_latest_eq_some_iff (hids : rows.Pairwise fun a b => a.id ≠ b.id) {slot : Slot}
    {c : Cell} : (latest rows).find? slot = some c ↔ IsCurrent (rows.filter (·.slot = slot)) c := by
  rw [(orderly_latest hids).find?_eq_some_iff, mem_latest hids]
  simp only [IsCurrent, List.mem_filter, decide_eq_true_eq]
  constructor
  · rintro ⟨⟨hmem, hall⟩, rfl⟩
    exact ⟨⟨hmem, rfl⟩, fun other hother hslot => hall other hother.1 hslot⟩
  · rintro ⟨⟨hmem, rfl⟩, hall⟩
    exact ⟨⟨hmem, fun other hother hslot => hall other ⟨hother, hslot⟩ hslot⟩, rfl⟩

/-- A row is current if no other one of its slot has a higher version or a higher id. -/
theorem find?_latest_of_forall_le (hids : rows.Pairwise fun a b => a.id ≠ b.id) {row : Cell}
    (hmem : row ∈ rows)
    (h : ∀ other ∈ rows, other.slot = row.slot →
      other.version ≤ row.version ∧ other.id ≤ row.id) :
    (latest rows).find? row.slot = some row := by
  rw [(orderly_latest hids).find?_eq_some_iff, mem_latest hids]
  refine ⟨⟨hmem, fun other hother hslot => ?_⟩, rfl⟩
  by_cases hid : other.id = row.id
  · exact Or.inl (eq_of_id_eq hids hother hmem hid)
  · have hle := h other hother hslot
    refine Or.inr (Cell.newer_iff.2 ?_)
    omega

/-- What is current at a slot is settled by the rows of the slot. -/
theorem find?_latest_congr {other : List Cell} (hids : rows.Pairwise fun a b => a.id ≠ b.id)
    (hids' : other.Pairwise fun a b => a.id ≠ b.id) {slot : Slot}
    (h : rows.filter (·.slot = slot) = other.filter (·.slot = slot)) :
    (latest rows).find? slot = (latest other).find? slot := by
  refine Option.ext ?_
  intro c
  rw [find?_latest_eq_some_iff hids, find?_latest_eq_some_iff hids', h]

/-- A row that is appended last, under a version not below its slot's, takes the place of its
slot's row. -/
theorem latest_concat {row : Cell} (hids : rows.Pairwise fun a b => a.id ≠ b.id)
    (hid : ∀ r ∈ rows, r.id < row.id)
    (hversion : ∀ r ∈ rows, r.slot = row.slot → r.version ≤ row.version) :
    latest (rows ++ [row]) = (latest rows).replace row := by
  have hids' := ids_ne_concat hids hid
  have hnewer : ∀ r ∈ rows, r.slot = row.slot → row.newer r = true := by
    intro r hr hslot
    have := hid r hr
    have := hversion r hr hslot
    rw [Cell.newer_iff]
    omega
  have hold := orderly_latest hids
  have hreplace : ((latest rows).replace row).Orderly :=
    hold.replace fun c hc => hid c (mem_of_mem_latest hids hc)
  refine eq_of_increasing (orderly_latest hids').increasing hreplace.increasing ?_
  intro c
  rw [mem_latest hids', Snapshot.mem_replace, mem_latest hids]
  constructor
  · rintro ⟨hmem, hall⟩
    by_cases hc : c = row
    · exact Or.inr hc
    · have hcmem : c ∈ rows := by simpa [hc] using hmem
      refine Or.inl ⟨⟨hcmem, fun other hother => hall other (List.mem_append_left _ hother)⟩, ?_⟩
      intro hslot
      rcases hall row (by simp) hslot.symm with heq | hn
      · exact hc heq.symm
      · rw [Cell.newer_asymm (hnewer c hcmem hslot)] at hn
        cases hn
  · rintro (⟨⟨hmem, hall⟩, hslot⟩ | rfl)
    · refine ⟨List.mem_append_left _ hmem, ?_⟩
      intro other hother hother'
      rcases List.mem_append.1 hother with ho | ho
      · exact hall other ho hother'
      · rw [List.mem_singleton.1 ho] at hother'
        exact absurd hother'.symm hslot
    · refine ⟨by simp, ?_⟩
      intro other hother hother'
      rcases List.mem_append.1 hother with ho | ho
      · exact Or.inr (hnewer other ho hother')
      · exact Or.inl (List.mem_singleton.1 ho)

/-! ## Keeping a snapshot up to date -/

/-- A row that a log can go on with: its id is above all others, and its version is not below that
of the current row of its slot. -/
structure IsNext (log : List Cell) (row : Cell) : Prop where
  id_lt : ∀ r ∈ log, r.id < row.id
  version_le : ∀ c, (latest log).find? row.slot = some c → c.version ≤ row.version

/-- Rows that a log can go on with one after another. -/
def GoesOn (log : List Cell) : List Cell → Prop
  | [] => True
  | row :: rest => IsNext log row ∧ GoesOn (log ++ [row]) rest

variable {log : List Cell} {row : Cell}

/-- No row of the slot has a higher version than the current one. -/
theorem IsNext.version_le_of_mem (hids : log.Pairwise fun a b => a.id ≠ b.id) (h : IsNext log row)
    {r : Cell} (hr : r ∈ log) (hslot : r.slot = row.slot) : r.version ≤ row.version := by
  obtain ⟨current, hmem, hcurrent⟩ := exists_mem_latest hr
  have hfind : (latest log).find? row.slot = some current :=
    (orderly_latest hids).find?_eq_some_iff.2 ⟨hmem, hcurrent.trans hslot⟩
  have hle := h.version_le current hfind
  rcases ((mem_latest hids).1 hmem).2 r hr hcurrent.symm with rfl | hnewer
  · exact hle
  · rw [Cell.newer_iff] at hnewer
    omega

/-- Swapping such a row into the current ones is looking for the current ones again. -/
theorem IsNext.replace_latest (hids : log.Pairwise fun a b => a.id ≠ b.id) (h : IsNext log row) :
    (latest log).replace row = latest (log ++ [row]) :=
  (latest_concat hids h.id_lt fun _ hr hslot => h.version_le_of_mem hids hr hslot).symm

theorem GoesOn.foldl_replace_latest {rows : List Cell}
    (hids : log.Pairwise fun a b => a.id ≠ b.id) (h : GoesOn log rows) :
    rows.foldl Snapshot.replace (latest log) = latest (log ++ rows) := by
  induction rows generalizing log with
  | nil => rw [List.foldl_nil, List.append_nil]
  | cons row rest ih =>
    -- the first row makes a longer log, with which the others go on
    rcases h with ⟨hnext, hrest⟩
    calc (row :: rest).foldl Snapshot.replace (latest log)
        = rest.foldl Snapshot.replace (latest (log ++ [row])) := by
          rw [List.foldl_cons, hnext.replace_latest hids]
      _ = latest (log ++ [row] ++ rest) := ih (ids_ne_concat hids hnext.id_lt) hrest
      _ = latest (log ++ row :: rest) := by rw [List.append_assoc, List.singleton_append]

/-- A snapshot of the current rows is kept up to date by swapping in each row that the log goes on
with, in the same order of cells. -/
theorem snapshot_upToDate (hids : log.Pairwise fun a b => a.id ≠ b.id) :
    (∀ row, IsNext log row → (latest log).replace row = latest (log ++ [row])) ∧
      ∀ rows, GoesOn log rows →
        rows.foldl Snapshot.replace (latest log) = latest (log ++ rows) :=
  ⟨fun _ h => h.replace_latest hids, fun _ h => h.foldl_replace_latest hids⟩

/-- A log that is in the order neither of its ids nor of its versions. -/
def shuffledLog : List Cell :=
  [⟨3, "1", ⟨0, 0⟩, "b", "b", 5⟩, ⟨1, "1", ⟨0, 0⟩, "a", "a", 2⟩, ⟨2, "1", ⟨1, 0⟩, "x", "x", 7⟩]

/-- The first of these rows has the version of the row it takes the place of, the second one a new
slot, and the third one a slot that has been rewritten by then. -/
def laterRows : List Cell :=
  [⟨4, "1", ⟨0, 0⟩, "c", "c", 5⟩, ⟨5, "1", ⟨2, 0⟩, "y", "y", 0⟩, ⟨8, "1", ⟨0, 0⟩, "d", "d", 6⟩]

theorem goesOn_shuffled : GoesOn shuffledLog laterRows := by
  have hfirst : (latest shuffledLog).find? ⟨0, 0⟩ = some ⟨3, "1", ⟨0, 0⟩, "b", "b", 5⟩ := by cbv
  have hsecond : (latest (shuffledLog ++ laterRows.take 1)).find? ⟨2, 0⟩ = none := by cbv
  have hthird : (latest (shuffledLog ++ laterRows.take 2)).find? ⟨0, 0⟩ =
      some ⟨4, "1", ⟨0, 0⟩, "c", "c", 5⟩ := by cbv
  refine ⟨⟨by decide, ?_⟩, ⟨by decide, ?_⟩, ⟨by decide, ?_⟩, trivial⟩
  · intro c hc
    cases hfirst.symm.trans hc
    decide
  · intro c hc
    cases hsecond.symm.trans hc
  · intro c hc
    cases hthird.symm.trans hc
    decide

theorem snapshot_upToDate_shuffled :
    (shuffledLog.Pairwise fun a b => a.id ≠ b.id) ∧ GoesOn shuffledLog laterRows ∧
      laterRows.foldl Snapshot.replace (latest shuffledLog) = latest (shuffledLog ++ laterRows) ∧
      latest (shuffledLog ++ laterRows) =
        [⟨2, "1", ⟨1, 0⟩, "x", "x", 7⟩, ⟨5, "1", ⟨2, 0⟩, "y", "y", 0⟩,
          ⟨8, "1", ⟨0, 0⟩, "d", "d", 6⟩] := by
  have hids : shuffledLog.Pairwise fun a b => a.id ≠ b.id := by decide
  exact ⟨hids, goesOn_shuffled, (snapshot_upToDate hids).2 _ goesOn_shuffled, by cbv⟩

end Recency

end SheetLedger
