import SheetLedger.Proofs.Recency

/-!
# Logs in any order and in parts

A snapshot *resolves* a log if it has exactly one row for each slot of the log, the newest one, in
the order of their ids (`Recency.Resolves`). For a log with ids of its own there is just one such
snapshot, `Recency.latest`, and this decides everything else that is said about it here: as being
the newest row of a slot is no matter of order, neither the order of the log nor the order in which
the rows of the slots are collected shows; a part of a log may be resolved first and the result be
put in its place; and a later moment shows no slot at an older row (`Recency.latest_canonical`).
-/

namespace SheetLedger.Recency

variable {rows other front back entries : List Cell} {a b : Snapshot} {c row : Cell} {v w : Nat}

/-! ## Current rows of other logs -/

/-- Two current rows of one slot are the same row. -/
theorem IsCurrent.eq_of_slot_eq {c d : Cell} (hc : IsCurrent rows c) (hd : IsCurrent rows d)
    (h : c.slot = d.slot) : c = d := by
  rcases hc.2 d hd.1 h.symm with heq | hnewer
  · exact heq.symm
  · rcases hd.2 c hc.1 h with heq | hnewer'
    · exact heq
    · rw [Cell.newer_asymm hnewer] at hnewer'
      cases hnewer'

theorem IsCurrent.perm (h : rows.Perm other) (hc : IsCurrent rows c) : IsCurrent other c :=
  ⟨h.mem_iff.1 hc.1, fun r hr => hc.2 r (h.mem_iff.2 hr)⟩

/-- What is current once a part of the log has been replaced by its current rows was current
before. -/
theorem isCurrent_append_of_latest (hids : front.Pairwise fun a b => a.id ≠ b.id)
    (h : IsCurrent (latest front ++ back) c) : IsCurrent (front ++ back) c := by
  constructor
  · rcases List.mem_append.1 h.1 with hmem | hmem
    · exact List.mem_append_left _ (mem_of_mem_latest hids hmem)
    · exact List.mem_append_right _ hmem
  · intro r hr hslot
    rcases List.mem_append.1 hr with hfront | hback
    -- a row of the front part is not newer than the one that was kept in its place
    · rcases exists_mem_latest hfront with ⟨kept, hkept, hkeptslot⟩
      have hover : r = kept ∨ kept.newer r = true :=
        ((mem_latest hids).1 hkept).2 r hfront hkeptslot.symm
      have hunder : kept = c ∨ c.newer kept = true :=
        h.2 kept (List.mem_append_left _ hkept) (hkeptslot.trans hslot)
      rcases hover with rfl | hover
      · exact hunder
      · rcases hunder with rfl | hunder
        · exact Or.inr hover
        · exact Or.inr (Cell.newer_trans hunder hover)
    · exact h.2 r (List.mem_append_right _ hback) hslot

/-! ## Resolved logs -/

/-- A snapshot has exactly one row for each slot of a log, the newest one, in the order of ids. -/
structure Resolves (rows : List Cell) (snapshot : Snapshot) : Prop where
  increasing : List.Pairwise (fun a b => a.id < b.id) snapshot
  newest : ∀ c ∈ snapshot, IsCurrent rows c
  single : ∀ row ∈ rows, ∃! c, c ∈ snapshot ∧ c.slot = row.slot

theorem resolves_latest (hids : rows.Pairwise fun a b => a.id ≠ b.id) :
    Resolves rows (latest rows) where
  increasing := (orderly_latest hids).increasing
  newest _ hc := (mem_latest hids).1 hc
  single row hrow := by
    rcases exists_mem_latest hrow with ⟨c, hc, hslot⟩
    refine ⟨c, ⟨hc, hslot⟩, ?_⟩
    rintro d ⟨hd, hslot'⟩
    exact (orderly_latest hids).eq_of_slot_eq hd hc (hslot'.trans hslot.symm)

theorem Resolves.mem_iff (h : Resolves rows a) : c ∈ a ↔ IsCurrent rows c := by
  refine ⟨h.newest c, fun hc => ?_⟩
  rcases (h.single c hc.1).exists with ⟨d, hd, hslot⟩
  rw [hc.eq_of_slot_eq (h.newest d hd) hslot.symm]
  exact hd

/-- No other snapshot resolves the same log. -/
theorem Resolves.unique (ha : Resolves rows a) (hb : Resolves rows b) : a = b :=
  eq_of_increasing ha.increasing hb.increasing fun _ => ha.mem_iff.trans hb.mem_iff.symm

/-- The rows of a log may stand in another order. -/
theorem Resolves.perm (h : rows.Perm other) (ha : Resolves rows a) : Resolves other a where
  increasing := ha.increasing
  newest c hc := (ha.newest c hc).perm h
  single row hrow := ha.single row (h.mem_iff.2 hrow)

theorem latest_perm (hids : rows.Pairwise fun a b => a.id ≠ b.id) (h : other.Perm rows) :
    latest other = latest rows :=
  ((resolves_latest (h.symm.pairwise hids Ne.symm)).perm h).unique (resolves_latest hids)

/-- However the rows kept for the slots are collected, sorting them by their ids gives one
snapshot. -/
theorem mergeSort_perm (hids : rows.Pairwise fun a b => a.id ≠ b.id)
    (h : entries.Perm (rows.foldl keep [])) :
    entries.mergeSort (fun a b => a.id ≤ b.id) = latest rows := by
  have hperm : (entries.mergeSort fun a b => a.id ≤ b.id).Perm (latest rows) :=
    (List.mergeSort_perm _ _).trans (h.trans (List.mergeSort_perm _ _).symm)
  have hlatest : (latest rows).Pairwise fun a b => a.id ≤ b.id :=
    (resolves_latest hids).increasing.imp Nat.le_of_lt
  refine hperm.eq_of_pairwise ?_ (pairwise_mergeSort_id entries) hlatest
  intro a b ha hb hab hba
  exact eq_of_id_eq hids (mem_of_mem_latest hids (hperm.mem_iff.1 ha)) (mem_of_mem_latest hids hb)
    (Nat.le_antisymm hab hba)

/-- The front part of a log may be resolved first. -/
theorem latest_latest_append (hids : (front ++ back).Pairwise fun a b => a.id ≠ b.id) :
    latest (latest front ++ back) = latest (front ++ back) := by
  rcases List.pairwise_append.1 hids with ⟨hfront, hback, hacross⟩
  have hresolved : (latest front ++ back).Pairwise fun a b => a.id ≠ b.id := by
    refine List.pairwise_append.2 ⟨ids_ne (orderly_latest hfront).increasing, hback, ?_⟩
    intro a ha b hb
    exact hacross a (mem_of_mem_latest hfront ha) b hb
  refine Resolves.unique ?_ (resolves_latest hids)
  have hparts := resolves_latest hresolved
  refine ⟨hparts.increasing, fun c hc => isCurrent_append_of_latest hfront (hparts.newest c hc), ?_⟩
  intro row hrow
  rcases List.mem_append.1 hrow with hmem | hmem
  -- a slot of the front part still has a row there
  · rcases exists_mem_latest hmem with ⟨kept, hkept, hslot⟩
    rw [← hslot]
    exact hparts.single kept (List.mem_append_left _ hkept)
  · exact hparts.single row (List.mem_append_right _ hmem)

/-! ## Moments of a log -/

/-- A slot that has a row at a moment has one at every later moment, and no older one. -/
theorem exists_mem_latestAsOf (hids : rows.Pairwise fun a b => a.id ≠ b.id) (hvw : v ≤ w)
    (hc : c ∈ latestAsOf rows v) :
    ∃ k ∈ latestAsOf rows w, k.slot = c.slot ∧ (k = c ∨ k.newer c = true) := by
  have hmem := List.mem_filter.1 (mem_of_mem_latest (hids.filter _) hc)
  have hcw : c ∈ rows.filter (·.version ≤ w) :=
    List.mem_filter.2 ⟨hmem.1, decide_eq_true (Nat.le_trans (of_decide_eq_true hmem.2) hvw)⟩
  rcases exists_mem_latest hcw with ⟨k, hk, hslot⟩
  refine ⟨k, hk, hslot, ?_⟩
  rcases ((mem_latest (hids.filter _)).1 hk).2 c hcw hslot.symm with heq | hnewer
  · exact Or.inl heq.symm
  · exact Or.inr hnewer

/-- The current rows of a log with ids of its own are the one snapshot that resolves it. They do not
depend on the order of the log nor on the order in which the rows of the slots are collected, the
current rows of a front part may stand in its place, and the rows at a later moment stand at the
slots of an earlier one as well, none of them older. -/
theorem latest_canonical (hids : rows.Pairwise fun a b => a.id ≠ b.id) :
    (Resolves rows (latest rows) ∧ ∀ snapshot, Resolves rows snapshot → snapshot = latest rows) ∧
      (∀ other : List Cell, other.Perm rows → latest other = latest rows) ∧
      (∀ entries : List Cell, entries.Perm (rows.foldl keep []) →
        entries.mergeSort (fun a b => a.id ≤ b.id) = latest rows) ∧
      (∀ front back, front ++ back = rows → latest (latest front ++ back) = latest rows) ∧
      ∀ v w, v ≤ w → ∀ c ∈ latestAsOf rows v,
        ∃ k ∈ latestAsOf rows w, k.slot = c.slot ∧ (k = c ∨ k.newer c = true) := by
  refine ⟨⟨resolves_latest hids, fun _ h => h.unique (resolves_latest hids)⟩,
    fun _ h => latest_perm hids h, fun _ h => mergeSort_perm hids h, ?_,
    fun _ _ hvw _ hc => exists_mem_latestAsOf hids hvw hc⟩
  rintro front back rfl
  exact latest_latest_append hids

/-- A log in which two rows of a slot have one version and the ids are in no order. -/
def tiedLog : List Cell :=
  [⟨4, "1", ⟨0, 0⟩, "b", "b", 5⟩, ⟨1, "1", ⟨0, 0⟩, "a", "a", 5⟩, ⟨3, "1", ⟨1, 0⟩, "x", "x", 7⟩,
    ⟨2, "1", ⟨1, 0⟩, "y", "y", 6⟩]

theorem latest_canonical_tied :
    (tiedLog.Pairwise fun a b => a.id ≠ b.id) ∧ Resolves tiedLog (latest tiedLog) ∧
      latest tiedLog = [⟨3, "1", ⟨1, 0⟩, "x", "x", 7⟩, ⟨4, "1", ⟨0, 0⟩, "b", "b", 5⟩] ∧
      latest tiedLog.reverse = latest tiedLog ∧
      latest (latest (tiedLog.take 1) ++ tiedLog.drop 1) = latest tiedLog ∧
      latestAsOf tiedLog 6 = [⟨2, "1", ⟨1, 0⟩, "y", "y", 6⟩, ⟨4, "1", ⟨0, 0⟩, "b", "b", 5⟩] ∧
      ∀ c ∈ latestAsOf tiedLog 6,
        ∃ k ∈ latestAsOf tiedLog 7, k.slot = c.slot ∧ (k = c ∨ k.newer c = true) := by
  have hids : tiedLog.Pairwise fun a b => a.id ≠ b.id := by decide
  rcases latest_canonical hids with ⟨⟨hresolves, -⟩, hperm, -, hparts, hmoments⟩
  exact ⟨hids, hresolves, by cbv, hperm _ (List.reverse_perm _),
    hparts _ _ (List.take_append_drop 1 _), by cbv, hmoments 6 7 (by decide)⟩

end SheetLedger.Recency
