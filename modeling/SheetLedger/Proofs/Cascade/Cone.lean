import SheetLedger.Proofs.Cascade.Levels

/-!
# The cone of a change

A cascade rewrites the slots that the changed one reaches by chains no longer than its number of
levels, and no others (`exists_mem_rows_iff`). The dependents of a level are searched in snapshots
that were rewritten on the way, once for each path; that they are the dependents in the snapshot
that the cascade started from follows from the raw texts, which no rewriting changes.
-/

namespace SheetLedger.Cascade

variable {base : Snapshot} {sheet : String} {version lastId depth bound : Nat} {changed slot : Slot}
  {entry : Pending} {visit : Visit}

/-- The slots that a ready entry feeds are those that the changed slot feeds from the start. -/
theorem feeds_iff_of_ready (horderly : base.Orderly) (h : entry.Ready base sheet bound) :
    entry.snapshot.Feeds entry.changed slot ↔ base.Feeds entry.changed slot :=
  (h.texts.feeds_iff horderly h.orderly).symm

/-- A row is written at a slot that its entry's slot feeds. -/
theorem feeds_of_mem_sweep {entries : List Pending} (horderly : base.Orderly)
    (hready : ∀ e ∈ entries, e.Ready base sheet bound)
    (h : visit ∈ sweep version lastId entries) :
    base.Feeds visit.entry.changed visit.row.slot := by
  rcases mem_sweep h with ⟨hentry, dependent, hdep, hrow⟩
  rw [← feeds_iff_of_ready horderly (hready _ hentry), hrow]
  show visit.entry.snapshot.Feeds visit.entry.changed dependent.slot
  exact Snapshot.feeds_of_mem_dependents hdep

/-- For every slot that an entry's slot feeds a row is written. -/
theorem exists_mem_sweep_of_feeds {entries : List Pending} (horderly : base.Orderly)
    (hready : ∀ e ∈ entries, e.Ready base sheet bound) (hentry : entry ∈ entries)
    (h : base.Feeds entry.changed slot) :
    ∃ visit ∈ sweep version lastId entries, visit.entry = entry ∧ visit.row.slot = slot := by
  rw [← feeds_iff_of_ready horderly (hready entry hentry),
    Snapshot.feeds_iff_exists_dependent] at h
  rcases h with ⟨dependent, hdep, rfl⟩
  exact exists_mem_sweep hentry hdep

/-- The changed slots of a level are the ends of the chains of its length. -/
theorem exists_mem_iterate_iff {frontier : Frontier} (horderly : base.Orderly)
    (hready : frontier.Ready base sheet) (hstart : ∀ e ∈ frontier.entries, e.changed = changed)
    (hne : frontier.entries ≠ []) (k : Nat) :
    (∃ e ∈ ((Frontier.next version)^[k] frontier).entries, e.changed = slot) ↔
      ∃ path, path.length = k ∧ base.Chain changed path slot := by
  -- a chain grows by the step from one level to the next; `slot` is its end, so it varies
  induction k generalizing slot with
  | zero =>
    simp only [List.length_eq_zero_iff, exists_eq_left, Snapshot.chain_nil_iff]
    constructor
    · rintro ⟨e, he, rfl⟩
      exact hstart e he
    · rintro rfl
      rcases List.exists_mem_of_ne_nil _ hne with ⟨e, he⟩
      exact ⟨e, he, hstart e he⟩
  | succ k ih =>
    have hlevel := hready.iterate version k
    rw [Function.iterate_succ_apply']
    constructor
    · rintro ⟨e, he, rfl⟩
      rcases List.mem_map.1 he with ⟨visit, hvisit, rfl⟩
      rcases ih.1 ⟨visit.entry, (mem_sweep hvisit).1, rfl⟩ with ⟨path, hlength, hchain⟩
      have hfeeds := feeds_of_mem_sweep horderly hlevel hvisit
      exact ⟨path ++ [visit.row.slot], by simp [hlength], hchain.snoc hfeeds⟩
    · rintro ⟨path, hlength, hchain⟩
      -- the step that is to be repeated is the last one of the path
      obtain ⟨before, next, rfl⟩ : ∃ before next, path = before ++ [next] :=
        ⟨_, _, (List.dropLast_append_getLast (List.ne_nil_of_length_eq_add_one hlength)).symm⟩
      rcases Snapshot.chain_concat_iff.1 hchain with ⟨rfl, middle, hbefore, hfeeds⟩
      have hk : before.length = k := by simpa using hlength
      rcases ih.2 ⟨before, hk, hbefore⟩ with ⟨e, he, rfl⟩
      rcases exists_mem_sweep_of_feeds horderly hlevel he hfeeds with ⟨visit, hvisit, -, hslot⟩
      exact ⟨visit.follow, List.mem_map_of_mem hvisit, hslot⟩

variable {snapshot : Snapshot}

/-- The slots of a level are the ends of the chains that are one longer than its number. -/
theorem exists_mem_level_iff (horderly : snapshot.Orderly)
    (hready : (start depth lastId changed snapshot).Ready snapshot sheet) (k : Nat) :
    (∃ visit ∈ level version (start depth lastId changed snapshot) k, visit.row.slot = slot) ↔
      ∃ path, path.length = k + 1 ∧ snapshot.Chain changed path slot := by
  have hiff : (∃ e ∈ ((Frontier.next version)^[k + 1]
        (start depth lastId changed snapshot)).entries, e.changed = slot) ↔
      ∃ path, path.length = k + 1 ∧ snapshot.Chain changed path slot :=
    exists_mem_iterate_iff horderly hready (fun e he => by rw [List.mem_singleton.1 he])
      (List.cons_ne_nil _ _) (k + 1)
  rw [← hiff, Function.iterate_succ_apply']
  constructor
  · rintro ⟨visit, hvisit, rfl⟩
    exact ⟨visit.follow, List.mem_map_of_mem hvisit, rfl⟩
  · rintro ⟨e, he, rfl⟩
    rcases List.mem_map.1 he with ⟨visit, hvisit, rfl⟩
    exact ⟨visit, hvisit, rfl⟩

/-- A cascade rewrites the slots that chains within its depth lead to. -/
theorem exists_mem_rows_iff (horderly : snapshot.Orderly)
    (hready : (start depth lastId changed snapshot).Ready snapshot sheet) :
    (∃ row ∈ rows version (start depth lastId changed snapshot) depth, row.slot = slot) ↔
      snapshot.ReachesWithin depth changed slot := by
  constructor
  · rintro ⟨row, hrow, rfl⟩
    rcases mem_rows.1 hrow with ⟨k, hk, visit, hvisit, rfl⟩
    obtain ⟨path, hlength, hchain⟩ :=
      (exists_mem_level_iff horderly hready k).1 ⟨visit, hvisit, rfl⟩
    refine ⟨path, List.ne_nil_of_length_eq_add_one hlength, ?_, hchain⟩
    omega
  · rintro ⟨path, hne, hlength, hchain⟩
    have hpos := List.length_pos_iff.2 hne
    obtain ⟨visit, hvisit, hslot⟩ :=
      (exists_mem_level_iff horderly hready (path.length - 1)).2 ⟨path, by omega, hchain⟩
    exact ⟨visit.row, mem_rows.2 ⟨path.length - 1, by omega, visit, hvisit, rfl⟩, hslot⟩

end SheetLedger.Cascade
