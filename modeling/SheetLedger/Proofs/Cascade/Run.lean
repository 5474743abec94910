import SheetLedger.Proofs.Cascade.Levels
import SheetLedger.Proofs.Cascade.Recursion

/-!
# Running a cascade

A cascade over a lawful store ends, without an error, with the rows of its levels appended
(`Cascade.propagate_eq`). The store must be able to hold the version, and the slots of the snapshot
that the cascade starts from; then it can hold every row, because rows stand where cells stood.

A lawful store gives consecutive ids, and with them the levels that a cascade writes are those that
can be counted beforehand (`Cascade.Levels.rows_eq`).
-/

namespace SheetLedger.Cascade

section Rows

variable {version lastId depth n : Nat} {origin : Origin} {dependent row : Cell}
  {origins : List Origin} {groups levels : List (List Cell)}

/-! ## Rows under consecutive ids -/

theorem Origin.RowFor.eq_renewed (h : origin.RowFor version dependent row) :
    row = dependent.renewed row.id version origin.snapshot := by
  rw [Cell.renewed, Formula.value_of_evaluate h.1]
  exact h.2

/-- Of rows under consecutive ids, the first ones and the others are rows under consecutive ids. -/
theorem ids_of_append {rows more : List Cell}
    (h : (rows ++ more).map (·.id) = List.range' (lastId + 1) (rows ++ more).length) :
    rows.map (·.id) = List.range' (lastId + 1) rows.length ∧
      more.map (·.id) = List.range' (lastId + rows.length + 1) more.length := by
  rw [List.map_append, List.length_append, ← List.range'_append_1, Nat.add_right_comm] at h
  exact List.append_inj h (by rw [List.length_map, List.length_range'])

/-- The rows that come from an origin are those of the visits to its dependents. -/
theorem visitAll_eq_map {dependents rows : List Cell}
    (h : List.Forall₂ (origin.RowFor version) dependents rows)
    (hids : rows.map (·.id) = List.range' (lastId + 1) rows.length) :
    visitAll version (origin.pending n) lastId dependents = rows.map (⟨origin.pending n, ·⟩) := by
  induction h generalizing lastId with
  | nil => rfl
  | @cons dependent row dependents rows hrow _ ih =>
    rw [List.map_cons, List.length_cons, List.range'_succ, List.cons.injEq] at hids
    have hfirst := hrow.eq_renewed
    rw [hids.1] at hfirst
    rw [visitAll, List.map_cons, ih hids.2]
    exact congrArg (fun r => Visit.mk (origin.pending n) r :: _) hfirst.symm

/-- The rows of one level are those of the visits to it, and leave the same work. -/
theorem sweep_eq (h : List.Forall₂ (Origin.Yields version) origins groups)
    (hids : groups.flatten.map (·.id) = List.range' (lastId + 1) groups.flatten.length) :
    (sweep version lastId (origins.map (Origin.pending n))).map (·.row) = groups.flatten ∧
      (sweep version lastId (origins.map (Origin.pending n))).map Visit.follow =
        (below origins groups).map (Origin.pending (n - 1)) := by
  induction h generalizing lastId with
  | nil => exact ⟨rfl, rfl⟩
  | @cons origin rows origins groups hrows _ ih =>
    obtain ⟨hfirst, hrest⟩ := ids_of_append hids
    obtain ⟨hgroups, hbelow⟩ := ih hrest
    have hvisits : visitAll version (origin.pending n) lastId
        ((origin.pending n).snapshot.dependents (origin.pending n).changed) =
          rows.map (⟨origin.pending n, ·⟩) := visitAll_eq_map hrows hfirst
    rw [List.map_cons, sweep, hvisits, List.length_map, below_cons]
    simp only [List.map_append, List.map_map, List.flatten_cons, hgroups, hbelow]
    exact ⟨congrArg (· ++ _) (List.map_id _), rfl⟩

/-- Levels under consecutive ids are those that can be counted beforehand. -/
theorem Levels.rows_eq (h : Levels version depth origins levels)
    (hids : levels.flatten.map (·.id) = List.range' (lastId + 1) levels.flatten.length) :
    rows version ⟨lastId, origins.map (Origin.pending depth)⟩ depth = levels.flatten := by
  induction h generalizing lastId with
  | nil => rfl
  | @cons depth origins groups levels hgroups _ ih =>
    obtain ⟨hfirst, hrest⟩ := ids_of_append hids
    obtain ⟨hrows, hbelow⟩ := @sweep_eq version lastId (depth + 1) _ _ hgroups hfirst
    rw [Nat.add_sub_cancel] at hbelow
    have hlength := congrArg List.length hrows
    rw [List.length_map] at hlength
    rw [rows_succ, List.flatten_cons, hrows, Frontier.next, hlength, hbelow, ih hrest]

/-! ## Slots of rows -/

/-- What holds at the slots of all snapshots goes on holding on the level below, because rows stand
where cells stood. -/
theorem forall_slot_of_mem_below {P : Slot → Prop}
    (h : List.Forall₂ (Origin.Yields version) origins groups)
    (hslots : ∀ o ∈ origins, ∀ cell ∈ o.snapshot, P cell.slot) :
    ∀ next ∈ below origins groups, ∀ cell ∈ next.snapshot, P cell.slot := by
  intro next hnext cell hcell
  obtain ⟨o, ho, row, rfl, dependent, hdep, hfor⟩ := exists_of_mem_below h hnext
  rcases Snapshot.mem_replace.1 hcell with ⟨hold, -⟩ | rfl
  · exact hslots o ho cell hold
  · rw [hfor.slot_eq]
    exact hslots o ho dependent (Snapshot.mem_dependents.1 hdep).1

/-- The rows of all levels stand where cells stood when the cascade started. -/
theorem Levels.forall_slot {P : Slot → Prop} (h : Levels version depth origins levels)
    (hslots : ∀ o ∈ origins, ∀ cell ∈ o.snapshot, P cell.slot) :
    ∀ row ∈ levels.flatten, P row.slot ∧ row.version = version := by
  induction h with
  | nil => simp
  | cons hgroups _ ih =>
    intro row hrow
    rcases List.mem_append.1 hrow with hmem | hmem
    · obtain ⟨o, ho, dependent, hdep, hfor⟩ := exists_of_mem_flatten hgroups hmem
      rw [hfor.slot_eq]
      exact ⟨hslots o ho dependent (Snapshot.mem_dependents.1 hdep).1, hfor.version_eq⟩
    · exact ih (forall_slot_of_mem_below hgroups hslots) row hmem

end Rows

/-! ## Rows that a lawful store takes -/

open JournaledStore

variable {σ : Type} [CellStore σ] [LawfulStore σ] {store : σ} {snapshot : Snapshot} {sheet : String}
  {version depth : Nat} {changed : Slot}

/-- A lawful store takes the rows of a cascade if it can hold the version and the slots of the
snapshot. -/
theorem takes_of_fits (hsound : Sound store) (hversion : Holds σ version)
    (hfits : ∀ cell ∈ snapshot, FitsSlot σ cell.slot) :
    Takes store version depth ⟨changed, snapshot⟩ := by
  intro levels written row rest mid hlevels hrows hreached
  obtain ⟨hslot, hrow⟩ := hlevels.forall_slot
    (fun o ho => by rw [List.mem_singleton.1 ho]; exact hfits) row
    (by rw [hrows]; exact List.mem_append_right _ List.mem_cons_self)
  rcases LawfulStore.insert_of_fits { row with id := 0 } (hreached.appends hsound).sound
    ⟨hslot, by rwa [← hrow] at hversion⟩ with ⟨later, hinsert, -⟩
  exact ⟨_, later, hinsert⟩

/-- A cascade that starts from an orderly snapshot in which a cell stands at the changed slot ends
with the rows of its levels appended. -/
theorem propagate_eq (hsound : Sound store) (hversion : Holds σ version) (depth : Nat)
    (hready : (start depth (lastId store) changed snapshot).Ready snapshot sheet)
    (hfits : ∀ cell ∈ snapshot, FitsSlot σ cell.slot) :
    ∃ later, propagate depth version changed snapshot store =
        .ok (rows version (start depth (lastId store) changed snapshot) depth) later ∧
      Appends store later (rows version (start depth (lastId store) changed snapshot) depth) := by
  have hstands : Origin.Stands ⟨changed, snapshot⟩ := (hready _ (List.mem_singleton_self _)).stands
  obtain ⟨levels, later, hdescend, hlevels, hreached⟩ :=
    descend_of_takes hstands (takes_of_fits hsound hversion hfits)
  have happends := hreached.appends hsound
  have hrows : rows version (start depth (lastId store) changed snapshot) depth = levels.flatten :=
    hlevels.rows_eq happends.ids
  refine ⟨later, ?_, ?_⟩
  · rw [hrows, propagate_of_descend hdescend]
  · rw [hrows]
    exact happends

end SheetLedger.Cascade
