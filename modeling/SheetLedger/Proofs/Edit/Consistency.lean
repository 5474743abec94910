import SheetLedger.Proofs.Consistency
import SheetLedger.Proofs.Edit.Outcome
import SheetLedger.Proofs.Store.Log

/-!
# Consistency after an edit

An edit whose stamp is not below the stored versions makes its own rows the current ones: the edited
cell takes the place of the old one, and at every slot that the cascade reaches the row of the last
visit stands (`Engine.Fresh`). So if the edit leaves no cycle and its depth cuts off no chain, it
restores the consistency of its spreadsheet exactly as far as the cells on the last longest chains
tell the truth (`Engine.edit_consistent_iff`). They do not where two dependents of one cell feed a
third one: each of the two rows for that one is computed with one of the two still old
(`Engine.not_consistent_diamond`).
-/

namespace SheetLedger.Engine

open JournaledStore Snapshot Cascade

variable {σ : Type} [CellStore σ] [LawfulStore σ] {engine later : Engine σ} {now : Nat}
  {sheet : String} {slot x : Slot} {raw : String} {evaluation : Evaluation} {cell : Cell}

/-- The current cells of a spreadsheet. -/
def currentCells (engine : Engine σ) (sheet : String) : Snapshot :=
  Recency.latest (cells engine.store sheet)

/-- The visits of the cascade of an edit. -/
def cascadeVisits (engine : Engine σ) (cell : Cell) : List Visit :=
  visits cell.version
    (Cascade.start engine.settings.cascadeDepth cell.id cell.slot (engine.baseline cell))
    engine.settings.cascadeDepth

theorem mem_cascadeRows_of_mem {visit : Visit} (hvisit : visit ∈ engine.cascadeVisits cell) :
    visit.row ∈ engine.cascadeRows cell :=
  List.mem_map_of_mem hvisit

/-- An edit under a stamp that no stored version is above. -/
structure Fresh (engine : Engine σ) (cell : Cell) (later : Engine σ) : Prop where
  sound : Sound engine.store
  id_eq : cell.id = lastId engine.store + 1
  appends : Appends engine.store later.store (cell :: engine.cascadeRows cell)
  version_le : ∀ c ∈ cells engine.store cell.sheet, c.version ≤ cell.version

namespace Fresh

variable (h : Fresh engine cell later)

include h

theorem cells_eq :
    cells later.store cell.sheet =
      cells engine.store cell.sheet ++ cell :: engine.cascadeRows cell := by
  refine h.appends.cells_eq ?_
  intro row hrow
  exact (stamped_of_mem h.sound h.id_eq hrow).1

theorem ids_ne : (cells later.store cell.sheet).Pairwise fun a b => a.id ≠ b.id :=
  LawfulStore.ids_ne h.appends.sound _

/-- The baseline is what was current, with the edited cell in its place. -/
theorem baseline_eq :
    engine.baseline cell = (engine.currentCells cell.sheet).replace cell := by
  refine Recency.latest_concat (LawfulStore.ids_ne h.sound _) ?_ ?_
  · intro r hr
    have hle := LawfulStore.cell_id_le h.sound hr
    have hid := h.id_eq
    omega
  · exact fun r hr _ => h.version_le r hr

/-- A slot without a row of the cascade holds what the baseline holds. -/
theorem find?_of_forall_ne (hx : ∀ row ∈ engine.cascadeRows cell, row.slot ≠ x) :
    (later.currentCells cell.sheet).find? x = (engine.baseline cell).find? x := by
  refine Recency.find?_latest_congr h.ids_ne (ids_ne_baseline h.sound h.id_eq) ?_
  have hnone : (engine.cascadeRows cell).filter (·.slot = x) = [] := by
    rw [List.filter_eq_nil_iff]
    intro row hrow hslot
    exact hx row hrow (of_decide_eq_true hslot)
  rw [h.cells_eq, List.filter_append, List.filter_append, List.filter_cons, hnone]
  simp [List.filter_cons]

/-- The row of the last visit to a slot is the current one. -/
theorem find?_of_last {visit : Visit} (hlast : Last (engine.cascadeVisits cell) visit) :
    (later.currentCells cell.sheet).find? visit.row.slot = some visit.row := by
  have hversion : ∀ row ∈ engine.cascadeRows cell, row.version = cell.version := fun row hrow =>
    (texts_of_mem_cascadeRows h.sound h.id_eq hrow).2.1
  have hrow := mem_cascadeRows_of_mem hlast.mem
  have hid : cell.id < visit.row.id := by
    rcases mem_visits.1 hlast.mem with ⟨k, -, hlevel⟩
    exact lastId_lt_of_mem_level hlevel
  have hmem : visit.row ∈ cells later.store cell.sheet := by
    rw [h.cells_eq]
    simp [hrow]
  refine Recency.find?_latest_of_forall_le h.ids_ne hmem ?_
  intro other hother hslot
  rw [hversion _ hrow]
  rw [h.cells_eq, List.mem_append, List.mem_cons] at hother
  -- a row at this slot was stored before, or is the edited cell, or is of a visit not later
  rcases hother with hold | rfl | hcascade
  · have hold' := LawfulStore.cell_id_le h.sound hold
    have hnext := h.id_eq
    exact ⟨h.version_le other hold, by omega⟩
  · exact ⟨Nat.le_refl _, Nat.le_of_lt hid⟩
  · rcases List.mem_map.1 hcascade with ⟨v, hv, rfl⟩
    exact ⟨Nat.le_of_eq (hversion _ hcascade), hlast.newest v hv hslot⟩

/-- A slot of the cascade has the raw text of the baseline, and so has every other one. -/
theorem sameTexts : (engine.baseline cell).SameTexts (later.currentCells cell.sheet) := by
  intro x
  by_cases hx : ∃ visit ∈ engine.cascadeVisits cell, visit.row.slot = x
  · rcases hx with ⟨visit, hvisit, rfl⟩
    rcases exists_last hvisit with ⟨last, hlast, hslot⟩
    have htexts := texts_of_mem_cascadeRows h.sound h.id_eq (mem_cascadeRows_of_mem hlast.mem)
    rw [← hslot, h.find?_of_last hlast, htexts.2.2]
    rfl
  · rw [h.find?_of_forall_ne]
    intro row hrow hslot
    rcases List.mem_map.1 hrow with ⟨visit, hvisit, rfl⟩
    exact hx ⟨visit, hvisit, hslot⟩

theorem orderly_later : (later.currentCells cell.sheet).Orderly :=
  Recency.orderly_latest h.ids_ne

/-- A slot that is not reached holds what the baseline holds. -/
theorem find?_of_not_reaches (hx : ¬ (later.currentCells cell.sheet).Reaches cell.slot x) :
    (later.currentCells cell.sheet).find? x = (engine.baseline cell).find? x := by
  refine h.find?_of_forall_ne fun row hrow hslot => hx ?_
  obtain ⟨path, hne, -, hchain⟩ := (exists_mem_rows_iff (orderly_baseline h.sound h.id_eq)
    (ready_baseline h.sound h.id_eq _)).1 ⟨row, hrow, hslot⟩
  exact ⟨path, hne,
    (h.sameTexts.chain_iff (orderly_baseline h.sound h.id_eq) h.orderly_later).1 hchain⟩

variable (hdepth : ∀ path x, (later.currentCells cell.sheet).Chain cell.slot path x →
  path.length ≤ engine.settings.cascadeDepth)

include hdepth

/-- What the edit leaves if the edited cell does not read itself in the end. -/
theorem recomputed (hacyclic : (later.currentCells cell.sheet).Acyclic) :
    Recomputed (engine.currentCells cell.sheet) (later.currentCells cell.sheet) cell := by
  have hbaseline := orderly_baseline h.sound h.id_eq
  have hready := ready_baseline h.sound h.id_eq engine.settings.cascadeDepth
  -- chains are the same before the cascade and after it, since no raw text changes
  have hiff : ∀ {first last : Slot} {path : List Slot},
      (engine.baseline cell).Chain first path last ↔
        (later.currentCells cell.sheet).Chain first path last :=
    h.sameTexts.chain_iff hbaseline h.orderly_later
  have hcycle : ∀ y, ¬ (engine.baseline cell).Reaches y y := by
    rintro y ⟨path, hne, hchain⟩
    exact hacyclic.not_reaches_self y ⟨path, hne, hiff.1 hchain⟩
  have hsame : ∀ {y : Slot}, ¬ (later.currentCells cell.sheet).Reaches cell.slot y →
      (later.currentCells cell.sheet).find? y =
        ((engine.currentCells cell.sheet).replace cell).find? y := by
    intro y hy
    rw [h.find?_of_not_reaches hy, h.baseline_eq]
  refine ⟨Recency.orderly_latest (LawfulStore.ids_ne h.sound _), h.orderly_later,
    h.baseline_eq ▸ h.sameTexts, ?_, ?_, ?_⟩
  · rw [hsame (hacyclic.not_reaches_self cell.slot), find?_replace, if_pos rfl]
  · intro x hx hnot
    rw [hsame hnot, find?_replace, if_neg (Ne.symm hx)]
  · intro x hreach
    rcases hreach with ⟨path, hne, hchain⟩
    obtain ⟨visit, longest, hlast, hslot, hlongest, hsnapshot⟩ := exists_last_longest
      hbaseline hready (fun path x hc => hdepth path x (hiff.1 hc)) hcycle cell.version
      ⟨path, hne, hiff.2 hchain⟩ (fun v hv => h.find?_of_last hv)
    rcases mem_visits.1 hlast.mem with ⟨k, -, hlevel⟩
    rcases mem_level hready hlevel with ⟨dependent, hdep, hrow, hentry⟩
    obtain ⟨value, hvalue⟩ :=
      Formula.exists_value_of_dependsOn (mem_dependents.1 hdep).2.2 hentry.stands
    have hlongest' : (later.currentCells cell.sheet).LastLongest
        ((engine.currentCells cell.sheet).replace cell) cell.slot longest x := by
      rw [← h.baseline_eq]
      exact ⟨⟨hiff.1 hlongest.chain, fun other hother => hlongest.longest other (hiff.2 hother)⟩,
        fun other hother => hlongest.latest other (hiff.2 hother)⟩
    rw [h.baseline_eq] at hsnapshot
    refine ⟨visit.row, longest, ?_, hlongest', ?_, ?_⟩
    · rw [← hslot]
      exact h.find?_of_last hlast
    · rw [← hsnapshot]
      exact hentry.orderly
    · rw [← hsnapshot, hrow]
      show dependent.formula.evaluate _ = .ok (dependent.formula.value _)
      rw [hvalue, Formula.value_of_evaluate hvalue]

end Fresh

/-! ## Consistency after an edit -/

theorem snapshot_eq_currentCells (hsound : Sound engine.store)
    (hreadable : (journal engine.store sheet).Readable) :
    engine.snapshot sheet = .ok (engine.currentCells sheet) :=
  (snapshot_eq_ok_iff hsound).2 ⟨hreadable, rfl⟩

/-- An edited cell holds the value of its formula against the other cells. -/
theorem computed_edited (hsound : Sound engine.store) {others : Snapshot}
    (h : Planned engine sheet slot raw others evaluation) :
    (engine.edited now sheet slot raw evaluation).computed =
      ((engine.edited now sheet slot raw evaluation).formula.compute
        ((engine.currentCells sheet).without slot) engine.settings.errorMarker).value := by
  have hothers := ((LawfulStore.snapshot_eq_ok_iff hsound).1 h.read).2
  show evaluation.value = _
  rw [h.evaluation_eq, hothers]
  rfl

/-- How far an accepted edit restores the consistency of its spreadsheet, if its cascade is not cut
off by the depth and leaves no cycle. -/
theorem edit_consistent_iff (hsound : Sound engine.store)
    (hstored : storedBy (edit now sheet slot raw engine) = some (cell, later))
    (hconsistent : (engine.currentCells sheet).Consistent engine.settings.errorMarker)
    (hstamp : ∀ c ∈ cells engine.store sheet, c.version ≤ cell.version)
    (hacyclic : (later.currentCells sheet).Acyclic)
    (hdepth : ∀ path x, (later.currentCells sheet).Chain slot path x →
      path.length ≤ engine.settings.cascadeDepth) :
    engine.snapshot sheet = .ok (engine.currentCells sheet) ∧
      later.snapshot sheet = .ok (later.currentCells sheet) ∧
      Restored (engine.currentCells sheet) (later.currentCells sheet) cell
        engine.settings.errorMarker := by
  rcases accepted_of_storedBy hsound hstored with ⟨evaluation, rfl, haccepted⟩
  rcases haccepted.planned with ⟨others, hplanned⟩
  have hreadable := ((LawfulStore.snapshot_eq_ok_iff hsound).1 hplanned.read).1
  have hfresh : Fresh engine (engine.edited now sheet slot raw evaluation) later :=
    ⟨hsound, rfl, haccepted.appends, hstamp⟩
  have hafter : (journal later.store sheet).Readable := by
    rw [haccepted.appends.journal_eq]
    exact hreadable.append _
  refine ⟨snapshot_eq_currentCells hsound hreadable,
    snapshot_eq_currentCells haccepted.appends.sound hafter, ?_⟩
  exact (hfresh.recomputed hdepth hacyclic).restored hacyclic hconsistent
    (computed_edited hsound hplanned)

/-! ## The diamond -/

/-- A spreadsheet in which one cell reads two that read the first one. -/
def diamond : Engine LogStore where
  store := (((({} : LogStore).insert ⟨0, "1", ⟨0, 0⟩, "1", "1", 1⟩).2.insert
    ⟨0, "1", ⟨1, 0⟩, "=A1", "1", 2⟩).2.insert ⟨0, "1", ⟨2, 0⟩, "=A1", "1", 3⟩).2.insert
    ⟨0, "1", ⟨3, 0⟩, "=SUM(B1:C1)", "2", 4⟩ |>.2
  directory := { sheets := [⟨"1", "One", 10, 5⟩] }
  clock := .wall
  settings := {}

/-- Its cells, and what they are once the first one has been edited. -/
def diamondBefore : Snapshot :=
  [⟨1, "1", ⟨0, 0⟩, "1", "1", 1⟩, ⟨2, "1", ⟨1, 0⟩, "=A1", "1", 2⟩,
    ⟨3, "1", ⟨2, 0⟩, "=A1", "1", 3⟩, ⟨4, "1", ⟨3, 0⟩, "=SUM(B1:C1)", "2", 4⟩]

@[inherit_doc diamondBefore]
def diamondAfter : Snapshot :=
  [⟨5, "1", ⟨0, 0⟩, "2", "2", 5⟩, ⟨6, "1", ⟨1, 0⟩, "=A1", "2", 5⟩,
    ⟨7, "1", ⟨2, 0⟩, "=A1", "2", 5⟩, ⟨9, "1", ⟨3, 0⟩, "=SUM(B1:C1)", "3", 5⟩]

theorem sound_diamond : Sound diamond.store :=
  (((LogStore.sound_empty.insert _).insert _).insert _).insert _

theorem currentCells_diamond : diamond.currentCells "1" = diamondBefore := by cbv

theorem exists_edit_diamond :
    ∃ later, storedBy (edit 5 "1" ⟨0, 0⟩ "2" diamond) =
        some (⟨5, "1", ⟨0, 0⟩, "2", "2", 5⟩, later) ∧
      later.currentCells "1" = diamondAfter := by
  have hplan : diamond.plan "1" ⟨0, 0⟩ "2" = .ok ⟨"2", none⟩ := by cbv
  have hbaseline : diamond.baseline ⟨5, "1", ⟨0, 0⟩, "2", "2", 5⟩ =
      diamondBefore.replace ⟨5, "1", ⟨0, 0⟩, "2", "2", 5⟩ := by cbv
  have hrows : diamond.cascadeRows ⟨5, "1", ⟨0, 0⟩, "2", "2", 5⟩ =
      [⟨6, "1", ⟨1, 0⟩, "=A1", "2", 5⟩, ⟨7, "1", ⟨2, 0⟩, "=A1", "2", 5⟩,
        ⟨8, "1", ⟨3, 0⟩, "=SUM(B1:C1)", "3", 5⟩, ⟨9, "1", ⟨3, 0⟩, "=SUM(B1:C1)", "3", 5⟩] := by
    -- from here on nothing has to be sorted, so the kernel can run the cascade
    unfold cascadeRows
    rw [hbaseline]
    decide +kernel
  rcases edit_of_fits 5 sound_diamond hplan (LogStore.fits _) with ⟨later, hedit, haccepted⟩
  have hedited : diamond.edited 5 "1" ⟨0, 0⟩ "2" ⟨"2", none⟩ = ⟨5, "1", ⟨0, 0⟩, "2", "2", 5⟩ := by
    cbv
  rw [hedited] at hedit
  have happends := haccepted.appends
  rw [hedited, hrows] at happends
  refine ⟨later, ?_, ?_⟩
  · rw [hedit, storedBy_settle]
  · rw [currentCells, happends.cells_eq (by simp)]
    cbv

/-- The cells read cells to their left only. -/
theorem rank_lt_of_reads {snapshot : Snapshot}
    (h : ∀ cell ∈ snapshot, cell.formula = .literal cell.raw ∨
      (cell.slot.column = 1 ∨ cell.slot.column = 2) ∧ cell.formula = .reference "A1" ∨
      cell.slot.column = 3 ∧ cell.formula = .aggregate .sum "B1:C1")
    (reader read : Slot) (hreads : snapshot.Reads reader read) :
    (read.column + 1) / 2 < (reader.column + 1) / 2 := by
  rcases hreads with ⟨cell, hcell, rfl, hdep⟩
  have hcode : Slot.ofCode "A1" = .ok ⟨0, 0⟩ := rfl
  have hregion : Region.ofText "B1:C1" = .ok ⟨⟨1, 0⟩, ⟨2, 0⟩⟩ := rfl
  rcases h cell hcell with hliteral | ⟨hcolumn, hreference⟩ | ⟨hcolumn, haggregate⟩
  · simp [hliteral, Formula.dependsOn] at hdep
  · simp only [hreference, Formula.dependsOn, hcode, decide_eq_true_eq] at hdep
    subst hdep
    simp only
    omega
  · simp only [haggregate, Formula.dependsOn, hregion, Region.contains] at hdep
    simp at hdep
    omega

/-- Before the edit and after it the cells read no cell in a circle, and no chain has more than two
steps. -/
theorem rank_lt_diamond :
    (∀ reader read, diamondBefore.Reads reader read →
        (read.column + 1) / 2 < (reader.column + 1) / 2) ∧
      ∀ reader read, diamondAfter.Reads reader read →
        (read.column + 1) / 2 < (reader.column + 1) / 2 :=
  ⟨rank_lt_of_reads (by decide +kernel), rank_lt_of_reads (by decide +kernel)⟩

theorem length_le_diamond {path : List Slot} (h : diamondAfter.Chain ⟨0, 0⟩ path x) :
    path.length ≤ 2 :=
  h.length_le (fun slot => (slot.column + 1) / 2) rank_lt_diamond.2 (by decide)

theorem edit_consistent_iff_diamond :
    ∃ cell later, storedBy (edit 5 "1" ⟨0, 0⟩ "2" diamond) = some (cell, later) ∧
      diamond.snapshot "1" = .ok (diamond.currentCells "1") ∧
      later.snapshot "1" = .ok (later.currentCells "1") ∧
      Restored (diamond.currentCells "1") (later.currentCells "1") cell "ERROR" := by
  rcases exists_edit_diamond with ⟨later, hstored, hafter⟩
  refine ⟨_, later, hstored, edit_consistent_iff sound_diamond hstored ?_ ?_ ?_ ?_⟩
  · rw [currentCells_diamond]
    decide +kernel
  · decide +kernel
  · rw [hafter]
    exact acyclic_of_rank (fun slot => (slot.column + 1) / 2) rank_lt_diamond.2
  · intro path x hchain
    rw [hafter] at hchain
    exact length_le_diamond hchain

/-- The last cell of the diamond is left with a sum of a new value and an old one. -/
theorem not_consistent_diamond :
    Sound diamond.store ∧ ∃ cell later,
      storedBy (edit 5 "1" ⟨0, 0⟩ "2" diamond) = some (cell, later) ∧
      (diamond.currentCells "1").Consistent diamond.settings.errorMarker ∧
      (diamond.currentCells "1").Acyclic ∧
      (∀ c ∈ cells diamond.store "1", c.version ≤ cell.version) ∧
      (later.currentCells "1").Acyclic ∧
      (∀ path x, (later.currentCells "1").Chain ⟨0, 0⟩ path x →
        path.length ≤ diamond.settings.cascadeDepth) ∧
      ¬ (later.currentCells "1").Consistent diamond.settings.errorMarker := by
  rcases exists_edit_diamond with ⟨later, hstored, hafter⟩
  rw [currentCells_diamond]
  refine ⟨sound_diamond, _, later, hstored, by decide +kernel, ?_, by decide +kernel, ?_⟩
  · exact acyclic_of_rank (fun slot => (slot.column + 1) / 2) rank_lt_diamond.1
  · rw [hafter]
    refine ⟨?_, fun path x hchain => length_le_diamond hchain, by decide +kernel⟩
    exact acyclic_of_rank (fun slot => (slot.column + 1) / 2) rank_lt_diamond.2

end SheetLedger.Engine
