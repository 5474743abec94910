import SheetLedger.Engine.Revert
import SheetLedger.Proofs.Cascade.Locality
import SheetLedger.Proofs.Edit.Current

/-!
# Independent edits

Two edits of one spreadsheet are *independent* if no slot lies in the cones of both and no slot in
one cone reads a slot in the other (`Snapshot.Independent`). Then neither edit is seen by the other:
what an edit evaluates, and what its cascade reaches and reads, lies outside the cone of the other
one, where nothing changes. So an edit that comes second appends rows in which the same is seen as
if it came first (`Engine.Beside.map_seen_rows`), although their ids and stamps differ and the cells
around them stand in another order, and the order of the edits does not matter
(`Engine.edits_commute`).

All this is said of stamps that the store can hold. At the end of what a table holds the first edit
may take the last stamp and the second one is refused, whichever it is (`Engine.not_commute_brim`).
-/

namespace SheetLedger

/-! ## Independent changes -/

namespace Snapshot

variable {references : Snapshot} {depth : Nat} {a b first x : Slot}

/-- The slots that a change reaches within a depth, the changed one included. -/
def Cone (references : Snapshot) (depth : Nat) (first x : Slot) : Prop :=
  x = first ∨ references.ReachesWithin depth first x

/-- No slot lies in the cones of both changes, and none in one of them reads one in the other. -/
structure Independent (references : Snapshot) (depth : Nat) (a b : Slot) : Prop where
  disjoint : ∀ x, references.Cone depth a x → ¬ references.Cone depth b x
  unread : ∀ x y, references.Cone depth a x → references.Cone depth b y →
    ¬ references.Reads x y ∧ ¬ references.Reads y x

theorem Independent.symm (h : references.Independent depth a b) :
    references.Independent depth b a where
  disjoint x hb ha := h.disjoint x ha hb
  unread x y hb ha := (h.unread y x ha hb).symm

/-- Changes in parts that no reference leads out of are independent. -/
theorem independent_of_parts {α : Type} (part : Slot → α)
    (h : ∀ reader slot, references.Reads reader slot → part reader = part slot)
    (hne : part a ≠ part b) : references.Independent depth a b := by
  have hcone : ∀ {first x : Slot}, references.Cone depth first x → part x = part first := by
    rintro first x (rfl | ⟨path, -, -, hchain⟩)
    · rfl
    · induction hchain with
      | nil => rfl
      | snoc _ hfeeds ih => exact (h _ _ hfeeds.2).trans ih
  refine ⟨fun x ha hb => hne ((hcone ha).symm.trans (hcone hb)), fun x y hx hy => ⟨?_, ?_⟩⟩
  · exact fun hreads => hne ((hcone hx).symm.trans ((h x y hreads).trans (hcone hy)))
  · exact fun hreads => hne ((hcone hx).symm.trans ((h y x hreads).symm.trans (hcone hy)))

end Snapshot

namespace Engine

open JournaledStore Snapshot Cascade

variable {σ : Type} [CellStore σ] [LawfulStore σ] {engine later after last : Engine σ}
  {references : Snapshot} {sheet : String} {cell other again : Cell} {x : Slot}
  {now t₁ t₂ t₁' t₂' : Nat} {slot a b : Slot} {raw rawA rawB : String} {evaluation : Evaluation}

/-- The next stamp is one that the store can hold, and no stored version of the spreadsheet is above
it. -/
structure Timely (engine : Engine σ) (now : Nat) (sheet : String) : Prop where
  holds : Holds σ (engine.clock.next now).1
  version_le : ∀ c ∈ cells engine.store sheet, c.version ≤ (engine.clock.next now).1

/-- After an edit no stamp is late that is not below the one of the edit. -/
theorem Accepted.timely (hsound : Sound engine.store)
    (h : Accepted engine now sheet slot raw evaluation later) (htimely : Timely engine now sheet)
    {t : Nat} (hholds : Holds σ (later.clock.next t).1)
    (hle : (engine.clock.next now).1 ≤ (later.clock.next t).1) : Timely later t sheet := by
  refine ⟨hholds, fun c hc => ?_⟩
  have hfresh := h.fresh hsound htimely.version_le
  have hcells : cells later.store sheet = cells engine.store sheet ++ _ := hfresh.cells_eq
  rw [hcells, List.mem_append] at hc
  rcases hc with hold | hnew
  · exact Nat.le_trans (htimely.version_le c hold) hle
  · exact Nat.le_trans (Nat.le_of_eq (hfresh.stamped hnew).2) hle

/-! ## Cascades side by side -/

/-- The cascades of two edits of one slot write rows in which the same is seen, if the snapshots
that they start from agree on all that the two reach and read. The stores may be of two kinds. -/
theorem map_seen_cascadeRows {τ : Type} [CellStore τ] [LawfulStore τ] {peer peerAfter : Engine τ}
    {p : Slot → Bool} (hfresh : Fresh engine cell later) (hfresh' : Fresh peer again peerAfter)
    (hsettings : peer.settings = engine.settings) (hslot : again.slot = cell.slot)
    (hagree : AgreeOn p (peer.baseline again) (engine.baseline cell))
    (hcone : ∀ x, (peer.baseline again).ReachesWithin engine.settings.cascadeDepth cell.slot x →
      p x = true ∧ ∀ y, (peer.baseline again).Reads x y → p y = true)
    (hcone' : ∀ x, (engine.baseline cell).ReachesWithin engine.settings.cascadeDepth cell.slot x →
      p x = true ∧ ∀ y, (engine.baseline cell).Reads x y → p y = true) :
    (peer.cascadeRows again).map Cell.seen = (engine.cascadeRows cell).map Cell.seen := by
  have hready := ready_baseline hfresh.sound hfresh.id_eq engine.settings.cascadeDepth
  have hready' := ready_baseline hfresh'.sound hfresh'.id_eq engine.settings.cascadeDepth
  rw [hslot] at hready'
  rw [cascadeRows, cascadeRows, hsettings, hslot]
  exact Cascade.map_seen_rows hagree (orderly_baseline hfresh'.sound hfresh'.id_eq)
    (orderly_baseline hfresh.sound hfresh.id_eq) hready' hready hcone hcone'

/-! ## An edit beside another one -/

/-- An edit, by its cell and what it leaves, among references that hold its text. -/
structure Side (engine : Engine σ) (cell : Cell) (later : Engine σ) (references : Snapshot) :
    Prop extends Fresh engine cell later where
  settings_eq : later.settings = engine.settings
  directory_eq : later.directory = engine.directory
  mem : cell ∈ references

/-- Two edits of one spreadsheet from the same state that are independent by the references there
and those of the two new texts. -/
structure Beside (engine : Engine σ) (cell : Cell) (later : Engine σ) (other : Cell)
    (after : Engine σ) (references : Snapshot) : Prop where
  side : Side engine cell later references
  otherSide : Side engine other after references
  sheet_eq : other.sheet = cell.sheet
  current : (engine.currentCells cell.sheet).TextsIn references
  independent : references.Independent engine.settings.cascadeDepth cell.slot other.slot

theorem Beside.symm (h : Beside engine cell later other after references) :
    Beside engine other after cell later references where
  side := h.otherSide
  otherSide := h.side
  sheet_eq := h.sheet_eq.symm
  current := h.sheet_eq ▸ h.current
  independent := h.independent.symm

namespace Beside

variable (h : Beside engine cell later other after references)

include h

theorem orderly : (engine.currentCells cell.sheet).Orderly :=
  Recency.orderly_latest (LawfulStore.ids_ne h.side.sound _)

theorem orderly_after : (after.currentCells cell.sheet).Orderly :=
  h.sheet_eq ▸ h.otherSide.orderly_later

theorem textsIn_baseline : (engine.baseline cell).TextsIn references := by
  rw [h.side.baseline_eq]
  exact h.current.replace h.side.mem rfl rfl

/-- The other edit has brought no other references. -/
theorem textsIn_after : (after.currentCells cell.sheet).TextsIn references := by
  rw [← h.sheet_eq]
  exact (h.otherSide.sameTexts.textsIn h.otherSide.orderly_later).trans h.symm.textsIn_baseline

/-- The rows of the edit stand in its cone. -/
theorem cone_of_mem {row : Cell} (hrow : row ∈ cell :: engine.cascadeRows cell) :
    references.Cone engine.settings.cascadeDepth cell.slot row.slot := by
  rcases List.mem_cons.1 hrow with rfl | hcascade
  · exact Or.inl rfl
  · have hreach := (exists_mem_rows_iff (orderly_baseline h.side.sound h.side.id_eq)
      (ready_baseline h.side.sound h.side.id_eq _)).1 ⟨row, hcascade, rfl⟩
    exact Or.inr (h.textsIn_baseline.reachesWithin hreach)

/-- Outside its cone the other edit has changed nothing. -/
theorem find?_eq (hx : ¬ references.Cone engine.settings.cascadeDepth other.slot x) :
    (engine.currentCells cell.sheet).find? x = (after.currentCells cell.sheet).find? x := by
  have hnone : ∀ row ∈ engine.cascadeRows other, row.slot ≠ x := by
    rintro row hrow rfl
    exact hx (h.symm.cone_of_mem (List.mem_cons_of_mem _ hrow))
  rw [← h.sheet_eq, h.otherSide.find?_of_forall_ne hnone, h.otherSide.baseline_eq, find?_replace,
    if_neg fun heq => hx (Or.inl heq.symm)]

/-- What a slot in the cone of the edit reads lies outside the cone of the other one. -/
theorem not_cone_of_reads {reader : Slot}
    (hreader : references.Cone engine.settings.cascadeDepth cell.slot reader)
    (hreads : references.Reads reader x) :
    ¬ references.Cone engine.settings.cascadeDepth other.slot x :=
  fun hx => (h.independent.unread reader x hreader hx).1 hreads

/-- The edited text has the same value before the other edit and after it. -/
theorem evaluate_eq :
    cell.formula.evaluate ((after.currentCells cell.sheet).without cell.slot) =
      cell.formula.evaluate ((engine.currentCells cell.sheet).without cell.slot) := by
  refine evaluate_without_congr h.orderly h.orderly_after fun y _ hdep => ?_
  exact (h.find?_eq (h.not_cone_of_reads (Or.inl rfl) ⟨cell, h.side.mem, rfl, hdep⟩)).symm

/-- The edit appends rows in which the same is seen before the other edit and after it. -/
theorem map_seen_rows (hagain : Fresh after again last) (hseen : again.seen = cell.seen)
    (hsheet : again.sheet = cell.sheet) :
    (again :: after.cascadeRows again).map Cell.seen =
      (cell :: engine.cascadeRows cell).map Cell.seen := by
  classical
  rcases Cell.seen_eq_iff.1 hseen with ⟨hslot, hraw, -⟩
  have hbaseline : after.baseline again = (after.currentCells cell.sheet).replace again :=
    hsheet ▸ hagain.baseline_eq
  -- the cascades start from snapshots that agree on all slots outside the cone of the other edit
  let outside : Slot → Bool := fun x =>
    decide (¬ references.Cone engine.settings.cascadeDepth other.slot x)
  have hagree : AgreeOn outside (after.baseline again) (engine.baseline cell) := by
    rw [hbaseline, h.side.baseline_eq]
    refine AgreeOn.replace (.of_find?_eq h.orderly_after h.orderly fun x hx => ?_) hseen
    exact (h.find?_eq (of_decide_eq_true hx)).symm
  -- and neither of them leads into that cone or reads there
  have hinside : ∀ s : Snapshot, s.TextsIn references →
      ∀ x, s.ReachesWithin engine.settings.cascadeDepth cell.slot x →
        outside x = true ∧ ∀ y, s.Reads x y → outside y = true := by
    intro s hs x hx
    have hcone : references.Cone engine.settings.cascadeDepth cell.slot x :=
      Or.inr (hs.reachesWithin hx)
    exact ⟨decide_eq_true (h.independent.disjoint x hcone),
      fun y hy => decide_eq_true (h.not_cone_of_reads hcone (hs.reads hy))⟩
  have hrows : (after.cascadeRows again).map Cell.seen =
      (engine.cascadeRows cell).map Cell.seen := by
    refine map_seen_cascadeRows h.side.toFresh hagain h.otherSide.settings_eq hslot hagree
      (hinside _ ?_) (hinside _ h.textsIn_baseline)
    rw [hbaseline]
    exact h.textsIn_after.replace h.side.mem hslot.symm hraw.symm
  rw [List.map_cons, List.map_cons, hseen, hrows]

end Beside

/-! ## What rows leave at a slot -/

/-- The contents of the last of some rows at a slot, if any of them stands there. -/
def contentsLeft (rows : List Cell) (x : Slot) : Option Contents :=
  ((rows.filter (·.slot = x)).getLast?).map Cell.contents

omit [CellStore σ] [LawfulStore σ] in
theorem contentsLeft_congr {rows others : List Cell}
    (h : rows.map Cell.seen = others.map Cell.seen) (x : Slot) :
    contentsLeft rows x = contentsLeft others x := by
  have hleft : ∀ rows : List Cell, contentsLeft rows x =
      (((rows.map Cell.seen).filter (·.1 = x)).getLast?).map fun v => ⟨v.2.1, v.2.2⟩ := by
    intro rows
    rw [List.filter_map, List.getLast?_map, Option.map_map]
    rfl
  rw [hleft, hleft, h]

omit [CellStore σ] [LawfulStore σ] in
theorem contentsLeft_of_forall_ne {rows : List Cell} (h : ∀ row ∈ rows, row.slot ≠ x) :
    contentsLeft rows x = none := by
  have hnone : rows.filter (·.slot = x) = [] := by
    rw [List.filter_eq_nil_iff]
    intro row hrow hslot
    exact h row hrow (of_decide_eq_true hslot)
  rw [contentsLeft, hnone]
  rfl

/-- The contents of a slot after an edit. -/
theorem Fresh.contents_eq (h : Fresh engine cell later) (x : Slot) :
    ((later.currentCells cell.sheet).find? x).map Cell.contents =
      (contentsLeft (cell :: engine.cascadeRows cell) x).or
        (((engine.currentCells cell.sheet).find? x).map Cell.contents) := by
  rw [h.find?_eq, Option.map_or]
  rfl

namespace Beside

variable (h : Beside engine cell later other after references)

include h

/-- The contents of a slot after both edits, the other one first. -/
theorem contents_eq (hagain : Fresh after again last) (hseen : again.seen = cell.seen)
    (hsheet : again.sheet = cell.sheet) (x : Slot) :
    ((last.currentCells cell.sheet).find? x).map Cell.contents =
      (contentsLeft (cell :: engine.cascadeRows cell) x).or
        ((contentsLeft (other :: engine.cascadeRows other) x).or
          (((engine.currentCells cell.sheet).find? x).map Cell.contents)) := by
  have hother := h.otherSide.contents_eq x
  rw [h.sheet_eq] at hother
  rw [← hother, ← contentsLeft_congr (h.map_seen_rows hagain hseen hsheet) x, ← hsheet]
  exact hagain.contents_eq x

/-- At most one of the two edits has rows at a slot, so it does not matter which of them comes
later. -/
theorem contentsLeft_comm (x : Slot) (before : Option Contents) :
    (contentsLeft (cell :: engine.cascadeRows cell) x).or
        ((contentsLeft (other :: engine.cascadeRows other) x).or before) =
      (contentsLeft (other :: engine.cascadeRows other) x).or
        ((contentsLeft (cell :: engine.cascadeRows cell) x).or before) := by
  by_cases hx : references.Cone engine.settings.cascadeDepth cell.slot x
  · have hnone : contentsLeft (other :: engine.cascadeRows other) x = none := by
      refine contentsLeft_of_forall_ne ?_
      rintro row hrow rfl
      exact h.independent.disjoint _ hx (h.symm.cone_of_mem hrow)
    rw [hnone, Option.none_or, Option.none_or]
  · have hnone : contentsLeft (cell :: engine.cascadeRows cell) x = none := by
      refine contentsLeft_of_forall_ne ?_
      rintro row hrow rfl
      exact hx (h.cone_of_mem hrow)
    rw [hnone, Option.none_or, Option.none_or]

end Beside

/-! ## Edits in either order -/

/-- Why an edit has stored the error marker, if it has. -/
def failureOf : EStateM.Result EngineError (Engine σ) Cell → Option EvalError
  | .error (.evaluation _ cause) _ => some cause
  | _ => none

omit [CellStore σ] [LawfulStore σ] in
theorem failureOf_settle (evaluation : Evaluation) (cell : Cell) (later : Engine σ) :
    failureOf (settle evaluation cell later) = evaluation.failure? := by
  unfold settle
  cases evaluation.failure? <;> rfl

theorem Accepted.failureOf_eq (hsound : Sound engine.store)
    (h : Accepted engine now sheet slot raw evaluation later) :
    failureOf (edit now sheet slot raw engine) = evaluation.failure? := by
  rcases h.planned with ⟨others, hplanned⟩
  rcases edit_of_fits now hsound hplanned.plan_eq h.fits with ⟨_, hedit, -⟩
  rw [hedit, failureOf_settle]

theorem Accepted.side (hsound : Sound engine.store)
    (h : Accepted engine now sheet slot raw evaluation later) (htimely : Timely engine now sheet)
    (hmem : engine.edited now sheet slot raw evaluation ∈ references) :
    Side engine (engine.edited now sheet slot raw evaluation) later references where
  toFresh := h.fresh hsound htimely.version_le
  settings_eq := by rw [h.frame]
  directory_eq := by rw [h.frame]
  mem := hmem

/-- An edit that comes after an independent one is accepted with the same evaluation. -/
theorem Accepted.exists_again (h : Accepted engine now sheet slot raw evaluation later)
    (hbeside : Beside engine (engine.edited now sheet slot raw evaluation) later other after
      references)
    (hreadable : (journal after.store sheet).Readable) {t : Nat} (htimely : Timely after t sheet) :
    ∃ last, edit t sheet slot raw after =
        settle evaluation (after.edited t sheet slot raw evaluation) last ∧
      Accepted after t sheet slot raw evaluation last := by
  have hsound := hbeside.side.sound
  have hsound' := hbeside.otherSide.appends.sound
  rcases h.planned with ⟨others, hplanned⟩
  have hothers : others = (engine.currentCells sheet).without slot :=
    ((LawfulStore.snapshot_eq_ok_iff hsound).1 hplanned.read).2
  have hevaluate : (Formula.classify raw).evaluate ((after.currentCells sheet).without slot) =
      (Formula.classify raw).evaluate others := hothers ▸ hbeside.evaluate_eq
  have hagain : Planned after sheet slot raw ((after.currentCells sheet).without slot)
      evaluation := by
    refine ⟨?_, (LawfulStore.snapshot_eq_ok_iff hsound').2 ⟨hreadable, rfl⟩, ?_,
      hplanned.wellFormed⟩
    · rw [hbeside.otherSide.directory_eq]
      exact hplanned.within
    · rw [hbeside.otherSide.settings_eq, Formula.compute_eq_of_evaluate_eq hevaluate]
      exact hplanned.evaluation_eq
  exact edit_of_fits t hsound' hagain.plan_eq ⟨h.fits.1, htimely.holds⟩

/-- Two independent edits of one spreadsheet can be made in either order, under stamps that the store
can hold and that no stored version is above. Each of them is accepted after the other one as it is
without it, with the same complaint or none, and both orders leave every slot with the same texts. -/
theorem edits_commute (hsound : Sound engine.store) {cellA cellB : Cell} {afterA afterB : Engine σ}
    (hA : storedBy (edit t₁ sheet a rawA engine) = some (cellA, afterA))
    (hB : storedBy (edit t₂ sheet b rawB engine) = some (cellB, afterB))
    (hindependent : Independent (engine.currentCells sheet ++ [cellA, cellB])
      engine.settings.cascadeDepth a b)
    (htimely : Timely engine t₁ sheet ∧ Timely afterA t₂' sheet)
    (htimely' : Timely engine t₂ sheet ∧ Timely afterB t₁' sheet) :
    ∃ cellA' cellB' afterAB afterBA,
      storedBy (edit t₂' sheet b rawB afterA) = some (cellB', afterAB) ∧
      storedBy (edit t₁' sheet a rawA afterB) = some (cellA', afterBA) ∧
      failureOf (edit t₁' sheet a rawA afterB) = failureOf (edit t₁ sheet a rawA engine) ∧
      failureOf (edit t₂' sheet b rawB afterA) = failureOf (edit t₂ sheet b rawB engine) ∧
      afterAB.snapshot sheet = .ok (afterAB.currentCells sheet) ∧
      afterBA.snapshot sheet = .ok (afterBA.currentCells sheet) ∧
      ∀ x, ((afterAB.currentCells sheet).find? x).map Cell.contents =
        ((afterBA.currentCells sheet).find? x).map Cell.contents := by
  rcases accepted_of_storedBy hsound hA with ⟨evaluationA, rfl, hacceptedA⟩
  rcases accepted_of_storedBy hsound hB with ⟨evaluationB, rfl, hacceptedB⟩
  have hbeside : Beside engine (engine.edited t₁ sheet a rawA evaluationA) afterA
      (engine.edited t₂ sheet b rawB evaluationB) afterB _ :=
    { side := hacceptedA.side hsound htimely.1 (by simp)
      otherSide := hacceptedB.side hsound htimely'.1 (by simp)
      sheet_eq := rfl
      current := fun c hc => ⟨c, List.mem_append_left _ hc, rfl, rfl⟩
      independent := hindependent }
  have hsoundA := hacceptedA.appends.sound
  have hsoundB := hacceptedB.appends.sound
  obtain ⟨afterBA, heditA, hagainA⟩ :=
    hacceptedA.exists_again hbeside (hacceptedB.readable hsound).2 htimely'.2
  obtain ⟨afterAB, heditB, hagainB⟩ :=
    hacceptedB.exists_again hbeside.symm (hacceptedA.readable hsound).2 htimely.2
  refine ⟨afterB.edited t₁' sheet a rawA evaluationA, afterA.edited t₂' sheet b rawB evaluationB,
    afterAB, afterBA, ?_, ?_, ?_, ?_, ?_, ?_, fun x => ?_⟩
  · rw [heditB, storedBy_settle]
  · rw [heditA, storedBy_settle]
  · rw [hagainA.failureOf_eq hsoundB, hacceptedA.failureOf_eq hsound]
  · rw [hagainB.failureOf_eq hsoundA, hacceptedB.failureOf_eq hsound]
  · exact snapshot_eq_currentCells hagainB.appends.sound (hagainB.readable hsoundA).2
  · exact snapshot_eq_currentCells hagainA.appends.sound (hagainA.readable hsoundB).2
  · have hBA := hbeside.contents_eq (hagainA.fresh hsoundB htimely'.2.version_le) rfl rfl x
    have hAB := hbeside.symm.contents_eq (hagainB.fresh hsoundA htimely.2.version_le) rfl rfl x
    exact hAB.trans ((hbeside.contentsLeft_comm x _).symm.trans hBA.symm)

/-- A spreadsheet with two rows, in each of which the second cell reads the first one. -/
def twoRows : Engine LogStore where
  store := (((({} : LogStore).insert ⟨0, "1", ⟨0, 0⟩, "1", "1", 1⟩).2.insert
    ⟨0, "1", ⟨1, 0⟩, "=A1", "1", 2⟩).2.insert ⟨0, "1", ⟨0, 1⟩, "2", "2", 3⟩).2.insert
    ⟨0, "1", ⟨1, 1⟩, "=A2", "2", 4⟩ |>.2
  directory := { sheets := [⟨"1", "One", 10, 5⟩] }
  clock := .wall
  settings := {}

theorem sound_twoRows : Sound twoRows.store :=
  (((LogStore.sound_empty.insert _).insert _).insert _).insert _

/-- What one edit of the first row and one of the second leave to be read stays in these rows. -/
theorem independent_twoRows :
    Independent (twoRows.currentCells "1" ++
        [⟨5, "1", ⟨0, 0⟩, "5", "5", 6⟩, ⟨5, "1", ⟨0, 1⟩, "=C2", "ERROR", 7⟩]) 2 ⟨0, 0⟩ ⟨0, 1⟩ := by
  have hcells : twoRows.currentCells "1" =
      [⟨1, "1", ⟨0, 0⟩, "1", "1", 1⟩, ⟨2, "1", ⟨1, 0⟩, "=A1", "1", 2⟩,
        ⟨3, "1", ⟨0, 1⟩, "2", "2", 3⟩, ⟨4, "1", ⟨1, 1⟩, "=A2", "2", 4⟩] := by cbv
  have hshapes : ∀ c ∈ twoRows.currentCells "1" ++
        [⟨5, "1", ⟨0, 0⟩, "5", "5", 6⟩, ⟨5, "1", ⟨0, 1⟩, "=C2", "ERROR", 7⟩],
      c.formula = .literal c.raw ∨ c.slot.row = 0 ∧ c.formula = .reference "A1" ∨
        c.slot.row = 1 ∧ (c.formula = .reference "A2" ∨ c.formula = .reference "C2") := by
    rw [hcells]
    decide +kernel
  have hA1 : Slot.ofCode "A1" = .ok ⟨0, 0⟩ := rfl
  have hA2 : Slot.ofCode "A2" = .ok ⟨0, 1⟩ := rfl
  have hC2 : Slot.ofCode "C2" = .ok ⟨2, 1⟩ := rfl
  refine independent_of_parts Slot.row ?_ (by decide)
  rintro reader slot ⟨c, hc, rfl, hdep⟩
  rcases hshapes c hc with hliteral | ⟨hrow, hformula⟩ | ⟨hrow, hformula | hformula⟩
  · simp [hliteral, Formula.dependsOn] at hdep
  · simp only [hformula, Formula.dependsOn, hA1, decide_eq_true_eq] at hdep
    rw [hrow, ← hdep]
  · simp only [hformula, Formula.dependsOn, hA2, decide_eq_true_eq] at hdep
    rw [hrow, ← hdep]
  · simp only [hformula, Formula.dependsOn, hC2, decide_eq_true_eq] at hdep
    rw [hrow, ← hdep]

theorem timely_twoRows {t : Nat} (ht : 4 ≤ t) : Timely twoRows t "1" := by
  refine ⟨trivial, fun c hc => ?_⟩
  have hversions : ∀ c ∈ cells twoRows.store "1", c.version ≤ 4 := by decide +kernel
  exact Nat.le_trans (hversions c hc) ht

/-- An edit at a time after the stored versions, and one at any time after that. -/
theorem exists_edit_twoRows (now t : Nat) {slot : Slot} {raw : String} {evaluation : Evaluation}
    (hplan : twoRows.plan "1" slot raw = .ok evaluation) (hnow : 4 ≤ now) (ht : now ≤ t) :
    ∃ later, storedBy (edit now "1" slot raw twoRows) =
        some (⟨5, "1", slot, raw, evaluation.value, now⟩, later) ∧ Timely later t "1" := by
  rcases storedBy_of_fits now sound_twoRows hplan (LogStore.fits _) with
    ⟨later, hstored, haccepted⟩
  have hclock : later.clock = .wall := by rw [haccepted.frame]; rfl
  refine ⟨later, hstored, haccepted.timely sound_twoRows (timely_twoRows hnow) trivial ?_⟩
  rw [hclock]
  exact ht

theorem edits_commute_twoRows :
    Sound twoRows.store ∧ ∃ cellA cellB afterA afterB,
      storedBy (edit 6 "1" ⟨0, 0⟩ "5" twoRows) = some (cellA, afterA) ∧
      storedBy (edit 7 "1" ⟨0, 1⟩ "=C2" twoRows) = some (cellB, afterB) ∧
      Independent (twoRows.currentCells "1" ++ [cellA, cellB]) 2 ⟨0, 0⟩ ⟨0, 1⟩ ∧
      (Timely twoRows 6 "1" ∧ Timely afterA 8 "1") ∧
      (Timely twoRows 7 "1" ∧ Timely afterB 9 "1") ∧
      ∃ cellA' cellB' afterAB afterBA,
        storedBy (edit 8 "1" ⟨0, 1⟩ "=C2" afterA) = some (cellB', afterAB) ∧
        storedBy (edit 9 "1" ⟨0, 0⟩ "5" afterB) = some (cellA', afterBA) ∧
        failureOf (edit 9 "1" ⟨0, 0⟩ "5" afterB) = failureOf (edit 6 "1" ⟨0, 0⟩ "5" twoRows) ∧
        failureOf (edit 8 "1" ⟨0, 1⟩ "=C2" afterA) =
          failureOf (edit 7 "1" ⟨0, 1⟩ "=C2" twoRows) ∧
        afterAB.snapshot "1" = .ok (afterAB.currentCells "1") ∧
        afterBA.snapshot "1" = .ok (afterBA.currentCells "1") ∧
        ∀ x, ((afterAB.currentCells "1").find? x).map Cell.contents =
          ((afterBA.currentCells "1").find? x).map Cell.contents := by
  have hplanA : twoRows.plan "1" ⟨0, 0⟩ "5" = .ok ⟨"5", none⟩ := by cbv
  have hplanB : twoRows.plan "1" ⟨0, 1⟩ "=C2" = .ok ⟨"ERROR", some (.missingCell "C2")⟩ := by cbv
  rcases exists_edit_twoRows 6 8 hplanA (by decide) (by decide) with ⟨afterA, hA, htimelyA⟩
  rcases exists_edit_twoRows 7 9 hplanB (by decide) (by decide) with ⟨afterB, hB, htimelyB⟩
  have htimely : Timely twoRows 6 "1" ∧ Timely afterA 8 "1" :=
    ⟨timely_twoRows (by decide), htimelyA⟩
  have htimely' : Timely twoRows 7 "1" ∧ Timely afterB 9 "1" :=
    ⟨timely_twoRows (by decide), htimelyB⟩
  exact ⟨sound_twoRows, _, _, afterA, afterB, hA, hB, independent_twoRows, htimely, htimely',
    edits_commute sound_twoRows hA hB independent_twoRows htimely htimely'⟩

/-- A table under an engine that can draw one more stamp that the table can hold. -/
def brim : Engine TableStore where
  store := { rows := [⟨1, "1", 0, 0, "1", "1", 1⟩, ⟨2, "1", 0, 1, "2", "2", 1⟩], lastId := 2 }
  directory := twoRows.directory
  clock := .monotonic (tableLimit - 1)
  settings := {}

/-- What an edit under that stamp leaves there. -/
def brimful (row : Int) (text : String) : Engine TableStore :=
  { brim with
    store := brim.store.append ⟨0, "1", 0, row, text, text, tableLimit⟩
    clock := .monotonic tableLimit }

/-- Whichever of two independent edits comes second draws a stamp that the table cannot hold, and is
refused although no stored version is above it. -/
theorem not_commute_brim :
    Sound brim.store ∧ ∃ cellA cellB,
      storedBy (edit 0 "1" ⟨0, 0⟩ "3" brim) = some (cellA, brimful 0 "3") ∧
      storedBy (edit 0 "1" ⟨0, 1⟩ "4" brim) = some (cellB, brimful 1 "4") ∧
      Independent (brim.currentCells "1" ++ [cellA, cellB]) brim.settings.cascadeDepth
        ⟨0, 0⟩ ⟨0, 1⟩ ∧
      (∀ engine ∈ [brim, brimful 0 "3", brimful 1 "4"], ∀ c ∈ cells engine.store "1",
        c.version ≤ (engine.clock.next 0).1) ∧
      ∃ lastAB lastBA,
        edit 0 "1" ⟨0, 1⟩ "4" (brimful 0 "3") = .error (.store (.tooLarge .version)) lastAB ∧
        edit 0 "1" ⟨0, 0⟩ "3" (brimful 1 "4") = .error (.store (.tooLarge .version)) lastBA ∧
        ((lastAB.currentCells "1").find? ⟨0, 0⟩).map Cell.contents = some ⟨"3", "3"⟩ ∧
        ((lastBA.currentCells "1").find? ⟨0, 0⟩).map Cell.contents = some ⟨"1", "1"⟩ := by
  have hsound : Sound brim.store := by constructor <;> decide
  have hA : storedBy (edit 0 "1" ⟨0, 0⟩ "3" brim) =
      some (⟨3, "1", ⟨0, 0⟩, "3", "3", tableLimit⟩, brimful 0 "3") := by cbv
  have hB : storedBy (edit 0 "1" ⟨0, 1⟩ "4" brim) =
      some (⟨3, "1", ⟨0, 1⟩, "4", "4", tableLimit⟩, brimful 1 "4") := by cbv
  have hcells : brim.currentCells "1" =
      [⟨1, "1", ⟨0, 0⟩, "1", "1", 1⟩, ⟨2, "1", ⟨0, 1⟩, "2", "2", 1⟩] := by cbv
  refine ⟨hsound, _, _, hA, hB, ?_, by decide +kernel,
    { brimful 0 "3" with clock := .monotonic (tableLimit + 1) },
    { brimful 1 "4" with clock := .monotonic (tableLimit + 1) }, by cbv, by cbv, by cbv, by cbv⟩
  have hliteral : ∀ c ∈ brim.currentCells "1" ++ [⟨3, "1", ⟨0, 0⟩, "3", "3", tableLimit⟩,
      ⟨3, "1", ⟨0, 1⟩, "4", "4", tableLimit⟩], c.formula = .literal c.raw := by
    rw [hcells]
    decide +kernel
  refine independent_of_parts Slot.row ?_ (by decide)
  rintro reader slot ⟨c, hc, rfl, hdep⟩
  simp [hliteral c hc, Formula.dependsOn] at hdep

end Engine

end SheetLedger
