import SheetLedger.Proofs.Edit.Independence

/-!
# What a slot held before an edit

An edit forgets what its slot held. Between two engines under which the other slots show the same
there may be any difference at the slot itself: it may hold something in one and nothing in the
other, after any number of versions. The edit ends alike in both and appends rows in which the same
is seen (`Engine.edit_forgets`).

The text is evaluated without the cell at the slot, and from then on the new row stands in its
place, also for a cascade that comes back to the slot. So the plans are the same
(`AlikeBeside.plan_eq`), and the cascades start from snapshots that agree everywhere
(`AlikeBeside.agreeOn_baseline`). The stores need not be of one kind either, as long as both can hold
the slot and the stamp, or neither can (`RefuseAlike`). A log takes an edit under a stamp that is too
large for a table, so of these two not both need to accept it (`Engine.seenOf_ne_overlong`).
-/

namespace SheetLedger

open JournaledStore

/-- A store that refuses rows for what they are, whatever it holds. -/
class UniformStore (σ : Type) [CellStore σ] extends LawfulStore σ where
  /-- Why the store does not take a cell. -/
  refusal? : Cell → Option StoreError
  insert_of_refusal {cell : Cell} {cause : StoreError} (store : σ) :
    refusal? cell = some cause → CellStore.insert cell store = .error cause store
  refusal?_eq_none_iff {cell : Cell} : refusal? cell = none ↔ Fits σ cell

instance : UniformStore LogStore where
  refusal? _ := none
  insert_of_refusal _ h := by cases h
  refusal?_eq_none_iff := iff_of_true rfl (LogStore.fits _)

instance : UniformStore TableStore where
  refusal? cell := (TableStore.oversized? cell).map .tooLarge
  insert_of_refusal store h := by
    rcases Option.map_eq_some_iff.1 h with ⟨field, hfield, rfl⟩
    exact TableStore.refuses_insert store hfield
  refusal?_eq_none_iff := Option.map_eq_none_iff.trans TableStore.oversized?_eq_none_iff

/-- Two kinds of store refuse the rows of a slot under a stamp alike. -/
def RefuseAlike (σ τ : Type) [CellStore σ] [UniformStore σ] [CellStore τ] [UniformStore τ]
    (slot : Slot) (version : Nat) : Prop :=
  ∀ cell : Cell, cell.slot = slot → cell.version = version →
    UniformStore.refusal? τ cell = UniformStore.refusal? σ cell

namespace RefuseAlike

variable {σ τ : Type} [CellStore σ] [UniformStore σ] [CellStore τ] [UniformStore τ] {slot : Slot}
  {version : Nat}

/-- Stores of one kind do. -/
theorem refl : RefuseAlike σ σ slot version :=
  fun _ _ _ => rfl

/-- Stores that can hold the slot and the stamp refuse none of these rows. -/
theorem of_holds (h : FitsSlot σ slot ∧ Holds σ version) (h' : FitsSlot τ slot ∧ Holds τ version) :
    RefuseAlike σ τ slot version := by
  rintro cell rfl rfl
  rw [UniformStore.refusal?_eq_none_iff.2 h, UniformStore.refusal?_eq_none_iff.2 h']

end RefuseAlike

/-- A row takes the place of the cell at its slot, whether that has been taken out before or not. -/
theorem Snapshot.replace_without (snapshot : Snapshot) (row : Cell) :
    Snapshot.replace (snapshot.without row.slot) row = snapshot.replace row := by
  simp only [replace, without, List.filter_filter, Bool.and_self]

namespace Engine

open Snapshot Cascade

/-- What is seen of the cell that an edit has stored, with its complaint if it has one, or why it
has stored none. -/
def seenOf {σ : Type} : EStateM.Result EngineError (Engine σ) Cell →
    Except EngineError ((Slot × String × String) × Option EvalError)
  | .ok cell _ => .ok (cell.seen, none)
  | .error (.evaluation cell cause) _ => .ok (cell.seen, some cause)
  | .error cause _ => .error cause

theorem seenOf_settle {σ : Type} (evaluation : Evaluation) (cell : Cell) (later : Engine σ) :
    seenOf (settle evaluation cell later) = .ok (cell.seen, evaluation.failure?) := by
  unfold settle
  cases evaluation.failure? <;> rfl

theorem seenOf_error {σ : Type} {cause : EngineError} (h : Refusal cause) (later : Engine σ) :
    seenOf (.error cause later) = .error cause := by
  cases cause with
  | evaluation => exact h.elim
  | outOfBounds | formula | dependent | store => rfl

variable {σ τ : Type} [CellStore σ] [UniformStore σ] [CellStore τ] [UniformStore τ]
  {engine later : Engine σ} {other last : Engine τ} {sheet : String} {slot : Slot} {raw : String}
  {now again : Nat} {evaluation : Evaluation}

/-- A cell that the store does not take ends the edit, which leaves the store as it is. -/
theorem edit_of_refusal {cause : StoreError}
    (hplan : engine.plan sheet slot raw = .ok evaluation)
    (h : UniformStore.refusal? σ
      { engine.edited now sheet slot raw evaluation with id := 0 } = some cause) :
    edit now sheet slot raw engine =
      .error (.store cause) { engine with clock := (engine.clock.next now).2 } := by
  have hinsert := UniformStore.insert_of_refusal engine.store h
  simp only [edited] at hinsert
  rw [edit_of_plan now hplan]
  simp only [onStore, carryOut, EStateM.adaptExcept, bind, EStateM.bind, hinsert]

/-! ## Two engines -/

/-- Two engines under which a spreadsheet has the same bounds and shows the same, in the same order,
at all slots but one. -/
structure AlikeBeside (engine : Engine σ) (other : Engine τ) (sheet : String) (slot : Slot) :
    Prop where
  sound : Sound engine.store
  otherSound : Sound other.store
  bounds_eq : other.directory.get? sheet = engine.directory.get? sheet
  settings_eq : other.settings = engine.settings
  agree : ∃ snapshot otherSnapshot,
    engine.snapshot sheet = .ok snapshot ∧ other.snapshot sheet = .ok otherSnapshot ∧
      (otherSnapshot.without slot).map Cell.seen = (snapshot.without slot).map Cell.seen

namespace AlikeBeside

variable (h : AlikeBeside engine other sheet slot)

include h

theorem readable :
    (journal engine.store sheet).Readable ∧ (journal other.store sheet).Readable := by
  rcases h.agree with ⟨_, _, hsnapshot, hother, -⟩
  exact ⟨((snapshot_eq_ok_iff h.sound).1 hsnapshot).1,
    ((snapshot_eq_ok_iff h.otherSound).1 hother).1⟩

theorem agreeOn_without : AgreeOn (fun _ => true) ((other.currentCells sheet).without slot)
    ((engine.currentCells sheet).without slot) := by
  rcases h.agree with ⟨_, _, hsnapshot, hother, hseen⟩
  rw [((snapshot_eq_ok_iff h.sound).1 hsnapshot).2,
    ((snapshot_eq_ok_iff h.otherSound).1 hother).2] at hseen
  simpa only [AgreeOn, List.filter_true, currentCells] using hseen

/-- The edit is planned alike, because its text is evaluated without the cell at the slot. -/
theorem plan_eq (raw : String) : other.plan sheet slot raw = engine.plan sheet slot raw := by
  have hread : CellStore.snapshot engine.store sheet (some slot) =
      .ok ((engine.currentCells sheet).without slot) :=
    (LawfulStore.snapshot_eq_ok_iff h.sound).2 ⟨h.readable.1, rfl⟩
  have hread' : CellStore.snapshot other.store sheet (some slot) =
      .ok ((other.currentCells sheet).without slot) :=
    (LawfulStore.snapshot_eq_ok_iff h.otherSound).2 ⟨h.readable.2, rfl⟩
  have hcheck : other.directory.check sheet slot = engine.directory.check sheet slot := by
    rw [Directory.check, Directory.check, h.bounds_eq]
  have hevaluate : (Formula.classify raw).evaluate ((other.currentCells sheet).without slot) =
      (Formula.classify raw).evaluate ((engine.currentCells sheet).without slot) :=
    h.agreeOn_without.evaluate_eq fun _ _ => rfl
  simp only [plan, ask, hread, hread', hcheck, h.settings_eq, Except.mapError, bind, Except.bind,
    Formula.compute_eq_of_evaluate_eq hevaluate]

/-- The cascades start from snapshots that agree everywhere. -/
theorem agreeOn_baseline {cell fresh : Cell} (hfresh : Fresh engine cell later)
    (hfresh' : Fresh other fresh last) (hsheet : cell.sheet = sheet ∧ fresh.sheet = sheet)
    (hslot : cell.slot = slot ∧ fresh.slot = slot) (hseen : fresh.seen = cell.seen) :
    AgreeOn (fun _ => true) (other.baseline fresh) (engine.baseline cell) := by
  have hagree := h.agreeOn_without.replace hseen
  rw [hfresh.baseline_eq, hfresh'.baseline_eq, hsheet.1, hsheet.2, ← replace_without _ fresh,
    ← replace_without _ cell, hslot.1, hslot.2]
  exact hagree

/-- So the same is seen in the rows that are appended. -/
theorem map_seen_rows {cell fresh : Cell} (hfresh : Fresh engine cell later)
    (hfresh' : Fresh other fresh last) (hsheet : cell.sheet = sheet ∧ fresh.sheet = sheet)
    (hslot : cell.slot = slot ∧ fresh.slot = slot) (hseen : fresh.seen = cell.seen) :
    (fresh :: other.cascadeRows fresh).map Cell.seen =
      (cell :: engine.cascadeRows cell).map Cell.seen := by
  have hagree := h.agreeOn_baseline hfresh hfresh' hsheet hslot hseen
  have hrows : (other.cascadeRows fresh).map Cell.seen = (engine.cascadeRows cell).map Cell.seen :=
    map_seen_cascadeRows hfresh hfresh' h.settings_eq (hslot.2.trans hslot.1.symm) hagree
      (fun _ _ => ⟨rfl, fun _ _ => rfl⟩) fun _ _ => ⟨rfl, fun _ _ => rfl⟩
  rw [List.map_cons, List.map_cons, hseen, hrows]

end AlikeBeside

/-- An edit does not depend on what its slot held before. Under one stamp that no stored version is
above, it ends alike in two engines that are alike beside the slot, and appends rows in which the
same is seen, in the same order. The stores are of one kind, or can both hold the slot and the
stamp. -/
theorem edit_forgets (h : AlikeBeside engine other sheet slot)
    (hrefuse : RefuseAlike σ τ slot (engine.clock.next now).1)
    (hstamp : (other.clock.next again).1 = (engine.clock.next now).1)
    (hversion : ∀ c ∈ cells engine.store sheet, c.version ≤ (engine.clock.next now).1)
    (hversion' : ∀ c ∈ cells other.store sheet, c.version ≤ (engine.clock.next now).1)
    (raw : String) :
    seenOf (edit again sheet slot raw other) = seenOf (edit now sheet slot raw engine) ∧
      ∃ rows otherRows,
        Appends engine.store (leftBy (edit now sheet slot raw engine)).store rows ∧
        Appends other.store (leftBy (edit again sheet slot raw other)).store otherRows ∧
        otherRows.map Cell.seen = rows.map Cell.seen := by
  have hplans := h.plan_eq raw
  rcases plan_cases engine sheet slot raw with
    ⟨cause, hplan, hrefusal⟩ | ⟨_, evaluation, hplan, -⟩
  -- refused before anything is stored
  · rw [hplan] at hplans
    rw [edit_of_plan_error hplan, edit_of_plan_error hplans, seenOf_error hrefusal,
      seenOf_error hrefusal]
    exact ⟨rfl, [], [], .nil h.sound, .nil h.otherSound, rfl⟩
  · rw [hplan] at hplans
    have hrefusals : UniformStore.refusal? τ
          { other.edited again sheet slot raw evaluation with id := 0 } =
        UniformStore.refusal? σ { engine.edited now sheet slot raw evaluation with id := 0 } := by
      simp only [edited, hstamp]
      exact hrefuse _ rfl rfl
    cases hrefused : UniformStore.refusal? σ
        { engine.edited now sheet slot raw evaluation with id := 0 } with
    -- the store does not take the cell
    | some cause =>
      have hrefused' := hrefusals.trans hrefused
      rw [edit_of_refusal hplan hrefused, edit_of_refusal hplans hrefused']
      exact ⟨rfl, [], [], .nil h.sound, .nil h.otherSound, rfl⟩
    | none =>
      have hrefused' := hrefusals.trans hrefused
      -- whether a cell fits does not depend on its id
      have hfits := UniformStore.refusal?_eq_none_iff.1 hrefused
      have hfits' := UniformStore.refusal?_eq_none_iff.1 hrefused'
      rcases edit_of_fits now h.sound hplan hfits with ⟨later, hedit, haccepted⟩
      rcases edit_of_fits again h.otherSound hplans hfits' with ⟨last, hedit', haccepted'⟩
      have hfresh := haccepted.fresh h.sound hversion
      have hfresh' := haccepted'.fresh h.otherSound (hstamp ▸ hversion')
      rw [hedit, hedit', seenOf_settle, seenOf_settle, leftBy_settle, leftBy_settle]
      exact ⟨rfl, _, _, haccepted.appends, haccepted'.appends,
        h.map_seen_rows hfresh hfresh' ⟨rfl, rfl⟩ ⟨rfl, rfl⟩ rfl⟩

/-- A table under an engine, in which the mirroring cell stands alone. -/
def alone : Engine TableStore where
  store := { rows := [⟨7, "1", 1, 0, "9", "9", 1⟩, ⟨8, "1", 1, 0, "=A1", "1", 4⟩], lastId := 8 }
  directory := mirror.directory
  clock := .wall
  settings := {}

theorem alikeBeside_mirror : AlikeBeside mirror alone "1" ⟨0, 0⟩ where
  sound := sound_mirror
  otherSound := by constructor <;> decide
  bounds_eq := rfl
  settings_eq := rfl
  agree := by
    have hmirror : mirror.snapshot "1" =
        .ok [⟨1, "1", ⟨0, 0⟩, "1", "1", 1⟩, ⟨2, "1", ⟨1, 0⟩, "=A1", "1", 2⟩] := by cbv
    have halone : alone.snapshot "1" = .ok [⟨8, "1", ⟨1, 0⟩, "=A1", "1", 4⟩] := by cbv
    exact ⟨_, _, hmirror, halone, by decide⟩

/-- What the first cell held is not missed, though the cascade comes back to it. -/
theorem edit_forgets_mirror :
    AlikeBeside mirror alone "1" ⟨0, 0⟩ ∧
      seenOf (edit 5 "1" ⟨0, 0⟩ "=B1" alone) = seenOf (edit 5 "1" ⟨0, 0⟩ "=B1" mirror) ∧
      ∃ rows otherRows,
        Appends mirror.store (leftBy (edit 5 "1" ⟨0, 0⟩ "=B1" mirror)).store rows ∧
        Appends alone.store (leftBy (edit 5 "1" ⟨0, 0⟩ "=B1" alone)).store otherRows ∧
        otherRows.map Cell.seen = rows.map Cell.seen := by
  have htable : FitsSlot TableStore ⟨0, 0⟩ ∧ Holds TableStore 5 :=
    ⟨⟨Nat.zero_le _, Nat.zero_le _⟩, by show 5 ≤ tableLimit; decide⟩
  have hrefuse : RefuseAlike LogStore TableStore ⟨0, 0⟩ 5 :=
    .of_holds ⟨LogStore.fitsSlot _, trivial⟩ htable
  refine ⟨alikeBeside_mirror, edit_forgets alikeBeside_mirror hrefuse rfl ?_ ?_ "=B1"⟩
  · decide +kernel
  · decide +kernel

/-- An engine over a store in which nothing has been stored. -/
def pristine {σ : Type} (blank : σ) : Engine σ where
  store := blank
  directory := mirror.directory
  clock := .wall
  settings := {}

/-- Nothing is stored, so no version is above the stamp. But the stamp is too large for a table: the
log takes the cell, and the table does not. -/
theorem seenOf_ne_overlong :
    AlikeBeside (pristine ({} : LogStore)) (pristine ({} : TableStore)) "1" ⟨0, 0⟩ ∧
      seenOf (edit (tableLimit + 1) "1" ⟨0, 0⟩ "1" (pristine ({} : LogStore))) =
        .ok ((⟨0, 0⟩, "1", "1"), none) ∧
      seenOf (edit (tableLimit + 1) "1" ⟨0, 0⟩ "1" (pristine ({} : TableStore))) =
        .error (.store (.tooLarge .version)) := by
  have hagree : ∃ snapshot otherSnapshot,
      (pristine ({} : LogStore)).snapshot "1" = .ok snapshot ∧
        (pristine ({} : TableStore)).snapshot "1" = .ok otherSnapshot ∧
        (otherSnapshot.without ⟨0, 0⟩).map Cell.seen = (snapshot.without ⟨0, 0⟩).map Cell.seen :=
    ⟨[], [], by cbv, by cbv, rfl⟩
  exact ⟨⟨LogStore.sound_empty, TableStore.sound_empty, rfl, rfl, hagree⟩, by cbv, by cbv⟩

end Engine

end SheetLedger
