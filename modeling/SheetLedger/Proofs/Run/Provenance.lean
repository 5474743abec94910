import SheetLedger.Proofs.Revert.Restoration
import SheetLedger.Proofs.Run.Calls
import SheetLedger.Proofs.Store.Agreement

/-!
# Where computed texts come from

Rows are written in three ways: an edit evaluates its text against the other current cells, a
cascade evaluates an old text anew, and a revert copies the texts of an old row, or blanks them,
without any evaluation. Whichever way it was, the computed text of a row is what its formula gives
over some rows of its spreadsheet that were stored before it (`Cell.Derived`):

* an edit has read the current rows, and every row of a cascade was computed from rows that were
  current when the cascade started or from rows of a level above;
* a copied text comes from the rows that the old row came from, which are older still.

So a call keeps every row derived (`Derivation.call`), and from an empty store on all rows that are
ever stored are (`Engine.rows_wellFormed`).
-/

namespace SheetLedger

/-! ## Derived rows -/

/-- The computed text of a row is what its formula gives over some of the rows of its spreadsheet
that were stored before it, and its formula is no malformed reference. -/
structure Cell.Derived (marker : String) (rows : List Cell) (cell : Cell) : Prop where
  decodes : cell.formula.isMalformedReference = false
  computed : ∃ snapshot : Snapshot,
    (∀ row ∈ snapshot, row ∈ rows ∧ row.sheet = cell.sheet ∧ row.id < cell.id) ∧
      cell.computed = (cell.formula.compute snapshot marker).value

/-- What the texts of a row satisfy that was stored after some others. -/
structure Cell.WellFormed (marker : String) (earlier : List Cell) (cell : Cell) : Prop where
  decodes : cell.formula.isMalformedReference = false
  /-- A text that is no formula stands for itself. -/
  verbatim : ∀ raw, cell.formula = .literal raw ∨ cell.formula = .unrecognized raw →
    cell.computed = cell.raw
  unreadable : ∀ operation text cause, cell.formula = .aggregate operation text →
    Region.ofText text = .error cause → cell.computed = marker
  /-- A sum is the decimal text of a signed number of 64 bits. -/
  summed : ∀ text region, cell.formula = .aggregate .sum text → Region.ofText text = .ok region →
    ∃ n : Int, -2 ^ 63 ≤ n ∧ n < 2 ^ 63 ∧ cell.computed = toString n
  /-- A reference shows what an earlier row at its target shows. -/
  copied : ∀ code target, cell.formula = .reference code → Slot.ofCode code = .ok target →
    cell.computed = marker ∨ ∃ row ∈ earlier,
      row.sheet = cell.sheet ∧ row.slot = target ∧ cell.computed = row.computed

namespace Formula

variable {formula : Formula} {snapshot : Snapshot} {marker : String}

/-- A malformed reference has no value. -/
theorem failure_of_isMalformedReference (h : formula.isMalformedReference = true) :
    (formula.compute snapshot marker).failure? ≠ none := by
  cases formula with
  | literal raw => cases h
  | unrecognized raw => cases h
  | aggregate operation region => cases h
  | reference code =>
    cases hcode : Slot.ofCode code with
    | ok target => simp [isMalformedReference, target?, hcode] at h
    | error cause => simp [compute, evaluate, hcode, bind, Except.bind]

/-- A formula that depends on a slot is no malformed reference. -/
theorem isMalformedReference_of_dependsOn {slot : Slot} (h : formula.dependsOn slot = true) :
    formula.isMalformedReference = false := by
  cases formula with
  | literal raw => rfl
  | unrecognized raw => rfl
  | aggregate operation region => rfl
  | reference code =>
    cases hcode : Slot.ofCode code with
    | ok target => simp [isMalformedReference, target?, hcode]
    | error cause => simp [dependsOn, hcode] at h

/-- A text that is no formula is its own shape. -/
theorem classify_verbatim {raw text : String}
    (h : classify raw = .literal text ∨ classify raw = .unrecognized text) : text = raw := by
  unfold classify at h
  split at h
  · cases hshape : ofTokens? (Token.ofText raw) with
    | none => simpa [hshape, eq_comm] using h
    | some shape =>
      -- lists of tokens have the other two shapes only
      rw [hshape, Option.getD_some] at h
      unfold ofTokens? at hshape
      split at hshape
      · cases hshape
        simp at h
      · rcases Option.map_eq_some_iff.1 hshape with ⟨operation, -, rfl⟩
        simp at h
      · cases hshape
  · simpa [eq_comm] using h

end Formula

namespace Cell.Derived

variable {marker : String} {rows more : List Cell} {cell old : Cell}

theorem mono (h : cell.Derived marker rows) (hrows : ∀ row ∈ rows, row ∈ more) :
    cell.Derived marker more := by
  rcases h.computed with ⟨snapshot, hsnapshot, hcomputed⟩
  refine ⟨h.decodes, snapshot, ?_, hcomputed⟩
  intro row hrow
  rcases hsnapshot row hrow with ⟨hmem, hold⟩
  exact ⟨hrows row hmem, hold⟩

/-- A later row with the texts of a derived one is derived from the same rows. -/
theorem copy (h : old.Derived marker rows) (hcontents : cell.contents = old.contents)
    (hsheet : old.sheet = cell.sheet) (hid : old.id ≤ cell.id) : cell.Derived marker rows := by
  have hraw : cell.raw = old.raw := congrArg Contents.raw hcontents
  have htext : cell.computed = old.computed := congrArg Contents.computed hcontents
  have hformula : cell.formula = old.formula := congrArg Formula.classify hraw
  rcases h.computed with ⟨snapshot, hsnapshot, hcomputed⟩
  refine ⟨by rw [hformula, h.decodes], snapshot, ?_, by rw [htext, hformula, hcomputed]⟩
  intro row hrow
  rcases hsnapshot row hrow with ⟨hmem, hrowSheet, hlt⟩
  exact ⟨hmem, hrowSheet.trans hsheet, Nat.lt_of_lt_of_le hlt hid⟩

/-- A blank row is derived from nothing. -/
theorem blank (h : cell.contents = {}) : cell.Derived marker rows := by
  have hraw : cell.raw = "" := congrArg Contents.raw h
  have htext : cell.computed = "" := congrArg Contents.computed h
  have hformula : cell.formula = .literal "" := by
    rw [formula, hraw]
    rfl
  refine ⟨by rw [hformula]; rfl, [], by simp, ?_⟩
  rw [hformula, htext]
  rfl

/-- What a derived row says, when the rows from before it are given. -/
theorem wellFormed {before after : List Cell} (h : cell.Derived marker (before ++ cell :: after))
    (hids : (before ++ cell :: after).Pairwise fun a b => a.id < b.id) :
    cell.WellFormed marker before := by
  rcases h.computed with ⟨snapshot, hsnapshot, hcomputed⟩
  constructor
  · exact h.decodes
  · intro raw hformula
    obtain rfl := Formula.classify_verbatim hformula
    rcases hformula with hshape | hshape
    · rw [hcomputed, hshape]
      rfl
    · rw [hcomputed, hshape]
      rfl
  · intro operation text cause hformula hregion
    rw [hcomputed, hformula]
    simp [Formula.compute, Formula.evaluate, hregion, bind, Except.bind]
  · intro text region hformula hregion
    refine ⟨(Aggregate.total (snapshot.valuesIn region)).toInt, Int64.le_toInt _,
      Int64.toInt_lt _, ?_⟩
    rw [hcomputed, hformula]
    simp [Formula.compute, Formula.evaluate, hregion, bind, Except.bind, pure, Except.pure,
      Aggregate.apply, Numeral.ofSigned]
  · intro code target hformula htarget
    cases hfind : snapshot.find? target with
    | none =>
      refine Or.inl ?_
      rw [hcomputed, hformula]
      simp [Formula.compute, Formula.evaluate, htarget, hfind, bind, Except.bind, throw,
        throwThe, MonadExceptOf.throw]
    | some row =>
      refine Or.inr ⟨row, ?_, ?_, Snapshot.slot_of_find? hfind, ?_⟩
      · rcases hsnapshot row (Snapshot.mem_of_find? hfind) with ⟨hmem, -, hlt⟩
        -- rows from the cell on have no lower ids than the cell
        refine (List.mem_append.1 hmem).resolve_right ?_
        intro hlate
        have hle := (List.pairwise_append.1 hids).2.1
        rw [List.pairwise_cons] at hle
        rcases List.mem_cons.1 hlate with rfl | hafter
        · exact Nat.lt_irrefl _ hlt
        · exact Nat.lt_asymm hlt (hle.1 row hafter)
      · exact (hsnapshot row (Snapshot.mem_of_find? hfind)).2.1
      · rw [hcomputed, hformula]
        simp [Formula.compute, Formula.evaluate, htarget, hfind, bind, Except.bind, pure,
          Except.pure]

end Cell.Derived

namespace Engine

/-! ## Settings -/

section Settings

variable {σ α β : Type}

/-- An action that leaves the settings of an engine as they are, also when it fails. -/
def KeepsSettings (act : EStateM EngineError (Engine σ) α) : Prop :=
  ∀ engine, (leftBy (act engine)).settings = engine.settings

namespace KeepsSettings

theorem bind {act : EStateM EngineError (Engine σ) α} {next : α → EStateM EngineError (Engine σ) β}
    (hact : KeepsSettings act) (hnext : ∀ answer, KeepsSettings (next answer)) :
    KeepsSettings (act >>= next) := by
  intro engine
  have hfirst := hact engine
  show (leftBy (EStateM.bind act next engine)).settings = engine.settings
  unfold EStateM.bind
  cases hresult : act engine with
  | error cause later =>
    rw [hresult] at hfirst
    exact hfirst
  | ok answer later =>
    rw [hresult] at hfirst
    exact (hnext answer later).trans hfirst

theorem pure (answer : α) :
    KeepsSettings (Pure.pure answer : EStateM EngineError (Engine σ) α) :=
  fun _ => rfl

theorem throw (cause : EngineError) :
    KeepsSettings (MonadExcept.throw cause : EStateM EngineError (Engine σ) α) :=
  fun _ => rfl

theorem get : KeepsSettings (MonadState.get : EStateM EngineError (Engine σ) (Engine σ)) :=
  fun _ => rfl

theorem orStop (outcome : Except EngineError α) :
    KeepsSettings (orStop outcome : EStateM EngineError (Engine σ) α) := by
  cases outcome with
  | ok answer => exact pure answer
  | error cause => exact throw cause

theorem stamp (now : Nat) : KeepsSettings (stamp now : EStateM EngineError (Engine σ) Nat) :=
  fun _ => rfl

theorem onStore (act : EStateM EngineError σ α) : KeepsSettings (onStore act) := by
  intro engine
  unfold Engine.onStore
  cases act engine.store with
  | ok => rfl
  | error => rfl

variable [CellStore σ]

/-- Whether it succeeds or fails, an edit leaves the settings. -/
theorem edit (now : Nat) (sheet : String) (slot : Slot) (raw : String) :
    KeepsSettings (edit now sheet slot raw : EStateM EngineError (Engine σ) Cell) := by
  unfold Engine.edit
  apply get.bind
  intro engine
  apply (orStop _).bind
  intro evaluation
  apply (stamp now).bind
  intro version
  apply KeepsSettings.bind
  · apply (onStore _).bind
    intro id
    exact pure _
  intro cell
  apply get.bind
  intro engine
  apply (orStop _).bind
  intro snapshot
  apply get.bind
  intro engine
  apply (onStore _).bind
  intro rows
  cases evaluation.failure? with
  | none => exact pure cell
  | some cause => exact throw _

/-- Whether it succeeds or fails, a revert leaves the settings. -/
theorem revert (now : Nat) (sheet : String) (version : Nat) :
    KeepsSettings (revert now sheet version : EStateM EngineError (Engine σ) (List Cell)) := by
  unfold Engine.revert
  apply get.bind
  intro engine
  apply (orStop _).bind
  intro changes
  by_cases hempty : changes.isEmpty
  · simp only [hempty]
    exact pure []
  · simp only [hempty]
    apply (stamp now).bind
    intro stamp
    apply (onStore _).bind
    intro ids
    exact pure _

/-- So does every call. -/
theorem call (call : Call) (engine : Engine σ) : (engine.call call).settings = engine.settings := by
  rcases call with ⟨now, change, hnow⟩
  cases change with
  | edit sheet slot raw => exact edit now sheet slot raw engine
  | revert sheet version => exact revert now sheet version engine

end KeepsSettings

end Settings

/-! ## What calls store -/

open JournaledStore

variable {σ : Type} [CellStore σ] [LawfulStore σ] {engine later : Engine σ} {now : Nat}
  {sheet : String} {slot : Slot} {raw : String} {evaluation : Evaluation}

section Written

variable (hsound : Sound engine.store)

include hsound

/-- An edited cell is derived from the other current cells. -/
theorem derived_edited {others : Snapshot}
    (hplanned : Planned engine sheet slot raw others evaluation) :
    (engine.edited now sheet slot raw evaluation).Derived engine.settings.errorMarker
      (cells engine.store sheet) := by
  have hvalue := hplanned.evaluation_eq
  constructor
  · show (Formula.classify raw).isMalformedReference = false
    by_contra hmalformed
    have hfailure : evaluation.failure? ≠ none := by
      rw [hvalue]
      exact Formula.failure_of_isMalformedReference (Bool.eq_true_of_not_eq_false hmalformed)
    exact hmalformed (hplanned.wellFormed hfailure)
  · refine ⟨others, ?_, congrArg Evaluation.value hvalue⟩
    intro row hrow
    rw [((LawfulStore.snapshot_eq_ok_iff hsound).1 hplanned.read).2] at hrow
    have hcurrent := (Snapshot.mem_without.1 hrow).1
    have hmem := Recency.mem_of_mem_latest (LawfulStore.ids_ne hsound sheet) hcurrent
    exact ⟨hmem, LawfulStore.cell_sheet_eq hsound hmem,
      Nat.lt_succ_of_le (LawfulStore.cell_id_le hsound hmem)⟩

/-- A row of a cascade is derived from rows that were current before it, among them rows of the
same cascade. -/
theorem derived_cascade {cell row : Cell} (hid : cell.id = lastId engine.store + 1)
    (hrow : row ∈ engine.cascadeRows cell) (marker : String) :
    row.Derived marker (cells engine.store cell.sheet ++ cell :: engine.cascadeRows cell) := by
  have hready := ready_baseline hsound hid engine.settings.cascadeDepth
  rcases Cascade.mem_rows.1 hrow with ⟨k, hk, visit, hvisit, rfl⟩
  rcases Cascade.mem_level hready hvisit with ⟨dependent, hdep, hrenewed, hentry⟩
  rcases Snapshot.mem_dependents.1 hdep with ⟨hmem, -, hreads⟩
  rcases Formula.exists_value_of_dependsOn hreads hentry.stands with ⟨value, hvalue⟩
  have hformula : visit.row.formula = dependent.formula := by
    rw [hrenewed]
    rfl
  have hcomputed : visit.row.computed = value := by
    rw [hrenewed]
    exact Formula.value_of_evaluate hvalue
  have hsheet : visit.row.sheet = cell.sheet := by
    rw [hrenewed]
    exact hentry.sheet_eq dependent hmem
  refine ⟨?_, visit.entry.snapshot, ?_, ?_⟩
  · rw [hformula]
    exact Formula.isMalformedReference_of_dependsOn hreads
  · intro source hsource
    refine ⟨?_, (hentry.sheet_eq source hsource).trans hsheet.symm,
      Nat.lt_of_le_of_lt (hentry.id_le source hsource) (Cascade.id_of_mem_level hvisit).1⟩
    have hin := (Cascade.mem_sweep hvisit).1
    rcases Cascade.mem_or_exists_visit_of_mem_iterate hin hsource with
      hbase | ⟨l, hl, other, hother, rfl⟩
    · rcases mem_baseline hsound hid hbase with hold | rfl
      · exact List.mem_append_left _ hold
      · exact List.mem_append_right _ List.mem_cons_self
    · have hlevel : other.row ∈ engine.cascadeRows cell :=
        Cascade.mem_rows.2 ⟨l, Nat.lt_trans hl hk, other, hother, rfl⟩
      exact List.mem_append_right _ (List.mem_cons_of_mem _ hlevel)
  · rw [hcomputed, hformula, Formula.compute_of_evaluate hvalue]

/-- A row of a revert is derived from what the row was derived from that it goes back to. -/
theorem derived_restored {version : Nat} {target current : Snapshot}
    {changes : List (Slot × Contents)} {marker : String} {row : Cell}
    (hplanned : RevertPlanned engine sheet version target current changes)
    (hold : ∀ cell ∈ cells engine.store sheet, cell.Derived marker (cells engine.store sheet))
    (hrow : row ∈ numbered (lastId engine.store + 1) (engine.restored now sheet changes))
    (hid : lastId engine.store < row.id) :
    row.Derived marker (cells engine.store sheet) := by
  rcases mem_numbered hrow with ⟨cell, hcell, hsame⟩
  rcases List.mem_map.1 hcell with ⟨change, hchange, rfl⟩
  rw [hplanned.changes_eq] at hchange
  rcases Snapshot.mem_changesTo.1 hchange with ⟨gone, -, -, rfl⟩
  have hcontents : row.contents = target.contentsAt gone.slot := by
    rw [hsame]
    rfl
  have hsheet : row.sheet = sheet := by
    rw [hsame]
  cases hfind : target.find? gone.slot with
  | none =>
    apply Cell.Derived.blank
    rw [hcontents, Snapshot.contentsAt, hfind]
    rfl
  | some old =>
    have htarget := ((snapshotAt_eq_ok_iff hsound).1 hplanned.target_eq).2
    have hmem : old ∈ cells engine.store sheet := by
      have hin := Snapshot.mem_of_find? hfind
      rw [htarget] at hin
      have hids := (LawfulStore.ids_ne hsound sheet).filter (·.version ≤ version)
      exact List.mem_of_mem_filter (Recency.mem_of_mem_latest hids hin)
    apply (hold old hmem).copy
    · rw [hcontents, Snapshot.contentsAt_of_find? hfind]
    · rw [hsheet, LawfulStore.cell_sheet_eq hsound hmem]
    · exact Nat.le_of_lt (Nat.lt_of_le_of_lt (LawfulStore.cell_id_le hsound hmem) hid)

end Written

/-- Everything that a store was given since its first state, all of it derived. -/
structure Derivation (first store : σ) (marker : String) (rows : List Cell) : Prop where
  appends : Appends first store rows
  derived : ∀ row ∈ rows, row.Derived marker rows

section Derivation

variable {first store next : σ} {marker : String} {rows more : List Cell}

/-- What a store holds that was empty at first is what it was given. -/
theorem Derivation.cells_eq (h : Derivation first store marker rows) (hfirst : Blank first)
    (sheet : String) : cells store sheet = rows.filter (·.sheet = sheet) := by
  rw [cells, h.appends.journal_eq, hfirst.journal_eq, List.nil_append, Journal.cells_map_ofCell]

/-- What a row was derived from does not depend on other spreadsheets. -/
theorem Derivation.derived_cells (h : Derivation first store marker rows) (hfirst : Blank first)
    {cell : Cell} (hcell : cell ∈ cells store sheet) :
    cell.Derived marker (cells store sheet) := by
  rw [h.cells_eq hfirst] at hcell ⊢
  rcases List.mem_filter.1 hcell with ⟨hmem, hsheet⟩
  rcases (h.derived cell hmem).computed with ⟨snapshot, hsnapshot, hcomputed⟩
  refine ⟨(h.derived cell hmem).decodes, snapshot, ?_, hcomputed⟩
  intro row hrow
  rcases hsnapshot row hrow with ⟨hin, hsame, hlt⟩
  have hrowSheet : row.sheet = sheet := hsame.trans (of_decide_eq_true hsheet)
  exact ⟨List.mem_filter.2 ⟨hin, decide_eq_true hrowSheet⟩, hsame, hlt⟩

/-- Rows that are derived from those of one spreadsheet and from each other may be appended. -/
theorem Derivation.append (h : Derivation first store marker rows) (hfirst : Blank first)
    (sheet : String) (happends : Appends store next more)
    (hmore : ∀ row ∈ more, row.Derived marker (cells store sheet ++ more)) :
    Derivation first next marker (rows ++ more) where
  appends := h.appends.append happends
  derived row hrow := by
    rcases List.mem_append.1 hrow with hold | hnew
    · exact (h.derived row hold).mono fun source hsource => List.mem_append_left _ hsource
    · apply (hmore row hnew).mono
      intro source hsource
      rcases List.mem_append.1 hsource with hstored | hnew
      · rw [h.cells_eq hfirst] at hstored
        exact List.mem_append_left _ (List.mem_of_mem_filter hstored)
      · exact List.mem_append_right _ hnew

/-- An edit that is accepted stores derived rows. -/
theorem Derivation.edit (h : Derivation first engine.store engine.settings.errorMarker rows)
    (hfirst : Blank first) (haccepted : Accepted engine now sheet slot raw evaluation later) :
    ∃ more, Derivation first later.store engine.settings.errorMarker (rows ++ more) := by
  have hsound := h.appends.sound
  rcases haccepted.planned with ⟨others, hplanned⟩
  refine ⟨_, h.append hfirst sheet haccepted.appends ?_⟩
  intro row hrow
  rcases List.mem_cons.1 hrow with rfl | hcascade
  · apply (derived_edited hsound hplanned).mono
    intro source hsource
    exact List.mem_append_left _ hsource
  · exact derived_cascade hsound rfl hcascade _

/-- A revert that is accepted stores derived rows. -/
theorem Derivation.revert {version : Nat} {more : List Cell}
    (h : Derivation first engine.store marker rows) (hfirst : Blank first)
    (hreverted : Reverted engine now sheet version more later) :
    Derivation first later.store marker (rows ++ more) := by
  have hsound := h.appends.sound
  have happends := hreverted.appends
  rcases hreverted.planned with ⟨target, current, changes, hplanned, rfl⟩
  apply h.append hfirst sheet happends
  intro row hrow
  have hold := derived_restored hsound hplanned (fun cell => h.derived_cells hfirst) hrow
    (happends.lastId_lt hrow)
  apply hold.mono
  intro source hsource
  exact List.mem_append_left _ hsource

/-- What a call stores is derived. -/
theorem Derivation.call (h : Derivation first engine.store engine.settings.errorMarker rows)
    (hfirst : Blank first) (call : Call) :
    ∃ more, Derivation first (engine.call call).store engine.settings.errorMarker
      (rows ++ more) := by
  have hsound := h.appends.sound
  have hnothing : ∀ left : Engine σ, left.store = engine.store →
      ∃ more, Derivation first left.store engine.settings.errorMarker (rows ++ more) := by
    intro left hsame
    refine ⟨[], ?_⟩
    rw [hsame, List.append_nil]
    exact h
  rcases call with ⟨now, change, hnow⟩
  cases change with
  | edit sheet slot raw =>
    unfold Engine.call
    rcases edit_cases hsound now sheet slot raw with
      ⟨cause, later, hedit, -, hsame⟩ | ⟨evaluation, later, hedit, haccepted⟩
    · simp only [hedit, leftBy]
      exact hnothing later hsame
    · simp only [hedit, leftBy_settle]
      exact h.edit hfirst haccepted
  | revert sheet version =>
    unfold Engine.call
    rcases revert_cases hsound now sheet version with
      ⟨cause, later, hrevert, -, hsame⟩ | ⟨written, later, hrevert, hreverted⟩
    · simp only [hrevert, leftBy]
      exact hnothing later hsame
    · simp only [hrevert, leftBy]
      exact ⟨written, h.revert hfirst hreverted⟩

/-- What a run stores is derived. -/
theorem Derivation.run (h : Derivation first engine.store engine.settings.errorMarker rows)
    (hfirst : Blank first) (calls : List Call) :
    ∃ more, Derivation first (engine.run calls).store engine.settings.errorMarker
      (rows ++ more) := by
  induction calls generalizing engine rows with
  | nil => exact ⟨[], by rw [List.append_nil]; exact h⟩
  | cons call rest ih =>
    rcases h.call hfirst call with ⟨written, hwritten⟩
    rw [← KeepsSettings.call call engine] at hwritten ⊢
    rcases ih hwritten with ⟨more, hmore⟩
    refine ⟨written ++ more, ?_⟩
    rw [← List.append_assoc]
    exact hmore

end Derivation

/-- Every row that calls have ever stored is well formed, whatever the clock and whichever calls
failed, if the store was empty at first. -/
theorem rows_wellFormed (hempty : Blank engine.store) (calls : List Call) :
    ∃ rows, Appends engine.store (engine.run calls).store rows ∧
      ∀ before row after, rows = before ++ row :: after →
        row.WellFormed engine.settings.errorMarker before := by
  have hstart : Derivation engine.store engine.store engine.settings.errorMarker [] :=
    ⟨.nil hempty.sound, by simp⟩
  rcases hstart.run hempty calls with ⟨rows, hrun⟩
  rw [List.nil_append] at hrun
  refine ⟨rows, hrun.appends, ?_⟩
  rintro before row after rfl
  exact (hrun.derived row (by simp)).wellFormed hrun.appends.increasing_ids

/-- An empty table, and a clock whose stamps go back. -/
def hesitant : Engine TableStore where
  store := {}
  directory := { sheets := [⟨"1", "One", 10, 5⟩] }
  clock := .listed [7, 5] 0
  settings := {}

/-- A reference to an empty slot, a malformed reference, which is refused, and a revert to a version
before both. -/
def eventful : List Call :=
  [⟨0, .edit "1" ⟨1, 0⟩ "=A1", by decide⟩, ⟨0, .edit "1" ⟨2, 0⟩ "=A0", by decide⟩,
    ⟨0, .revert "1" 3, by decide⟩]

theorem rows_wellFormed_eventful :
    Blank hesitant.store ∧
      (cells (hesitant.run eventful).store "1").map Cell.contents =
        [⟨"=A1", "ERROR"⟩, {}] ∧
      ∃ rows, Appends hesitant.store (hesitant.run eventful).store rows ∧
        ∀ before row after, rows = before ++ row :: after →
          row.WellFormed hesitant.settings.errorMarker before := by
  refine ⟨TableStore.blank_empty, ?_, rows_wellFormed TableStore.blank_empty eventful⟩
  cbv

end Engine

end SheetLedger
