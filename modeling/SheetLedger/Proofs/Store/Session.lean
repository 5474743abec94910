import Mathlib.Algebra.Group.Nat.Defs
import SheetLedger.Proofs.Store.Queries

/-!
# Sessions with a store

A session is a sequence of requests to a store, reads and writes alike, and its transcript holds the
answers. The log store and the table store are interchangeable: from the empty stores on, a session
has one transcript with both of them, as long as the table can hold all numbers
(`stores_interchangeable`). The table refuses a write with a number that it cannot hold, a batch as
a whole, and otherwise goes on as if it had not been asked.

* `Request`, `Answer` and `transcript` are what is asked and what comes back.
* `Alike` relates a log store and a table store with one journal for each spreadsheet. A request
  that the table does not refuse gets one answer from both and leaves them alike (`Alike.respond`).
-/

namespace SheetLedger

open JournaledStore

/-! ## Requests and answers -/

/-- What a store can be asked. -/
inductive Request where
  | insert (cell : Cell)
  | insertAll (cells : List Cell)
  | current (sheet : String) (slot : Slot)
  | snapshot (sheet : String) (excluded : Option Slot)
  | history (sheet : String) (slot : Slot)
  | versions (sheet : String)
  | snapshotAt (sheet : String) (version : Nat)
  | latestVersion
deriving Repr, DecidableEq

/-- What a store answers. -/
inductive Answer where
  | id (id : Nat)
  | ids (ids : List Nat)
  | cell (cell : Option Cell)
  | cells (cells : List Cell)
  | versions (versions : List Nat)
  | latest (version : Option Nat)
  | failed (cause : StoreError)
deriving Repr, DecidableEq

namespace Answer

variable {σ α : Type}

/-- The answer to a read. -/
def ofRead (answer : α → Answer) : Except StoreError α → Answer
  | .ok value => answer value
  | .error cause => failed cause

/-- The answer to a write, with the store after it. -/
def ofWrite (answer : α → Answer) : EStateM.Result StoreError σ α → Answer × σ
  | .ok value store => (answer value, store)
  | .error cause store => (failed cause, store)

end Answer

section Transcript

variable {σ : Type} [CellStore σ]

/-- The answer to a request, with the store after it. -/
def respond (store : σ) : Request → Answer × σ
  | .insert cell => Answer.ofWrite .id (CellStore.insert cell store)
  | .insertAll cells => Answer.ofWrite .ids (CellStore.insertAll cells store)
  | .current sheet slot => (Answer.ofRead .cell (CellStore.current? store sheet slot), store)
  | .snapshot sheet excluded =>
    (Answer.ofRead .cells (CellStore.snapshot store sheet excluded), store)
  | .history sheet slot => (Answer.ofRead .cells (CellStore.history store sheet slot), store)
  | .versions sheet => (Answer.ofRead .versions (CellStore.versions store sheet), store)
  | .snapshotAt sheet version =>
    (Answer.ofRead .cells (CellStore.snapshotAt store sheet version), store)
  | .latestVersion => (Answer.ofRead .latest (CellStore.latestVersion store), store)

/-- The requests of a session with their answers. -/
def transcript (store : σ) : List Request → List (Request × Answer)
  | [] => []
  | request :: rest =>
    (request, (respond store request).1) :: transcript (respond store request).2 rest

/-- Every request is answered. -/
theorem map_fst_transcript (store : σ) (requests : List Request) :
    (transcript store requests).map Prod.fst = requests := by
  induction requests generalizing store with
  | nil => rfl
  | cons request rest ih => rw [transcript, List.map_cons, ih]

end Transcript

namespace Request

/-- The first number of a write that the table cannot hold. -/
def oversized? : Request → Option Field
  | insert cell => TableStore.oversized? cell
  | insertAll cells => cells.findSome? TableStore.oversized?
  | _ => none

/-- A lookup is of a slot that the table can hold. -/
def LookupFits : Request → Prop
  | current _ slot => FitsSlot TableStore slot
  | history _ slot => FitsSlot TableStore slot
  | _ => True

instance (request : Request) : Decidable request.LookupFits :=
  match request with
  | current _ slot => inferInstanceAs (Decidable (slot.column ≤ tableLimit ∧ slot.row ≤ tableLimit))
  | history _ slot => inferInstanceAs (Decidable (slot.column ≤ tableLimit ∧ slot.row ≤ tableLimit))
  | insert _ => isTrue trivial
  | insertAll _ => isTrue trivial
  | snapshot _ _ => isTrue trivial
  | versions _ => isTrue trivial
  | snapshotAt _ _ => isTrue trivial
  | latestVersion => isTrue trivial

end Request

/-! ## The newest version of all -/

/-- A version of some spreadsheet that no version of any spreadsheet is above. -/
def IsNewest {σ : Type} [JournaledStore σ] (store : σ) (version : Nat) : Prop :=
  (∃ sheet, ∃ row ∈ journal store sheet, row.version = version) ∧
    ∀ sheet, ∀ row ∈ journal store sheet, row.version ≤ version

namespace LogStore

/-- No two logs are of one spreadsheet. -/
def Distinct (store : LogStore) : Prop :=
  (store.logs.map Prod.fst).Nodup

theorem mem_map_fst_appendTo {logs : List (String × List Cell)} {row : Cell} {name : String} :
    name ∈ (appendTo logs row).map Prod.fst ↔ name = row.sheet ∨ name ∈ logs.map Prod.fst := by
  induction logs with
  | nil => simp [appendTo]
  | cons entry rest ih =>
    rcases entry with ⟨first, log⟩
    unfold appendTo
    by_cases hfirst : first = row.sheet
    · simp [hfirst]
    · rw [if_neg hfirst, List.map_cons, List.mem_cons, ih, List.map_cons, List.mem_cons]
      exact or_left_comm

theorem Distinct.insert {store : LogStore} (h : store.Distinct) (cell : Cell) :
    (store.insert cell).2.Distinct := by
  have happend : ∀ {logs : List (String × List Cell)} {row : Cell}, (logs.map Prod.fst).Nodup →
      ((appendTo logs row).map Prod.fst).Nodup := by
    intro logs row hlogs
    induction logs with
    | nil => simp [appendTo]
    | cons entry rest ih =>
      rcases entry with ⟨first, log⟩
      rw [List.map_cons, List.nodup_cons] at hlogs
      unfold appendTo
      by_cases hfirst : first = row.sheet
      · rw [if_pos hfirst]
        exact List.nodup_cons.2 hlogs
      · rw [if_neg hfirst, List.map_cons, List.nodup_cons, mem_map_fst_appendTo]
        exact ⟨not_or.2 ⟨hfirst, hlogs.1⟩, ih hlogs.2⟩
  exact happend h

theorem Distinct.insertAll {store : LogStore} (h : store.Distinct) (rows : List Cell) :
    (store.insertAll rows).2.Distinct := by
  induction rows generalizing store with
  | nil => exact h
  | cons row rest ih => exact ih (h.insert row)

/-- Every log is the one that is found under its name. -/
theorem Distinct.log_eq {store : LogStore} (h : store.Distinct) {sheet : String} {log : List Cell}
    (hmem : (sheet, log) ∈ store.logs) : store.log sheet = log := by
  rcases List.append_of_mem hmem with ⟨front, rest, hlogs⟩
  have hfront : ∀ entry ∈ front, (sheet == entry.1) = false := by
    intro entry hentry
    rw [Distinct, hlogs, List.map_append, List.nodup_append] at h
    refine beq_eq_false_iff_ne.2 ?_
    intro heq
    exact h.2.2 entry.1 (List.mem_map_of_mem hentry) sheet (by simp) heq.symm
  have hlookup : store.logs.lookup sheet = some log :=
    List.lookup_eq_some_iff.2 ⟨front, rest, hlogs, by simpa using hfront⟩
  rw [LogStore.log, hlookup, Option.getD_some]

theorem latestVersion_eq_some_iff {store : LogStore} (h : store.Distinct) {version : Nat} :
    store.latestVersion = some version ↔ IsNewest store version := by
  have hnewest : ∀ {latest}, store.latestVersion = some latest → IsNewest store latest := by
    intro latest hlatest
    constructor
    · rcases List.mem_filterMap.1 (List.max?_eq_some_iff.1 hlatest).1 with
        ⟨⟨sheet, log⟩, hlog, hmax⟩
      rcases List.mem_map.1 (List.max?_eq_some_iff.1 hmax).1 with ⟨row, hrow, rfl⟩
      refine ⟨sheet, TableRow.ofCell row, List.mem_map_of_mem ?_, rfl⟩
      exact (h.log_eq hlog).symm ▸ hrow
    · intro sheet row hrow
      rcases List.mem_map.1 hrow with ⟨cell, hcell, rfl⟩
      have hle := version_le_latestVersion hcell
      rw [hlatest, Option.getD_some] at hle
      exact Int.ofNat_le.2 hle
  constructor
  · exact hnewest
  · rintro ⟨⟨sheet, row, hrow, hversion⟩, hle⟩
    cases hlatest : store.latestVersion with
    | none =>
      -- the log that holds the row has a newest version
      rcases List.mem_map.1 hrow with ⟨cell, hcell, rfl⟩
      rcases exists_mem_logs hcell with ⟨log, hlog, hmem⟩
      have hnone := List.filterMap_eq_nil_iff.1 (List.max?_eq_none_iff.1 hlatest) _ hlog
      simp only [List.max?_eq_none_iff, List.map_eq_nil_iff] at hnone
      simp [hnone] at hmem
    | some latest =>
      rcases hnewest hlatest with ⟨⟨other, row', hrow', hversion'⟩, hle'⟩
      have hbelow := hle' sheet row hrow
      have habove := hle other row' hrow'
      congr 1
      omega

end LogStore

namespace TableStore

/-- Where no version is negative, the newest one is read. -/
theorem latestVersion_eq_ok {store : TableStore} {latest : Option Nat}
    (hpos : ∀ row ∈ store.rows, 0 ≤ row.version)
    (h : ∀ version, latest = some version ↔ IsNewest store version) :
    store.latestVersion = .ok latest := by
  unfold latestVersion
  cases hmax : (store.rows.map (·.version)).max? with
  | none =>
    have hrows : store.rows = [] := by simpa [List.max?_eq_none_iff] using hmax
    cases latest with
    | none => rfl
    | some version =>
      rcases (h version).1 rfl with ⟨⟨sheet, row, hrow, -⟩, -⟩
      have hmem := (mem_journal.1 hrow).1
      simp [hrows] at hmem
  | some newest =>
    rcases List.max?_eq_some_iff.1 hmax with ⟨hmem, hall⟩
    rcases List.mem_map.1 hmem with ⟨row, hrow, rfl⟩
    have hrowpos := hpos row hrow
    have hnewest : IsNewest store row.version.toNat := by
      constructor
      · exact ⟨row.sheet, row, mem_journal.2 ⟨hrow, rfl⟩, (Int.toNat_of_nonneg hrowpos).symm⟩
      · intro sheet other hother
        have hle := hall _ (List.mem_map_of_mem (mem_journal.1 hother).1)
        omega
    simp only [if_neg (Int.not_lt.2 hrowpos), (h _).2 hnewest]

end TableStore

/-! ## Stores that are alike -/

/-- A log store and a table store with the same rows. -/
structure Alike (log : LogStore) (table : TableStore) : Prop where
  log_sound : log.Sound
  distinct : log.Distinct
  table_sound : table.Sound
  lastId_eq : table.lastId = log.lastId
  journal_eq : ∀ sheet, journal table sheet = journal log sheet

/-- The empty stores are alike. -/
theorem alike_empty : Alike {} {} where
  log_sound := LogStore.sound_empty
  distinct := List.nodup_nil
  table_sound := TableStore.sound_empty
  lastId_eq := rfl
  journal_eq _ := rfl

namespace Alike

variable {log later : LogStore} {table tableLater : TableStore} {rows : List Cell}

/-- The same rows leave stores alike. -/
theorem appends (h : Alike log table) (hdistinct : later.Distinct) (hlog : Appends log later rows)
    (htable : Appends table tableLater rows) : Alike later tableLater where
  log_sound := hlog.sound
  distinct := hdistinct
  table_sound := htable.sound
  lastId_eq := by
    have hlogId := hlog.lastId_eq
    have htableId := htable.lastId_eq
    have hid := h.lastId_eq
    show lastId tableLater = lastId later
    rw [hlogId, htableId]
    exact congrArg (· + rows.length) hid
  journal_eq sheet := by rw [hlog.journal_eq, htable.journal_eq, h.journal_eq]

theorem cells_eq (h : Alike log table) (sheet : String) : cells table sheet = cells log sheet :=
  congrArg Journal.cells (h.journal_eq sheet)

/-- Every row of the table holds a cell. -/
theorem version_nonneg (h : Alike log table) : ∀ row ∈ table.rows, 0 ≤ row.version := by
  intro row hrow
  have hmem : row ∈ journal table row.sheet := TableStore.mem_journal.2 ⟨hrow, rfl⟩
  rw [h.journal_eq] at hmem
  rcases List.mem_map.1 hmem with ⟨cell, -, rfl⟩
  exact Int.natCast_nonneg _

theorem latestVersion (h : Alike log table) : table.latestVersion = .ok log.latestVersion := by
  refine TableStore.latestVersion_eq_ok h.version_nonneg ?_
  intro version
  rw [LogStore.latestVersion_eq_some_iff h.distinct]
  simp only [IsNewest, h.journal_eq]

theorem current? (h : Alike log table) (sheet : String) {slot : Slot}
    (hslot : FitsSlot TableStore slot) :
    CellStore.current? table sheet slot = CellStore.current? log sheet slot := by
  rw [QueriedStore.current?_eq table sheet hslot, h.journal_eq,
    ← QueriedStore.current?_eq log sheet (LogStore.fitsSlot slot)]

theorem history (h : Alike log table) (sheet : String) {slot : Slot}
    (hslot : FitsSlot TableStore slot) :
    CellStore.history table sheet slot = CellStore.history log sheet slot := by
  rw [QueriedStore.history_eq table sheet hslot, h.journal_eq,
    ← QueriedStore.history_eq log sheet (LogStore.fitsSlot slot)]

theorem versions (h : Alike log table) (sheet : String) :
    CellStore.versions table sheet = CellStore.versions log sheet := by
  rw [QueriedStore.versions_eq, h.journal_eq, ← QueriedStore.versions_eq]

theorem snapshot (h : Alike log table) (sheet : String) (excluded : Option Slot) :
    CellStore.snapshot table sheet excluded = CellStore.snapshot log sheet excluded := by
  rcases (LawfulStore.snapshot_eq_ok_iff h.log_sound).1 (rfl : CellStore.snapshot log sheet excluded
    = .ok _) with ⟨hreadable, hcurrent⟩
  refine (LawfulStore.snapshot_eq_ok_iff h.table_sound).2 ⟨?_, ?_⟩
  · rw [h.journal_eq]
    exact hreadable
  · rw [h.cells_eq]
    exact hcurrent

theorem snapshotAt (h : Alike log table) (sheet : String) (version : Nat) :
    CellStore.snapshotAt table sheet version = CellStore.snapshotAt log sheet version := by
  rcases (LawfulStore.snapshotAt_eq_ok_iff h.log_sound).1 (rfl : CellStore.snapshotAt log sheet
    version = .ok _) with ⟨hreadable, hcurrent⟩
  refine (LawfulStore.snapshotAt_eq_ok_iff h.table_sound).2 ⟨?_, ?_⟩
  · rw [h.journal_eq]
    exact hreadable
  · rw [h.cells_eq]
    exact hcurrent

/-- Stores that are alike answer alike and stay so. -/
theorem respond (h : Alike log table) {request : Request} (hsize : request.oversized? = none)
    (hlookup : request.LookupFits) :
    (respond table request).1 = (respond log request).1 ∧
      Alike (respond log request).2 (respond table request).2 := by
  cases request with
  | insert cell =>
    have hfits := TableStore.oversized?_eq_none_iff.1 hsize
    rcases LawfulStore.insert_of_fits cell h.table_sound hfits with ⟨later, hinsert, happends⟩
    have hid : lastId table = log.lastId := h.lastId_eq
    rw [hid] at hinsert happends
    simp only [SheetLedger.respond, hinsert]
    exact ⟨rfl, h.appends (h.distinct.insert cell) (LogStore.appends_insert h.log_sound cell)
      happends⟩
  | insertAll cells =>
    have hfits : ∀ cell ∈ cells, Fits TableStore cell := by
      intro cell hcell
      exact TableStore.oversized?_eq_none_iff.1 (List.findSome?_eq_none_iff.1 hsize cell hcell)
    rcases LawfulStore.insertAll_of_fits h.table_sound hfits with ⟨later, hinsert, happends⟩
    rcases LogStore.appends_insertAll h.log_sound cells with ⟨hids, hlog⟩
    have hid : lastId table = log.lastId := h.lastId_eq
    rw [hid] at hinsert happends
    simp only [SheetLedger.respond, hinsert]
    exact ⟨congrArg Answer.ids hids.symm, h.appends (h.distinct.insertAll cells) hlog happends⟩
  | current sheet slot => exact ⟨congrArg (Answer.ofRead .cell) (h.current? sheet hlookup), h⟩
  | snapshot sheet excluded => exact ⟨congrArg (Answer.ofRead .cells) (h.snapshot _ _), h⟩
  | history sheet slot => exact ⟨congrArg (Answer.ofRead .cells) (h.history sheet hlookup), h⟩
  | versions sheet => exact ⟨congrArg (Answer.ofRead .versions) (h.versions sheet), h⟩
  | snapshotAt sheet version => exact ⟨congrArg (Answer.ofRead .cells) (h.snapshotAt _ _), h⟩
  | latestVersion => exact ⟨congrArg (Answer.ofRead .latest) h.latestVersion, h⟩

end Alike

/-! ## Sessions -/

namespace TableStore

/-- What is oversized is refused and changes nothing. -/
theorem respond_of_oversized (table : TableStore) {request : Request} {field : Field}
    (h : request.oversized? = some field) :
    respond table request = (.failed (.tooLarge field), table) := by
  cases request with
  | insert cell => rw [respond, refuses_insert table h, Answer.ofWrite]
  | insertAll cells => rw [respond, refuses_insertAll table h, Answer.ofWrite]
  | current | snapshot | history | versions | snapshotAt | latestVersion => cases h

end TableStore

/-- The log store never fails. -/
theorem LogStore.respond_ne_failed (log : LogStore) (request : Request) (cause : StoreError) :
    (respond log request).1 ≠ .failed cause := by
  cases request <;> intro h <;> cases h

namespace Alike

variable {log : LogStore} {table : TableStore}

/-- The answers to what is not oversized are those of the log store that is asked nothing else. -/
theorem filter_transcript (h : Alike log table) {requests : List Request}
    (hlookup : ∀ request ∈ requests, request.LookupFits) :
    (transcript table requests).filter (·.1.oversized? = none) =
      transcript log (requests.filter (·.oversized? = none)) := by
  induction requests generalizing log table with
  | nil => rfl
  | cons request rest ih =>
    have hrest : ∀ other ∈ rest, other.LookupFits := by
      intro other hother
      exact hlookup other (List.mem_cons_of_mem _ hother)
    rw [transcript]
    cases hsize : request.oversized? with
    | none =>
      rcases h.respond hsize (hlookup request List.mem_cons_self) with ⟨hanswer, halike⟩
      rw [List.filter_cons_of_pos (by simp [hsize]), List.filter_cons_of_pos (by simp [hsize]),
        ih halike hrest, transcript, hanswer]
    | some field =>
      rw [TableStore.respond_of_oversized table hsize, List.filter_cons_of_neg (by simp [hsize]),
        List.filter_cons_of_neg (by simp [hsize]), ih h hrest]

/-- Exactly what is oversized is refused for a number that is too large. -/
theorem failed_tooLarge_iff (h : Alike log table) {requests : List Request}
    (hlookup : ∀ request ∈ requests, request.LookupFits) {entry : Request × Answer}
    (hentry : entry ∈ transcript table requests) {field : Field} :
    entry.2 = .failed (.tooLarge field) ↔ entry.1.oversized? = some field := by
  induction requests generalizing log table with
  | nil => cases hentry
  | cons request rest ih =>
    have hrest : ∀ other ∈ rest, other.LookupFits := by
      intro other hother
      exact hlookup other (List.mem_cons_of_mem _ hother)
    rw [transcript, List.mem_cons] at hentry
    cases hsize : request.oversized? with
    | none =>
      rcases h.respond hsize (hlookup request List.mem_cons_self) with ⟨hanswer, halike⟩
      rcases hentry with rfl | hmem
      · simp only [hanswer, hsize, LogStore.respond_ne_failed, reduceCtorEq]
      · exact ih halike hrest hmem
    | some first =>
      rw [TableStore.respond_of_oversized table hsize] at hentry
      rcases hentry with rfl | hmem
      · simp only [hsize, Answer.failed.injEq, StoreError.tooLarge.injEq, Option.some.injEq]
      · exact ih h hrest hmem

end Alike

/-- The empty stores are interchangeable. In a session whose writes the table can all hold, both
answer the same. In any other one, the table refuses exactly the writes with a number that is too
large, and to the rest it answers what the log store does in the session without them. -/
theorem stores_interchangeable (requests : List Request)
    (hlookup : ∀ request ∈ requests, request.LookupFits) :
    ((∀ request ∈ requests, request.oversized? = none) →
      transcript ({} : TableStore) requests = transcript ({} : LogStore) requests) ∧
    (transcript ({} : TableStore) requests).filter (·.1.oversized? = none) =
      transcript ({} : LogStore) (requests.filter (·.oversized? = none)) ∧
    ∀ entry ∈ transcript ({} : TableStore) requests, ∀ field,
      entry.2 = .failed (.tooLarge field) ↔ entry.1.oversized? = some field := by
  have hfilter := alike_empty.filter_transcript hlookup
  refine ⟨?_, hfilter, ?_⟩
  · intro hsize
    have hall : requests.filter (·.oversized? = none) = requests := by
      rw [List.filter_eq_self]
      intro request hrequest
      exact decide_eq_true (hsize request hrequest)
    have hentries : (transcript ({} : TableStore) requests).filter (·.1.oversized? = none) =
        transcript ({} : TableStore) requests := by
      rw [List.filter_eq_self]
      intro entry hentry
      have hrequest : entry.1 ∈ requests := by
        rw [← map_fst_transcript ({} : TableStore) requests]
        exact List.mem_map_of_mem hentry
      exact decide_eq_true (hsize entry.1 hrequest)
    rw [hall, hentries] at hfilter
    exact hfilter
  · intro entry hentry field
    exact alike_empty.failed_tooLarge_iff hlookup hentry

/-- A session with versions out of order, a tie, two spreadsheets and writes of which some are too
large, a batch among them whose first cell is not. -/
def mixed : List Request :=
  let cell (sheet : String) (slot : Slot) (raw : String) (version : Nat) : Cell :=
    { id := 0, sheet := sheet, slot := slot, raw := raw, computed := raw, version := version }
  [.insert (cell "a" ⟨0, 0⟩ "first" 20),
    .insertAll [cell "b" ⟨0, 0⟩ "other" 30, cell "a" ⟨0, 0⟩ "late" 10, cell "a" ⟨1, 0⟩ "next" 20],
    .insert (cell "a" ⟨0, 0⟩ "never" (tableLimit + 1)),
    .insertAll [cell "a" ⟨0, 0⟩ "fits" 40, cell "a" ⟨0, tableLimit + 1⟩ "never" (tableLimit + 1)],
    .insert (cell "a" ⟨0, 0⟩ "tie" 20),
    .current "a" ⟨0, 0⟩,
    .snapshot "a" (some ⟨1, 0⟩),
    .snapshotAt "a" (2 ^ 64 - 1),
    .snapshotAt "a" 15,
    .history "a" ⟨0, 0⟩,
    .versions "a",
    .latestVersion]

theorem stores_interchangeable_mixed :
    (∀ request ∈ mixed, request.LookupFits) ∧
    ((transcript ({} : TableStore) mixed).map Prod.snd).take 5 =
      [.id 1, .ids [2, 3, 4], .failed (.tooLarge .version), .failed (.tooLarge .row), .id 5] ∧
    transcript ({} : TableStore) (mixed.filter (·.oversized? = none)) =
      transcript ({} : LogStore) (mixed.filter (·.oversized? = none)) ∧
    (transcript ({} : TableStore) mixed).filter (·.1.oversized? = none) =
      transcript ({} : LogStore) (mixed.filter (·.oversized? = none)) ∧
    ∀ entry ∈ transcript ({} : TableStore) mixed, ∀ field,
      entry.2 = .failed (.tooLarge field) ↔ entry.1.oversized? = some field := by
  have hlookup : ∀ request ∈ mixed, request.LookupFits := by decide
  have haccepted := stores_interchangeable (mixed.filter (·.oversized? = none)) fun request h =>
    hlookup request (List.mem_of_mem_filter h)
  refine ⟨hlookup, by decide +kernel, haccepted.1 ?_, (stores_interchangeable mixed hlookup).2⟩
  intro request hrequest
  exact of_decide_eq_true (List.mem_filter.1 hrequest).2

end SheetLedger
