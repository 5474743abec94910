import SheetLedger.Proofs.Run.Updates

/-!
# The past is immutable

With the monotonic clock, calls below the last stamp do not change what was: later calls append rows
under later stamps, so no snapshot as of an earlier stamp changes, a history only grows at its end
and the list of versions only at its front (`Engine.past_immutable`).
-/

namespace SheetLedger

open JournaledStore

section Later

variable {σ : Type} [CellStore σ] [QueriedStore σ] {store later : σ} {rows : List Cell}

/-- Rows above a version do not change the snapshot as of it. -/
theorem snapshotAt_eq_of_lt (hsound : Sound store) (happends : Appends store later rows)
    (sheet : String) {version : Nat} (h : ∀ row ∈ rows, version < row.version) :
    CellStore.snapshotAt later sheet version = CellStore.snapshotAt store sheet version := by
  refine QueriedStore.snapshotAt_congr happends.sound hsound ?_
  have hnone : (rows.filter (·.sheet = sheet)).filter (·.version ≤ version) = [] := by
    rw [List.filter_eq_nil_iff]
    intro row hrow
    have hlt := h row (List.mem_of_mem_filter hrow)
    rw [decide_eq_true_eq]
    omega
  rw [happends.journal_eq, Journal.asOf_append, hnone, List.map_nil, List.append_nil]

/-- Rows that are appended in order, none older than the stored ones, go to the end of the
histories. -/
theorem history_eq_map (happends : Appends store later rows)
    (sheet : String) (slot : Slot)
    (hle : ∀ old ∈ journal store sheet, ∀ row ∈ rows, old.version ≤ row.version)
    (hsorted : rows.Pairwise fun a b => a.version ≤ b.version) :
    CellStore.history later sheet slot =
      (CellStore.history store sheet slot).map
        (· ++ rows.filter fun row => row.sheet = sheet ∧ row.slot = slot) := by
  by_cases hslot : FitsSlot σ slot
  · have hids := LawfulStore.increasing sheet happends.sound
    rw [happends.journal_eq] at hids
    have happend := Journal.history_append hids
      (fun old hold row hrow => hle old hold row (List.mem_of_mem_filter hrow))
      (hsorted.filter _) slot
    have hfilter : (rows.filter (·.sheet = sheet)).filter (·.slot = slot) =
        rows.filter fun row => row.sheet = sheet ∧ row.slot = slot := by
      rw [List.filter_filter]
      refine List.filter_congr ?_
      intro row _
      rw [Bool.and_comm, Bool.decide_and]
    rw [QueriedStore.history_eq later sheet hslot, QueriedStore.history_eq store sheet hslot,
      happends.journal_eq, happend, hfilter]
  · -- no row stands at a slot that the store cannot hold
    have hnone : ∀ row ∈ rows, row.slot ≠ slot := by
      intro row hrow heq
      exact hslot (heq ▸ (LawfulStore.fits_of_appends happends hrow).1)
    have hnil : (rows.filter fun row => row.sheet = sheet ∧ row.slot = slot) = [] := by
      rw [List.filter_eq_nil_iff]
      intro row hrow
      rw [decide_eq_true_eq]
      exact fun hat => hnone row hrow hat.2
    have hsame : CellStore.history later sheet slot = CellStore.history store sheet slot :=
      (LawfulStore.slot_reads_congr (happends.rowsAt_of_forall_ne sheet hnone)).2
    rw [hsame, hnil]
    cases CellStore.history store sheet slot <;> simp [Except.map]

/-- Rows under versions above all stored ones bring their versions to the front. -/
theorem versions_eq_map (happends : Appends store later rows) (sheet : String)
    (hlt : ∀ old ∈ journal store sheet, ∀ row ∈ rows, old.version < row.version) :
    ∃ front, CellStore.versions later sheet =
      (CellStore.versions store sheet).map (front ++ ·) := by
  rw [QueriedStore.versions_eq, QueriedStore.versions_eq, happends.journal_eq]
  refine Journal.versions_append ?_
  intro old hold row hrow
  exact hlt old hold row (List.mem_of_mem_filter hrow)

end Later

namespace Engine

variable {σ α : Type}

/-- What holds of a read of the store holds of a read of the engine. -/
theorem ask_eq_map {engine later : Engine σ} {read : σ → Except StoreError α} {f : α → α}
    (h : read later.store = (read engine.store).map f) :
    later.ask read = (engine.ask read).map f := by
  unfold ask
  rw [h]
  cases read engine.store <;> rfl

variable [CellStore σ] [QueriedStore σ]

/-- What calls have left behind stays: snapshots as of their stamps do not change with later calls,
histories grow at their ends and versions at their front. -/
structure Extends (engine later : Engine σ) (stamps : List Nat) (rows : List Cell) : Prop where
  appends : Appends engine.store later.store rows
  snapshotAt_eq : ∀ stamp ∈ stamps, ∀ version ≤ stamp, ∀ sheet,
    later.snapshotAt sheet version = engine.snapshotAt sheet version
  history_eq : ∀ sheet slot, later.history sheet slot =
    (engine.history sheet slot).map
      (· ++ rows.filter fun row => row.sheet = sheet ∧ row.slot = slot)
  versions_eq : ∀ sheet, ∃ front, later.versions sheet =
    (engine.versions sheet).map (front ++ ·)

/-- With the monotonic clock, and stamps below the last one, later calls do not change the past. -/
theorem past_immutable {store : σ} {directory : Directory} {settings : Settings}
    {engine : Engine σ} (h : Started store directory settings engine) (calls later : List Call)
    (hstamps : ∀ stamp ∈ engine.stamps (calls ++ later), stamp < lastStamp) :
    ∃ rows, Extends (engine.run calls) (engine.run (calls ++ later))
      (engine.stamps calls) rows := by
  rcases h.seeded with ⟨rfl, last, hseeded⟩
  have hfollows := (List.pairwise_cons.1 (hseeded.pairwise_stamps (calls ++ later))).2
  rw [stamps_append] at hstamps hfollows
  rcases hseeded.exists_ran calls with ⟨_, hran⟩
  have hafter := hran.seeded
  rcases hafter.exists_ran later with ⟨rows, hlater⟩
  -- the rows of the later calls are under stamps above all that was stored or drawn before
  have hbelow : ∀ row ∈ rows, row.version < lastStamp := by
    intro row hrow
    exact hstamps row.version (List.mem_append_right _ (hlater.stamped row hrow))
  have hdrawn : ∀ stamp ∈ engine.stamps calls, ∀ row ∈ rows, stamp < row.version := by
    intro stamp hstamp row hrow
    have hfollow := (List.pairwise_append.1 hfollows).2.2 stamp hstamp row.version
      (hlater.stamped row hrow)
    exact hfollow.lt (hbelow row hrow)
  have hstored : ∀ sheet, ∀ old ∈ journal (engine.run calls).store sheet, ∀ row ∈ rows,
      old.version < row.version := by
    intro sheet old hold row hrow
    have hle := (hafter.version_le sheet old hold).1
    have hlt := (hafter.follows (hlater.stamped row hrow)).lt (hbelow row hrow)
    omega
  rw [run_append]
  refine ⟨rows, hlater.appends, ?_, ?_, ?_⟩
  · intro stamp hstamp version hversion sheet
    have habove : ∀ row ∈ rows, version < row.version := by
      intro row hrow
      exact Nat.lt_of_le_of_lt hversion (hdrawn stamp hstamp row hrow)
    have hsame := snapshotAt_eq_of_lt hafter.sound hlater.appends sheet habove
    simp only [snapshotAt, ask, hsame]
  · intro sheet slot
    refine ask_eq_map (history_eq_map hlater.appends sheet slot ?_ hlater.sorted)
    intro old hold row hrow
    exact Int.le_of_lt (hstored sheet old hold row hrow)
  · intro sheet
    rcases versions_eq_map hlater.appends sheet (hstored sheet) with ⟨front, hfront⟩
    exact ⟨front, ask_eq_map hfront⟩

theorem past_immutable_belated :
    Started steady.store steady.directory steady.settings steady ∧
      steady.stamps (restless.take 3 ++ belated) = [50, 51, 52, 53, 54] ∧
      ∃ rows, Extends (steady.run (restless.take 3)) (steady.run (restless.take 3 ++ belated))
        (steady.stamps (restless.take 3)) rows := by
  have hstamps : steady.stamps (restless.take 3 ++ belated) = [50, 51, 52, 53, 54] := by cbv
  refine ⟨started_steady, hstamps, past_immutable started_steady _ _ ?_⟩
  rw [hstamps]
  decide

end Engine

end SheetLedger
