import SheetLedger.Engine.Basic
import SheetLedger.Proofs.Store.Writing
import SheetLedger.Store.Faulty

/-!
# A call whose store fails

Two runs of one call are compared: one on a faulty store, and one on the same store without its
refusals. An action of the store is *interruptible* if the two runs go the same way until a row is
refused, if any is, and the refusal is the last thing that the first of them does
(`FaultyStore.Interruptible`). What is made of interruptible actions is interruptible
(`Interruptible.bind`): a cascade is (`Cascade.interruptible_propagate`), because nothing in it
goes on after an error.
-/

namespace SheetLedger

namespace FaultyStore

variable {σ α β : Type}

/-- The store without its refusals. -/
def unfailing (store : FaultyStore σ) : FaultyStore σ := { store with refused := [] }

/-- The store that a call leaves, failed or not. -/
def stateAfter : EStateM.Result EngineError (FaultyStore σ) α → FaultyStore σ
  | .ok _ later | .error _ later => later

/-- Of the rows that are still to come none is refused up to the one with the number `last`. -/
def WorksUntil (store : FaultyStore σ) (last : Nat) : Prop :=
  ∀ n ∈ store.refused, store.attempts < n → last < n

variable [CellStore σ] {store later : FaultyStore σ} {rows more : List Cell}

/-- Some rows have been appended, one after another, and nothing else has been tried. -/
structure Grown (store later : FaultyStore σ) (rows : List Cell) : Prop where
  written : later.written = store.written ++ rows
  attempts : later.attempts = store.attempts + rows.length
  reached : Reached store.inner later.inner rows
  refused : later.refused = store.refused
  cause : later.cause = store.cause

/-- Some rows have been appended before a call ended, which may have tried one more. -/
def Ended (store : FaultyStore σ) (rows : List Cell) :
    EStateM.Result EngineError (FaultyStore σ) α → Prop
  | .ok _ later => Grown store later rows
  | .error _ later => ∃ last, Grown store last rows ∧ later.written = last.written ∧
      last.attempts ≤ later.attempts

/-- How a call ends, and how it ends without the refusals of the store. -/
inductive Interrupted (store : FaultyStore σ) :
    EStateM.Result EngineError (FaultyStore σ) α →
      EStateM.Result EngineError (FaultyStore σ) α → Prop
  /-- No row was refused, and the call has an answer. -/
  | ok {answer : α} {later : FaultyStore σ} {rows : List Cell} :
    Grown store later rows → WorksUntil store later.attempts →
      Interrupted store (.ok answer later) (.ok answer later.unfailing)
  /-- No row was refused, and the call fails for another reason. -/
  | error {cause : EngineError} {later : FaultyStore σ} {rows : List Cell} :
    Ended store rows (.error cause later : EStateM.Result EngineError (FaultyStore σ) α) →
      WorksUntil store later.attempts →
        Interrupted store (.error cause later) (.error cause later.unfailing)
  /-- A row was refused after some others. Without the refusal these would have come first, and more
  than these would have been tried. -/
  | refused {last : FaultyStore σ} {rows all : List Cell}
      {free : EStateM.Result EngineError (FaultyStore σ) α} :
    Grown store last rows → WorksUntil store last.attempts → last.attempts + 1 ∈ store.refused →
      rows <+: all → Ended store.unfailing all free → last.attempts < (stateAfter free).attempts →
        Interrupted store
          (.error (.store store.cause) { last with attempts := last.attempts + 1 }) free

/-- An action that goes the same way with the refusals of the store and without them, until a row is
refused. -/
def Interruptible (act : EStateM EngineError (FaultyStore σ) α) : Prop :=
  ∀ store, Interrupted store (act store) (act store.unfailing)

/-! ## Growing stores -/

theorem Grown.refl (store : FaultyStore σ) : Grown store store [] :=
  ⟨(List.append_nil _).symm, rfl, .start, rfl, rfl⟩

theorem Grown.trans {last : FaultyStore σ} (h : Grown store later rows)
    (hmore : Grown later last more) : Grown store last (rows ++ more) where
  written := by rw [hmore.written, h.written, List.append_assoc]
  attempts := by rw [hmore.attempts, h.attempts, List.length_append, Nat.add_assoc]
  reached := h.reached.trans hmore.reached
  refused := hmore.refused.trans h.refused
  cause := hmore.cause.trans h.cause

theorem Grown.unfailing (h : Grown store later rows) :
    Grown store.unfailing later.unfailing rows :=
  ⟨h.written, h.attempts, h.reached, rfl, h.cause⟩

theorem Grown.attempts_le (h : Grown store later rows) : store.attempts ≤ later.attempts := by
  rw [h.attempts]
  exact Nat.le_add_right _ _

theorem WorksUntil.trans {last : Nat} (h : Grown store later rows)
    (hworks : WorksUntil store later.attempts) (hmore : WorksUntil later last) :
    WorksUntil store last := by
  intro n hn hlt
  exact hmore n (h.refused ▸ hn) (hworks n hn hlt)

/-- What is done after some rows have been appended. -/
theorem Ended.trans {result : EStateM.Result EngineError (FaultyStore σ) α}
    (h : Grown store later rows) (hmore : Ended later more result) :
    Ended store (rows ++ more) result := by
  cases result with
  | ok answer last => exact h.trans hmore
  | error cause last =>
    rcases hmore with ⟨moment, hgrown, hwritten, hattempts⟩
    exact ⟨moment, h.trans hgrown, hwritten, hattempts⟩

theorem Ended.attempts_le {result : EStateM.Result EngineError (FaultyStore σ) α}
    (h : Ended store rows result) : store.attempts ≤ (stateAfter result).attempts := by
  cases result with
  | ok answer last => exact Grown.attempts_le h
  | error cause last =>
    rcases h with ⟨moment, hgrown, -, hattempts⟩
    exact Nat.le_trans hgrown.attempts_le hattempts

theorem Ended.written {result : EStateM.Result EngineError (FaultyStore σ) α}
    (h : Ended store rows result) : (stateAfter result).written = store.written ++ rows := by
  cases result with
  | ok answer last => exact Grown.written h
  | error cause last =>
    rcases h with ⟨moment, hgrown, hwritten, -⟩
    exact hwritten.trans hgrown.written

theorem Ended.exists_reached {result : EStateM.Result EngineError (FaultyStore σ) α}
    (h : Ended store rows result) : ∃ moment, Reached store.inner moment rows := by
  cases result with
  | ok answer last => exact ⟨_, Grown.reached h⟩
  | error cause last =>
    rcases h with ⟨moment, hgrown, -⟩
    exact ⟨_, hgrown.reached⟩

/-- Whether a row was refused or not, rows have been appended one after another. -/
theorem Interrupted.ended {actual free : EStateM.Result EngineError (FaultyStore σ) α}
    (h : Interrupted store actual free) :
    ∃ rows, Ended store rows actual := by
  cases h with
  | ok hgrown => exact ⟨_, hgrown⟩
  | error hended => exact ⟨_, hended⟩
  | refused hgrown => exact ⟨_, _, hgrown, rfl, Nat.le_succ _⟩

/-! ## Interruptible actions -/

theorem interruptible_pure (answer : α) :
    Interruptible (pure answer : EStateM EngineError (FaultyStore σ) α) := by
  intro store
  exact .ok (Grown.refl store) fun _ _ hlt => hlt

theorem interruptible_throw (cause : EngineError) :
    Interruptible (throw cause : EStateM EngineError (FaultyStore σ) α) := by
  intro store
  have hended : Ended store [] (.error cause store : EStateM.Result _ _ α) :=
    ⟨store, .refl store, rfl, Nat.le_refl _⟩
  exact .error hended fun _ _ hlt => hlt

theorem interruptible_orStop (answer : Except EngineError α) :
    Interruptible (orStop answer : EStateM EngineError (FaultyStore σ) α) := by
  cases answer with
  | ok answer => exact interruptible_pure answer
  | error cause => exact interruptible_throw cause

/-- A read that does not ask what is refused. -/
theorem interruptible_read {read : FaultyStore σ → Except EngineError α}
    (hread : ∀ store, read store.unfailing = read store) :
    Interruptible fun store => orStop (read store) store := by
  intro store
  show Interrupted store (orStop (read store) store) (orStop (read store.unfailing) store.unfailing)
  rw [hread]
  exact interruptible_orStop (read store) store

/-- One row is refused, or it is handed to the store inside. -/
theorem insert_eq (cell : Cell) (store : FaultyStore σ) :
    CellStore.insert cell store =
      if store.attempts + 1 ∈ store.refused then
        .error store.cause { store with attempts := store.attempts + 1 }
      else match CellStore.insert cell store.inner with
      | .ok id inner => .ok id { store with
          inner := inner, attempts := store.attempts + 1,
          written := store.written ++ [{ cell with id := id }] }
      | .error cause inner => .error cause { store with
          inner := inner, attempts := store.attempts + 1 } := by
  show attempt [cell] _ _ store = _
  have hany : (List.range' (store.attempts + 1) [cell].length).any store.refused.contains =
      decide (store.attempts + 1 ∈ store.refused) := by simp
  rw [attempt, hany]
  by_cases h : store.attempts + 1 ∈ store.refused
  · simp [h]
  · simp only [h, decide_false, Bool.false_eq_true, if_false]
    cases CellStore.insert cell store.inner <;> rfl

/-- What comes of a row that is not refused. -/
theorem exists_ended_insert (cell : Cell) (h : store.attempts + 1 ∉ store.refused) :
    ∃ rows, Ended store rows (EStateM.adaptExcept .store (CellStore.insert cell) store) ∧
      (stateAfter (EStateM.adaptExcept .store (CellStore.insert cell) store)).attempts =
        store.attempts + 1 := by
  simp only [EStateM.adaptExcept, insert_eq, h, if_false]
  cases hinner : CellStore.insert cell store.inner with
  | ok id inner =>
    exact ⟨[{ cell with id := id }], ⟨rfl, rfl, .insert .start hinner, rfl, rfl⟩, rfl⟩
  | error cause inner => exact ⟨[], ⟨store, .refl store, by simp, Nat.le_succ _⟩, rfl⟩

theorem interruptible_insert (cell : Cell) :
    Interruptible (EStateM.adaptExcept .store (CellStore.insert cell) :
      EStateM EngineError (FaultyStore σ) Nat) := by
  intro store
  by_cases hrefused : store.attempts + 1 ∈ store.refused
  · have hfree : store.unfailing.attempts + 1 ∉ store.unfailing.refused := List.not_mem_nil
    rcases exists_ended_insert cell hfree with ⟨all, hended, hattempts⟩
    have hactual : EStateM.adaptExcept EngineError.store (CellStore.insert cell) store =
        .error (.store store.cause) { store with attempts := store.attempts + 1 } := by
      simp only [EStateM.adaptExcept, insert_eq, hrefused, if_true]
    rw [hactual]
    refine .refused (.refl store) (fun _ _ hlt => hlt) hrefused (List.nil_prefix) hended ?_
    rw [hattempts]
    exact Nat.lt_succ_self _
  · have hworks : WorksUntil store (store.attempts + 1) := by
      intro n hn hlt
      refine Nat.lt_of_le_of_ne hlt ?_
      rintro rfl
      exact hrefused hn
    have hsame : CellStore.insert cell store.unfailing.inner =
        CellStore.insert cell store.inner := rfl
    simp only [EStateM.adaptExcept, insert_eq, hrefused, if_false, hsame]
    cases hinner : CellStore.insert cell store.inner with
    | ok id inner => exact .ok ⟨rfl, rfl, .insert .start hinner, rfl, rfl⟩ hworks
    | error cause inner => exact .error ⟨store, .refl store, by simp, Nat.le_succ _⟩ hworks

/-- A call that goes on after some rows have been appended. -/
theorem Interrupted.after {actual free : EStateM.Result EngineError (FaultyStore σ) α}
    (h : Grown store later rows) (hworks : WorksUntil store later.attempts)
    (hrest : Interrupted later actual free) : Interrupted store actual free := by
  cases hrest with
  | ok hgrown hmore => exact .ok (h.trans hgrown) (WorksUntil.trans h hworks hmore)
  | error hended hmore => exact .error (Ended.trans h hended) (WorksUntil.trans h hworks hmore)
  | refused hgrown hmore hrefused hfront hended hlt =>
    rw [h.cause]
    exact .refused (h.trans hgrown) (WorksUntil.trans h hworks hmore) (h.refused ▸ hrefused)
      ((List.prefix_append_right_inj rows).2 hfront) (Ended.trans h.unfailing hended) hlt

/-- What follows on an interruptible action is interruptible if it is after every answer that can
come. -/
theorem Interruptible.bind {act : EStateM EngineError (FaultyStore σ) α}
    {rest : α → EStateM EngineError (FaultyStore σ) β} (hact : Interruptible act)
    (hrest : ∀ store answer later, act store = .ok answer later → Interruptible (rest answer)) :
    Interruptible (act >>= rest) := by
  intro store
  have h := hact store
  show Interrupted store (EStateM.bind act rest store) (EStateM.bind act rest store.unfailing)
  unfold EStateM.bind
  generalize hactual : act store = actual at h ⊢
  generalize hfree : act store.unfailing = free at h ⊢
  cases h with
  | ok hgrown hworks => exact (hrest _ _ _ hactual _).after hgrown hworks
  | error hended hworks => exact .error hended hworks
  | refused hgrown hworks hrefused hfront hended hlt =>
    -- the refused call is over, and what the other one still does only adds to its rows
    cases free with
    | ok answer last =>
      rcases (hrest _ _ _ hfree last).ended with ⟨others, hothers⟩
      exact .refused hgrown hworks hrefused (hfront.trans (List.prefix_append _ _))
        (Ended.trans hended hothers) (Nat.lt_of_lt_of_le hlt hothers.attempts_le)
    | error cause last => exact .refused hgrown hworks hrefused hfront hended hlt

/-- Where a row is refused that a call comes to, the call is over, and its rows are the first ones
that it would have appended without the refusal. -/
theorem Interrupted.exists_last {actual free : EStateM.Result EngineError (FaultyStore σ) α}
    (h : Interrupted store actual free) {k : Nat} (hworks : WorksUntil store (store.attempts + k))
    (hrefused : store.attempts + k + 1 ∈ store.refused)
    (hcalls : store.attempts + k < (stateAfter free).attempts) :
    ∃ last rows all,
      actual = .error (.store store.cause) { last with attempts := store.attempts + k + 1 } ∧
        Grown store last rows ∧ rows.length = k ∧ rows <+: all ∧
        Ended store.unfailing all free := by
  cases h with
  | ok hgrown hnone | error hended hnone =>
    have hlt := hnone _ hrefused (by omega)
    exact absurd hcalls (Nat.not_lt_of_le (Nat.le_of_lt_succ hlt))
  | @refused last rows all free hgrown hnone hfirst hfront hended hlt =>
    -- the row that was refused is the one in question, since it is the first
    have hattempts := hgrown.attempts
    have hle := hnone _ hrefused (by omega)
    have hge := hworks _ hfirst (by omega)
    have hlength : rows.length = k := by omega
    refine ⟨last, rows, all, ?_, hgrown, hlength, hfront, hended⟩
    rw [hattempts, hlength]

end FaultyStore

end SheetLedger
