import Mathlib.Data.List.Forall2
import SheetLedger.Engine.Basic
import SheetLedger.Proofs.Store.Lawful

/-!
# Writing to a store

A store is filled by writes that it accepts (`Reached`). Where the store is lawful, their rows are
appended to the journals (`Reached.appends`).

An action that inserts rows one after another ends in one of two ways, whatever the store is
(`Writes`): with an answer, and then the store has accepted the rows of the answer, or with the
complaint of the store about the first row that it does not take. What is made of such actions is
such an action again (`Writes.bind`, `Writes.mapM`).
-/

namespace SheetLedger

open JournaledStore

variable {σ : Type} [CellStore σ]

/-! ## Accepted writes -/

/-- The state that accepted writes lead to from a first one, with the rows that they have stored
under the ids that were answered. -/
inductive Reached (first : σ) : σ → List Cell → Prop where
  | start : Reached first first []
  | insert {store later : σ} {rows : List Cell} {cell : Cell} {id : Nat} :
    Reached first store rows → CellStore.insert cell store = .ok id later →
      Reached first later (rows ++ [{ cell with id := id }])
  | insertAll {store later : σ} {rows cells : List Cell} {ids : List Nat} :
    Reached first store rows → CellStore.insertAll cells store = .ok ids later →
      Reached first later (rows ++ cells.zipWith (fun cell id => { cell with id := id }) ids)

namespace Reached

variable {first middle last : σ} {rows more : List Cell}

/-- Accepted writes go on from where accepted writes have led. -/
theorem trans (h : Reached first middle rows) (hmore : Reached middle last more) :
    Reached first last (rows ++ more) := by
  induction hmore with
  | start => rwa [List.append_nil]
  | insert _ hinsert ih =>
    rw [← List.append_assoc]
    exact .insert ih hinsert
  | insertAll _ hinsert ih =>
    rw [← List.append_assoc]
    exact .insertAll ih hinsert

/-- Accepted writes append their rows. -/
theorem appends [LawfulStore σ] (hfirst : Sound first) (h : Reached first last rows) :
    Appends first last rows := by
  induction h with
  | start => exact .nil hfirst
  | @insert store later rows cell id _ hinsert ih =>
    apply ih.append
    by_cases hfits : Fits σ cell
    · rcases LawfulStore.insert_of_fits cell ih.sound hfits with ⟨mid, hmid, happends⟩
      rw [hinsert] at hmid
      cases hmid
      exact happends
    · rcases LawfulStore.insert_of_not_fits store cell hfits with ⟨cause, herror⟩
      rw [hinsert] at herror
      cases herror
  | @insertAll store later rows cells ids _ hinsert ih =>
    apply ih.append
    by_cases hfits : ∀ cell ∈ cells, Fits σ cell
    · rcases LawfulStore.insertAll_of_fits ih.sound hfits with ⟨mid, hmid, happends⟩
      rw [hinsert] at hmid
      cases hmid
      exact happends
    · simp only [not_forall] at hfits
      rcases hfits with ⟨cell, hmem, hnot⟩
      rcases LawfulStore.insertAll_of_not_fits store ⟨cell, hmem, hnot⟩ with ⟨cause, herror⟩
      rw [hinsert] at herror
      cases herror

end Reached

/-! ## Actions that insert rows -/

/-- How an action that inserts rows ends: with an answer of the kind `P`, whose rows `f` the store
has accepted, or with the complaint of the store about the first row of such an answer that it does
not take. -/
def Writes {α : Type} (store : σ) (P : α → Prop) (f : α → List Cell) :
    EStateM.Result EngineError σ α → Prop
  | .ok answer later => P answer ∧ Reached store later (f answer)
  | .error cause later => ∃ answer written row rest mid complaint, P answer ∧
      f answer = written ++ row :: rest ∧ Reached store mid written ∧
      CellStore.insert { row with id := 0 } mid = .error complaint later ∧
      cause = .store complaint

section Writes

variable {α β γ : Type} {store : σ} {act : EStateM EngineError σ α}
  {next : α → EStateM EngineError σ β} {P : α → Prop} {Q : α → β → Prop} {R : γ → Prop}
  {f : α → List Cell} {g : β → List Cell} {k : γ → List Cell}

/-- One action after another, if what the second one is to answer exists. -/
theorem Writes.bind {join : α → β → γ} (hact : Writes store P f (act store))
    (hnext : ∀ a, P a → (∃ b, Q a b) ∧ ∀ mid : σ, Writes mid (Q a) g (next a mid))
    (hjoin : ∀ a b, P a → Q a b → R (join a b) ∧ k (join a b) = f a ++ g b) :
    Writes store R k ((act >>= fun a => next a >>= fun b => pure (join a b)) store) := by
  show Writes store R k
    (EStateM.bind act (fun a => EStateM.bind (next a) fun b => EStateM.pure (join a b)) store)
  cases hfirst : act store with
  | error cause later =>
    -- the rows that the second action would have inserted stand behind the refused one
    simp only [EStateM.bind, hfirst]
    rw [hfirst] at hact
    rcases hact with ⟨a, written, row, rest, mid, complaint, ha, hrows, hwritten, hrefused⟩
    rcases (hnext a ha).1 with ⟨b, hb⟩
    rcases hjoin a b ha hb with ⟨hwhole, hall⟩
    refine ⟨join a b, written, row, rest ++ g b, mid, complaint, hwhole, ?_, hwritten, hrefused⟩
    rw [hall, hrows, List.append_assoc, List.cons_append]
  | ok a mid =>
    rw [hfirst] at hact
    rcases hact with ⟨ha, hreached⟩
    have hmore := (hnext a ha).2 mid
    cases hsecond : next a mid with
    | error cause later =>
      simp only [EStateM.bind, hfirst, hsecond]
      rw [hsecond] at hmore
      rcases hmore with ⟨b, written, row, rest, moment, complaint, hb, hrows, hwritten, hrefused⟩
      rcases hjoin a b ha hb with ⟨hwhole, hall⟩
      refine ⟨join a b, f a ++ written, row, rest, moment, complaint, hwhole, ?_,
        hreached.trans hwritten, hrefused⟩
      rw [hall, hrows, List.append_assoc]
    | ok b later =>
      simp only [EStateM.bind, hfirst, hsecond]
      rw [hsecond] at hmore
      rcases hjoin a b ha hmore.1 with ⟨hwhole, hall⟩
      refine ⟨hwhole, ?_⟩
      rw [hall]
      exact hreached.trans hmore.2

theorem exists_forall₂ {l : List α} (hex : ∀ a ∈ l, ∃ b, Q a b) :
    ∃ answers, List.Forall₂ Q l answers := by
  induction l with
  | nil => exact ⟨[], .nil⟩
  | cons a rest ih =>
    obtain ⟨b, hb⟩ := hex a List.mem_cons_self
    obtain ⟨answers, hanswers⟩ := ih fun x hx => hex x (List.mem_cons_of_mem _ hx)
    exact ⟨b :: answers, .cons hb hanswers⟩

/-- One action for each element of a list. -/
theorem Writes.mapM {l : List α} (hex : ∀ a ∈ l, ∃ b, Q a b)
    (hnext : ∀ a ∈ l, ∀ mid : σ, Writes mid (Q a) g (next a mid)) (store : σ) :
    Writes store (List.Forall₂ Q l) (List.flatMap g) (l.mapM next store) := by
  induction l generalizing store with
  | nil => exact ⟨.nil, .start⟩
  | cons a rest ih =>
    have hrest := fun x hx => hex x (List.mem_cons_of_mem a hx)
    rw [List.mapM_cons]
    refine Writes.bind (hnext a List.mem_cons_self store)
      (fun _ _ => ⟨exists_forall₂ hrest, ih hrest fun x hx =>
        hnext x (List.mem_cons_of_mem a hx)⟩) ?_
    intro b answers hb hanswers
    exact ⟨.cons hb hanswers, List.flatMap_cons⟩

end Writes

end SheetLedger
