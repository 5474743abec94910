import SheetLedger.Proofs.Token.Spelling

/-!
# Which lexemes settle into few tokens

The second reading of a formula drops blanks and pluses where they say nothing (`Lexeme.Dropped`):
all of them in front of a value, and the blanks behind one. So a formula has a single range operand
exactly if its lexemes are a word among such blanks and pluses (`Lexeme.settleAll_eq_operand_iff`),
and the three tokens of an aggregate exactly if they are the two ends of a call around such a word
(`Lexeme.settleAll_eq_call_iff`).
-/

namespace SheetLedger.Lexeme

/-! ## What is dropped -/

/-- The second reading drops all lexemes in front of some others. -/
def Dropped (before : Option Token) : List Lexeme → List Lexeme → Prop
  | [], _ => True
  | lexeme :: front, rest =>
    settle before lexeme (front ++ rest).head? = none ∧ Dropped before front rest

variable {before : Option Token} {lexemes front rest : List Lexeme} {token : Token}
  {tokens : List Token}

theorem settleAll_eq_nil_iff : settleAll before lexemes = [] ↔ Dropped before lexemes [] := by
  induction lexemes with
  | nil => simp [settleAll, Dropped]
  | cons first rest ih =>
    rw [settleAll, Dropped, List.append_nil]
    cases hfirst : settle before first rest.head? with
    | some kept => simp
    | none =>
      show settleAll before rest = [] ↔ _
      rw [ih]
      exact (and_iff_right rfl).symm

/-- The first token comes from the first lexeme that is not dropped. -/
theorem settleAll_eq_cons_iff :
    settleAll before lexemes = token :: tokens ↔
      ∃ front lexeme rest, lexemes = front ++ lexeme :: rest ∧
        Dropped before front (lexeme :: rest) ∧ settle before lexeme rest.head? = some token ∧
          settleAll (some token) rest = tokens := by
  induction lexemes with
  | nil => simp [settleAll]
  | cons first rest ih =>
    rw [settleAll]
    cases hfirst : settle before first rest.head? with
    | some kept =>
      constructor
      · intro heq
        cases heq
        exact ⟨[], first, rest, rfl, trivial, hfirst, rfl⟩
      · rintro ⟨front, lexeme, more, hsplit, hdropped, hsettle, htokens⟩
        cases front with
        | nil =>
          cases hsplit
          rw [hfirst] at hsettle
          cases hsettle
          exact congrArg _ htokens
        | cons x front =>
          cases hsplit
          cases hfirst.symm.trans hdropped.1
    | none =>
      show settleAll before rest = token :: tokens ↔ _
      rw [ih]
      constructor
      · rintro ⟨front, lexeme, more, rfl, hdropped, hsettle⟩
        exact ⟨first :: front, lexeme, more, rfl, ⟨hfirst, hdropped⟩, hsettle⟩
      · rintro ⟨front, lexeme, more, hsplit, hdropped, hsettle, htokens⟩
        cases front with
        | nil =>
          cases hsplit
          rw [hfirst] at hsettle
          cases hsettle
        | cons x front =>
          cases hsplit
          exact ⟨front, lexeme, more, rfl, hdropped.2, hsettle, htokens⟩

/-- Blanks and pluses. -/
def IsFill (lexemes : List Lexeme) : Prop := ∀ lexeme ∈ lexemes, lexeme = blank ∨ lexeme = plus

/-- Blanks only. -/
def IsGap (lexemes : List Lexeme) : Prop := ∀ lexeme ∈ lexemes, lexeme = blank

/-- A place where a value may start. -/
def Opens (before : Option Token) : Prop :=
  before.any Token.endsValue = false ∧ before ≠ some .percent

theorem opens_none : Opens none := ⟨rfl, by simp⟩

theorem opens_callStart (name : String) : Opens (some (.callStart name)) := ⟨rfl, by simp⟩

/-- Where a value may start, blanks and pluses are dropped. -/
theorem dropped_iff_of_opens (h : Opens before) : Dropped before front rest ↔ IsFill front := by
  have hsettle : ∀ {lexeme : Lexeme} {next : Option Lexeme},
      settle before lexeme next = none ↔ lexeme = blank ∨ lexeme = plus := by
    intro lexeme next
    cases lexeme <;> simp [settle, h.1, h.2]
  induction front with
  | nil => simp [Dropped, IsFill]
  | cons first front ih =>
    have hcons : IsFill (first :: front) ↔ (first = blank ∨ first = plus) ∧ IsFill front :=
      List.forall_mem_cons
    rw [hcons, Dropped, hsettle]
    exact and_congr_right fun _ => ih

/-- What follows on a blank of a gap is a blank, or what stands behind the gap. -/
theorem startsValue_of_isGap (hgap : IsGap front) (h : rest.head?.any startsValue = false) :
    (front ++ rest).head?.any startsValue = false := by
  cases front with
  | nil => exact h
  | cons first more =>
    rw [hgap first List.mem_cons_self]
    rfl

section AfterValue

variable {value : Token} (h : value.endsValue = true)

include h

/-- Behind a value only blanks are dropped, if no other value follows on them. -/
theorem dropped_iff (hrest : rest.head?.any startsValue = false) :
    Dropped (some value) front rest ↔ IsGap front := by
  have hsettle : ∀ {lexeme : Lexeme} {next : Option Lexeme},
      settle (some value) lexeme next = none ↔ lexeme = blank ∧ next.any startsValue = false := by
    intro lexeme next
    cases lexeme <;> simp [settle, h]
  induction front with
  | nil => simp [Dropped, IsGap]
  | cons first front ih =>
    have hcons : IsGap (first :: front) ↔ first = blank ∧ IsGap front := List.forall_mem_cons
    rw [hcons, Dropped, hsettle]
    constructor
    · rintro ⟨⟨hblank, -⟩, hmore⟩
      exact ⟨hblank, ih.1 hmore⟩
    · rintro ⟨hblank, hgap⟩
      exact ⟨⟨hblank, startsValue_of_isGap hgap hrest⟩, ih.2 hgap⟩

end AfterValue

/-! ## The shapes of references and aggregates -/

/-- The ends of brackets are read before the second reading. -/
theorem settle_eq_some_iff {lexeme : Lexeme} {next : Option Lexeme}
    (hoperand : ∀ kind text, token ≠ .operand kind text) (hoperator : ∀ op, token ≠ .operator op)
    (hnegation : token ≠ .negation) :
    settle before lexeme next = some token ↔ lexeme = .token token := by
  cases lexeme with
  | word text => simpa [settle] using (hoperand _ _).symm
  | blank => simpa [settle] using fun _ _ => (hoperator _).symm
  | plus => simpa [settle] using fun _ => (hoperator _).symm
  | minus =>
    simp only [settle, Option.some.injEq, reduceCtorEq, iff_false]
    split
    · exact (hoperator _).symm
    · exact hnegation.symm
  | token other => simp [settle]

/-- Where a value may start, a range comes from a word. -/
theorem settle_eq_range_iff {lexeme : Lexeme} {next : Option Lexeme} {text : String}
    (h : ¬ lexeme.IsRange) :
    settle before lexeme next = some (.operand .range text) ↔
      lexeme = .word text ∧ classify text = .range := by
  cases lexeme with
  | word other =>
    simp only [settle, Option.some.injEq, Token.operand.injEq, word.injEq]
    constructor
    · rintro ⟨hkind, rfl⟩
      exact ⟨rfl, hkind⟩
    · rintro ⟨rfl, hkind⟩
      exact ⟨hkind, rfl⟩
  | blank => simp [settle]
  | plus => simp [settle]
  | minus =>
    simp only [settle, reduceCtorEq, false_and, iff_false, Option.some.injEq]
    split
    · simp
    · simp
  | token other =>
    simp only [settle, Option.some.injEq, reduceCtorEq, false_and, iff_false]
    rintro rfl
    exact h trivial

/-- A single range is a word among blanks and pluses that say nothing. -/
theorem settleAll_eq_operand_iff {text : String} (h : ∀ lexeme ∈ lexemes, ¬ lexeme.IsRange) :
    settleAll none lexemes = [.operand .range text] ↔
      ∃ fill gap, lexemes = fill ++ .word text :: gap ∧ IsFill fill ∧ IsGap gap ∧
        classify text = .range := by
  have hoperand : Token.endsValue (.operand .range text) = true := rfl
  simp only [settleAll_eq_cons_iff, settleAll_eq_nil_iff, dropped_iff_of_opens opens_none]
  constructor
  · rintro ⟨fill, lexeme, gap, rfl, hfill, hsettle, hgap⟩
    rcases (settle_eq_range_iff (h lexeme (by simp))).1 hsettle with ⟨rfl, hkind⟩
    exact ⟨fill, gap, rfl, hfill, (dropped_iff hoperand rfl).1 hgap, hkind⟩
  · rintro ⟨fill, gap, rfl, hfill, hgap, hkind⟩
    exact ⟨fill, _, gap, rfl, hfill, (settle_eq_range_iff id).2 ⟨rfl, hkind⟩,
      (dropped_iff hoperand rfl).2 hgap⟩

/-- A call around a single range is a word between the ends of a call. -/
theorem settleAll_eq_call_iff {name text : String} (h : ∀ lexeme ∈ lexemes, ¬ lexeme.IsRange) :
    settleAll none lexemes = [.callStart name, .operand .range text, .stop .call] ↔
      ∃ fill inner gap rest,
        lexemes = fill ++ .token (.callStart name) ::
          (inner ++ .word text :: (gap ++ .token (.stop .call) :: rest)) ∧
        IsFill fill ∧ IsFill inner ∧ IsGap gap ∧ IsGap rest ∧ classify text = .range := by
  have hoperand : Token.endsValue (.operand .range text) = true := rfl
  have hstop : Token.endsValue (.stop .call) = true := rfl
  have hcall : ∀ before lexeme next, settle before lexeme next = some (.callStart name) ↔
      lexeme = .token (.callStart name) :=
    fun _ _ _ => settle_eq_some_iff (by simp) (by simp) (by simp)
  have hclose : ∀ before lexeme next, settle before lexeme next = some (.stop .call) ↔
      lexeme = .token (.stop .call) :=
    fun _ _ _ => settle_eq_some_iff (by simp) (by simp) (by simp)
  simp only [settleAll_eq_cons_iff, settleAll_eq_nil_iff, dropped_iff_of_opens opens_none,
    dropped_iff_of_opens (opens_callStart name), hcall, hclose]
  constructor
  · rintro ⟨fill, _, _, rfl, hfill, rfl, inner, lexeme, _, rfl, hinner, hsettle, gap, _, rest, rfl,
      hgap, rfl, hrest⟩
    rcases (settle_eq_range_iff (h lexeme (by simp))).1 hsettle with ⟨rfl, hkind⟩
    exact ⟨fill, inner, gap, rest, rfl, hfill, hinner, (dropped_iff hoperand rfl).1 hgap,
      (dropped_iff hstop rfl).1 hrest, hkind⟩
  · rintro ⟨fill, inner, gap, rest, rfl, hfill, hinner, hgap, hrest, hkind⟩
    exact ⟨fill, _, _, rfl, hfill, rfl, inner, _, _, rfl, hinner,
      (settle_eq_range_iff id).2 ⟨rfl, hkind⟩, gap, _, rest, rfl, (dropped_iff hoperand rfl).2 hgap,
      rfl, (dropped_iff hstop rfl).2 hrest⟩

end SheetLedger.Lexeme
