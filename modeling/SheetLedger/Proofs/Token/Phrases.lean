import SheetLedger.Proofs.Token.Settling

/-!
# How words and calls are spelled

The lexemes that settle into a single range, or into a call around one, are a word or a call among
blanks and pluses that are dropped. This module writes their spellings out: a word alone
(`Lexeme.exists_word_iff`), and a call around a word (`Lexeme.exists_call_iff`). Whatever they are,
a quote may stand behind the last blank.
-/

namespace SheetLedger.Lexeme

/-- A text of blanks and pluses. -/
def IsFiller (text : String) : Prop := ∀ c ∈ text.toList, isBlankChar c = true ∨ c = '+'

/-- A text of blanks. -/
def IsSpace (text : String) : Prop := ∀ c ∈ text.toList, isBlankChar c = true

variable {opened : List Bracket} {lexemes : List Lexeme} {text : List Char}

/-! ## Blanks and pluses -/

/-- Lexemes of one character each are spelled by as many characters. -/
theorem exists_spelled_append_iff {drop : Lexeme → Prop} {spells : Char → Prop}
    (h : ∀ {lexemes text}, (∃ lexeme, drop lexeme ∧ Spelled opened (lexeme :: lexemes) text) ↔
      ∃ c rest, spells c ∧ text = c :: rest ∧ Spelled opened lexemes rest) :
    (∃ front, (∀ lexeme ∈ front, drop lexeme) ∧ Spelled opened (front ++ lexemes) text) ↔
      ∃ (front : String) (rest : List Char), (∀ c ∈ front.toList, spells c) ∧
        text = front.toList ++ rest ∧ Spelled opened lexemes rest := by
  constructor
  · rintro ⟨front, hdrop, hspelled⟩
    induction front generalizing text with
    | nil => exact ⟨"", text, by simp, rfl, hspelled⟩
    | cons first front ih =>
      rcases h.1 ⟨first, hdrop first List.mem_cons_self, hspelled⟩ with ⟨c, rest, hc, rfl, hrest⟩
      have hmore : ∀ lexeme ∈ front, drop lexeme := by
        intro lexeme hmem
        exact hdrop lexeme (List.mem_cons_of_mem _ hmem)
      rcases ih hmore hrest with ⟨chars, back, hchars, rfl, hback⟩
      refine ⟨String.ofList (c :: chars.toList), back, ?_, by simp, hback⟩
      rw [String.toList_ofList, List.forall_mem_cons]
      exact ⟨hc, hchars⟩
  · rintro ⟨front, rest, hfront, rfl, hspelled⟩
    generalize front.toList = chars at hfront
    induction chars with
    | nil => exact ⟨[], by simp, hspelled⟩
    | cons c chars ih =>
      rcases ih fun d hd => hfront d (List.mem_cons_of_mem _ hd) with ⟨front, hdrop, hmore⟩
      rcases h.2 ⟨c, _, hfront c List.mem_cons_self, rfl, hmore⟩ with ⟨lexeme, hlexeme, hcons⟩
      exact ⟨lexeme :: front, List.forall_mem_cons.2 ⟨hlexeme, hdrop⟩, hcons⟩

theorem exists_fill_iff :
    (∃ fill, IsFill fill ∧ Spelled opened (fill ++ lexemes) text) ↔
      ∃ front rest, IsFiller front ∧ text = front.toList ++ rest ∧
        Spelled opened lexemes rest := by
  apply exists_spelled_append_iff
  intro lexemes text
  constructor
  · rintro ⟨lexeme, rfl | rfl, h⟩
    · rcases spelled_blank_iff.1 h with ⟨c, rest, hblank, rfl, hrest⟩
      exact ⟨c, rest, Or.inl hblank, rfl, hrest⟩
    · rcases spelled_plus_iff.1 h with ⟨rest, rfl, hrest⟩
      exact ⟨'+', rest, Or.inr rfl, rfl, hrest⟩
  · rintro ⟨c, rest, hblank | rfl, rfl, hrest⟩
    · exact ⟨.blank, Or.inl rfl, .blank hblank hrest⟩
    · exact ⟨.plus, Or.inr rfl, .plus hrest⟩

theorem exists_gap_iff :
    (∃ gap, IsGap gap ∧ Spelled opened (gap ++ lexemes) text) ↔
      ∃ front rest, IsSpace front ∧ text = front.toList ++ rest ∧
        Spelled opened lexemes rest := by
  apply exists_spelled_append_iff
  intro lexemes text
  constructor
  · rintro ⟨lexeme, rfl, h⟩
    exact ⟨_, _, (spelled_blank_iff.1 h).choose_spec.choose_spec⟩
  · rintro ⟨c, rest, hblank, rfl, hrest⟩
    exact ⟨.blank, rfl, .blank hblank hrest⟩

/-- Behind the last lexeme stand blanks, and perhaps a quote. -/
theorem exists_last_gap_iff :
    (∃ gap, IsGap gap ∧ Spelled opened gap text) ↔
      ∃ back, IsSpace back ∧ (text = back.toList ∨ text = back.toList ++ ['"']) := by
  have hgap : (∃ gap, IsGap gap ∧ Spelled opened (gap ++ []) text) ↔ _ := exists_gap_iff
  simp only [List.append_nil, spelled_nil_iff] at hgap
  rw [hgap]
  constructor
  · rintro ⟨back, rest, hback, rfl, rfl | rfl⟩
    · exact ⟨back, hback, Or.inl (List.append_nil _)⟩
    · exact ⟨back, hback, Or.inr rfl⟩
  · rintro ⟨back, hback, rfl | rfl⟩
    · exact ⟨back, [], hback, (List.append_nil _).symm, Or.inl rfl⟩
    · exact ⟨back, ['"'], hback, rfl, Or.inr rfl⟩

/-! ## Words -/

/-- Blanks end every word, and so does what ends it behind them. -/
theorem ends_append {word : String} {gap : String} {rest : List Char} (hgap : IsSpace gap)
    (h : Ends word rest) : Ends word (gap.toList ++ rest) := by
  unfold IsSpace at hgap
  cases hchars : gap.toList with
  | nil => exact h
  | cons c more =>
    have hc := isBareChar_of_isBlankChar (hgap c (by rw [hchars]; exact List.mem_cons_self))
    exact ends_cons hc.1 hc.2

theorem ends_nil (word : String) : Ends word [] := by
  intro c hc
  cases hc

theorem ends_quote (word : String) : Ends word ['"'] := ends_cons (by decide) (by decide)

theorem ends_closing {word : String} {c : Char} {rest : List Char} (h : c = ')' ∨ c = '\x7d') :
    Ends word (c :: rest) := by
  rcases h with rfl | rfl
  · exact ends_cons (by decide) (by decide)
  · exact ends_cons (by decide) (by decide)

theorem bare_of_isFill {fill : List Lexeme} (h : IsFill fill) :
    ∀ lexeme ∈ fill, lexeme.Bare := by
  intro lexeme hmem
  rcases h lexeme hmem with rfl | rfl
  · trivial
  · trivial

theorem bare_of_isGap {gap : List Lexeme} (h : IsGap gap) : ∀ lexeme ∈ gap, lexeme.Bare :=
  bare_of_isFill fun lexeme hmem => Or.inl (h lexeme hmem)

theorem bare_word {fill gap : List Lexeme} {word : String} (hfill : IsFill fill) (hgap : IsGap gap)
    (hword : IsBare word) : ∀ lexeme ∈ fill ++ .word word :: gap, lexeme.Bare := by
  rw [List.forall_mem_append, List.forall_mem_cons]
  exact ⟨bare_of_isFill hfill, hword, bare_of_isGap hgap⟩

theorem bare_call {fill inner gap rest : List Lexeme} {name word : String} (hfill : IsFill fill)
    (hinner : IsFill inner) (hgap : IsGap gap) (hrest : IsGap rest) (hname : IsBare name)
    (harray : name ≠ "ARRAY") (hword : IsBare word) :
    ∀ lexeme ∈ fill ++ .token (.callStart name) ::
      (inner ++ .word word :: (gap ++ .token (.stop .call) :: rest)), lexeme.Bare := by
  simp only [List.forall_mem_append, List.forall_mem_cons]
  exact ⟨bare_of_isFill hfill, ⟨hname, harray⟩, bare_of_isFill hinner, hword, bare_of_isGap hgap,
    rfl, bare_of_isGap hrest⟩

/-- How a word alone is spelled among blanks and pluses that say nothing. -/
theorem exists_word_iff {word : String} (hne : word ≠ "") (hbare : IsBare word) :
    (∃ fill gap, IsFill fill ∧ IsGap gap ∧ Spelled opened (fill ++ .word word :: gap) text) ↔
      ∃ front, IsFiller front ∧
        (text = front.toList ++ '"' :: word.toList ∨
          ∃ back, IsSpace back ∧ (text = front.toList ++ (word.toList ++ back.toList) ∨
            text = front.toList ++ (word.toList ++ (back.toList ++ ['"'])))) := by
  constructor
  · rintro ⟨fill, gap, hfill, hgap, h⟩
    rcases exists_fill_iff.1 ⟨fill, hfill, h⟩ with ⟨front, rest, hfront, rfl, hword⟩
    refine ⟨front, hfront, ?_⟩
    rcases (spelled_word_iff hne hbare).1 hword with ⟨-, rfl⟩ | ⟨rest, rfl, -, hrest⟩
    · exact Or.inl rfl
    · rcases exists_last_gap_iff.1 ⟨gap, hgap, hrest⟩ with ⟨back, hback, rfl | rfl⟩
      · exact Or.inr ⟨back, hback, Or.inl rfl⟩
      · exact Or.inr ⟨back, hback, Or.inr rfl⟩
  · rintro ⟨front, hfront, hrest⟩
    have hword : ∀ rest, (∃ gap, IsGap gap ∧ Spelled opened (.word word :: gap) rest) →
        ∃ fill gap, IsFill fill ∧ IsGap gap ∧
          Spelled opened (fill ++ .word word :: gap) (front.toList ++ rest) := by
      rintro rest ⟨gap, hgap, h⟩
      rcases exists_fill_iff.2 ⟨front, rest, hfront, rfl, h⟩ with ⟨fill, hfill, hall⟩
      exact ⟨fill, gap, hfill, hgap, hall⟩
    rcases hrest with rfl | ⟨back, hback, rfl | rfl⟩
    · exact hword _ ⟨[], by simp [IsGap], .quoted hne hbare⟩
    · rcases exists_last_gap_iff.2 ⟨back, hback, Or.inl rfl⟩ with ⟨gap, hgap, h⟩
      have hends := ends_append hback (ends_nil word)
      rw [List.append_nil] at hends
      exact hword _ ⟨gap, hgap, .word hne hbare hends h⟩
    · rcases exists_last_gap_iff.2 ⟨back, hback, Or.inr rfl⟩ with ⟨gap, hgap, h⟩
      exact hword _ ⟨gap, hgap, .word hne hbare (ends_append hback (ends_quote word)) h⟩

/-- How a call around a word is spelled. -/
theorem exists_call_iff {name word : String} (hname : name ≠ "") (harray : name ≠ "ARRAY")
    (hbareName : IsBare name) (hne : word ≠ "") (hbare : IsBare word) :
    (∃ fill inner gap rest, IsFill fill ∧ IsFill inner ∧ IsGap gap ∧ IsGap rest ∧
        Spelled [] (fill ++ .token (.callStart name) ::
          (inner ++ .word word :: (gap ++ .token (.stop .call) :: rest))) text) ↔
      ∃ front middle back last c, IsFiller front ∧ IsFiller middle ∧ IsSpace back ∧
        IsSpace last ∧ (c = ')' ∨ c = '\x7d') ∧
        ∃ tail, (tail = last.toList ∨ tail = last.toList ++ ['"']) ∧
          text = front.toList ++ (name.toList ++ '(' :: (middle.toList ++
            (word.toList ++ (back.toList ++ c :: tail)))) := by
  constructor
  · rintro ⟨fill, inner, gap, rest, hfill, hinner, hgap, hrest, h⟩
    rcases exists_fill_iff.1 ⟨fill, hfill, h⟩ with ⟨front, _, hfront, rfl, hcall⟩
    rcases (spelled_call_iff hname harray hbareName).1 hcall with ⟨_, rfl, hinside⟩
    rcases exists_fill_iff.1 ⟨inner, hinner, hinside⟩ with ⟨middle, _, hmiddle, rfl, hword⟩
    rcases (spelled_word_iff hne hbare).1 hword with ⟨hnil, -⟩ | ⟨_, rfl, -, hbehind⟩
    · simp at hnil
    rcases exists_gap_iff.1 ⟨gap, hgap, hbehind⟩ with ⟨back, _, hback, rfl, hstop⟩
    rcases spelled_stop_iff.1 hstop with ⟨c, tail, hc, rfl, htail⟩
    rcases exists_last_gap_iff.1 ⟨rest, hrest, htail⟩ with ⟨last, hlast, hend⟩
    exact ⟨front, middle, back, last, c, hfront, hmiddle, hback, hlast, hc, tail, hend, rfl⟩
  · rintro ⟨front, middle, back, last, c, hfront, hmiddle, hback, hlast, hc, tail, hend, rfl⟩
    rcases exists_last_gap_iff.2 ⟨last, hlast, hend⟩ with ⟨rest, hrest, htail⟩
    have hstop : Spelled [.call] (.token (.stop .call) :: rest) (c :: tail) := .stop hc htail
    rcases exists_gap_iff.2 ⟨back, _, hback, rfl, hstop⟩ with ⟨gap, hgap, hbehind⟩
    have hword := Spelled.word hne hbare (ends_append hback (ends_closing hc)) hbehind
    rcases exists_fill_iff.2 ⟨middle, _, hmiddle, rfl, hword⟩ with ⟨inner, hinner, hinside⟩
    have hcall := Spelled.call hname harray hbareName hinside
    rcases exists_fill_iff.2 ⟨front, _, hfront, rfl, hcall⟩ with ⟨fill, hfill, hall⟩
    exact ⟨fill, inner, gap, rest, hfill, hinner, hgap, hrest, hall⟩

end SheetLedger.Lexeme
