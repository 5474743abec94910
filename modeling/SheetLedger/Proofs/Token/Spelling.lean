import SheetLedger.Proofs.Text.Numeral
import SheetLedger.Token.Stream

/-!
# How lexemes are spelled

References and aggregates are made of few lexemes: words of letters, digits and colons, blanks,
pluses, and the two ends of a call (`Lexeme.Bare`). This module says which texts the scan reads as
such lexemes: exactly their spellings (`Lexeme.scan_eq_iff`).

Every other mode of the scan leaves a trace among the lexemes. A character that is not bare and has
got into the word stays in it until the word comes out (`Lexeme.exists_mem_scan`): the first
character of a path, of a bracket and of an error code, a doubled quote, and the sign of an exponent
are such characters. A text in quotes that is closed comes out as a token of its own. What is left
is a text in quotes that is not closed: as the last word of a formula it is read like any other, and
when it is empty it is not read at all.
-/

namespace SheetLedger.Lexeme

/-! ## Bare lexemes -/

/-- The characters of codes, of regions and of the names of aggregates. -/
def isBareChar (c : Char) : Bool := c.isUpper || c.isDigit || c = ':'

/-- A text of such characters and no others. -/
def IsBare (text : String) : Prop := ∀ c ∈ text.toList, isBareChar c = true

instance (text : String) : Decidable (IsBare text) :=
  decidable_of_iff (text.toList.all isBareChar = true) List.all_eq_true

/-- The characters that are read as blanks. -/
def isBlankChar (c : Char) : Bool := c = ' ' || c = '\t' || c = '\n' || c = '\r'

/-- The lexemes that references and aggregates are made of. Braces start a call too, but under a
name that is not written. -/
def Bare : Lexeme → Prop
  | word text => IsBare text
  | blank | plus => True
  | token (.callStart name) => IsBare name ∧ name ≠ "ARRAY"
  | token (.stop bracket) => bracket = .call
  | minus | token _ => False

theorem isBare_push {text : String} {c : Char} :
    IsBare (text.push c) ↔ IsBare text ∧ isBareChar c = true := by
  simp only [IsBare, String.toList_push, List.mem_append, List.mem_singleton, or_imp, forall_and,
    forall_eq]

theorem isBare_empty : IsBare "" := by
  intro c hc
  cases hc

theorem isBareChar_of_isBlankChar {c : Char} (h : isBlankChar c = true) :
    isBareChar c = false ∧ c ≠ '+' := by
  simp only [isBlankChar, Bool.or_eq_true, decide_eq_true_eq, or_assoc] at h
  rcases h with rfl | rfl | rfl | rfl <;> decide

theorem flush_of_ne {text : String} (h : text ≠ "") : flush text = [word text] := by
  simp [flush, h]

/-- A word that is not bare comes out when it ends. -/
theorem mem_flush_of_not_isBare {text : String} (h : ¬ IsBare text) :
    word text ∈ flush text := by
  have hne : text ≠ "" := by
    rintro rfl
    exact h (by simp [IsBare])
  rw [flush_of_ne hne]
  exact List.mem_singleton_self _

/-- Ranges, which no lexeme is: words become ranges in the second reading only. -/
def IsRange : Lexeme → Prop
  | token (.operand .range _) => True
  | _ => False

theorem not_isRange_of_mem_flush {text : String} {lexeme : Lexeme} (h : lexeme ∈ flush text) :
    ¬ lexeme.IsRange := by
  unfold flush at h
  split at h
  · cases h
  · rw [List.mem_singleton.1 h]
    exact id

/-! ## What leaves a trace -/

namespace Scan

variable {s after : Scan} {c d : Char} {result : List Lexeme × Scan}

/-- A step ends the word and goes on from there, makes it longer, takes it for the name of a call,
or completes an operand that is no range. -/
inductive Moves (s : Scan) (c : Char) : List Lexeme × Scan → Prop where
  | ends {more : List Lexeme} (after : Scan) :
    (∀ lexeme ∈ more, ¬ lexeme.IsRange) → Moves s c (flush s.word ++ more, after)
  | grows (mode : Mode) : Moves s c ([], { s.push c with mode := mode })
  | calls (after : Scan) : Moves s c ([.token (.callStart s.word)], after)
  | completes {kind : OperandKind} (text : String) (after : Scan) :
    kind ≠ .range → Moves s c ([.token (.operand kind text)], after)

theorem moves_flush (s : Scan) (c : Char) (after : Scan) : Moves s c (flush s.word, after) := by
  have hends : Moves s c (flush s.word ++ [], after) := .ends after (by simp)
  rw [List.append_nil] at hends
  exact hends

theorem moves_last {lexeme : Lexeme} (h : ¬ lexeme.IsRange) :
    Moves s c (flush s.word ++ [lexeme], after) := by
  apply Moves.ends
  intro other hother
  rw [List.mem_singleton.1 hother]
  exact h

theorem moves_close (s : Scan) (c : Char) : Moves s c (s.close c) := by
  unfold close
  split
  · exact moves_last id
  · exact moves_last id

theorem moves_openParenthesis (s : Scan) (c : Char) : Moves s c s.openParenthesis := by
  unfold openParenthesis
  split
  · rename_i hempty
    have hflush : flush s.word = [] := if_pos hempty
    have hlast : ∀ after, Moves s c (flush s.word ++ [.token .groupStart], after) := by
      intro after
      exact moves_last id
    rw [hflush] at hlast
    exact hlast _
  · exact .calls _

theorem moves_plainStep (s : Scan) (c : Char) : Moves s c (s.plainStep c) := by
  unfold plainStep
  split
  · exact .grows s.mode
  · split
    · exact moves_flush s _ _
    · exact moves_flush s _ _
    · exact .grows .bracketed
    · exact moves_flush s _ _
    · exact moves_last id
    · exact moves_close s _
    · exact moves_close s _
    · exact moves_openParenthesis s _
    · refine moves_last ?_
      unfold comma
      split
      · exact id
      · exact id
    · exact moves_last id
    · exact moves_last id
    · exact moves_last id
    · exact moves_last id
    · exact moves_last id
    · exact moves_last id
    · exact moves_last id
    · exact moves_last id
    · split
      · exact moves_last id
      · exact .grows s.mode

theorem moves_step (s : Scan) (c : Char) : Moves s c (s.step c) := by
  unfold step
  split
  · exact moves_plainStep s c
  · split
    · exact .completes _ _ (by decide)
    · exact .grows s.mode
  · split
    · exact .grows .plain
    · exact .grows s.mode
  · split
    · exact .grows .plain
    · exact .grows s.mode
  · unfold errorStep
    dsimp only
    split
    · exact .completes _ _ (by decide)
    · exact .grows s.mode

theorem moves_of_pair? (h : s.pair? c d = some result) : Moves s c result := by
  unfold pair? at h
  split at h
  · split at h
    · rename_i hquotes
      cases h
      rw [← hquotes.1]
      exact .grows s.mode
    · cases h
  · split at h
    · rename_i hquotes
      cases h
      rw [← hquotes.1]
      exact .grows s.mode
    · cases h
  · rcases Option.map_eq_some_iff.1 h with ⟨op, -, rfl⟩
    exact moves_last id
  · cases h
  · cases h

/-- A step shows that more than bare lexemes are read: it brings out one that is not bare, or there
is a character in the word that is not. -/
def Shows (result : List Lexeme × Scan) : Prop :=
  (∃ lexeme ∈ result.1, ¬ lexeme.Bare) ∨ ¬ IsBare result.2.word

/-- Once a character that is not bare is in the word, it stays there or comes out. -/
theorem Moves.shows (hmoves : Moves s c result) (h : ¬ IsBare s.word) : Shows result := by
  cases hmoves with
  | ends after _ => exact Or.inl ⟨_, List.mem_append_left _ (mem_flush_of_not_isBare h), h⟩
  | grows mode => exact Or.inr fun hbare => h (isBare_push.1 hbare).1
  | calls after => exact Or.inl ⟨_, List.mem_singleton_self _, fun hbare => h hbare.1⟩
  | completes text after _ => exact Or.inl ⟨_, List.mem_singleton_self _, id⟩

theorem Moves.not_isRange (hmoves : Moves s c result) {lexeme : Lexeme} (h : lexeme ∈ result.1) :
    ¬ lexeme.IsRange := by
  cases hmoves with
  | ends after hmore =>
    rcases List.mem_append.1 h with hmem | hmem
    · exact not_isRange_of_mem_flush hmem
    · exact hmore lexeme hmem
  | grows mode => cases h
  | calls after =>
    rw [List.mem_singleton.1 h]
    exact id
  | @completes kind text after hkind =>
    rw [List.mem_singleton.1 h]
    cases kind with
    | range => exact absurd rfl hkind
    | text | number | logical | error => exact id

end Scan

/-- What shows is among the lexemes, now or when the word comes out. -/
theorem Scan.Shows.exists_mem_append {result : List Lexeme × Scan} {more : List Lexeme}
    (hshows : Shows result)
    (hmore : ¬ IsBare result.2.word → ∃ lexeme ∈ more, ¬ lexeme.Bare) :
    ∃ lexeme ∈ result.1 ++ more, ¬ lexeme.Bare := by
  rcases hshows with ⟨lexeme, hmem, hbad⟩ | hword
  · exact ⟨lexeme, List.mem_append_left _ hmem, hbad⟩
  · rcases hmore hword with ⟨lexeme, hmem, hbad⟩
    exact ⟨lexeme, List.mem_append_right _ hmem, hbad⟩

theorem exists_mem_scan {s : Scan} (h : ¬ IsBare s.word) (text : List Char) :
    ∃ lexeme ∈ scan s text, ¬ lexeme.Bare := by
  have hend : ∀ {word : String}, ¬ IsBare word → ∃ lexeme ∈ flush word, ¬ lexeme.Bare := by
    intro word hword
    exact ⟨_, mem_flush_of_not_isBare hword, hword⟩
  fun_induction scan s text with
  | case1 s => exact hend h
  | case2 s c => exact ((s.moves_step c).shows h).exists_mem_append hend
  | case3 s c d rest lexemes after hpair ih =>
    exact ((Scan.moves_of_pair? hpair).shows h).exists_mem_append ih
  | case4 s c d rest hpair ih => exact ((s.moves_step c).shows h).exists_mem_append ih

/-- The scan leaves ranges to the second reading. -/
theorem not_isRange_of_mem_scan {s : Scan} {text : List Char} {lexeme : Lexeme}
    (h : lexeme ∈ scan s text) : ¬ lexeme.IsRange := by
  fun_induction scan s text with
  | case1 s => exact not_isRange_of_mem_flush h
  | case2 s c =>
    rcases List.mem_append.1 h with hmem | hmem
    · exact (s.moves_step c).not_isRange hmem
    · exact not_isRange_of_mem_flush hmem
  | case3 s c d rest lexemes after hpair ih =>
    rcases List.mem_append.1 h with hmem | hmem
    · exact (Scan.moves_of_pair? hpair).not_isRange hmem
    · exact ih hmem
  | case4 s c d rest hpair ih =>
    rcases List.mem_append.1 h with hmem | hmem
    · exact (s.moves_step c).not_isRange hmem
    · exact ih hmem

/-- What is read when the next two characters are not read at once. -/
theorem scan_cons {s : Scan} {c : Char} {rest : List Char}
    (h : ∀ d, rest.head? = some d → s.pair? c d = none) :
    scan s (c :: rest) = (s.step c).1 ++ scan (s.step c).2 rest := by
  cases rest with
  | nil => simp [scan]
  | cons d rest => simp only [scan, h d rfl]

theorem Scan.Shows.exists_mem {result : List Lexeme × Scan} (hshows : Shows result)
    (text : List Char) : ∃ lexeme ∈ result.1 ++ scan result.2 text, ¬ lexeme.Bare :=
  hshows.exists_mem_append fun hword => exists_mem_scan hword text

/-- Among bare lexemes no two characters are read at once that would leave a trace. -/
theorem scan_cons_of_bare {s : Scan} {c : Char} {rest : List Char}
    (h : ∀ lexeme ∈ scan s (c :: rest), lexeme.Bare)
    (hshows : ∀ d result, s.pair? c d = some result → Scan.Shows result) :
    scan s (c :: rest) = (s.step c).1 ++ scan (s.step c).2 rest := by
  apply scan_cons
  intro d hd
  cases hpair : s.pair? c d with
  | none => rfl
  | some result =>
    rcases List.head?_eq_some_iff.1 hd with ⟨more, rfl⟩
    have hscan : scan s (c :: d :: more) = result.1 ++ scan result.2 more := by
      simp only [scan, hpair]
    rcases (hshows d result hpair).exists_mem more with ⟨lexeme, hmem, hbad⟩
    rw [← hscan] at hmem
    exact absurd (h lexeme hmem) hbad

/-- In a text in quotes that comes out bare nothing ends the quotes. -/
theorem scan_quoted {s : Scan} (hmode : s.mode = .quoted) {text : List Char}
    (h : ∀ lexeme ∈ scan s text, lexeme.Bare) :
    scan s text = flush (String.ofList (s.word.toList ++ text)) := by
  induction text generalizing s with
  | nil => rw [List.append_nil, String.ofList_toList, scan]
  | cons c rest ih =>
    have hsingle : scan s (c :: rest) = (s.step c).1 ++ scan (s.step c).2 rest := by
      apply scan_cons_of_bare h
      intro d result hpair
      -- a doubled quote would stay in the word
      simp only [Scan.pair?, hmode] at hpair
      split at hpair
      · cases hpair
        refine Or.inr ?_
        intro hbare
        exact absurd (isBare_push.1 hbare).2 (by decide)
      · cases hpair
    rw [hsingle] at h ⊢
    by_cases hc : c = '"'
    · have hstep : (s.step c).1 = [.token (.operand .text s.word)] := by
        simp [Scan.step, hmode, hc]
      rw [hstep] at h
      exact absurd (h _ List.mem_cons_self) id
    · have hstep : s.step c = ([], s.push c) := by
        simp [Scan.step, hmode, hc]
      rw [hstep] at h ⊢
      rw [List.nil_append] at h ⊢
      rw [ih (s := s.push c) hmode h, Scan.push, String.toList_push, List.append_assoc]
      rfl

/-! ## Spellings -/

/-- A text does not go on with a character that belongs to the word in front of it. -/
def Ends (word : String) (rest : List Char) : Prop :=
  ∀ c, rest.head? = some c →
    isBareChar c = false ∧ (c = '+' → awaitsExponent word.toList = false)

/-- The texts that spell some bare lexemes, where the brackets that are given are open. -/
inductive Spelled : List Bracket → List Lexeme → List Char → Prop where
  | nil {opened : List Bracket} : Spelled opened [] []
  /-- The last word may stand in quotes that are not closed. -/
  | quoted {opened : List Bracket} {text : String} :
    text ≠ "" → IsBare text → Spelled opened [.word text] ('"' :: text.toList)
  /-- With nothing in such quotes no word is read. -/
  | dangling {opened : List Bracket} : Spelled opened [] ['"']
  | word {opened : List Bracket} {text : String} {lexemes : List Lexeme} {rest : List Char} :
    text ≠ "" → IsBare text → Ends text rest → Spelled opened lexemes rest →
      Spelled opened (.word text :: lexemes) (text.toList ++ rest)
  | blank {opened : List Bracket} {c : Char} {lexemes : List Lexeme} {rest : List Char} :
    isBlankChar c = true → Spelled opened lexemes rest →
      Spelled opened (.blank :: lexemes) (c :: rest)
  | plus {opened : List Bracket} {lexemes : List Lexeme} {rest : List Char} :
    Spelled opened lexemes rest → Spelled opened (.plus :: lexemes) ('+' :: rest)
  | call {opened : List Bracket} {name : String} {lexemes : List Lexeme} {rest : List Char} :
    name ≠ "" → name ≠ "ARRAY" → IsBare name → Spelled (.call :: opened) lexemes rest →
      Spelled opened (.token (.callStart name) :: lexemes) (name.toList ++ '(' :: rest)
  | stop {opened : List Bracket} {c : Char} {lexemes : List Lexeme} {rest : List Char} :
    c = ')' ∨ c = '\x7d' → Spelled opened lexemes rest →
      Spelled (.call :: opened) (.token (.stop .call) :: lexemes) (c :: rest)

/-- A word that has been read so far spells itself in front of what ends it. -/
theorem Spelled.flush {opened : List Bracket} {word : String} {lexemes : List Lexeme}
    {rest : List Char} (h : Spelled opened lexemes rest) (hword : IsBare word)
    (hends : Ends word rest) : Spelled opened (flush word ++ lexemes) (word.toList ++ rest) := by
  by_cases hempty : word = ""
  · subst hempty
    exact h
  · rw [flush_of_ne hempty]
    exact .word hempty hword hends h

theorem Spelled.unclosed {text : String} (h : IsBare text) (opened : List Bracket) :
    Spelled opened (Lexeme.flush text) ('"' :: text.toList) := by
  by_cases hempty : text = ""
  · subst hempty
    exact .dangling
  · rw [flush_of_ne hempty]
    exact .quoted hempty h

/-- What a plain step reads if it does not show more than bare lexemes. -/
inductive Scan.Reads (s : Scan) : Char → List Lexeme × Scan → Prop where
  | quote : Reads s '"' (Lexeme.flush s.word, { s.fresh with mode := .quoted })
  | blank {c : Char} : isBlankChar c = true → Reads s c (Lexeme.flush s.word ++ [.blank], s.fresh)
  | plus : awaitsExponent s.word.toList = false →
    Reads s '+' (Lexeme.flush s.word ++ [.plus], s.fresh)
  | call : s.word ≠ "" → s.word ≠ "ARRAY" →
    Reads s '(' ([.token (.callStart s.word)], { s.fresh with opened := .call :: s.opened })
  | stop {c : Char} {opened : List Bracket} : c = ')' ∨ c = '\x7d' → s.opened = .call :: opened →
    Reads s c (Lexeme.flush s.word ++ [.token (.stop .call)], { s.fresh with opened := opened })
  | letter {c : Char} : isBareChar c = true → Reads s c ([], s.push c)

/-- A plain step reads part of a spelling or shows that there is none. -/
theorem Scan.reads_or_shows (s : Scan) (c : Char) :
    Reads s c (s.plainStep c) ∨ Shows (s.plainStep c) := by
  have hlast : ∀ {lexeme : Lexeme} {after : Scan}, ¬ lexeme.Bare →
      Shows (Lexeme.flush s.word ++ [lexeme], after) := by
    intro lexeme after hbad
    exact Or.inl ⟨lexeme, by simp, hbad⟩
  have hclose : ∀ c, c = ')' ∨ c = '\x7d' → Reads s c (s.close c) ∨ Shows (s.close c) := by
    intro c hc
    unfold close
    split
    · rename_i bracket opened hopened
      cases bracket with
      | call => exact Or.inl (.stop hc hopened)
      | group => exact Or.inr (hlast (by simp [Bare]))
    · exact Or.inr (hlast id)
  unfold plainStep
  split
  · rename_i hsign
    -- a sign that belongs to the word is no bare character
    refine Or.inr (Or.inr ?_)
    intro hbare
    rcases hsign.1 with rfl | rfl
    · exact absurd (isBare_push.1 hbare).2 (by decide)
    · exact absurd (isBare_push.1 hbare).2 (by decide)
  · rename_i hsign
    split
    · exact Or.inl .quote
    · exact Or.inr (Or.inr (show ¬ IsBare (Char.toString '\'') by decide))
    · exact Or.inr (Or.inr fun hbare => absurd (isBare_push.1 hbare).2 (by decide))
    · exact Or.inr (Or.inr (show ¬ IsBare (Char.toString '#') by decide))
    · exact Or.inr (hlast (by simp [Bare]))
    · exact hclose _ (Or.inr rfl)
    · exact hclose _ (Or.inl rfl)
    · unfold openParenthesis
      by_cases hempty : s.word = ""
      · rw [if_pos (by simp [hempty])]
        exact Or.inr (Or.inl ⟨_, List.mem_singleton_self _, id⟩)
      · rw [if_neg (by simp [hempty])]
        by_cases harray : s.word = "ARRAY"
        · exact Or.inr (Or.inl ⟨_, List.mem_singleton_self _, fun hbare => hbare.2 harray⟩)
        · exact Or.inl (.call hempty harray)
    · exact Or.inr (hlast (by unfold comma; split <;> exact id))
    · exact Or.inr (hlast id)
    · exact Or.inl (.blank rfl)
    · exact Or.inl (.blank rfl)
    · exact Or.inl (.blank rfl)
    · exact Or.inl (.blank rfl)
    · exact Or.inl (.plus (by simpa using hsign))
    · exact Or.inr (hlast id)
    · exact Or.inr (hlast id)
    · split
      · exact Or.inr (hlast id)
      · by_cases hc : isBareChar c = true
        · exact Or.inl (.letter hc)
        · exact Or.inr (Or.inr fun hbare => hc (isBare_push.1 hbare).2)

/-- Characters other than bare ones and the plus end every word. -/
theorem ends_cons {word : String} {c : Char} {rest : List Char} (hc : isBareChar c = false)
    (hplus : c ≠ '+') : Ends word (c :: rest) := by
  intro d hd
  cases hd
  exact ⟨hc, fun heq => absurd heq hplus⟩

/-- What is read as bare lexemes is a spelling of them. -/
theorem spelled_of_scan {s : Scan} (hmode : s.mode = .plain) (hword : IsBare s.word)
    {text : List Char} (h : ∀ lexeme ∈ scan s text, lexeme.Bare) :
    Spelled s.opened (scan s text) (s.word.toList ++ text) := by
  induction text generalizing s with
  | nil =>
    rw [scan]
    have hnil : Spelled s.opened [] [] := .nil
    have hflush := hnil.flush hword (by simp [Ends])
    rw [List.append_nil] at hflush
    exact hflush
  | cons c rest ih =>
    have hsingle : scan s (c :: rest) = (s.plainStep c).1 ++ scan (s.plainStep c).2 rest := by
      have hstep : s.step c = s.plainStep c := by
        simp only [Scan.step, hmode]
      rw [← hstep]
      apply scan_cons_of_bare h
      intro d result hpair
      -- an operator of two characters is no bare lexeme
      simp only [Scan.pair?, hmode, Option.map_eq_some_iff] at hpair
      rcases hpair with ⟨op, -, rfl⟩
      exact Or.inl ⟨.token (.operator op), by simp, id⟩
    rw [hsingle] at h ⊢
    rcases s.reads_or_shows c with hreads | hshows
    · have hrest : ∀ lexeme ∈ scan (s.plainStep c).2 rest, lexeme.Bare := by
        intro lexeme hmem
        exact h lexeme (List.mem_append_right _ hmem)
      generalize s.plainStep c = result at hreads hrest ⊢
      cases hreads with
      | quote =>
        have hquoted := scan_quoted rfl hrest
        rw [hquoted] at hrest
        have hbare : IsBare (String.ofList rest) := by
          by_contra hbad
          exact hbad (hrest _ (mem_flush_of_not_isBare hbad))
        have hunclosed := Spelled.unclosed hbare s.opened
        rw [String.toList_ofList] at hunclosed
        rw [hquoted]
        exact hunclosed.flush hword (ends_cons (by decide) (by decide))
      | blank hblank =>
        have hmore := Spelled.blank hblank (ih rfl isBare_empty hrest)
        rw [List.append_assoc]
        exact hmore.flush hword (ends_cons (isBareChar_of_isBlankChar hblank).1
          (isBareChar_of_isBlankChar hblank).2)
      | plus hsign =>
        have hmore := Spelled.plus (ih rfl isBare_empty hrest)
        rw [List.append_assoc]
        apply hmore.flush hword
        intro d hd
        cases hd
        exact ⟨by decide, fun _ => hsign⟩
      | call hne harray => exact .call hne harray hword (ih rfl isBare_empty hrest)
      | stop hc hopened =>
        have hmore := Spelled.stop hc (ih rfl isBare_empty hrest)
        rw [List.append_assoc, hopened]
        apply hmore.flush hword
        rcases hc with rfl | rfl
        · exact ends_cons (by decide) (by decide)
        · exact ends_cons (by decide) (by decide)
      | letter hc =>
        have hpush := ih (s := s.push c) hmode (isBare_push.2 ⟨hword, hc⟩) hrest
        rw [Scan.push, String.toList_push, List.append_assoc] at hpush
        exact hpush
    · rcases hshows.exists_mem rest with ⟨lexeme, hmem, hbad⟩
      exact absurd (h lexeme hmem) hbad

/-! ## Reading a spelling -/

theorem comparison?_eq_none {c d : Char} (h : isBareChar c = true ∨ c = '"' ∨ isBlankChar c = true ∨
    c = '+' ∨ c = '(' ∨ c = ')' ∨ c = '\x7d') : comparison? c d = none := by
  unfold comparison?
  split
  · revert h
    decide
  · revert h
    decide
  · revert h
    decide
  · rfl

theorem operator?_eq_none {c : Char} (h : isBareChar c = true) : operator? c = none := by
  unfold operator?
  split
  all_goals first | rfl | exact absurd h (by decide)

/-- What a plain step reads as part of a spelling is what the step does. -/
theorem Scan.Reads.eq {s : Scan} {c : Char} {result : List Lexeme × Scan} (h : Reads s c result) :
    s.plainStep c = result := by
  cases h with
  | quote => rfl
  | blank hblank =>
    simp only [isBlankChar, Bool.or_eq_true, decide_eq_true_eq, or_assoc] at hblank
    rcases hblank with rfl | rfl | rfl | rfl
    · rfl
    · rfl
    · rfl
    · rfl
  | plus hsign => simp [plainStep, hsign]
  | call hne => simp [plainStep, openParenthesis, hne]
  | stop hc hopened =>
    rcases hc with rfl | rfl
    · simp [plainStep, close, hopened]
    · simp [plainStep, close, hopened]
  | letter hc =>
    unfold plainStep
    rw [if_neg]
    · split
      all_goals first
        | exact absurd hc (by decide)
        | rw [operator?_eq_none hc]
    · rintro ⟨rfl | rfl, -⟩
      · exact absurd hc (by decide)
      · exact absurd hc (by decide)

theorem scan_of_reads {s : Scan} (hmode : s.mode = .plain) {c : Char}
    {result : List Lexeme × Scan} (h : s.Reads c result) (rest : List Char) :
    scan s (c :: rest) = result.1 ++ scan result.2 rest := by
  have hstep : s.step c = result := by
    simp only [Scan.step, hmode]
    exact h.eq
  rw [← hstep]
  apply scan_cons
  intro d _
  simp only [Scan.pair?, hmode, Option.map_eq_none_iff]
  apply comparison?_eq_none
  cases h with
  | quote => simp
  | blank hblank => simp [hblank]
  | plus => simp
  | call => simp
  | stop hc => simp [hc]
  | letter hc => simp [hc]

/-- Bare characters make the word longer. -/
theorem scan_append {s : Scan} (hmode : s.mode = .plain) {text : List Char}
    (h : ∀ c ∈ text, isBareChar c = true) (rest : List Char) :
    scan s (text ++ rest) =
      scan { s with word := String.ofList (s.word.toList ++ text) } rest := by
  induction text generalizing s with
  | nil => rw [List.append_nil, String.ofList_toList, List.nil_append]
  | cons c more ih =>
    have hrest := ih (s := s.push c) hmode fun d hd => h d (List.mem_cons_of_mem _ hd)
    rw [List.cons_append, scan_of_reads hmode (.letter (h c List.mem_cons_self)),
      List.nil_append, hrest, Scan.push, String.toList_push, List.append_assoc]
    rfl

/-- A bare text in quotes that are not closed is the last word. -/
theorem scan_unclosed {s : Scan} (hmode : s.mode = .quoted) {text : List Char}
    (h : ∀ c ∈ text, isBareChar c = true) :
    scan s text = flush (String.ofList (s.word.toList ++ text)) := by
  induction text generalizing s with
  | nil => rw [List.append_nil, String.ofList_toList, scan]
  | cons c rest ih =>
    have hc : c ≠ '"' := by
      rintro rfl
      exact absurd (h _ List.mem_cons_self) (by decide)
    have hstep : s.step c = ([], s.push c) := by
      simp [Scan.step, hmode, hc]
    have hrest := ih (s := s.push c) hmode fun d hd => h d (List.mem_cons_of_mem _ hd)
    rw [scan_cons, hstep, List.nil_append, hrest, Scan.push, String.toList_push,
      List.append_assoc]
    · rfl
    · intro d _
      simp [Scan.pair?, hmode, hc]

/-- A bare text does not end a word. -/
theorem not_ends {word text : String} (hne : text ≠ "") (h : IsBare text) (rest : List Char) :
    ¬ Ends word (text.toList ++ rest) := by
  intro hends
  cases htext : text.toList with
  | nil => exact hne (String.toList_eq_nil_iff.1 htext)
  | cons c more =>
    have hc : c ∈ text.toList := by
      rw [htext]
      exact List.mem_cons_self
    have hhead : (text.toList ++ rest).head? = some c := by
      rw [htext]
      rfl
    exact absurd (h c hc) (Bool.eq_false_iff.1 (hends c hhead).1)

/-- At the start of a word bare characters are read into it. -/
theorem scan_word {opened : List Bracket} {text : String} (h : IsBare text) (rest : List Char) :
    scan { opened := opened } (text.toList ++ rest) =
      scan { word := text, opened := opened } rest := by
  have happend := scan_append (s := { opened := opened }) rfl h rest
  have hword : String.ofList (String.toList "" ++ text.toList) = text := by simp
  rw [hword] at happend
  exact happend

/-- A spelling is read as the lexemes that it spells, behind the word that it ends. -/
theorem Spelled.scan_eq {opened : List Bracket} {lexemes : List Lexeme} {rest : List Char}
    (h : Spelled opened lexemes rest) {word : String} (hword : word = "" ∨ Ends word rest) :
    scan { word := word, opened := opened } rest = Lexeme.flush word ++ lexemes := by
  induction h generalizing word with
  | nil => rw [scan, List.append_nil]
  | @quoted opened text hne hbare =>
    have htext : String.ofList (String.toList "" ++ text.toList) = text := by simp
    rw [scan_of_reads rfl .quote, scan_unclosed rfl hbare, ← flush_of_ne hne]
    exact congrArg _ (congrArg Lexeme.flush htext)
  | @dangling opened => rw [scan_of_reads rfl .quote, scan_unclosed rfl (by simp)]; rfl
  | @word opened text lexemes rest hne hbare hends _ ih =>
    obtain rfl := hword.resolve_right (not_ends hne hbare rest)
    rw [scan_word hbare, ih (Or.inr hends), flush_of_ne hne]
    rfl
  | @blank opened c lexemes rest hblank _ ih =>
    rw [scan_of_reads rfl (.blank hblank), List.append_assoc]
    exact congrArg _ (congrArg _ (ih (Or.inl rfl)))
  | @plus opened lexemes rest _ ih =>
    have hsign : awaitsExponent word.toList = false := by
      rcases hword with rfl | hends
      · rfl
      · exact (hends '+' rfl).2 rfl
    rw [scan_of_reads rfl (.plus hsign), List.append_assoc]
    exact congrArg _ (congrArg _ (ih (Or.inl rfl)))
  | @call opened name lexemes rest hne harray hbare _ ih =>
    obtain rfl := hword.resolve_right (not_ends hne hbare _)
    rw [scan_word hbare, scan_of_reads rfl (.call hne harray)]
    exact congrArg _ (ih (Or.inl rfl))
  | @stop opened c lexemes rest hc _ ih =>
    rw [scan_of_reads rfl (.stop hc rfl), List.append_assoc]
    exact congrArg _ (congrArg _ (ih (Or.inl rfl)))

/-- Bare lexemes are read exactly from their spellings. -/
theorem scan_eq_iff {lexemes : List Lexeme} (hbare : ∀ lexeme ∈ lexemes, lexeme.Bare)
    {text : List Char} : scan {} text = lexemes ↔ Spelled [] lexemes text := by
  constructor
  · rintro rfl
    exact spelled_of_scan rfl isBare_empty hbare
  · intro h
    exact h.scan_eq (Or.inl rfl)

/-! ## Spellings of single lexemes -/

section Spelled

variable {opened : List Bracket} {lexemes : List Lexeme} {text : List Char}

theorem spelled_nil_iff : Spelled opened [] text ↔ text = [] ∨ text = ['"'] := by
  constructor
  · intro h
    cases h with
    | nil => exact Or.inl rfl
    | dangling => exact Or.inr rfl
  · rintro (rfl | rfl)
    · exact .nil
    · exact .dangling

theorem spelled_blank_iff :
    Spelled opened (.blank :: lexemes) text ↔
      ∃ c rest, isBlankChar c = true ∧ text = c :: rest ∧ Spelled opened lexemes rest := by
  constructor
  · intro h
    cases h with
    | blank hblank hrest => exact ⟨_, _, hblank, rfl, hrest⟩
  · rintro ⟨c, rest, hblank, rfl, hrest⟩
    exact .blank hblank hrest

theorem spelled_plus_iff :
    Spelled opened (.plus :: lexemes) text ↔
      ∃ rest, text = '+' :: rest ∧ Spelled opened lexemes rest := by
  constructor
  · intro h
    cases h with
    | plus hrest => exact ⟨_, rfl, hrest⟩
  · rintro ⟨rest, rfl, hrest⟩
    exact .plus hrest

theorem spelled_word_iff {word : String} (hne : word ≠ "") (hbare : IsBare word) :
    Spelled opened (.word word :: lexemes) text ↔
      (lexemes = [] ∧ text = '"' :: word.toList) ∨
        ∃ rest, text = word.toList ++ rest ∧ Ends word rest ∧ Spelled opened lexemes rest := by
  constructor
  · intro h
    cases h with
    | quoted _ _ => exact Or.inl ⟨rfl, rfl⟩
    | word _ _ hends hrest => exact Or.inr ⟨_, rfl, hends, hrest⟩
  · rintro (⟨rfl, rfl⟩ | ⟨rest, rfl, hends, hrest⟩)
    · exact .quoted hne hbare
    · exact .word hne hbare hends hrest

theorem spelled_call_iff {name : String} (hne : name ≠ "") (harray : name ≠ "ARRAY")
    (hbare : IsBare name) :
    Spelled opened (.token (.callStart name) :: lexemes) text ↔
      ∃ rest, text = name.toList ++ '(' :: rest ∧ Spelled (.call :: opened) lexemes rest := by
  constructor
  · intro h
    cases h with
    | call _ _ _ hrest => exact ⟨_, rfl, hrest⟩
  · rintro ⟨rest, rfl, hrest⟩
    exact .call hne harray hbare hrest

theorem spelled_stop_iff :
    Spelled (.call :: opened) (.token (.stop .call) :: lexemes) text ↔
      ∃ c rest, (c = ')' ∨ c = '\x7d') ∧ text = c :: rest ∧ Spelled opened lexemes rest := by
  constructor
  · intro h
    cases h with
    | stop hc hrest => exact ⟨_, _, hc, rfl, hrest⟩
  · rintro ⟨c, rest, hc, rfl, hrest⟩
    exact .stop hc hrest

end Spelled

end SheetLedger.Lexeme
