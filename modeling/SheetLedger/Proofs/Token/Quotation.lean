import SheetLedger.Formula.Dependents
import SheetLedger.Proofs.Token.Spelling

/-!
# Texts in quotes

A text in quotes may hold any characters. Its own quotes are written twice (`Token.quoted`). Read
from the left, two quotes at once are one of the text, and a quote ends the text if no other stands
behind it. So the scan reads back what was put in quotes, be it empty, made of quotes or full of
operators, and goes on behind it as it stood in front (`Lexeme.scan_quoted_append`).

Texts in quotes that are joined by `&` become text operands with an operator between any two, and
nothing else. Their formula is neither a reference nor an aggregate, whatever the texts look like
(`Formula.classify_concatenation`).
-/

namespace SheetLedger

namespace Token

/-- Characters with each quote among them written twice. -/
def doubled (text : List Char) : List Char :=
  text.flatMap fun c => if c = '"' then ['"', '"'] else [c]

/-- A text in quotes, its own quotes written twice. -/
def quoted (text : String) : String := "\"" ++ String.ofList (doubled text.toList) ++ "\""

/-- The formula that joins texts in quotes. -/
def concatenation (texts : List String) : String := "=" ++ "&".intercalate (texts.map quoted)

theorem doubled_cons_quote (text : List Char) :
    doubled ('"' :: text) = '"' :: '"' :: doubled text := by
  simp [doubled]

theorem doubled_cons_of_ne {c : Char} (h : c ≠ '"') (text : List Char) :
    doubled (c :: text) = c :: doubled text := by
  simp [doubled, h]

theorem toList_quoted (text : String) :
    (quoted text).toList = '"' :: (doubled text.toList ++ ['"']) := by
  simp [quoted]

end Token

open Token

namespace Lexeme

/-! ## Reading back -/

variable {s : Scan} {c d : Char} {rest : List Char}

/-- What is read when the next two characters are read at once. -/
theorem scan_pair {result : List Lexeme × Scan} (h : s.pair? c d = some result) :
    scan s (c :: d :: rest) = result.1 ++ scan result.2 rest := by
  simp only [scan, h]

/-- Within quotes a text is read up to the quote that ends it. -/
theorem scan_doubled (hmode : s.mode = .quoted) (text : List Char) (hrest : rest.head? ≠ some '"') :
    scan s (doubled text ++ '"' :: rest) =
      .token (.operand .text (String.ofList (s.word.toList ++ text))) :: scan s.fresh rest := by
  induction text generalizing s with
  | nil =>
    have hstep : s.step '"' = ([.token (.operand .text s.word)], s.fresh) := by
      simp [Scan.step, hmode]
    show scan s ('"' :: rest) = _
    rw [scan_cons, hstep, List.append_nil, String.ofList_toList]
    · rfl
    · intro d hd
      have hne : d ≠ '"' := by
        rintro rfl
        exact hrest hd
      simp [Scan.pair?, hmode, hne]
  | cons c text ih =>
    -- either way the character is pushed, after one quote or after two
    have hpush := ih (s := s.push c) hmode
    rw [Scan.push, String.toList_push, List.append_assoc] at hpush
    by_cases hc : c = '"'
    · subst hc
      have hpair : s.pair? '"' '"' = some ([], s.push '"') := by
        simp [Scan.pair?, hmode]
      rw [doubled_cons_quote, List.cons_append, List.cons_append, scan_pair hpair]
      exact hpush
    · have hstep : s.step c = ([], s.push c) := by
        simp [Scan.step, hmode, hc]
      rw [doubled_cons_of_ne hc, List.cons_append, scan_cons, hstep]
      · exact hpush
      · intro d _
        simp [Scan.pair?, hmode, hc]

/-- A text in quotes is read back, and the scan goes on behind it as it stood in front. -/
theorem scan_quoted_append (opened : List Bracket) (text : String) (rest : List Char)
    (hrest : rest.head? ≠ some '"') :
    scan { opened := opened } ((quoted text).toList ++ rest) =
      .token (.operand .text text) :: scan { opened := opened } rest := by
  rw [toList_quoted, List.cons_append, scan_of_reads rfl .quote, List.append_assoc]
  show scan { mode := .quoted, opened := opened } (doubled text.toList ++ '"' :: rest) = _
  rw [scan_doubled rfl _ hrest]
  simp [Scan.fresh]

theorem scan_ampersand (opened : List Bracket) (rest : List Char) :
    scan { opened := opened } ('&' :: rest) =
      .token (.operator .concatenate) :: scan { opened := opened } rest := by
  rw [scan_cons]
  · rfl
  · intro d _
    rfl

/-- Texts in quotes that are joined are read back one by one. -/
theorem scan_concatenation (opened : List Bracket) (texts : List String) :
    scan { opened := opened } ("&".intercalate (texts.map quoted)).toList =
      ((texts.map (.operand .text)).intersperse (.operator .concatenate)).map .token := by
  induction texts with
  | nil => rfl
  | cons text texts ih =>
    cases texts with
    | nil =>
      have hread := scan_quoted_append opened text [] (by simp)
      rw [List.append_nil] at hread
      rw [List.map_singleton, String.intercalate_singleton, hread]
      rfl
    | cons next texts =>
      rw [List.map_cons, List.map_cons, String.intercalate_cons_cons, String.toList_append,
        String.toList_append, List.append_assoc, scan_quoted_append opened text _ (by simp)]
      show _ :: scan _ ('&' :: ("&".intercalate ((next :: texts).map quoted)).toList) = _
      rw [scan_ampersand, ih]
      rfl

/-- The second reading keeps what is a token already. -/
theorem settleAll_map_token (before : Option Token) (tokens : List Token) :
    settleAll before (tokens.map .token) = tokens := by
  induction tokens generalizing before with
  | nil => rfl
  | cons token tokens ih =>
    show token :: settleAll (some token) (tokens.map .token) = token :: tokens
    rw [ih]

end Lexeme

namespace Formula

/-- No reference and no aggregate begins with a text. -/
theorem ofTokens?_text (text : String) (tokens : List Token) :
    ofTokens? (.operand .text text :: tokens) = none := by
  cases tokens <;> rfl

theorem ofTokens?_joined (texts : List String) :
    ofTokens? ((texts.map (.operand .text)).intersperse (.operator .concatenate)) = none := by
  cases texts with
  | nil => rfl
  | cons text texts =>
    cases texts with
    | nil => exact ofTokens?_text text []
    | cons next texts => exact ofTokens?_text text _

/-- Texts in quotes that are joined are read back, and their formula reads no cell. -/
theorem classify_concatenation (texts : List String) :
    Token.ofText (concatenation texts) =
        (texts.map (.operand .text)).intersperse (.operator .concatenate) ∧
      classify (concatenation texts) = .unrecognized (concatenation texts) ∧
      ∀ slot, (classify (concatenation texts)).dependsOn slot = false := by
  have htext : (concatenation texts).toList = '=' :: ("&".intercalate (texts.map quoted)).toList :=
    String.toList_append
  have htokens : Token.ofText (concatenation texts) =
      (texts.map (.operand .text)).intersperse (.operator .concatenate) := by
    rw [Token.ofText, htext]
    show Lexeme.settleAll none (Lexeme.scan {} _) = _
    rw [Lexeme.scan_concatenation, Lexeme.settleAll_map_token]
  have hclassify : classify (concatenation texts) = .unrecognized (concatenation texts) := by
    rw [classify, htext, List.head?_cons, if_pos rfl, htokens, ofTokens?_joined, Option.getD_none]
  refine ⟨htokens, hclassify, ?_⟩
  intro slot
  rw [hclassify]
  rfl

example : Token.ofText "=\"\"\"\"&\"=A1\"" =
    [.operand .text "\"", .operator .concatenate, .operand .text "=A1"] := by
  decide

end Formula

end SheetLedger
