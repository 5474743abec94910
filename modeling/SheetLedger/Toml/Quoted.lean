import SheetLedger.Text.Numeral
import SheetLedger.Toml.Reader

/-!
# TOML texts

Texts stand in double quotes, in which a backslash escapes, or in single quotes, in which nothing
does. Between three quotes of either kind a text may run over several lines.
-/

namespace SheetLedger.Toml

/-- The character that a backslash and this character stand for. -/
def escaped? : Char → Option Char
  | 'b' => some '\x08'
  | 't' => some '\t'
  | 'n' => some '\n'
  | 'f' => some '\x0c'
  | 'r' => some '\r'
  | '"' => some '"'
  | '\\' => some '\\'
  | _ => none

/-- The character with a code point in hexadecimal digits. -/
def codePoint? (digits : List Char) : Option Char := do
  let values ← digits.mapM Numeral.hexDigit?
  let n := values.foldl (fun n d => 16 * n + d) 0
  if n.isValidChar then some (Char.ofNat n) else none

/-- What follows a backslash: the character that is meant, and what is left. -/
def escape? : List Char → Option (Char × List Char)
  | 'u' :: a :: b :: c :: d :: rest => (codePoint? [a, b, c, d]).map (·, rest)
  | 'U' :: a :: b :: c :: d :: e :: f :: g :: h :: rest =>
    (codePoint? [a, b, c, d, e, f, g, h]).map (·, rest)
  | c :: rest => (escaped? c).map (·, rest)
  | [] => none

/-- An escape takes at least one character. -/
theorem length_lt_of_escape? {cs rest : List Char} {c : Char} (h : escape? cs = some (c, rest)) :
    rest.length < cs.length := by
  unfold escape? at h
  split at h
  case h_4 => cases h
  all_goals
    obtain ⟨_, _, heq⟩ := Option.map_eq_some_iff.1 h
    cases heq
    simp only [List.length_cons]
    omega

/-- The rest of a text in double quotes, after what has been read of it. -/
def quotedRest (text : String) (cs : List Char) : Option (String × List Char) :=
  match cs with
  | '"' :: rest => some (text, rest)
  | '\\' :: rest =>
    match _h : escape? rest with
    | some (c, rest) => quotedRest (text.push c) rest
    | none => none
  | c :: rest => if isPrintable c then quotedRest (text.push c) rest else none
  | [] => none
termination_by cs.length
decreasing_by
  · have := length_lt_of_escape? _h
    simp only [List.length_cons]
    omega
  · simp only [List.length_cons]
    omega

/-- Whether only blanks stand before the end of the line. -/
def endsLine (cs : List Char) : Bool :=
  match cs.dropWhile fun c => c = ' ' || c = '\t' with
  | '\n' :: _ | '\r' :: '\n' :: _ => true
  | _ => false

/-- The rest of a text of several lines in double quotes, after what has been read of it. A
backslash at the end of a line leaves out what follows up to the next visible character, which is
what `skipping` stands for. Quotes next to the closing ones belong to the text. -/
def longQuotedRest (text : String) (skipping : Bool) (cs : List Char) :
    Option (String × List Char) :=
  match cs with
  -- of five quotes the last three close the text
  | '"' :: '"' :: '"' :: '"' :: '"' :: rest => some ((text.push '"').push '"', rest)
  | '"' :: '"' :: '"' :: '"' :: rest => some (text.push '"', rest)
  | '"' :: '"' :: '"' :: rest => some (text, rest)
  | '\r' :: '\n' :: rest => longQuotedRest (if skipping then text else text.push '\n') skipping rest
  | '\n' :: rest => longQuotedRest (if skipping then text else text.push '\n') skipping rest
  | '\\' :: rest =>
    if endsLine rest then longQuotedRest text true rest
    else
      match _h : escape? rest with
      | some (c, rest) => longQuotedRest (text.push c) false rest
      | none => none
  | c :: rest =>
    if skipping && (c = ' ' || c = '\t') then longQuotedRest text true rest
    else if isPrintable c then longQuotedRest (text.push c) false rest
    else none
  | [] => none
termination_by cs.length
decreasing_by
  all_goals
    try have := length_lt_of_escape? _h
    simp only [List.length_cons]
    omega

/-- The rest of a text of several lines in single quotes, after what has been read of it. -/
def longVerbatimRest (text : String) : List Char → Option (String × List Char)
  | '\'' :: '\'' :: '\'' :: '\'' :: '\'' :: rest => some ((text.push '\'').push '\'', rest)
  | '\'' :: '\'' :: '\'' :: '\'' :: rest => some (text.push '\'', rest)
  | '\'' :: '\'' :: '\'' :: rest => some (text, rest)
  | '\r' :: '\n' :: rest => longVerbatimRest (text.push '\n') rest
  | c :: rest =>
    if isPrintable c || c = '\n' then longVerbatimRest (text.push c) rest else none
  | [] => none

/-- Skips the end of a line, if one is here. -/
def lineEndIfAny : Reader Unit
  | '\n' :: rest => some ((), rest)
  | '\r' :: '\n' :: rest => some ((), rest)
  | cs => some ((), cs)

/-- A text in double quotes, in which a backslash escapes. -/
def quoted : Reader String := do
  expect '"'
  fun cs => quotedRest "" cs

/-- A text in single quotes, in which nothing escapes. -/
def verbatim : Reader String := do
  expect '\''
  let text ← takeRun fun c => isPrintable c && c ≠ '\''
  expect '\''
  return String.ofList text

/-- Takes three of a character. -/
def expectThree (c : Char) : Reader Unit := do
  expect c
  expect c
  expect c

/-- A text in three double quotes, which may run over several lines. -/
def longQuoted : Reader String := do
  expectThree '"'
  lineEndIfAny
  fun cs => longQuotedRest "" false cs

/-- A text in three single quotes, which may run over several lines. -/
def longVerbatim : Reader String := do
  expectThree '\''
  lineEndIfAny
  fun cs => longVerbatimRest "" cs

end SheetLedger.Toml
