import SheetLedger.Token.Basic

/-!
# Lexemes

The first reading of a formula, from left to right, one character at a time. A lexeme is a finished
token or one that only its neighbours decide: a word, a blank, a plus or a minus.

The scan is in one of five modes. Between `"` and `"`, between `'` and `'`, between `[` and `]`, and
from `#` to the end of an error code, every character belongs to the word that is being read;
elsewhere the characters of operators and brackets end it. Within quotes a doubled quote stands for
one. Whatever is still being read when the formula ends counts as an ordinary word.

* `Lexeme.scan` reads a list of characters from any state of the scan.
* `Lexeme.ofChars` reads a formula from the start.
-/

namespace SheetLedger

/-- A token, or what will become one once its neighbours are known. -/
inductive Lexeme where
  /-- An operand that is not yet classified. -/
  | word (text : String)
  | blank
  | plus
  | minus
  | token (token : Token)
deriving Repr, DecidableEq

namespace Lexeme

/-- What surrounds the character that is read next. -/
inductive Mode where
  | plain
  /-- Inside a text, after its opening `"`. -/
  | quoted
  /-- Inside the quoted name of a sheet, after its opening `'`. -/
  | path
  /-- Inside `[` and `]`. -/
  | bracketed
  /-- Inside an error code, after its `#`. -/
  | errorCode
deriving Repr, DecidableEq

/-- The state of the scan: its mode, the word being read and the brackets that are open, the
innermost first. -/
structure Scan where
  mode : Mode := .plain
  word : String := ""
  opened : List Bracket := []
deriving Repr, DecidableEq

/-- The error codes. -/
def errorCodes : List String :=
  ["#NULL!", "#DIV/0!", "#VALUE!", "#REF!", "#NAME?", "#NUM!", "#N/A"]

/-- Whether a sign after this word belongs to it, as in `1.5E+3`: a digit from one to nine,
perhaps a point and more digits, and the letter `E`. -/
def awaitsExponent : List Char → Bool
  | first :: rest =>
    first.isDigit && first ≠ '0' &&
      match rest with
      | ['E'] => true
      | '.' :: tail =>
        tail.dropWhile Char.isDigit = ['E'] && !(tail.takeWhile Char.isDigit).isEmpty
      | _ => false
  | [] => false

/-- The word that a character ends, if there is one. -/
def flush (word : String) : List Lexeme :=
  if word.isEmpty then [] else [.word word]

/-- The operators of one character other than the signs, the comma and the blank. -/
def operator? : Char → Option Operator
  | '*' => some .times
  | '/' => some .divide
  | '^' => some .power
  | '&' => some .concatenate
  | '=' => some .equal
  | '<' => some .less
  | '>' => some .greater
  | _ => none

/-- The operators of two characters. -/
def comparison? : Char → Char → Option Operator
  | '<', '=' => some .lessEqual
  | '>', '=' => some .greaterEqual
  | '<', '>' => some .notEqual
  | _, _ => none

namespace Scan

/-- One more character of the word. -/
def push (s : Scan) (c : Char) : Scan := { s with word := s.word.push c }

/-- The state after a lexeme that ended the word. -/
def fresh (s : Scan) : Scan := { s with mode := .plain, word := "" }

/-- The state at the start of a word with the first character `c`, in the given mode. -/
def starting (s : Scan) (mode : Mode) (c : Char) : Scan :=
  { s with mode := mode, word := c.toString }

/-- A closing bracket closes what was opened last; with nothing open it is a stray one. -/
def close (s : Scan) (c : Char) : List Lexeme × Scan :=
  match s.opened with
  | bracket :: opened =>
    (flush s.word ++ [.token (.stop bracket)], { s.fresh with opened := opened })
  | [] => (flush s.word ++ [.token (.stray c)], s.fresh)

/-- An opening parenthesis right after a word makes it the name of a call; otherwise it starts a
group. -/
def openParenthesis (s : Scan) : List Lexeme × Scan :=
  if s.word.isEmpty then
    ([.token .groupStart], { s.fresh with opened := .group :: s.opened })
  else
    ([.token (.callStart s.word)], { s.fresh with opened := .call :: s.opened })

/-- A comma divides arguments when the innermost open bracket is a call, and joins regions
everywhere else. -/
def comma (s : Scan) : Token :=
  if s.opened.head? = some .call then .argument .comma else .operator .union

/-- One character outside quotes, brackets and error codes: the lexemes it ends or is, and the
state after it. -/
def plainStep (s : Scan) (c : Char) : List Lexeme × Scan :=
  -- a sign behind the letter of an exponent belongs to the number
  if (c = '+' ∨ c = '-') ∧ awaitsExponent s.word.toList then ([], s.push c)
  else match c with
  | '"' => (flush s.word, { s.fresh with mode := .quoted })
  | '\'' => (flush s.word, s.starting .path c)
  | '[' => ([], { s.push c with mode := .bracketed })
  | '#' => (flush s.word, s.starting .errorCode c)
  | '\x7b' =>
    (flush s.word ++ [.token (.callStart "ARRAY")], { s.fresh with opened := .call :: s.opened })
  | '\x7d' => s.close c
  | ')' => s.close c
  | '(' => s.openParenthesis
  | ',' => (flush s.word ++ [.token s.comma], s.fresh)
  | ';' => (flush s.word ++ [.token (.argument .semicolon)], s.fresh)
  | ' ' | '\t' | '\n' | '\r' => (flush s.word ++ [.blank], s.fresh)
  | '+' => (flush s.word ++ [.plus], s.fresh)
  | '-' => (flush s.word ++ [.minus], s.fresh)
  | '%' => (flush s.word ++ [.token .percent], s.fresh)
  | _ =>
    match operator? c with
    | some op => (flush s.word ++ [.token (.operator op)], s.fresh)
    | none => ([], s.push c)

/-- One character of an error code, which ends as soon as it is complete. -/
def errorStep (s : Scan) (c : Char) : List Lexeme × Scan :=
  let word := s.word.push c
  if errorCodes.contains word then ([.token (.operand .error word)], s.fresh)
  else ([], s.push c)

/-- One character: the lexemes it ends or is, and the state after it. -/
def step (s : Scan) (c : Char) : List Lexeme × Scan :=
  match s.mode with
  | .plain => s.plainStep c
  | .quoted =>
    if c = '"' then ([.token (.operand .text s.word)], s.fresh) else ([], s.push c)
  | .path => ([], if c = '\'' then { s.push c with mode := .plain } else s.push c)
  | .bracketed => ([], if c = ']' then { s.push c with mode := .plain } else s.push c)
  | .errorCode => s.errorStep c

/-- Two characters that are read at once: a doubled quote within quotes, and the operators of two
characters outside of everything. -/
def pair? (s : Scan) (c d : Char) : Option (List Lexeme × Scan) :=
  match s.mode with
  | .quoted => if c = '"' ∧ d = '"' then some ([], s.push '"') else none
  | .path => if c = '\'' ∧ d = '\'' then some ([], s.push '\'') else none
  | .plain => (comparison? c d).map fun op => (flush s.word ++ [.token (.operator op)], s.fresh)
  | .bracketed | .errorCode => none

end Scan

/-- The lexemes of the remaining characters. -/
def scan (s : Scan) : List Char → List Lexeme
  | [] => flush s.word
  | [c] => (s.step c).1 ++ flush (s.step c).2.word
  | c :: d :: rest =>
    match s.pair? c d with
    | some (lexemes, after) => lexemes ++ scan after rest
    | none => (s.step c).1 ++ scan (s.step c).2 (d :: rest)

/-- The lexemes of a formula; one leading `=` is left out. -/
def ofChars : List Char → List Lexeme
  | '=' :: rest => scan {} rest
  | text => scan {} text

end Lexeme

end SheetLedger
