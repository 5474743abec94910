/-!
# Reading TOML

A reader takes what it needs from the front of the remaining characters, or fails. The readers here
take what stands between the parts of a document: blanks, comments and the ends of lines.
-/

namespace SheetLedger.Toml

/-- Takes something from the front of the remaining characters. -/
abbrev Reader := StateT (List Char) Option

/-! ## Characters -/

/-- Characters that may stand in a text of one line or in a comment: all but the controls other than
the tab. -/
def isPrintable (c : Char) : Bool := c = '\t' || (' ' ≤ c && c ≠ '\x7f')

/-- Characters of bare keys. -/
def isBare (c : Char) : Bool := c.isAlphanum || c = '_' || c = '-'

/-- Takes the longest run of characters of a class. -/
def takeRun (p : Char → Bool) : Reader (List Char) := fun cs =>
  some (cs.takeWhile p, cs.dropWhile p)

/-- Takes one given character. -/
def expect (c : Char) : Reader Unit
  | d :: rest => if c = d then some ((), rest) else none
  | [] => none

/-- Skips blanks within a line. -/
def blanks : Reader Unit := fun cs =>
  some ((), cs.dropWhile fun c => c = ' ' || c = '\t')

/-- Skips a comment up to the end of its line, if one starts here. -/
def comment : Reader Unit
  | '#' :: rest => some ((), rest.dropWhile isPrintable)
  | cs => some ((), cs)

/-- Takes the end of a line or of the document. -/
def lineEnd : Reader Unit
  | [] => some ((), [])
  | '\n' :: rest => some ((), rest)
  | '\r' :: '\n' :: rest => some ((), rest)
  | _ => none

/-- Takes the rest of a line that says nothing more. -/
def restOfLine : Reader Unit := do
  blanks
  comment
  lineEnd

/-- Skips blanks, comments and the ends of lines, at most `fuel` lines of them. -/
def space : Nat → Reader Unit
  | 0 => failure
  | fuel + 1 => do
    blanks
    comment
    match ← get with
    | '\n' :: _ => lineEnd; space fuel
    | '\r' :: _ => lineEnd; space fuel
    | _ => return ()

end SheetLedger.Toml
