import SheetLedger.Text.Decimal
import SheetLedger.Token.Lexeme

/-!
# Token streams

The second reading of a formula decides what a lexeme is from its neighbours: the last token that
was kept on its left, and the next lexeme on its right.

* A blank is the intersection of two values when it stands right between them, and nothing
  otherwise. Of several blanks in a row only the last can stand before a value.
* A plus or a minus is an operator right after a value or a percent sign. Elsewhere a minus negates
  what follows and a plus is nothing.
* A word is a logical value, a number or a range by its text alone.

`Token.ofText` splits the text of a formula into tokens.
-/

namespace SheetLedger

namespace Lexeme

/-- Whether a value starts with this lexeme: it is an operand or opens a bracket. -/
def startsValue : Lexeme → Bool
  | .word _ | .token (.operand ..) | .token (.callStart _) | .token .groupStart => true
  | _ => false

/-- What a word is, by its text. -/
def classify (text : String) : OperandKind :=
  if text = "TRUE" ∨ text = "FALSE" then .logical
  else if (Decimal.read? text.toList).isSome then .number
  else .range

/-- The token that a lexeme becomes between the token on its left and the lexeme on its right, or
nothing. -/
def settle (before : Option Token) (lexeme : Lexeme) (after : Option Lexeme) : Option Token :=
  let afterValue := before.any Token.endsValue
  let signIsOperator := afterValue || before = some .percent
  match lexeme with
  | .word text => some (.operand (classify text) text)
  | .blank => if afterValue && after.any startsValue then some (.operator .intersection) else none
  | .plus => if signIsOperator then some (.operator .plus) else none
  | .minus => some (if signIsOperator then .operator .minus else .negation)
  | .token t => some t

/-- The tokens of a list of lexemes, after the token `before`. -/
def settleAll (before : Option Token) : List Lexeme → List Token
  | [] => []
  | lexeme :: rest =>
    match settle before lexeme rest.head? with
    | some kept => kept :: settleAll (some kept) rest
    | none => settleAll before rest

end Lexeme

/-- The tokens of a formula, whose leading `=` may be missing. -/
def Token.ofText (text : String) : List Token :=
  Lexeme.settleAll none (Lexeme.ofChars text.toList)

end SheetLedger
