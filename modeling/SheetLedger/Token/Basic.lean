/-!
# Tokens

The parts of a formula, in the order in which they are written. A call `SUM(A1:A3)` is a start, an
operand and a stop; a pair of parentheses without a name is a group, and braces are a call of
`ARRAY`. No structure is built from tokens: brackets need not match, and a closing bracket with
nothing to close is a `stray` token.

`Token.kind`, `Token.role` and `Token.text` are the three columns of a table of tokens.
-/

namespace SheetLedger

/-- What opens and closes around other tokens. -/
inductive Bracket where
  | call
  | group
deriving Repr, DecidableEq

/-- What an operand is. -/
inductive OperandKind where
  /-- A text in quotes, kept without them. -/
  | text
  | number
  | logical
  /-- One of the error codes, such as `#N/A`. -/
  | error
  /-- Anything else: a place, a region, a name. -/
  | range
deriving Repr, DecidableEq

/-- An operator between two operands. -/
inductive Operator where
  | plus
  | minus
  | times
  | divide
  | power
  | concatenate
  | equal
  | less
  | greater
  | lessEqual
  | greaterEqual
  | notEqual
  /-- A blank between two operands. -/
  | intersection
  /-- A comma outside the arguments of a call. -/
  | union
deriving Repr, DecidableEq

/-- What divides the arguments of a call. -/
inductive Separator where
  | comma
  | semicolon
deriving Repr, DecidableEq

/-- One part of a formula. -/
inductive Token where
  | operand (kind : OperandKind) (text : String)
  | callStart (name : String)
  | groupStart
  | stop (bracket : Bracket)
  | argument (separator : Separator)
  /-- A minus in front of an operand. -/
  | negation
  | operator (op : Operator)
  /-- The percent sign after an operand. -/
  | percent
  /-- A closing bracket with nothing to close. -/
  | stray (bracket : Char)
deriving Repr, DecidableEq

namespace Operator

/-- The way an operator is written. -/
def text : Operator → String
  | plus => "+"
  | minus => "-"
  | times => "*"
  | divide => "/"
  | power => "^"
  | concatenate => "&"
  | equal => "="
  | less => "<"
  | greater => ">"
  | lessEqual => "<="
  | greaterEqual => ">="
  | notEqual => "<>"
  | intersection => " "
  | union => ","

end Operator

namespace Token

/-- The bracket that a token opens. -/
def opens? : Token → Option Bracket
  | callStart _ => some .call
  | groupStart => some .group
  | _ => none

/-- Whether a value ends with this token: it is an operand or closes a bracket. -/
def endsValue : Token → Bool
  | operand .. | stop _ => true
  | _ => false

/-! ## Columns of a table of tokens -/

/-- The kinds of tokens. -/
inductive Kind where
  | operand
  | function
  | subexpression
  | argument
  | prefixOperator
  | infixOperator
  | postfixOperator
  | unknown
deriving Repr, DecidableEq

/-- The roles that tokens of one kind play. -/
inductive Role where
  | nothing
  | start
  | stop
  | text
  | number
  | logical
  | error
  | range
  | math
  | concatenation
  | intersection
  | union
deriving Repr, DecidableEq

/-- The kind of a token that opens or closes a bracket. -/
def kindOfBracket : Bracket → Kind
  | .call => .function
  | .group => .subexpression

/-- The kind of a token. -/
def kind : Token → Kind
  | operand .. => .operand
  | callStart _ => .function
  | groupStart => .subexpression
  | stop bracket => kindOfBracket bracket
  | argument _ => .argument
  | negation => .prefixOperator
  | operator _ => .infixOperator
  | percent => .postfixOperator
  | stray _ => .unknown

/-- The role of an operand. -/
def roleOfOperand : OperandKind → Role
  | .text => .text
  | .number => .number
  | .logical => .logical
  | .error => .error
  | .range => .range

/-- The role of an operator; comparisons are logical. -/
def roleOfOperator : Operator → Role
  | .plus | .minus | .times | .divide | .power => .math
  | .concatenate => .concatenation
  | .equal | .less | .greater | .lessEqual | .greaterEqual | .notEqual => .logical
  | .intersection => .intersection
  | .union => .union

/-- The role of a token. -/
def role : Token → Role
  | operand kind _ => roleOfOperand kind
  | callStart _ | groupStart => .start
  | stop _ => .stop
  | argument _ | percent | stray _ => .nothing
  | negation => .math
  | operator op => roleOfOperator op

/-- The text of a token; a group has none, nor has what closes a bracket. -/
def text : Token → String
  | operand _ text => text
  | callStart name => name
  | groupStart | stop _ => ""
  | argument .comma => ","
  | argument .semicolon => ";"
  | negation => "-"
  | operator op => op.text
  | percent => "%"
  | stray bracket => bracket.toString

end Token

end SheetLedger
