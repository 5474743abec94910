import SheetLedger.Text.Numeral

/-!
# Decimal numbers

The decimal texts that count as numbers, and the double nearest to each. A number is an optional
sign followed by

* `inf`, `infinity` or `nan` in any case of letters, or
* digits with at most one point among or around them, at least one digit in all, and an optional
  exponent: `e` or `E`, an optional sign and at least one digit.

`Decimal.read?` recognises these texts and `Decimal.toFloat` rounds what they denote.
-/

namespace SheetLedger

/-- What a decimal text denotes. -/
inductive Decimal where
  /-- The number `digits * 10 ^ exponent`, negated when `negative`. -/
  | finite (negative : Bool) (digits : Nat) (exponent : Int)
  /-- Infinity with a sign. -/
  | infinite (negative : Bool)
  /-- Not a number. -/
  | undefined
deriving Repr, DecidableEq

namespace Decimal

/-- The text after an optional sign, and whether that sign was a minus. -/
def splitSign : List Char → Bool × List Char
  | '-' :: rest => (true, rest)
  | '+' :: rest => (false, rest)
  | rest => (false, rest)

/-- The exponent that ends a number; nothing at all is the exponent zero. -/
def exponent? : List Char → Option Int
  | [] => some 0
  | c :: rest =>
    if c = 'e' ∨ c = 'E' then
      let (negative, digits) := splitSign rest
      (Numeral.natural? digits).map fun n => if negative then -(n : Int) else n
    else none

/-- Digits around an optional point, then an optional exponent. Each digit after the point lowers
the exponent by one. -/
def unsigned? (negative : Bool) (text : List Char) : Option Decimal :=
  let whole := text.takeWhile Char.isDigit
  let afterWhole := text.dropWhile Char.isDigit
  let (fraction, rest) := match afterWhole with
    | '.' :: tail => (tail.takeWhile Char.isDigit, tail.dropWhile Char.isDigit)
    | tail => ([], tail)
  if whole.isEmpty && fraction.isEmpty then none
  else (exponent? rest).map fun e =>
    .finite negative (Nat.ofDigitChars 10 (whole ++ fraction) 0) (e - fraction.length)

/-- The number that a text writes, if it writes one. -/
def read? (text : List Char) : Option Decimal :=
  let (negative, body) := splitSign text
  let name := String.ofList (body.map Char.toLower)
  if name = "inf" ∨ name = "infinity" then some (.infinite negative)
  else if name = "nan" then some .undefined
  else unsigned? negative body

/-- The double nearest to a number. Beyond `10 ^ 310` every number rounds to infinity and below
`10 ^ (-330)` to zero, so no power of ten outside these bounds is formed. -/
def toFloat : Decimal → Float
  | .finite negative digits exponent =>
    let size : Int := (Nat.toDigits 10 digits).length
    let magnitude : Float :=
      if digits = 0 ∨ exponent + size < -330 then 0.0
      else if 310 < exponent then 1.0 / 0.0
      else Float.ofScientific digits (exponent < 0) exponent.natAbs
    if negative then -magnitude else magnitude
  | .infinite negative => if negative then -1.0 / 0.0 else 1.0 / 0.0
  | .undefined => 0.0 / 0.0

/-- The double that a text writes, if it writes a number. -/
def float? (text : String) : Option Float :=
  (read? text.toList).map toFloat

end Decimal

end SheetLedger
