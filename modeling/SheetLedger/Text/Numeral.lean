/-!
# Numerals

Whole numbers as cells, codes and commands write them: runs of the digits `0` to `9`, with a sign
where one is allowed. A *word* is a number of 64 bits.

* `Numeral.natural?` reads a nonempty run of digits of any length.
* `Numeral.word?` and `Numeral.unsigned?` refuse numbers that do not fit a word; only the second
  takes a leading plus.
* `Numeral.signed?` reads a signed number of 64 bits, the kind that a sum adds up.
* `Numeral.hexDigit?` reads one digit of base sixteen, as escapes hold them.
-/

namespace SheetLedger.Numeral

/-- The largest number that a word holds. -/
def wordMax : Nat := (1 <<< 64) - 1

/-- The value of a digit in base sixteen, in either case of letters. -/
def hexDigit? (c : Char) : Option Nat :=
  if c.isDigit then some (c.toNat - '0'.toNat)
  else if 'a' ≤ c ∧ c ≤ 'f' then some (c.toNat - 'a'.toNat + 10)
  else if 'A' ≤ c ∧ c ≤ 'F' then some (c.toNat - 'A'.toNat + 10)
  else none

/-- A nonempty run of digits. -/
def isRun (digits : List Char) : Bool :=
  !digits.isEmpty && digits.all Char.isDigit

/-- The number that a nonempty run of digits writes. -/
def natural? (digits : List Char) : Option Nat :=
  if isRun digits then some (Nat.ofDigitChars 10 digits 0) else none

/-- The number that a run of digits writes, if a word holds it. -/
def word? (digits : List Char) : Option Nat :=
  (natural? digits).filter (· ≤ wordMax)

/-- A word with an optional leading plus. -/
def unsigned? : List Char → Option Nat
  | '+' :: digits => word? digits
  | digits => word? digits

/-- A signed number of 64 bits: digits with an optional sign. A number that does not fit is
refused. -/
def signed? : List Char → Option Int64
  | '-' :: digits =>
    (natural? digits).bind fun n => if n ≤ 1 <<< 63 then some (Int64.ofInt (-n)) else none
  | '+' :: digits => (natural? digits).bind fit
  | digits => (natural? digits).bind fit
where
  /-- A number without a minus fits below `2 ^ 63`. -/
  fit (n : Nat) : Option Int64 := if n < 1 <<< 63 then some (Int64.ofNat n) else none

/-- The decimal text of a signed number: a minus for negative ones and no leading zero. -/
def ofSigned (n : Int64) : String := toString n.toInt

end SheetLedger.Numeral
