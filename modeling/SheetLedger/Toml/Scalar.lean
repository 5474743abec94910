import SheetLedger.Datum
import SheetLedger.Text.Decimal
import SheetLedger.Toml.Reader

/-!
# TOML scalars

Values of one word: truth values, integers of 64 bits, numbers with a fraction or an exponent, and
dates with a time or without one. Underscores may stand between the digits of a number. Nothing that
is read from a document takes a fraction or a date, so these are only recognised.
-/

namespace SheetLedger.Toml

/-! ## Numbers -/

/-- Characters of the words that are numbers or truth values. -/
def isScalar (c : Char) : Bool := isBare c || c = '+' || c = '.'

/-- The digits of a number without the underscores between them. -/
def ungrouped? (digits : List Char) : Option (List Char) :=
  if digits.head? = some '_' || digits.getLast? = some '_' ||
      (digits.zip digits.tail).contains ('_', '_') then none
  else some (digits.filter (· ≠ '_'))

/-- The number that digits write in a base of at most sixteen. -/
def inBase? (base : Nat) (digits : List Char) : Option Nat := do
  let values ← (← ungrouped? digits).mapM Numeral.hexDigit?
  if values.isEmpty || values.any (base ≤ ·) then none
  else some (values.foldl (fun n d => base * n + d) 0)

/-- Digits in base ten, without a leading zero. -/
def decimal? (digits : List Char) : Option Nat :=
  match digits with
  | '0' :: _ :: _ => none
  | _ => inBase? 10 digits

/-- An integer: signed in base ten, or without a sign in base sixteen, eight or two. -/
def integer? : List Char → Option Int
  | '0' :: 'x' :: digits => (inBase? 16 digits).map Int.ofNat
  | '0' :: 'o' :: digits => (inBase? 8 digits).map Int.ofNat
  | '0' :: 'b' :: digits => (inBase? 2 digits).map Int.ofNat
  | '-' :: digits => (decimal? digits).map fun n => -(n : Int)
  | '+' :: digits => (decimal? digits).map Int.ofNat
  | digits => (decimal? digits).map Int.ofNat

/-- Whether an exponent stands here. Its digits may start with a zero. -/
def isExponent : List Char → Bool
  | 'e' :: rest | 'E' :: rest => (inBase? 10 (Decimal.splitSign rest).2).isSome
  | _ => false

/-- Whether a word is an infinity, no number at all, or digits that a fraction, an exponent or both
follow. A number beyond the largest double is none, unless it is negative. -/
def isFraction (word : List Char) : Bool :=
  let (negative, body) := Decimal.splitSign word
  let isGrouped (c : Char) : Bool := c.isDigit || c = '_'
  let isSpecial := body = "inf".toList || body = "nan".toList
  let isTail : List Char → Bool
    | '.' :: rest =>
      let exponent := rest.dropWhile isGrouped
      (inBase? 10 (rest.takeWhile isGrouped)).isSome && (exponent.isEmpty || isExponent exponent)
    | rest => isExponent rest
  let isFinite : Bool := match Decimal.read? (body.filter (· ≠ '_')) with
    | some decimal => decimal.toFloat.isFinite
    | none => false
  isSpecial || ((decimal? (body.takeWhile isGrouped)).isSome && isTail (body.dropWhile isGrouped) &&
    (negative || isFinite))

/-- A number or a truth value. -/
def word : Reader Datum := do
  let word ← takeRun isScalar
  if word = "true".toList then return .boolean true
  if word = "false".toList then return .boolean false
  if isFraction word then return .other
  match integer? word with
  | some n =>
    let bound : Nat := 1 <<< 63
    if -bound ≤ n ∧ n < bound then return .integer n else failure
  | none => failure

/-! ## Dates -/

/-- Takes a number of a fixed count of digits. -/
def digits (count : Nat) : Reader Nat := fun cs =>
  if (cs.take count).length = count then
    (Numeral.natural? (cs.take count)).map (·, cs.drop count)
  else none

/-- The number of days in a month. -/
def daysIn (year month : Nat) : Nat :=
  if month = 2 then
    if year % 4 = 0 ∧ (year % 100 ≠ 0 ∨ year % 400 = 0) then 29 else 28
  else if month = 4 ∨ month = 6 ∨ month = 9 ∨ month = 11 then 30
  else 31

/-- Takes a day of the calendar. -/
def date : Reader Unit := do
  let year ← digits 4
  expect '-'
  let month ← digits 2
  expect '-'
  let day ← digits 2
  guard (1 ≤ month ∧ month ≤ 12 ∧ 1 ≤ day ∧ day ≤ daysIn year month)

/-- Takes hours and minutes. -/
def clockTime : Reader Unit := do
  let hour ← digits 2
  expect ':'
  let minute ← digits 2
  guard (hour < 24 ∧ minute < 60)

/-- Takes a time of the day, in which a minute may have a second more than usual. -/
def time : Reader Unit := do
  clockTime
  expect ':'
  let second ← digits 2
  guard (second ≤ 60)
  match ← get with
  | '.' :: _ =>
    expect '.'
    guard (!(← takeRun Char.isDigit).isEmpty)
  | _ => return ()

/-- Takes the distance of a place's time from the universal one, if it stands here. -/
def zone : Reader Unit := do
  match ← get with
  | 'Z' :: rest | 'z' :: rest => set rest
  | '+' :: rest | '-' :: rest =>
    set rest
    clockTime
  | _ => return ()

/-- Takes the time that may follow a date. -/
def timeOfDate : Reader Unit := do
  expect 'T' <|> expect 't' <|> expect ' '
  time
  zone

/-- A date, a time or both. -/
def moment : Reader Datum := do
  (do date; timeOfDate <|> pure ()) <|> time
  return .other

/-- A value of one word. -/
def scalar : Reader Datum := moment <|> word

end SheetLedger.Toml
