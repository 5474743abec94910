/-!
# Shortest decimal texts

The text of a double: the fewest digits that read back as the same double, always written out in
full, never with an exponent.

A finite positive double is `mantissa * 2 ^ exponent`. The decimals that read back as it fill an
interval around it, whose ends belong to it exactly when the mantissa is even. Among the grids of
all multiples of a power of ten, the coarsest one with a point inside the interval gives the fewest
digits, and of the two points next to the double the nearer one is taken; of two equally near ones,
the upper. All of this is exact arithmetic on natural numbers.
-/

namespace SheetLedger.Shortest

/-- A finite positive double, the number `mantissa * 2 ^ exponent`. -/
structure Binary where
  mantissa : Nat
  exponent : Int
deriving Repr, DecidableEq

/-- A decimal, the number `digits * 10 ^ exponent`. -/
structure Digits where
  digits : Nat
  exponent : Int
deriving Repr, DecidableEq

/-- The leading bit of a mantissa, which is not among the bits of a double. -/
def Binary.leadingBit : Nat := 1 <<< 52

/-- The finite double with the given bits, the sign left aside. -/
def Binary.ofBits (bits : UInt64) : Binary :=
  let biased := bits.toNat / leadingBit % 2048
  let fraction := bits.toNat % leadingBit
  if biased = 0 then ⟨fraction, -1074⟩ else ⟨leadingBit + fraction, (biased : Int) - 1075⟩

/-- The two points of the grid of multiples of `10 ^ e` next to `x`, and which of them read back
as `x`. Distances are counted in quarters of the last binary digit: the neighbours of `x` lie four
quarters away, the one below a power of two only two. -/
structure Grid where
  /-- The multiple at or below the double. -/
  lower : Nat
  /-- Whether the lower point reads back. -/
  lowerInside : Bool
  /-- Whether the upper point reads back. -/
  upperInside : Bool
  /-- Whether the lower point is strictly nearer. -/
  lowerNearer : Bool

/-- The grid of multiples of `10 ^ e` around `x`. A point `n` of the grid is `n * p / r` quarters,
where `p / r` is `10 ^ e` divided by `2 ^ (exponent - 2)`. -/
def Grid.around (x : Binary) (e : Int) : Grid :=
  let quarter := x.exponent - 2
  let p := Nat.pow 10 e.toNat <<< (-quarter).toNat
  let r := Nat.pow 10 (-e).toNat <<< quarter.toNat
  let value := 4 * x.mantissa
  -- below a power of two the doubles lie twice as close
  let low := value - (if x.mantissa = Binary.leadingBit then 1 else 2)
  let high := value + 2
  -- ties go to an even mantissa, so the ends of its interval read back to it
  let closed := x.mantissa % 2 = 0
  let lower := value * r / p
  let within (n : Nat) : Bool :=
    if closed then low * r ≤ n * p && n * p ≤ high * r
    else low * r < n * p && n * p < high * r
  { lower
    lowerInside := lower ≠ 0 && within lower
    upperInside := within (lower + 1)
    lowerNearer := 2 * (value * r) < (2 * lower + 1) * p }

/-- The point of the grid that is taken, if one reads back. -/
def Grid.choice? (g : Grid) : Option Nat :=
  match g.lowerInside, g.upperInside with
  | true, true => some (if g.lowerNearer then g.lower else g.lower + 1)
  | true, false => some g.lower
  | false, true => some (g.lower + 1)
  | false, false => none

/-- The first grid with a point that reads back, from `10 ^ e` down to finer ones. -/
def search (x : Binary) : Nat → Int → Digits
  | 0, e => ⟨(Grid.around x e).lower, e⟩
  | steps + 1, e =>
    match (Grid.around x e).choice? with
    | some n => ⟨n, e⟩
    | none => search x steps (e - 1)

/-- The shortest decimal of a finite positive double. Since `1233 / 4096` is the logarithm of two to
the base ten up to five places, the search starts above the double and at most three powers of ten
above its leading digit; seventeen digits always suffice, so it ends within the steps. -/
def ofBinary (x : Binary) : Digits :=
  let top := (x.mantissa.log2 + 1 : Int) + x.exponent
  search x 25 (top * 1233 / 4096 + 2)

/-- A decimal written out in full: zeros fill the places up to the point, and a number below one
starts with `0.`. -/
def Digits.toText (d : Digits) : String :=
  let text := toString d.digits
  if 0 ≤ d.exponent then text ++ "".pushn '0' d.exponent.toNat
  else
    let places := d.exponent.natAbs
    let padded := ("".pushn '0' (places + 1 - text.length) ++ text).toList
    String.ofList (padded.take (padded.length - places)) ++ "." ++
      String.ofList (padded.drop (padded.length - places))

/-- The text of a double: `NaN`, `+Inf` and `-Inf` for what is no number, `-0` for the negative
zero, and otherwise the shortest decimal written out in full. -/
def ofFloat (x : Float) : String :=
  if x.isNaN then "NaN"
  else if x.isInf then (if 0.0 < x then "+Inf" else "-Inf")
  else
    let bits := x.toBits
    let sign := if bits.toNat < 1 <<< 63 then "" else "-"
    let b := Binary.ofBits bits
    sign ++ (if b.mantissa = 0 then "0" else (ofBinary b).toText)

end SheetLedger.Shortest
