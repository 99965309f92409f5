/-!
# The shortest decimal of a binary number

A finite binary number is `m · 2 ^ q`. Reading a decimal back rounds to the nearest number of the
same format, so all decimals between the two midpoints to the neighbours read back as the same
number, the midpoints themselves if `m` is even. Of those decimals the one with the fewest digits is
wanted, and of several such the nearest.

`shortest` looks at the grids `10 ^ e` from coarse to fine, starting with one digit. On each grid
only the two neighbours of the number can be its nearest points, and if any grid point lies in the
interval so does one of these two. All arithmetic is on natural numbers and exact.

## Main definitions

* `Interval`: a number and its rounding interval over a common denominator.
* `Digits`: a decimal `coefficient · 10 ^ exponent`.
* `shortest`: the shortest decimal in the interval.
-/

namespace AssetPack.Decimal

/-- A number `value / unit` with the interval of the reals that round to it. -/
structure Interval where
  /-- Numerator of the number. -/
  value : Nat
  /-- Numerator of the lower end. -/
  low : Nat
  /-- Numerator of the upper end. -/
  high : Nat
  /-- The common denominator, not zero. -/
  unit : Nat
  /-- Whether the ends belong to the interval. -/
  closed : Bool
  deriving DecidableEq, Repr

/-- A decimal number `coefficient · 10 ^ exponent`. -/
structure Digits where
  /-- The digits as a whole number. -/
  coefficient : Nat
  /-- The power of ten they are counted in. -/
  exponent : Int
  deriving DecidableEq, Repr

namespace Interval

/-- The interval counted in units of `10 ^ e`. -/
def scale (i : Interval) (e : Int) : Interval :=
  match e with
  | .ofNat n => { i with unit := i.unit * Nat.pow 10 n }
  | .negSucc n =>
    let factor := Nat.pow 10 (n + 1)
    { i with value := i.value * factor, low := i.low * factor, high := i.high * factor }

/-- Whether the whole number `n` lies in the interval. -/
def contains (i : Interval) (n : Nat) : Bool :=
  if i.closed then i.low ≤ n * i.unit && n * i.unit ≤ i.high
  else i.low < n * i.unit && n * i.unit < i.high

/-- The whole number in the interval next to the number: the one below it or the one above,
whichever is nearer, and the one above if both are equally near. -/
def wholePoint? (i : Interval) : Option Nat :=
  let below := i.value / i.unit
  match i.contains below, i.contains (below + 1) with
  | true, true => if 2 * (i.value % i.unit) < i.unit then some below else some (below + 1)
  | true, false => some below
  | false, true => some (below + 1)
  | false, false => none

end Interval

/-- The number of decimal digits before the point of a number that is at least one. -/
def digitCount (n : Nat) : Nat := (Nat.toDigits 10 n).length

/-- How many zeros follow the point of `value / unit` when it is below one, `fuel` at most. -/
def leadingZeros (value unit : Nat) : Nat → Nat
  | 0 => 0
  | fuel + 1 => if unit ≤ value * 10 then 0 else leadingZeros (value * 10) unit fuel + 1

/-- The least `k` with `value / unit < 10 ^ k`, for a number above `10 ^ (-400)`. -/
def magnitude (i : Interval) : Int :=
  if i.unit ≤ i.value then digitCount (i.value / i.unit)
  else - (leadingZeros i.value i.unit 400 : Int)

/-- The first grid point in the interval on the grids `10 ^ top`, `10 ^ (top - 1)`, …, of which
`more` come after the first. The last grid is taken as it is. -/
def search (i : Interval) (top : Int) : Nat → Digits
  | 0 => ⟨(i.scale top).value / (i.scale top).unit, top⟩
  | more + 1 =>
    match (i.scale top).wholePoint? with
    | some n => ⟨n, top⟩
    | none => search i (top - 1) more

/-- No binary format in use needs more digits than this to be read back. -/
def mostDigits : Nat := 17

/-- The shortest decimal in the interval, the nearest of several. -/
def shortest (i : Interval) : Digits := search i (magnitude i - 1) mostDigits

/-- The digits of a decimal without the zeros at their end, which move into the exponent. -/
def Digits.strip (d : Digits) : Nat → Digits
  | 0 => d
  | fuel + 1 =>
    if d.coefficient % 10 = 0 ∧ d.coefficient ≠ 0 then
      Digits.strip ⟨d.coefficient / 10, d.exponent + 1⟩ fuel
    else d

/-- A decimal in positional notation, however long: no exponent, and a point only before digits that
are not all zero. -/
def Digits.positional (d : Digits) : List Char :=
  let d := d.strip (digitCount d.coefficient)
  let digits := Nat.toDigits 10 d.coefficient
  match d.exponent with
  | .ofNat n => digits ++ List.replicate n '0'
  | .negSucc n =>
    let places := n + 1
    if places < digits.length then
      digits.take (digits.length - places) ++ ['.'] ++ digits.drop (digits.length - places)
    else ['0', '.'] ++ List.replicate (places - digits.length) '0' ++ digits

end AssetPack.Decimal
