import AssetPack.Decimal.Shortest

/-!
# Binary numbers and their text

A stored real is a bit pattern: a sign, a biased exponent and a fraction. `BinaryFormat` gives the
widths, so that the single and the double width are two values of one type.

The text of a real is the shortest decimal that reads back to it, in positional notation. A whole
number has no point, zero keeps its sign, and no sign is shown for what is not a number.
-/

namespace AssetPack.Decimal

/-- The widths of the fields of a bit pattern, below the sign bit. -/
structure BinaryFormat where
  /-- Bits of the biased exponent. -/
  exponentBits : Nat
  /-- Bits of the fraction. -/
  fractionBits : Nat
  deriving DecidableEq, Repr

namespace BinaryFormat

/-- Four bytes. -/
def single : BinaryFormat := ⟨8, 23⟩

/-- Eight bytes. -/
def double : BinaryFormat := ⟨11, 52⟩

end BinaryFormat

/-- What a bit pattern stands for. -/
inductive Binary where
  | nan
  | infinite (negative : Bool)
  /-- The number `significand · 2 ^ exponent`. -/
  | finite (negative : Bool) (significand : Nat) (exponent : Int)
  deriving DecidableEq, Repr

namespace Binary

/-- The meaning of a bit pattern. -/
def ofBits (format : BinaryFormat) (bits : Nat) : Binary :=
  let implicitOne := Nat.pow 2 format.fractionBits
  let exponents := Nat.pow 2 format.exponentBits
  let fraction := bits % implicitOne
  let biased := bits / implicitOne % exponents
  let negative := bits / (implicitOne * exponents) % 2 == 1
  let bias : Int := (exponents / 2 - 1 + format.fractionBits : Nat)
  if biased = exponents - 1 then
    if fraction = 0 then infinite negative else nan
  else if biased = 0 then finite negative fraction (1 - bias)
  else finite negative (implicitOne + fraction) (biased - bias)

/-- The rounding interval of `significand · 2 ^ exponent`. Numerators count quarters of the spacing
above the number. Right above a power of two the spacing below is half as wide. -/
def interval (format : BinaryFormat) (significand : Nat) (exponent : Int) : Interval :=
  let value := 4 * significand
  let low := if significand = Nat.pow 2 format.fractionBits then value - 1 else value - 2
  let high := value + 2
  let closed := significand % 2 == 0
  match exponent - 2 with
  | .ofNat n => ⟨value * Nat.pow 2 n, low * Nat.pow 2 n, high * Nat.pow 2 n, 1, closed⟩
  | .negSucc n => ⟨value, low, high, Nat.pow 2 (n + 1), closed⟩

/-- The text of a binary number. -/
def text (format : BinaryFormat) : Binary → String
  | nan => "NaN"
  | infinite negative => if negative then "-inf" else "inf"
  | finite negative significand exponent =>
    let magnitude :=
      if significand = 0 then ['0']
      else (shortest (interval format significand exponent)).positional
    String.ofList (if negative then '-' :: magnitude else magnitude)

end Binary

end AssetPack.Decimal
