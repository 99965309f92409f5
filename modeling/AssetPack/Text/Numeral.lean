import AssetPack.Bytes

/-!
# Numerals

Numbers as the texts of this library write them: upper-case hexadecimal, with or without leading
zeros, and decimal padded to a width.
-/

namespace AssetPack.Numeral

/-- `text` with `fill` in front until it has `width` characters. -/
def padLeft (fill : Char) (width : Nat) (text : List Char) : List Char :=
  List.replicate (width - text.length) fill ++ text

/-- A hexadecimal digit, in upper case. -/
def hexDigit (n : Nat) : Char := (Nat.digitChar n).toUpper

/-- The hexadecimal digits of `n`, in upper case, no leading zeros. -/
def hexDigits (n : Nat) : List Char := (Nat.toDigits 16 n).map Char.toUpper

/-- `n` in upper-case hexadecimal with at least `width` digits. -/
def hex (n : Nat) (width : Nat := 1) : String := String.ofList (padLeft '0' width (hexDigits n))

/-- The two hexadecimal digits of a byte, in upper case. -/
def hexByte (b : UInt8) : List Char := [hexDigit (b.toNat / 16), hexDigit (b.toNat % 16)]

/-- The bytes in upper-case hexadecimal, one blank between two bytes. -/
def hexBytes (bytes : Bytes) : String :=
  String.ofList (List.intercalate [' '] (bytes.map hexByte))

/-- `n` in decimal with at least `width` digits. -/
def decimal (n : Nat) (width : Nat := 1) : String :=
  String.ofList (padLeft '0' width (Nat.toDigits 10 n))

/-- `n` in decimal, filled with zeros to `width` characters, the sign included. -/
def signed (n : Int) (width : Nat := 1) : String :=
  if n < 0 then "-" ++ decimal n.natAbs (width - 1) else decimal n.natAbs width

end AssetPack.Numeral
