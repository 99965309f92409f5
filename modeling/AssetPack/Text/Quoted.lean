import AssetPack.Text.Unprinted

/-!
# Quoted text

A text between double quotes, on one line, with nothing in it that a terminal would act on: the
usual letter escapes, and the code point in hexadecimal for a character that does not print.
-/

namespace AssetPack.Quoted

/-- A character as it stands between the quotes. -/
def escape (c : Char) : List Char :=
  if c == '"' then ['\\', '"']
  else if c == '\\' then ['\\', '\\']
  else if c == '\t' then ['\\', 't']
  else if c == '\n' then ['\\', 'n']
  else if c == '\r' then ['\\', 'r']
  else if c.toNat == 0 then ['\\', '0']
  else if Unprinted.contains c then ['\\', 'u', '\x7b'] ++ Nat.toDigits 16 c.toNat ++ ['\x7d']
  else [c]

/-- A text between double quotes. -/
def text (s : String) : String :=
  String.ofList (['"'] ++ s.toList.flatMap escape ++ ['"'])

end AssetPack.Quoted
