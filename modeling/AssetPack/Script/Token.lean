import AssetPack.Decoder
import AssetPack.Script.Opcode

/-!
# Tokens

A token is a 32-bit word: the opcode in bits 0 to 6, a marker in bit 7, the operand in bits 8 to 31.
In the stream it takes one byte if the marker is clear, and then it has no operand; with the marker
set it takes all four bytes, least significant first. The first byte is the one with the marker, so
a reader knows the size after one byte.
-/

namespace AssetPack.Script

/-- A token word as read, the size marker included. -/
structure Token where
  /-- The word. -/
  word : UInt32
  deriving DecidableEq, Repr

namespace Token

/-- The number of the opcode. -/
def opcode (t : Token) : UInt8 := (t.word &&& 0x7F).toUInt8

/-- The operand. -/
def operand (t : Token) : UInt32 := t.word >>> 8

/-- Whether the token takes four bytes in the stream. -/
def isWide (t : Token) : Bool := t.word &&& 0x80 != 0

/-- The opcode, if its number is one. -/
def op? (t : Token) : Option Opcode := Opcode.ofNumber? t.opcode.toNat

/-- The word of an opcode number and an operand, of which the low 24 bits are kept. -/
def ofParts (number : UInt8) (operand : UInt32) : Token := ⟨number.toUInt32 ||| (operand <<< 8)⟩

/-- A token with a given opcode number, if there is such an opcode. -/
def make? (number : UInt8) (operand : UInt32) : Option Token :=
  (Opcode.ofNumber? number.toNat).map fun _ => ofParts number operand

/-- A token in diagnostics: its name and operand, or the whole word. -/
def describe (t : Token) : String :=
  match t.op? with
  | some op => s!"{op.name}(0x{Numeral.hex t.operand.toNat})"
  | none => s!"TokenWord(0x{Numeral.hex t.word.toNat 8})"

/-- Read a token. The cursor moves only on success. -/
def decode : Decoder RecordError Token := do
  let first ← Decoder.mapError (.truncated .token) Decoder.peekByte
  if first &&& 0x80 != 0 then
    let word ← Decoder.mapError (.truncated .wideToken) Decoder.readWord
    return ⟨word⟩
  else
    Decoder.mapError (.truncated .token) (Decoder.skip 1)
    return ⟨first.toUInt32⟩

/-- Read a stream of `count` tokens. -/
def decodeMany (count : UInt32) : Decoder RecordError (List Token) :=
  Decoder.times count.toNat decode

end Token

end AssetPack.Script
