import AssetPack.Decimal.Binary
import AssetPack.Decoder
import AssetPack.Text.Utf8

/-!
# Constants

A constant is a kind, the wide flag and the raw bytes of its payload. In the pool it is a tag word,
the payload, and after a string the padding up to the next absolute multiple of four.

Reading goes in two steps. First the payload is measured without moving the cursor; then payload and
padding are taken. So whatever is wrong with a payload, the cursor stays right behind the tag word.

## Main definitions

* `Constant.decode`: read a constant.
* `Constant.text`: a constant as it appears in source text.
-/

namespace AssetPack.Script

/-- An entry of the constant pool. -/
structure Constant where
  /-- The kind of the value. -/
  kind : ValueKind
  /-- Whether a number takes eight bytes. -/
  wide : Bool
  /-- The bytes of the value as stored, without padding. -/
  payload : Bytes
  deriving DecidableEq, Repr

/-- How many bytes a payload has, and how many to the start of the next record. The two differ by
the padding behind a string. -/
structure Span where
  /-- Bytes of the payload. -/
  payload : Nat
  /-- Bytes of payload and padding. -/
  consumed : Nat
  deriving DecidableEq, Repr

namespace Span

/-- A payload with no padding behind it. -/
def exact (length : Nat) : Span := ⟨length, length⟩

/-- A length word, that many bytes, and padding to an absolute multiple of four. -/
def string : Decoder RecordError Span := do
  let start ← Decoder.here
  let length ← Decoder.mapError (.truncated .stringLength) Decoder.readWord
  Decoder.mapError (.truncated .string) (Decoder.skip length.toNat)
  Decoder.mapError (.truncated .stringPadding) (Decoder.alignTo 4)
  let stop ← Decoder.here
  return ⟨4 + length.toNat, stop.pos - start.pos⟩

/-- A word of which the top bit does not count, a second count, a word of flags, and as many strings
as the counts say. The padding of the strings belongs to the payload. -/
def nodePath : Decoder RecordError Span := do
  let start ← Decoder.here
  let names ← Decoder.mapError (.truncated .nodePath) Decoder.readWord
  let subnames ← Decoder.mapError (.truncated .nodePath) Decoder.readWord
  let _flags ← Decoder.mapError (.truncated .nodePath) Decoder.readWord
  let _spans ← Decoder.times ((names &&& 0x7FFFFFFF).toNat + subnames.toNat) string
  let stop ← Decoder.here
  return exact (stop.pos - start.pos)

/-- A count word and that many elements, of which only the count is looked at. -/
def pool (elementSize : Nat) : Decoder RecordError Span := do
  let count ← Decoder.mapError (.truncated .poolLength) Decoder.readWord
  return exact (4 + count.toNat * elementSize)

/-- The span of a payload of a given kind, as its own bytes tell it. -/
def ofKind (kind : ValueKind) (wide : Bool) : Decoder RecordError Span :=
  match kind.layout with
  | .fixed size => pure (exact size)
  | .number => pure (exact (if wide then 8 else 4))
  | .string => string
  | .nodePath => nodePath
  | .pool elementSize => pool elementSize
  | .unsupported => Decoder.fail (.unsupported kind)

/-- Measure the payload at the cursor and check that all of it is there. The cursor stays. -/
def measure (kind : ValueKind) (wide : Bool) : Decoder RecordError Span := do
  let span ← Decoder.lookahead (ofKind kind wide)
  let _ ← Decoder.mapError (.truncated .constantPayload) (Decoder.peekBytes span.consumed)
  return span

end Span

namespace Constant

/-- The nil value. -/
def nil : Constant := ⟨.nil, false, []⟩

/-- A truth value, stored as a word. -/
def bool (v : Bool) : Constant := ⟨.bool, false, LittleEndian.word (if v then 1 else 0)⟩

/-- A 32-bit number. -/
def int (v : Int32) : Constant := ⟨.int, false, LittleEndian.word v.toUInt32⟩

/-- A 64-bit number. -/
def int64 (v : Int64) : Constant := ⟨.int, true, LittleEndian.long v.toUInt64⟩

/-- A real of single width, by its bit pattern. -/
def real (bits : UInt32) : Constant := ⟨.real, false, LittleEndian.word bits⟩

/-- A real of double width, by its bit pattern. -/
def real64 (bits : UInt64) : Constant := ⟨.real, true, LittleEndian.long bits⟩

/-- A string, stored with its length in bytes in front. -/
def string (s : String) : Constant :=
  ⟨.string, false, LittleEndian.encode 4 (Bytes.ofText s).length ++ Bytes.ofText s⟩

/-- The numeral of a two's complement number, if the payload has the width that the flag says. -/
def integerText? (wide : Bool) (payload : Bytes) : Option String :=
  if wide then
    if payload.length = 8 then
      some (Numeral.signed (UInt64.ofNat (LittleEndian.decode payload)).toInt64.toInt)
    else none
  else if payload.length = 4 then
    some (Numeral.signed (UInt32.ofNat (LittleEndian.decode payload)).toInt32.toInt)
  else none

/-- The numeral of a real, if the payload has the width that the flag says. -/
def realText? (wide : Bool) (payload : Bytes) : Option String :=
  if wide then
    if payload.length = 8 then
      some (Decimal.Binary.text .double (.ofBits .double (LittleEndian.decode payload)))
    else none
  else if payload.length = 4 then
    some (Decimal.Binary.text .single (.ofBits .single (LittleEndian.decode payload)))
  else none

/-- The quoted text of a string payload, if it is long enough for its length word. -/
def stringText? (payload : Bytes) : Option String :=
  if 4 ≤ payload.length then some ("\"" ++ Utf8.text (payload.drop 4) ++ "\"") else none

/-- The form of a constant in source text, for the kinds that have one. -/
def sourceText? (c : Constant) : Option String :=
  match c.kind with
  | .nil => some "nil"
  | .bool => c.payload.head?.map fun b => if b != 0 then "True" else "False"
  | .int => integerText? c.wide c.payload
  | .real => realText? c.wide c.payload
  | .string => stringText? c.payload
  | _ => none

/-- A constant as it appears in source text. Whatever has no source form is written as the bytes of
its payload. -/
def text (c : Constant) : String := c.sourceText?.getD (Numeral.hexBytes c.payload)

/-- Read a constant. On failure the cursor is behind the tag word, or has not moved if there was no
tag word. -/
def decode : Decoder RecordError Constant := do
  let start ← Decoder.here
  let tag ← Decoder.mapError (.truncated .constantKind) Decoder.readWord
  let (kind, wide) ← Decoder.ofExcept ((ValueKind.ofTag tag).mapError .unknownKind)
  let span ← Span.measure kind wide
  let payload ← Decoder.mapError (.truncated .constantPayload) (Decoder.readBytes span.payload)
  Decoder.mapError (.truncated .constantPadding) (Decoder.skip (span.consumed - span.payload))
  Decoder.note (.constantRead kind wide start.pos payload.length)
  return ⟨kind, wide, payload⟩

end Constant

end AssetPack.Script
