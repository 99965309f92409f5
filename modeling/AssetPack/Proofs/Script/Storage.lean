import AssetPack.Proofs.Reading
import AssetPack.Script.Record

/-!
# How a script record is stored

The storage of a record as a relation, written without a decoder. Each part says which byte strings
stand for it:

```
header       six words: signature, version, four table sizes
identifiers  each a length word and that many masked bytes
constants    each a tag word, a payload in the layout of its kind, and padding behind a string
line map     each pair two words, token number and packed position
tokens       each one byte if the marker is clear, else four
```

Only padding depends on where the record is: it reaches to the next *absolute* multiple of four, so
the formats of constants take the absolute position they start at. Padding may hold any bytes.

## Main definitions

* `Header.format`, `Identifier.format`, `Constant.format`, `LineMap.format`, `Token.format`: the
  parts.
* `Layout.Holds`: whether a payload is in a layout.
* `LineMap.LastWins`: the map that pairs describe.
* `Record.format`: the whole.
-/

namespace AssetPack.Script

open LittleEndian (word)

/-- The error says that the range ended too early. -/
def RecordError.IsTruncation (e : RecordError) : Prop := ∃ part bounds, e = .truncated part bounds

/-! ### Header -/

/-- The six words of a header. -/
def Header.encode (h : Header) : Bytes :=
  word h.signature ++ word h.version ++ word h.identifiers ++ word h.constants ++ word h.lines ++
    word h.tokens

/-- A header is its six words, the first of which is the signature. -/
def Header.format : Format Header := fun h bytes =>
  h.signature = Script.signature ∧ bytes = h.encode

/-! ### Identifiers -/

/-- Masked bytes with their length in front. -/
def Identifier.frame (stored : Bytes) : Bytes := LittleEndian.encode 4 stored.length ++ stored

/-- An identifier is any framed byte string that spells it once the mask is undone. -/
def Identifier.format : Format String := fun name bytes =>
  ∃ stored : Bytes, stored.length < 2 ^ 32 ∧ name = Identifier.unmask stored ∧
    bytes = Identifier.frame stored

/-! ### Constants -/

/-- `pad` reaches from an absolute position to the next multiple of four. -/
def Pads (position : Nat) (pad : Bytes) : Prop := pad.length < 4 ∧ 4 ∣ position + pad.length

/-- A length word, the bytes it counts, and padding behind them. -/
inductive PaddedString (position : Nat) : Bytes → Prop where
  | mk (length : UInt32) (text pad : Bytes) (hlength : text.length = length.toNat)
    (hpad : Pads (position + 4 + text.length) pad) :
    PaddedString position (word length ++ text ++ pad)

/-- As many padded strings as `count` says, one after another. -/
inductive PaddedStrings : Nat → Nat → Bytes → Prop where
  | nil (position : Nat) : PaddedStrings position 0 []
  | cons {position count : Nat} {front back : Bytes} (head : PaddedString position front)
    (tail : PaddedStrings (position + front.length) count back) :
    PaddedStrings position (count + 1) (front ++ back)

/-- Whether a payload that starts at an absolute position is in a layout. -/
def Layout.Holds (wide : Bool) (position : Nat) : Layout → Bytes → Prop
  | .fixed size, payload => payload.length = size
  | .number, payload => payload.length = if wide then 8 else 4
  | .string, payload =>
    ∃ (length : UInt32) (text : Bytes), text.length = length.toNat ∧ payload = word length ++ text
  | .nodePath, payload =>
    ∃ (names subnames flags : UInt32) (strings : Bytes),
      PaddedStrings (position + 12) ((names &&& 0x7FFFFFFF).toNat + subnames.toNat) strings ∧
        payload = word names ++ word subnames ++ word flags ++ strings
  | .pool elementSize, payload =>
    ∃ (count : UInt32) (elements : Bytes), elements.length = count.toNat * elementSize ∧
      payload = word count ++ elements
  | .unsupported, _ => False

/-- What may stand behind a payload that ends at an absolute position. -/
def Constant.PadsBehind (kind : ValueKind) (position : Nat) (pad : Bytes) : Prop :=
  if kind = .string then Pads position pad else pad = []

/-- A constant is its tag word, its payload and the padding behind. -/
def Constant.format (position : Nat) : Format Constant := fun c bytes =>
  ∃ pad, c.kind.layout.Holds c.wide (position + 4) c.payload ∧
    Constant.PadsBehind c.kind (position + 4 + c.payload.length) pad ∧
    bytes = word (ValueKind.tag c.kind c.wide) ++ c.payload ++ pad

/-! ### Line map -/

/-- The eight bytes of a pair. -/
def LineMap.encodePair (pair : Int32 × UInt32) : Bytes := word pair.1.toUInt32 ++ word pair.2

/-- The map that pairs describe: ascending, and each token has the position of its last pair. -/
structure LineMap.LastWins (pairs : List (Int32 × UInt32)) (map : LineMap) : Prop where
  /-- Every token number occurs once, and they ascend. -/
  ascending : map.Pairwise fun a b => a.1 < b.1
  /-- Looking up a token finds the last pair that names it. -/
  find?_eq : ∀ token, map.find? token = pairs.reverse.lookup token

/-- A line map is any list of `count` pairs that describe it. -/
def LineMap.format (count : Nat) : Format LineMap := fun map bytes =>
  ∃ pairs, pairs.length = count ∧ LineMap.LastWins pairs map ∧
    bytes = pairs.flatMap LineMap.encodePair

/-! ### Tokens -/

/-- The bytes of a token: all four if the marker is set, else the lowest. -/
def Token.encode (t : Token) : Bytes :=
  if t.isWide then LittleEndian.word t.word else [t.word.toUInt8]

/-- Whether a token has a stored form: the marker is set, or there is nothing above it. -/
def Token.Storable (t : Token) : Prop := t.isWide = true ∨ t.word < 0x80

/-- A token is its bytes. -/
def Token.format : Format Token := fun t bytes => t.Storable ∧ bytes = t.encode

/-! ### The record -/

namespace Record

/-- The bytes of the five parts of a record in a row. -/
def join (r : Record) (stored : List Bytes) (pool : Bytes) (pairs : List (Int32 × UInt32)) :
    Bytes :=
  r.header.encode ++ stored.flatMap Identifier.frame ++ pool ++ pairs.flatMap LineMap.encodePair ++
    r.tokens.flatMap Token.encode

/-- The parts belong to the record, which starts at an absolute position: `stored` are the masked
identifiers, `pool` is the constant pool, `pairs` are the pairs of the line map. -/
structure Parts (position : Nat) (r : Record) (stored : List Bytes) (pool : Bytes)
    (pairs : List (Int32 × UInt32)) : Prop where
  signature : r.header.signature = Script.signature
  identifierCount : stored.length = r.header.identifiers.toNat
  storedLength : ∀ s ∈ stored, s.length < 2 ^ 32
  identifiers : r.identifiers = stored.map Identifier.unmask
  constantCount : r.constants.length = r.header.constants.toNat
  constants : Format.list Constant.format
    (position + Header.size + (stored.flatMap Identifier.frame).length) r.constants pool
  lineCount : pairs.length = r.header.lines.toNat
  lineMap : LineMap.LastWins pairs r.lineMap
  tokenCount : r.tokens.length = r.header.tokens.toNat
  tokens : ∀ t ∈ r.tokens, t.Storable

/-- A record is its five parts in a row, and it knows how many bytes they are. -/
def format (position : Nat) : Format Record := fun r bytes =>
  ∃ stored pool pairs, Parts position r stored pool pairs ∧ bytes = r.join stored pool pairs ∧
    r.encodedLength = bytes.length

end Record

end AssetPack.Script
