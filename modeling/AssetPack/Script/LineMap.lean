import AssetPack.Decoder

/-!
# Line maps

A line map says where in the source a token stood. It is stored as pairs of a signed token number
and a packed position, in any order; a later pair for the same token takes the place of the earlier
one. In memory it is a list with strictly ascending token numbers.

A packed position has the line in its low 24 bits and the column above.
-/

namespace AssetPack.Script

/-- A position in source text. -/
structure SourcePosition where
  /-- Line number. -/
  line : UInt32
  /-- Column number. -/
  column : UInt32
  deriving DecidableEq, Repr

/-- The position that a packed word holds. -/
def SourcePosition.unpack (packed : UInt32) : SourcePosition := ⟨packed &&& 0xFFFFFF, packed >>> 24⟩

/-- Packed positions by token number, ascending. -/
abbrev LineMap := List (Int32 × UInt32)

namespace LineMap

/-- The packed position of a token. -/
def find? (map : LineMap) (token : Int32) : Option UInt32 := map.lookup token

/-- Set the packed position of a token. -/
def insert (token : Int32) (packed : UInt32) : LineMap → LineMap
  | [] => [(token, packed)]
  | (t, p) :: rest =>
    if token < t then (token, packed) :: (t, p) :: rest
    else if token = t then (token, packed) :: rest
    else (t, p) :: insert token packed rest

/-- Read one pair. The eight bytes are taken in one step. -/
def decodePair : Decoder RecordError (Int32 × UInt32) := do
  let bytes ← Decoder.mapError (.truncated .lineEntry) (Decoder.readBytes 8)
  return ((UInt32.ofNat (LittleEndian.decode (bytes.take 4))).toInt32,
    UInt32.ofNat (LittleEndian.decode (bytes.drop 4)))

/-- Read `count` pairs into a map. -/
def decodeInto : Nat → LineMap → Decoder RecordError LineMap
  | 0, map => pure map
  | count + 1, map => do
    let (token, packed) ← decodePair
    match find? map token with
    | some before => Decoder.note (.lineReplaced token before packed)
    | none => pure ()
    decodeInto count (insert token packed map)

/-- Read a line map of `count` pairs. -/
def decode (count : UInt32) : Decoder RecordError LineMap := decodeInto count.toNat []

end LineMap

end AssetPack.Script
