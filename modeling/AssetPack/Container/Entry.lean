import AssetPack.Decoder
import AssetPack.Md5
import AssetPack.Text.Utf8

/-!
# Entries of a container

An entry names an asset, says where its bytes are, and keeps their digest. It is stored as a length
word, that many bytes of name with padding to a multiple of four, two signed 64-bit words and
sixteen bytes of digest.

The name usually starts with `res://`, which stands for the root of the container and is no part of
the path.
-/

namespace AssetPack.Container

/-- The word that every container starts with, the letters `GDPC`. -/
def magic : UInt32 := 0x43504447

/-- An index that cannot be read. -/
inductive IndexError where
  /-- The first word is not the magic. -/
  | badMagic (found : UInt32)
  /-- An entry with a negative offset or size. -/
  | negativeRange (index : Nat) (offset size : Int64)
  /-- The container ends inside the index. -/
  | bounds (error : Bounds)
  deriving DecidableEq, Repr

/-- The error in words. -/
def IndexError.message : IndexError → String
  | badMagic found =>
    s!"invalid pack magic: found 0x{Numeral.hex found.toNat 8}, " ++
      s!"expected 0x{Numeral.hex magic.toNat 8}"
  | negativeRange index offset size =>
    s!"pack entry {index} has a negative range: offset={Numeral.signed offset.toInt}, " ++
      s!"size={Numeral.signed size.toInt}"
  | bounds error => error.message

/-- An asset of a container. -/
structure Entry where
  /-- The full name. -/
  name : String
  /-- Offset of the first byte in the container. -/
  offset : UInt64
  /-- How many bytes there are. -/
  size : UInt64
  /-- The stored digest of these bytes. -/
  digest : Bytes
  deriving DecidableEq, Repr

namespace Entry

/-- What a name may start with. -/
def rootMarker : String := "res://"

/-- The characters behind a marker at the start, or all of them if it is not there. -/
def afterMarker (marker chars : List Char) : List Char :=
  if marker.isPrefixOf chars then chars.drop marker.length else chars

/-- The name without the root marker. -/
def relativePath (e : Entry) : String :=
  String.ofList (afterMarker rootMarker.toList e.name.toList)

/-- What comes behind the last `sep`, or everything if there is none. -/
def afterLast (sep : Char) (chars : List Char) : List Char :=
  (chars.reverse.takeWhile (· != sep)).reverse

/-- What comes before the last `sep`, if there is one. -/
def beforeLast? (sep : Char) (chars : List Char) : Option (List Char) :=
  match chars.reverse.dropWhile (· != sep) with
  | [] => none
  | _ :: rest => some rest.reverse

/-- The text behind the last dot of the last segment. A dot at the start of the segment does not
begin an extension. -/
def extension? (e : Entry) : Option String :=
  let fileName := afterLast '/' e.relativePath.toList
  match beforeLast? '.' fileName with
  | none => none
  | some [] => none
  | some (_ :: _) => some (String.ofList (afterLast '.' fileName))

/-- The extension of compiled scripts. -/
def scriptExtension : String := "gdc"

/-- Whether the asset is a compiled script, going by its name. -/
def isScript (e : Entry) : Bool := e.extension? == some scriptExtension

/-- Whether bytes have the stored digest. -/
def verify (e : Entry) (payload : Bytes) : Bool := Md5.digest payload == e.digest

/-- Read the entry with a given place in the index. A negative range is noticed after the whole
entry has been passed. -/
def decode (index : Nat) : Decoder IndexError Entry := do
  let length ← Decoder.mapError .bounds Decoder.readWord
  let name ← Decoder.mapError .bounds (Decoder.readBytes length.toNat)
  Decoder.mapError .bounds (Decoder.alignTo 4)
  let offset ← Decoder.mapError .bounds Decoder.readLong
  let size ← Decoder.mapError .bounds Decoder.readLong
  let digest ← Decoder.mapError .bounds (Decoder.readBytes 16)
  Decoder.mapError .bounds (Decoder.alignTo 4)
  if offset < 0 ∨ size < 0 then
    Decoder.fail (.negativeRange index offset size)
  else
    return ⟨Utf8.text name, offset.toUInt64, size.toUInt64, digest⟩

end Entry

end AssetPack.Container
