import AssetPack.Container.Entry

/-!
# The index of a container

A container starts with a header of 88 bytes: the magic, the format version, the three parts of the
engine version, sixteen reserved words and the number of entries. The entries follow, then the
assets, which the index points to by absolute offset.
-/

namespace AssetPack.Container

/-- The header of a container. -/
structure Header where
  /-- Version of the container format. -/
  formatVersion : UInt32
  /-- First part of the engine version. -/
  engineMajor : UInt32
  /-- Second part of the engine version. -/
  engineMinor : UInt32
  /-- Third part of the engine version. -/
  enginePatch : UInt32
  /-- How many entries follow. -/
  fileCount : UInt32
  deriving DecidableEq, Repr

namespace Header

/-- Read a header. The cursor stays if the magic is wrong or missing. -/
def decode : Decoder IndexError Header := do
  let found ← Decoder.mapError .bounds Decoder.peekWord
  if found ≠ magic then
    Decoder.fail (.badMagic found)
  else
    Decoder.mapError .bounds (Decoder.skip 4)
    let formatVersion ← Decoder.mapError .bounds Decoder.readWord
    let engineMajor ← Decoder.mapError .bounds Decoder.readWord
    let engineMinor ← Decoder.mapError .bounds Decoder.readWord
    let enginePatch ← Decoder.mapError .bounds Decoder.readWord
    Decoder.mapError .bounds (Decoder.skip 64)
    let fileCount ← Decoder.mapError .bounds Decoder.readWord
    return ⟨formatVersion, engineMajor, engineMinor, enginePatch, fileCount⟩

/-- The engine version with dots between its parts. -/
def engineVersion (h : Header) : String :=
  s!"{h.engineMajor.toNat}.{h.engineMinor.toNat}.{h.enginePatch.toNat}"

end Header

/-- The header and all entries of a container. -/
structure Index where
  /-- The header. -/
  header : Header
  /-- The entries, in order. -/
  entries : List Entry
  deriving DecidableEq, Repr

namespace Index

/-- Read `count` entries, the first of which has place `index`. -/
def decodeEntries : Nat → Nat → Decoder IndexError (List Entry)
  | _, 0 => pure []
  | index, count + 1 => do
    let entry ← Entry.decode index
    let rest ← decodeEntries (index + 1) count
    return entry :: rest

/-- Read an index. -/
def decode : Decoder IndexError Index := do
  let header ← Header.decode
  let entries ← decodeEntries 0 header.fileCount.toNat
  let stop ← Decoder.here
  Decoder.note (.indexRead entries.length stop.pos)
  return ⟨header, entries⟩

/-- Read the index at the start of a container. -/
def ofBytes (bytes : Bytes) : Progress IndexError Index := decode.run (Cursor.start bytes)

end Index

end AssetPack.Container
