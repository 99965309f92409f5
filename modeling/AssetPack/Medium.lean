import AssetPack.Script.Record

/-!
# Media

A medium is the whole content of a container file. Consumers get byte ranges cut from it, or cursors
over such ranges that remember where in the medium they are.
-/

namespace AssetPack

/-- The content of a container file. -/
structure Medium where
  /-- All bytes. -/
  data : Bytes
  deriving DecidableEq, Repr

namespace Medium

/-- The bytes `[offset, offset + length)`, or all from `offset` on. -/
def range (m : Medium) (offset : UInt64) (length : Option UInt64) : Except Bounds Bytes :=
  let total := m.data.length
  let available := total - offset.toNat
  let wanted := (length.map UInt64.toNat).getD available
  if total < offset.toNat ∨ available < wanted then .error ⟨offset.toNat, wanted, available⟩
  else .ok ((m.data.drop offset.toNat).take wanted)

/-- A cursor at the start of a range. -/
def cursor (m : Medium) (offset : UInt64) (length : Option UInt64) : Except Bounds Cursor :=
  (m.range offset length).map fun bytes => Cursor.start bytes offset.toNat

open Script in
/-- The script record in a range, and the notices of reading it. -/
def script (m : Medium) (offset : UInt64) (length : Option UInt64) :
    Except ScriptError Record × List Notice :=
  match m.cursor offset length with
  | .error e => (.error (.bounds e), [])
  | .ok c =>
    let p := Record.decode.run c
    (p.outcome.mapError .record, p.notices)

end Medium

end AssetPack
