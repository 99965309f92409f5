import AssetPack.Cursor
import AssetPack.Script.ValueKind

/-!
# What can be wrong with a script

Three kinds of trouble, one type each: the record cannot be decoded (`RecordError`), its tokens
cannot be written out (`ListingError`), or the report does not fit its writer (`ReportError`).
`ScriptError` is what can go wrong between a byte range and its text.

Each type states causes; the wording is in the `message` function beside it.
-/

namespace AssetPack.Script

/-- The part of a record that a truncation cut off. -/
inductive Part where
  | header
  | identifierLength
  | identifier
  | constantKind
  | constantPayload
  | constantPadding
  | stringLength
  | string
  | stringPadding
  | nodePath
  | poolLength
  | lineEntry
  | token
  | wideToken
  deriving DecidableEq, Repr

/-- The name of a part in messages. -/
def Part.name : Part → String
  | header => "header"
  | identifierLength => "identifier length"
  | identifier => "identifier"
  | constantKind => "constant kind"
  | constantPayload => "constant payload"
  | constantPadding => "constant padding"
  | stringLength => "string length"
  | string => "string"
  | stringPadding => "string padding"
  | nodePath => "node path"
  | poolLength => "pool array length"
  | lineEntry => "line map entry"
  | token => "token"
  | wideToken => "wide token"

/-- The word that every compiled script starts with, the letters `GDSC`. -/
def signature : UInt32 := 0x43534447

/-- A record that cannot be decoded. -/
inductive RecordError where
  /-- The first word is not the signature. -/
  | badSignature (found : UInt32)
  /-- The range ends inside a part. -/
  | truncated (part : Part) (bounds : Bounds)
  /-- A kind whose payload has no readable form. -/
  | unsupported (kind : ValueKind)
  /-- A number that no kind has. -/
  | unknownKind (number : UInt32)
  deriving DecidableEq, Repr

/-- The error in words. -/
def RecordError.message : RecordError → String
  | badSignature found =>
    s!"bad signature: found 0x{Numeral.hex found.toNat 8}, " ++
      s!"expected 0x{Numeral.hex signature.toNat 8}"
  | truncated part bounds =>
    s!"truncated {part.name} at 0x{Numeral.hex bounds.offset}: need {bounds.length} bytes, " ++
      s!"{bounds.available} available"
  | unsupported kind => s!"unsupported constant kind: {kind.name}"
  | unknownKind number => s!"unknown constant kind: {number.toNat}"

/-- A table that token operands point into. -/
inductive Table where
  | identifier
  | constant
  | builtinType
  /-- The first builtin type, which exists but has no name in source text. -/
  | builtinNil
  | builtinFunction
  deriving DecidableEq, Repr

/-- The name of a table in messages. -/
def Table.name : Table → String
  | identifier => "identifier"
  | constant => "constant"
  | builtinType => "builtin type"
  | builtinNil => "builtin type (nil)"
  | builtinFunction => "builtin function"

/-- A token that has no text. -/
inductive ListingError where
  /-- The operand points past the end of a table of `length` entries. -/
  | badIndex (table : Table) (index : UInt32) (length : Nat)
  /-- No kind of token has this opcode. -/
  | unknownToken (opcode : UInt8) (position : Nat)
  deriving DecidableEq, Repr

/-- The error in words. -/
def ListingError.message : ListingError → String
  | badIndex table index length =>
    s!"{table.name} index out of range: idx={index.toNat}, len={length}"
  | unknownToken opcode position =>
    s!"unknown token opcode 0x{Numeral.hex opcode.toNat 2} at token {position}"

/-- What can go wrong between a byte range of a medium and the text of the script in it. -/
inductive ScriptError where
  | bounds (error : Bounds)
  | record (error : RecordError)
  | listing (error : ListingError)
  deriving DecidableEq, Repr

/-- The error in words. -/
def ScriptError.message : ScriptError → String
  | bounds error => error.message
  | record error => error.message
  | listing error => error.message

/-- What can go wrong when a report is written. -/
inductive ReportError where
  /-- The writer refused a piece. -/
  | writerFull
  | listing (error : ListingError)
  deriving DecidableEq, Repr

/-- The error in words. -/
def ReportError.message : ReportError → String
  | writerFull => "formatting failed"
  | listing error => error.message

end AssetPack.Script
