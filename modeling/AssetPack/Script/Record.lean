import AssetPack.Script.Identifier
import AssetPack.Script.LineMap
import AssetPack.Script.Listing

/-!
# Compiled script records

A record has five parts, one after the other:

* a header of six words: signature, bytecode version, and the sizes of the four tables;
* the identifiers;
* the constants;
* the pairs of the line map;
* the tokens.

All parts share one cursor. Sizes in the header are not trusted: a table that claims more entries
than there are bytes for ends in a truncation error.
-/

namespace AssetPack.Script

/-- The header of a record. -/
structure Header where
  /-- The first word, always `signature`. -/
  signature : UInt32
  /-- The version of the bytecode. -/
  version : UInt32
  /-- How many identifiers follow. -/
  identifiers : UInt32
  /-- How many constants follow. -/
  constants : UInt32
  /-- How many pairs of the line map follow. -/
  lines : UInt32
  /-- How many tokens follow. -/
  tokens : UInt32
  deriving DecidableEq, Repr

namespace Header

/-- The length of a header in bytes. -/
def size : Nat := 24

/-- The bytecode version that the opcode and kind tables belong to. -/
def knownVersion : UInt32 := 13

/-- The word with a given number in a run of words. -/
def wordAt (bytes : Bytes) (index : Nat) : UInt32 :=
  UInt32.ofNat (LittleEndian.decode ((bytes.drop (4 * index)).take 4))

/-- The header that twenty-four bytes spell, unless the signature is wrong. -/
def ofBytes (bytes : Bytes) : Except RecordError Header :=
  if wordAt bytes 0 = Script.signature then
    .ok ⟨wordAt bytes 0, wordAt bytes 1, wordAt bytes 2, wordAt bytes 3, wordAt bytes 4,
      wordAt bytes 5⟩
  else .error (.badSignature (wordAt bytes 0))

/-- Read a header. The cursor moves only on success. -/
def decode : Decoder RecordError Header := do
  let bytes ← Decoder.mapError (.truncated .header) (Decoder.peekBytes size)
  let header ← Decoder.ofExcept (ofBytes bytes)
  Decoder.mapError (.truncated .header) (Decoder.skip size)
  if header.version ≠ knownVersion then
    Decoder.note (.unexpectedVersion header.version knownVersion)
  return header

end Header

/-- A decoded script. -/
structure Record where
  /-- The header as read. -/
  header : Header
  /-- The identifiers, in order. -/
  identifiers : List String
  /-- The constants, in order. -/
  constants : List Constant
  /-- Source positions of tokens. -/
  lineMap : LineMap
  /-- The tokens, in order. -/
  tokens : List Token
  /-- Bytes from the start of the header to the end of the last token. -/
  encodedLength : Nat
  deriving DecidableEq, Repr

namespace Record

/-- Read a record. -/
def decode : Decoder RecordError Record := do
  let start ← Decoder.here
  let header ← Header.decode
  Decoder.note (.scriptHeader start.position header.version header.identifiers header.constants
    header.lines header.tokens)
  let identifiers ← Decoder.times header.identifiers.toNat Identifier.decode
  let constants ← Decoder.times header.constants.toNat Constant.decode
  let lineMap ← LineMap.decode header.lines
  let tokens ← Token.decodeMany header.tokens
  let stop ← Decoder.here
  Decoder.note (.scriptEnd stop.position)
  return ⟨header, identifiers, constants, lineMap, tokens, stop.pos - start.pos⟩

/-- Read a record at the start of a byte string, at absolute offset zero. -/
def ofBytes (bytes : Bytes) : Progress RecordError Record := decode.run (Cursor.start bytes)

/-- The tables of a record. -/
def tables (r : Record) : Tables := ⟨r.identifiers, r.constants⟩

/-- The text of the token stream. -/
def listing (r : Record) : Except ListingError String := Listing.text r.tables r.tokens

/-- The notice that follows the listing of a record. -/
def listingNotices (r : Record) : List Notice := Listing.notices r.tokens r.listing

end Record

end AssetPack.Script
