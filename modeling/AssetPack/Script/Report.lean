import AssetPack.Script.Record

/-!
# Reports

A report shows every part of a record in a section of its own and ends with the listing. It is meant
to be looked at, not to be read back.

A report is a list of pieces. `Report.text` joins them; `Report.write` hands them one by one to a
writer that takes a limited number of bytes in all and refuses the piece that does not fit.
-/

namespace AssetPack.Script.Report

/-- A line of a report. -/
def line (text : String) : String := text ++ "\n"

/-- A numbered line for each entry of a table. -/
def numbered {α : Type} (row : Nat → α → String) : Nat → List α → List String
  | _, [] => []
  | i, a :: rest => line ("\t" ++ row i a) :: numbered row (i + 1) rest

/-- The row of an identifier. -/
def identifierRow (i : Nat) (name : String) : String := s!"{i} => {name}"

/-- The row of a constant. -/
def constantRow (i : Nat) (c : Constant) : String :=
  let width := if c.wide then " (64-bit)" else ""
  s!"{i} => {c.kind.name}{width} : {c.text}"

/-- The row of a line map entry. -/
def lineRow (token : Int32) (packed : UInt32) : String :=
  let position := SourcePosition.unpack packed
  s!"{Numeral.signed token.toInt 3} => {packed.toNat} " ++
    s!"(line {position.line.toNat}, column {position.column.toNat})"

/-- The row of a token. -/
def tokenRow (i : Nat) (token : Token) : String :=
  let name := (token.op?.map Opcode.name).getD "?"
  s!"{Numeral.decimal i 3} => 0x{Numeral.hex token.word.toNat 8} {name}"

/-- All of a report that comes before the listing, piece by piece. -/
def sections (r : Record) : List String :=
  [line s!"Signature: 0x{Numeral.hex r.header.signature.toNat 8}",
    line s!"Bytecode Version: {r.header.version.toNat}",
    line s!"Encoded Length: {r.encodedLength} bytes",
    line "",
    line s!"Identifiers ({r.header.identifiers.toNat}):"] ++
  numbered identifierRow 0 r.identifiers ++
  [line "",
    line s!"Constants ({r.header.constants.toNat}):"] ++
  numbered constantRow 0 r.constants ++
  [line "",
    line s!"Line Map ({r.header.lines.toNat}) - token to line/column:"] ++
  r.lineMap.map (fun entry => line ("\t" ++ lineRow entry.1 entry.2)) ++
  [line "",
    line s!"Tokens ({r.header.tokens.toNat}):"] ++
  numbered tokenRow 0 r.tokens ++
  [line "",
    line "Decompiled output:",
    line ""]

/-- The report of a record. -/
def text (r : Record) : Except ListingError String :=
  r.listing.map fun listing => String.join (sections r ++ [listing])

/-- Hand pieces to a writer with room for `room` bytes. The result is the room left, or nothing if a
piece did not fit. -/
def writePieces : Nat → List String → Option Nat
  | room, [] => some room
  | room, piece :: rest =>
    if piece.utf8ByteSize ≤ room then writePieces (room - piece.utf8ByteSize) rest else none

/-- Write the report of a record to a writer with room for `room` bytes. The sections are written
before the listing is made, so a full writer hides an error of the listing. -/
def write (room : Nat) (r : Record) : Except ReportError Nat :=
  match writePieces room (sections r) with
  | none => .error .writerFull
  | some left =>
    match r.listing with
    | .error e => .error (.listing e)
    | .ok listing =>
      match writePieces left [listing] with
      | none => .error .writerFull
      | some left => .ok left

end AssetPack.Script.Report
