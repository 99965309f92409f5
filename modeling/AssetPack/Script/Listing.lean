import AssetPack.Script.Builtin
import AssetPack.Script.Constant
import AssetPack.Script.Token

/-!
# Listings

A listing is the text of a token stream. There is no syntax tree: each token is written out on its
own (`Listing.emit`), with the spacing that belongs to its spelling, and the texts are concatenated.
The first token that has no text decides the error.
-/

namespace AssetPack.Script

/-- The tables that the operands of a token stream point into. -/
structure Tables where
  /-- Identifiers in the order of their numbers. -/
  identifiers : List String
  /-- Constants in the order of their numbers. -/
  constants : List Constant
  deriving DecidableEq, Repr

namespace Listing

/-- A line feed and `depth` tabs. -/
def lineBreak (depth : Nat) : String := "\n".pushn '\t' depth

/-- The entry that an operand points to, or the error that names the table. -/
def entry {α : Type} (table : Table) (entries : List α) (index : UInt32) : Except ListingError α :=
  match entries[index.toNat]? with
  | some a => .ok a
  | none => .error (.badIndex table index entries.length)

/-- The name of the builtin type that an operand numbers. -/
def builtinType (index : UInt32) : Except ListingError String :=
  match Builtin.typeName? index.toNat with
  | some name => .ok name
  | none =>
    let table := if index.toNat < Builtin.typeCount then Table.builtinNil else Table.builtinType
    .error (.badIndex table index Builtin.typeCount)

/-- The text of the token at a given position of the stream. -/
def emit (tables : Tables) (position : Nat) (token : Token) : Except ListingError String :=
  match token.op? with
  | none => .error (.unknownToken token.opcode position)
  | some op =>
    match op.spelling with
    | .literal text => .ok text
    | .named => .ok (op.name ++ " ")
    | .newline => .ok (lineBreak token.operand.toNat)
    | .identifier => entry .identifier tables.identifiers token.operand
    | .constant => (entry .constant tables.constants token.operand).map Constant.text
    | .builtinType => builtinType token.operand
    | .builtinFunction => entry .builtinFunction Builtin.functions token.operand
    | .nothing => .ok ""

/-- The texts of a token stream that starts at a given position. -/
def pieces (tables : Tables) : Nat → List Token → Except ListingError (List String)
  | _, [] => .ok []
  | position, token :: rest =>
    match emit tables position token with
    | .error e => .error e
    | .ok text =>
      match pieces tables (position + 1) rest with
      | .error e => .error e
      | .ok texts => .ok (text :: texts)

/-- The text of a token stream. -/
def text (tables : Tables) (tokens : List Token) : Except ListingError String :=
  (pieces tables 0 tokens).map String.join

/-- The indentation that the last line break of a stream set. -/
def finalIndent (tokens : List Token) : Nat :=
  tokens.foldl (fun indent token =>
    match token.op?.map Opcode.spelling with
    | some .newline => token.operand.toNat
    | _ => indent) 0

/-- The notice that follows a listing, if there was one. -/
def notices (tokens : List Token) (result : Except ListingError String) : List Notice :=
  match result with
  | .ok _ => [.listed tokens.length (finalIndent tokens)]
  | .error _ => []

end Listing

end AssetPack.Script
