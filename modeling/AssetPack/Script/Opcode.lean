/-!
# Opcodes

What a token can stand for. There are ninety-eight opcodes, numbered from zero in the order of
`Opcode.all`; the table is indexed by the low seven bits of a token word, so its order is part of
the format.

Each opcode has a symbolic name and a *spelling*, the rule by which a token of it is written out.
Spacing is part of a literal: most operators carry a blank on both sides, leading keywords one
behind. An opcode that has no form in source text is spelled by its name.
-/

namespace AssetPack.Script

/-- How a token is written out. -/
inductive Spelling where
  /-- Always the same text. -/
  | literal (text : String)
  /-- The name of the opcode and a blank. -/
  | named
  /-- A line feed and as many tabs as the operand says. -/
  | newline
  /-- The identifier that the operand points to. -/
  | identifier
  /-- The constant that the operand points to. -/
  | constant
  /-- The type that the operand numbers. -/
  | builtinType
  /-- The function that the operand numbers. -/
  | builtinFunction
  /-- No text at all. -/
  | nothing
  deriving DecidableEq, Repr

/-- An opcode: its symbolic name and how its tokens are written out. -/
structure Opcode where
  /-- The symbolic name. -/
  name : String
  /-- The rule for its tokens. -/
  spelling : Spelling
  deriving DecidableEq, Repr

namespace Opcode

/-- All opcodes in the order of their numbers. -/
def all : List Opcode :=
  [⟨"Empty", .named⟩, ⟨"Identifier", .identifier⟩, ⟨"Constant", .constant⟩, ⟨"Self", .named⟩,
   ⟨"BuiltInType", .builtinType⟩, ⟨"BuiltInFunc", .builtinFunction⟩, ⟨"OpIn", .literal " in "⟩,
   ⟨"OpEqual", .literal " == "⟩, ⟨"OpNotEqual", .literal " != "⟩, ⟨"OpLess", .literal " < "⟩,
   ⟨"OpLessEqual", .literal " <= "⟩, ⟨"OpGreater", .literal " > "⟩,
   ⟨"OpGreaterEqual", .literal " >= "⟩, ⟨"OpAnd", .literal " and "⟩, ⟨"OpOr", .literal " or "⟩,
   ⟨"OpNot", .literal "!"⟩, ⟨"OpAdd", .literal " + "⟩, ⟨"OpSub", .literal " - "⟩,
   ⟨"OpMul", .literal " * "⟩, ⟨"OpDiv", .literal " / "⟩, ⟨"OpMod", .literal " % "⟩,
   ⟨"OpShiftLeft", .literal "<< "⟩, ⟨"OpShiftRight", .literal ">> "⟩,
   ⟨"OpAssign", .literal "= "⟩, ⟨"OpAssignAdd", .literal " += "⟩, ⟨"OpAssignSub", .named⟩,
   ⟨"OpAssignMul", .named⟩, ⟨"OpAssignDiv", .named⟩, ⟨"OpAssignMod", .named⟩,
   ⟨"OpAssignShiftLeft", .named⟩, ⟨"OpAssignShiftRight", .named⟩, ⟨"OpAssignBitAnd", .named⟩,
   ⟨"OpAssignBitOr", .named⟩, ⟨"OpAssignBitXor", .named⟩, ⟨"OpBitAnd", .named⟩,
   ⟨"OpBitOr", .named⟩, ⟨"OpBitXor", .named⟩, ⟨"OpBitInvert", .named⟩, ⟨"CfIf", .literal "if "⟩,
   ⟨"CfElif", .literal "elif "⟩, ⟨"CfElse", .literal "else "⟩, ⟨"CfFor", .literal "for "⟩,
   ⟨"CfWhile", .literal "while "⟩, ⟨"CfBreak", .named⟩, ⟨"CfContinue", .literal "continue "⟩,
   ⟨"CfPass", .named⟩, ⟨"CfReturn", .literal "return "⟩, ⟨"CfMatch", .literal "match "⟩,
   ⟨"PrFunction", .literal "func "⟩, ⟨"PrClass", .literal "class "⟩,
   ⟨"PrClassName", .literal "class_name "⟩, ⟨"PrExtends", .literal "extends "⟩, ⟨"PrIs", .named⟩,
   ⟨"PrOnready", .named⟩, ⟨"PrTool", .named⟩, ⟨"PrStatic", .literal "static "⟩,
   ⟨"PrExport", .named⟩, ⟨"PrSetget", .named⟩, ⟨"PrConst", .literal "const "⟩,
   ⟨"PrVar", .literal "var "⟩, ⟨"PrAs", .literal " as "⟩, ⟨"PrVoid", .named⟩, ⟨"PrEnum", .named⟩,
   ⟨"PrPreload", .literal "preload"⟩, ⟨"PrAssert", .named⟩, ⟨"PrYield", .named⟩,
   ⟨"PrSignal", .named⟩, ⟨"PrBreakpoint", .named⟩, ⟨"PrRemote", .named⟩, ⟨"PrSync", .named⟩,
   ⟨"PrMaster", .named⟩, ⟨"PrSlave", .named⟩, ⟨"PrPuppet", .named⟩, ⟨"PrRemotesync", .named⟩,
   ⟨"PrMastersync", .named⟩, ⟨"PrPuppetsync", .named⟩, ⟨"BracketOpen", .literal "["⟩,
   ⟨"BracketClose", .literal "]"⟩, ⟨"CurlyBracketOpen", .literal "\x7b"⟩,
   ⟨"CurlyBracketClose", .literal "\x7d"⟩, ⟨"ParenthesisOpen", .literal "("⟩,
   ⟨"ParenthesisClose", .literal ")"⟩, ⟨"Comma", .literal ", "⟩, ⟨"Semicolon", .named⟩,
   ⟨"Period", .literal "."⟩, ⟨"QuestionMark", .named⟩, ⟨"Colon", .literal ":"⟩,
   ⟨"Dollar", .named⟩, ⟨"ForwardArrow", .literal "-> "⟩, ⟨"Newline", .newline⟩,
   ⟨"ConstPi", .named⟩, ⟨"ConstTau", .named⟩, ⟨"Wildcard", .named⟩, ⟨"ConstInf", .named⟩,
   ⟨"ConstNan", .named⟩, ⟨"Error", .named⟩, ⟨"Eof", .nothing⟩, ⟨"Cursor", .named⟩]

/-- The opcode with a given number. -/
def ofNumber? (n : Nat) : Option Opcode := all[n]?

theorem length_all : all.length = 98 := rfl

/-- The fixed text of an opcode that has one. -/
def literal? (op : Opcode) : Option String :=
  match op.spelling with
  | .literal text => some text
  | _ => none

end Opcode

end AssetPack.Script
