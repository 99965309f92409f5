import AssetPack.Notice
import AssetPack.Text.ControlSequence

/-!
# What a console shows of a log

A message may have line feeds in it, since names may. The lines after the first are indented, so
that none of them can be taken for a record of its own, and control sequences are left out.
-/

namespace AssetPack.Console

/-- How far the lines of a message after the first are indented. -/
def indentation : Nat := 4

/-- A message with its lines after the first indented. -/
def indent (message : List Char) : List Char :=
  message.flatMap fun c => if c == '\n' then c :: List.replicate indentation ' ' else [c]

/-- A message as shown. -/
def text (message : String) : String :=
  String.ofList (ControlSequence.strip (indent message.toList))

/-- A record as shown: its level and its text. -/
def record (n : Notice) : Level × String := (n.level, text n.message)

end AssetPack.Console
