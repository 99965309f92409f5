/-!
# Terminal control sequences

A text that reaches a terminal can steer it: an escape character begins a sequence that is carried
out and not shown. Names come out of containers that nobody vouches for, so a text is stripped of
such sequences before it is shown. The sequences are:

* an escape, characters from `20..2F`, and a final one from `30..7E`;
* an escape and `[`, characters from `20..3F`, and a final one from `40..7E`;
* an escape and `]`, and everything up to a bell;
* an escape and `X`, `^` or `_`, and everything up to a terminator;
* an escape and `P`, parameters, a final character, and everything up to a terminator.

A new escape ends any of them and begins the next. Cancel and substitute end any of them.

A tab or line end inside one of the first two kinds is shown and *pauses* the sequence: what follows
is shown as plain text until a control character that is not shown takes the sequence up again.
-/

namespace AssetPack.ControlSequence

/-- Whether the code point of a character lies in a range. -/
def within (c : Char) (low high : Nat) : Bool := low ≤ c.toNat && c.toNat ≤ high

/-- Whether a character is a control that lays out text: a tab, a line feed, a form feed or a
carriage return. -/
def isLayout (c : Char) : Bool :=
  c.toNat == 0x09 || c.toNat == 0x0A || c.toNat == 0x0C || c.toNat == 0x0D

/-- Whether a character is shown where no sequence is open. Only the controls of the first 128 code
points are not. -/
def isShown (c : Char) : Bool := isLayout c || (0x20 ≤ c.toNat && c.toNat != 0x7F)

/-- Whether a character begins a sequence. -/
def isEscape (c : Char) : Bool := c.toNat == 0x1B

/-- Whether a character ends any sequence: cancel or substitute. -/
def isCancel (c : Char) : Bool := c.toNat == 0x18 || c.toNat == 0x1A

/-- How far an open sequence has come. -/
inductive Sequence where
  /-- The escape has been read. -/
  | escape
  /-- The escape and an intermediate character. -/
  | intermediate
  /-- Behind `[`. -/
  | control
  /-- Behind `]`. -/
  | command
  /-- Behind `P`. -/
  | device
  /-- Behind `P` and a parameter. -/
  | deviceParameter
  /-- Behind `P` and an intermediate character. -/
  | deviceIntermediate
  /-- Inside a string that a terminator ends. -/
  | string
  deriving DecidableEq, Repr

/-- What a reader of the text is in. -/
inductive Mode where
  /-- Plain text. -/
  | text
  /-- A sequence. -/
  | inside (s : Sequence)
  /-- Plain text after a layout control in the middle of a sequence. -/
  | paused (s : Sequence)
  deriving DecidableEq, Repr

/-- Whether a layout control is shown inside a sequence. -/
def Sequence.pauses : Sequence → Bool
  | escape => true
  | intermediate => true
  | control => true
  | _ => false

/-- Whether a character ends a string. The terminator is a byte, and it counts as part of the
encoding of a character too. -/
def isTerminator (c : Char) : Bool := (String.utf8EncodeChar c).contains 0x9C

/-- Where a character leads from behind the escape. -/
def afterEscape (c : Char) : Mode :=
  if c == '[' then .inside .control
  else if c == ']' then .inside .command
  else if c == 'P' then .inside .device
  else if c == 'X' || c == '^' || c == '_' then .inside .string
  else if within c 0x20 0x2F then .inside .intermediate
  else if within c 0x30 0x7E then .text
  else .inside .escape

/-- Where a character that is not shown leads from inside a sequence. -/
def Sequence.next (s : Sequence) (c : Char) : Mode :=
  match s with
  | escape => afterEscape c
  | intermediate => if within c 0x30 0x7E then .text else .inside s
  | control => if within c 0x40 0x7E then .text else .inside s
  | command => if c.toNat == 0x07 then .text else .inside s
  | device =>
    if within c 0x20 0x2F then .inside .deviceIntermediate
    else if within c 0x30 0x3F then .inside .deviceParameter
    else if within c 0x40 0x7E then .inside .string
    else .inside s
  | deviceParameter =>
    if within c 0x20 0x2F then .inside .deviceIntermediate
    else if within c 0x3C 0x7E then .inside .string
    else .inside s
  | deviceIntermediate => if within c 0x30 0x7E then .inside .string else .inside s
  | string => if isTerminator c then .text else .inside s

/-- Where a character leads, and whether it is shown. A shown character beyond the first 128 code
points makes a paused sequence forgotten. -/
def step (mode : Mode) (c : Char) : Mode × Bool :=
  if isEscape c then (.inside .escape, false)
  else if isCancel c then (.text, false)
  else match mode with
    | .text => (.text, isShown c)
    | .inside s => if isLayout c && s.pauses then (.paused s, true) else (s.next c, false)
    | .paused s =>
      if isShown c then (if c.toNat < 0x80 then .paused s else .text, true) else (.inside s, false)

/-- The characters that are shown, read from a given mode on. -/
def stripFrom : Mode → List Char → List Char
  | _, [] => []
  | mode, c :: rest =>
    match step mode c with
    | (after, true) => c :: stripFrom after rest
    | (after, false) => stripFrom after rest

/-- The characters of a text that are shown. -/
def strip (chars : List Char) : List Char := stripFrom .text chars

end AssetPack.ControlSequence
