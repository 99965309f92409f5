import AssetPack.Bytes

/-!
# Reading UTF-8 that may be damaged

Names and strings in a container are UTF-8 by convention only. Reading them never fails: each
maximal ill-formed subpart becomes one U+FFFD, and reading goes on with the byte that broke the
sequence.

The reader is a transducer over single bytes. Between characters it holds nothing; inside a
multi-byte sequence it holds the bits seen so far, how many bytes are still to come, and the range
the next one must lie in. The range differs from `80..BF` only right after `E0`, `ED`, `F0` and
`F4`, which is where overlong forms, surrogates and values past `10FFFF` are cut off.

## Main definitions

* `Utf8.step`: one byte of the transducer.
* `Utf8.decode`: the characters of a byte string.
* `Utf8.trimNuls`: NULs dropped at the end, and only there.
* `Utf8.text`: both, as a `String`.
-/

namespace AssetPack.Utf8

/-- What stands for an ill-formed subpart. -/
def replacement : Char := Char.ofNat 0xFFFD

/-- A sequence that has begun and lacks at least one byte. -/
structure Pending where
  /-- The value of the bits read so far. -/
  bits : Nat
  /-- Bytes to come after the next one. -/
  more : Nat
  /-- Least next byte that continues the sequence. -/
  low : UInt8
  /-- Greatest next byte that continues the sequence. -/
  high : UInt8
  deriving DecidableEq, Repr

/-- The sequence that a lead byte opens, if it is a lead byte. -/
def opening (b : UInt8) : Option Pending :=
  if 0xC2 ≤ b && b ≤ 0xDF then some ⟨b.toNat - 0xC0, 0, 0x80, 0xBF⟩
  else if b == 0xE0 then some ⟨0x0, 1, 0xA0, 0xBF⟩
  else if b == 0xED then some ⟨0xD, 1, 0x80, 0x9F⟩
  else if 0xE1 ≤ b && b ≤ 0xEF then some ⟨b.toNat - 0xE0, 1, 0x80, 0xBF⟩
  else if b == 0xF0 then some ⟨0, 2, 0x90, 0xBF⟩
  else if 0xF1 ≤ b && b ≤ 0xF3 then some ⟨b.toNat - 0xF0, 2, 0x80, 0xBF⟩
  else if b == 0xF4 then some ⟨4, 2, 0x80, 0x8F⟩
  else none

/-- A byte between two characters: what it writes, and the sequence it leaves open. -/
def fresh (b : UInt8) : List Char × Option Pending :=
  if b < 0x80 then ([Char.ofNat b.toNat], none)
  else match opening b with
    | some p => ([], some p)
    | none => ([replacement], none)

/-- A byte in any state: what it writes, and the sequence it leaves open. A byte that does not
continue an open sequence ends it with a replacement and is then read afresh. -/
def step (state : Option Pending) (b : UInt8) : List Char × Option Pending :=
  match state with
  | none => fresh b
  | some p =>
    if p.low ≤ b && b ≤ p.high then
      let bits := p.bits * 64 + (b.toNat - 0x80)
      match p.more with
      | 0 => ([Char.ofNat bits], none)
      | more + 1 => ([], some ⟨bits, more, 0x80, 0xBF⟩)
    else
      let (out, state') := fresh b
      (replacement :: out, state')

/-- The characters of the bytes, read from a given state. -/
def decodeFrom : Option Pending → Bytes → List Char
  | none, [] => []
  | some _, [] => [replacement]
  | state, b :: rest =>
    let (out, state') := step state b
    out ++ decodeFrom state' rest

/-- The characters of a byte string, one replacement per maximal ill-formed subpart. -/
def decode (bytes : Bytes) : List Char := decodeFrom none bytes

/-- The characters without the NULs at their end. -/
def trimNuls (chars : List Char) : List Char :=
  (chars.reverse.dropWhile (· == Char.ofNat 0)).reverse

/-- The text of a byte string, NULs at the end dropped after decoding. -/
def text (bytes : Bytes) : String := String.ofList (trimNuls (decode bytes))

/-- Whether the bytes are well-formed UTF-8, no replacement needed. -/
def wellFormedFrom : Option Pending → Bytes → Bool
  | state, [] => state.isNone
  | none, b :: rest => (b < 0x80 || (opening b).isSome) && wellFormedFrom (fresh b).2 rest
  | some p, b :: rest => (p.low ≤ b && b ≤ p.high) && wellFormedFrom (step (some p) b).2 rest

/-- The text that the bytes spell, if they are well-formed UTF-8. -/
def strict? (bytes : Bytes) : Option String :=
  if wellFormedFrom none bytes then some (String.ofList (decode bytes)) else none

end AssetPack.Utf8
