import AssetPack.Cursor
import AssetPack.Notice

/-!
# Decoders

A decoder reads from a cursor. Whether it succeeds or fails, it says where the cursor stands
afterwards and which notices it gave on the way, because both outlast a failure: a caller may go on
reading from wherever a failed decoder stopped.

The primitives at the end of the file never move the cursor when they fail. What a composite decoder
leaves behind is the position after its last primitive that succeeded, unless it is wrapped in
`Decoder.lookahead`.
-/

namespace AssetPack

/-- What a decoder leaves: its result, the cursor, and its notices in order. -/
structure Progress (ε α : Type) where
  /-- The value, or why there is none. -/
  outcome : Except ε α
  /-- The cursor afterwards, also after a failure. -/
  cursor : Cursor
  /-- The notices given, oldest first. -/
  notices : List Notice

/-- A reader of values of type `α` that fails with an error of type `ε`. -/
def Decoder (ε α : Type) : Type := Cursor → Progress ε α

namespace Decoder

variable {ε ε' α β : Type}

/-- Run a decoder at a cursor. -/
def run (d : Decoder ε α) (c : Cursor) : Progress ε α := d c

/-- Succeed without reading. -/
protected def pure (a : α) : Decoder ε α := fun c => ⟨.ok a, c, []⟩

/-- Go on with what was read; a failure ends the reading where it happened. -/
protected def bind (d : Decoder ε α) (next : α → Decoder ε β) : Decoder ε β := fun c =>
  let first := d c
  match first.outcome with
  | .error e => ⟨.error e, first.cursor, first.notices⟩
  | .ok a =>
    let second := next a first.cursor
    ⟨second.outcome, second.cursor, first.notices ++ second.notices⟩

instance : Monad (Decoder ε) where
  pure := Decoder.pure
  bind := Decoder.bind

@[simp] theorem run_pure (a : α) (c : Cursor) :
    (pure a : Decoder ε α).run c = ⟨.ok a, c, []⟩ := rfl

theorem run_bind_of_ok {d : Decoder ε α} {c : Cursor} {a : α} (next : α → Decoder ε β)
    (h : (d.run c).outcome = .ok a) :
    (d >>= next).run c =
      ⟨((next a).run (d.run c).cursor).outcome, ((next a).run (d.run c).cursor).cursor,
        (d.run c).notices ++ ((next a).run (d.run c).cursor).notices⟩ := by
  simp only [run] at h ⊢
  simp only [Bind.bind, Decoder.bind, h]

theorem run_bind_of_error {d : Decoder ε α} {c : Cursor} {e : ε} (next : α → Decoder ε β)
    (h : (d.run c).outcome = .error e) :
    (d >>= next).run c = ⟨.error e, (d.run c).cursor, (d.run c).notices⟩ := by
  simp only [run] at h ⊢
  simp only [Bind.bind, Decoder.bind, h]

/-- Fail without reading. -/
def fail (e : ε) : Decoder ε α := fun c => ⟨.error e, c, []⟩

/-- A result that was computed without reading. -/
def ofExcept (result : Except ε α) : Decoder ε α := fun c => ⟨result, c, []⟩

/-- Give a notice. -/
def note (n : Notice) : Decoder ε Unit := fun c => ⟨.ok (), c, [n]⟩

/-- The cursor itself. -/
def here : Decoder ε Cursor := fun c => ⟨.ok c, c, []⟩

/-- State the error of a decoder in other terms. -/
def mapError (f : ε → ε') (d : Decoder ε α) : Decoder ε' α := fun c =>
  let p := d c
  ⟨p.outcome.mapError f, p.cursor, p.notices⟩

/-- Read ahead: the cursor ends where it started. -/
def lookahead (d : Decoder ε α) : Decoder ε α := fun c =>
  let p := d c
  ⟨p.outcome, c, p.notices⟩

/-- Read `count` values, one after another; the first failure ends the reading. -/
def times : Nat → Decoder ε α → Decoder ε (List α)
  | 0, _ => pure []
  | count + 1, d => do
    let a ← d
    let rest ← times count d
    return a :: rest

/-! ### Primitives -/

/-- The next `n` bytes, left in place. -/
def peekBytes (n : Nat) : Decoder Bounds Bytes := fun c => ⟨c.peek n, c, []⟩

/-- The next `n` bytes. -/
def readBytes (n : Nat) : Decoder Bounds Bytes := fun c =>
  match c.peek n with
  | .ok bytes => ⟨.ok bytes, c.advance n, []⟩
  | .error e => ⟨.error e, c, []⟩

theorem run_readBytes_of_le {c : Cursor} {n : Nat} (h : n ≤ c.remaining) :
    (readBytes n).run c = ⟨.ok (c.rest.take n), c.advance n, []⟩ := by
  simp [run, readBytes, Cursor.peek_of_le h]

theorem run_readBytes_of_lt {c : Cursor} {n : Nat} (h : c.remaining < n) :
    (readBytes n).run c = ⟨.error (c.shortfall n), c, []⟩ := by
  simp [run, readBytes, Cursor.peek_of_lt h]

/-- Pass over `n` bytes. -/
def skip (n : Nat) : Decoder Bounds Unit := do
  let _ ← readBytes n

/-- The next byte, left in place. -/
def peekByte : Decoder Bounds UInt8 := do
  let bytes ← peekBytes 1
  return UInt8.ofNat (LittleEndian.decode bytes)

/-- The next byte. -/
def readByte : Decoder Bounds UInt8 := do
  let bytes ← readBytes 1
  return UInt8.ofNat (LittleEndian.decode bytes)

/-- The next 32-bit word, left in place. -/
def peekWord : Decoder Bounds UInt32 := do
  let bytes ← peekBytes 4
  return UInt32.ofNat (LittleEndian.decode bytes)

/-- The next 32-bit word. -/
def readWord : Decoder Bounds UInt32 := do
  let bytes ← readBytes 4
  return UInt32.ofNat (LittleEndian.decode bytes)

/-- The next 32-bit word, as a signed number. -/
def readInt : Decoder Bounds Int32 := do
  let word ← readWord
  return word.toInt32

/-- The next 64-bit word, as a signed number. -/
def readLong : Decoder Bounds Int64 := do
  let bytes ← readBytes 8
  return (UInt64.ofNat (LittleEndian.decode bytes)).toInt64

/-- Pass over bytes until the absolute position is a multiple of `alignment`. -/
def alignTo (alignment : Nat) : Decoder Bounds Unit := fun c => skip (c.padding alignment) c

/-- Why a cursor cannot be aligned. -/
inductive AlignError where
  /-- Nothing is a multiple of zero but zero itself. -/
  | zeroAlignment
  /-- The next multiple lies past the end. -/
  | bounds (error : Bounds)
  deriving DecidableEq, Repr

/-- `alignTo` for an alignment that may be zero, which is refused. -/
def align (alignment : Nat) : Decoder AlignError Unit :=
  if alignment = 0 then fail .zeroAlignment else mapError .bounds (alignTo alignment)

end Decoder

end AssetPack
