import AssetPack.Bytes
import AssetPack.Text.Numeral

/-!
# Forward cursors

A cursor stands somewhere inside a byte range that was cut out of a larger medium. It knows how far
it has come (`pos`), what is left (`rest`), and where the range starts in the medium (`base`).
Alignment and error offsets are absolute: they count from the start of the medium, the way the
formats do.

`rest` holds only what is still to be read, so `pos + rest.length` is the length of the range, and
no operation can look back.
-/

namespace AssetPack

/-- An access that does not fit: where it started, how much it wanted, how much was there. -/
structure Bounds where
  /-- Absolute offset of the refused access. -/
  offset : Nat
  /-- Bytes asked for. -/
  length : Nat
  /-- Bytes left at `offset`. -/
  available : Nat
  deriving DecidableEq, Repr

/-- The error in words. -/
def Bounds.message (e : Bounds) : String :=
  s!"out of bounds: offset=0x{Numeral.hex e.offset}, len=0x{Numeral.hex e.length}, " ++
    s!"available=0x{Numeral.hex e.available}"

/-- A position inside a byte range. -/
structure Cursor where
  /-- Absolute offset of the first byte of the range. -/
  base : Nat
  /-- Bytes of the range already passed. -/
  pos : Nat
  /-- Bytes still to be read. -/
  rest : Bytes
  deriving DecidableEq, Repr

namespace Cursor

/-- A cursor at the start of a range that begins at the absolute offset `base`. -/
def start (bytes : Bytes) (base : Nat := 0) : Cursor := ⟨base, 0, bytes⟩

/-- The absolute position. -/
def position (c : Cursor) : Nat := c.base + c.pos

/-- How many bytes are left. -/
def remaining (c : Cursor) : Nat := c.rest.length

/-- Whether nothing is left. -/
def atEnd (c : Cursor) : Bool := c.rest.isEmpty

/-- The cursor `n` bytes further on. -/
def advance (c : Cursor) (n : Nat) : Cursor := ⟨c.base, c.pos + n, c.rest.drop n⟩

/-- The error of an access to `n` bytes that are not all there. -/
def shortfall (c : Cursor) (n : Nat) : Bounds := ⟨c.position, n, c.remaining⟩

/-- The next `n` bytes, if they are there. -/
def peek (c : Cursor) (n : Nat) : Except Bounds Bytes :=
  if Bytes.holds c.rest n then .ok (c.rest.take n) else .error (c.shortfall n)

/-- How many bytes lie between the cursor and the next absolute multiple of `alignment`. -/
def padding (c : Cursor) (alignment : Nat) : Nat :=
  (alignment - c.position % alignment) % alignment

@[simp] theorem position_start (bytes : Bytes) (base : Nat) :
    (start bytes base).position = base := rfl

@[simp] theorem advance_zero (c : Cursor) : c.advance 0 = c := rfl

theorem advance_advance (c : Cursor) (m n : Nat) :
    (c.advance m).advance n = c.advance (m + n) := by
  simp [advance, Nat.add_assoc]

theorem remaining_advance (c : Cursor) (n : Nat) :
    (c.advance n).remaining = c.remaining - n := by
  rw [remaining, advance, List.length_drop, remaining]

theorem padding_of_dvd {c : Cursor} {alignment : Nat} (h : alignment ∣ c.position) :
    c.padding alignment = 0 := by
  rw [padding, Nat.mod_eq_zero_of_dvd h, Nat.sub_zero, Nat.mod_self]

theorem peek_of_le {c : Cursor} {n : Nat} (h : n ≤ c.remaining) :
    c.peek n = .ok (c.rest.take n) := by
  simp [peek, (Bytes.holds_iff c.rest n).mpr h]

theorem peek_of_lt {c : Cursor} {n : Nat} (h : c.remaining < n) :
    c.peek n = .error (c.shortfall n) := by
  have : ¬ n ≤ c.rest.length := Nat.not_le.mpr h
  simp [peek, this]

end Cursor

end AssetPack
