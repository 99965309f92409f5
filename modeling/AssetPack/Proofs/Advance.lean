import AssetPack.Proofs.Conduct
import Mathlib.Algebra.Group.Nat.Defs

/-!
# Cursors only move forward

A decoder may fail halfway and leave its cursor there, and a caller may go on from that place. So
what is known of a cursor has to hold after failures too, and after any number of them. That every
decoder is orderly is enough for this: after any sequence of operations the cursor is further on in
its range (`Cursor.forward_after`).

Primitives keep more: a failure does not move the cursor at all (`Decoder.Firm`), and a look ahead
never does (`Decoder.Still`).

Positions and lengths are whole numbers here. The last section says that nothing would change if
they were kept in 64-bit words, as long as the end of the range has an offset that is one: no sum
wraps around and no difference goes below zero, whatever the argument (`Cursor.FitsWords`).

## Main definitions

* `Decoder.Firm`, `Decoder.Still`
* `Operation`: what can be asked of a cursor, from one byte to a whole record.
* `Cursor.after`: the cursor after any sequence of operations.

## Main results

* `Operation.forward_run`, `Cursor.forward_after`: one operation, and any number of them.
* `Cursor.after_invariant`: what holds of a cursor after any use.
-/

namespace AssetPack

open Script Container
open Decoder (Orderly)

namespace Decoder

variable {ε ε' α β : Type}

/-- A failure leaves the cursor where it was. -/
def Firm (d : Decoder ε α) : Prop :=
  ∀ (c : Cursor) (e : ε), (d.run c).outcome = .error e → (d.run c).cursor = c

/-- Whatever comes out, the cursor is where it was. -/
def Still (d : Decoder ε α) : Prop := ∀ c : Cursor, (d.run c).cursor = c

theorem Still.firm {d : Decoder ε α} (h : Still d) : Firm d := fun c _ _ => h c

/-! ### Primitives -/

theorem still_peekBytes (n : Nat) : Still (peekBytes n) := fun _ => rfl

theorem firm_readBytes (n : Nat) : Firm (readBytes n) := by
  intro c e h
  rcases Nat.lt_or_ge c.remaining n with hlt | hle
  · rw [run_readBytes_of_lt hlt]
  · rw [run_readBytes_of_le hle] at h
    cases h

/-- Computing with what was read moves no cursor. -/
theorem run_map_cursor (d : Decoder ε α) (f : α → β) (c : Cursor) :
    ((d >>= fun a => pure (f a)).run c).cursor = (d.run c).cursor := by
  cases h : (d.run c).outcome with
  | error e => rw [run_bind_of_error _ h]
  | ok a => rw [run_bind_of_ok _ h]; rfl

theorem Still.map {d : Decoder ε α} (h : Still d) (f : α → β) :
    Still (d >>= fun a => pure (f a)) := by
  intro c
  rw [run_map_cursor]
  exact h c

theorem Firm.map {d : Decoder ε α} (h : Firm d) (f : α → β) :
    Firm (d >>= fun a => pure (f a)) := by
  intro c e he
  rw [run_map_cursor]
  cases hd : (d.run c).outcome with
  | error e' => exact h c e' hd
  | ok a =>
    rw [run_bind_of_ok _ hd] at he
    cases he

theorem Firm.mapError {d : Decoder ε α} (h : Firm d) (f : ε → ε') : Firm (mapError f d) := by
  intro c e he
  cases hd : (d.run c).outcome with
  | error e' => exact h c e' hd
  | ok a =>
    rw [show ((Decoder.mapError f d).run c).outcome = (d.run c).outcome.mapError f from rfl,
      hd] at he
    cases he

theorem still_peekByte : Still peekByte := (still_peekBytes 1).map _

theorem still_peekWord : Still peekWord := (still_peekBytes 4).map _

theorem firm_skip (n : Nat) : Firm (skip n) := (firm_readBytes n).map _

theorem firm_readByte : Firm readByte := (firm_readBytes 1).map _

theorem firm_readWord : Firm readWord := (firm_readBytes 4).map _

theorem firm_readInt : Firm readInt := firm_readWord.map _

theorem firm_readLong : Firm readLong := (firm_readBytes 8).map _

theorem firm_align (alignment : Nat) : Firm (align alignment) := by
  rw [align]
  split
  · exact Still.firm fun _ => rfl
  · have hskip : Firm (alignTo alignment) := fun c e h => firm_skip (c.padding alignment) c e h
    exact hskip.mapError _

end Decoder

/-! ### Operations -/

/-- What can be asked of a cursor. -/
inductive Operation where
  | peekBytes (n : UInt64)
  | peekByte
  | peekWord
  | readBytes (n : UInt64)
  | readByte
  | readWord
  | readInt
  | readLong
  | skip (n : UInt64)
  | align (alignment : UInt64)
  | scriptHeader
  | identifier
  | constant
  | lineMap (count : UInt32)
  | token
  | tokens (count : UInt32)
  | record
  | packHeader
  | packEntry (index : Nat)
  deriving DecidableEq, Repr

namespace Operation

/-- A look ahead. -/
def isPeek (op : Operation) : Bool := op matches peekBytes _ | peekByte | peekWord

/-- An operation that is not made of others. -/
def isPrimitive (op : Operation) : Bool :=
  op matches peekBytes _ | peekByte | peekWord | readBytes _ | readByte | readWord | readInt |
    readLong | skip _ | align _

/-- Whether a decoder succeeds, and where it leaves the cursor. -/
def effect {ε α : Type} (d : Decoder ε α) (c : Cursor) : Bool × Cursor :=
  ((d.run c).outcome.isOk, (d.run c).cursor)

/-- Carry out an operation: whether it succeeds, and where it leaves the cursor. -/
def run : Operation → Cursor → Bool × Cursor
  | peekBytes n => effect (Decoder.peekBytes n.toNat)
  | peekByte => effect Decoder.peekByte
  | peekWord => effect Decoder.peekWord
  | readBytes n => effect (Decoder.readBytes n.toNat)
  | readByte => effect Decoder.readByte
  | readWord => effect Decoder.readWord
  | readInt => effect Decoder.readInt
  | readLong => effect Decoder.readLong
  | skip n => effect (Decoder.skip n.toNat)
  | align alignment => effect (Decoder.align alignment.toNat)
  | scriptHeader => effect Script.Header.decode
  | identifier => effect Identifier.decode
  | constant => effect Constant.decode
  | lineMap count => effect (LineMap.decode count)
  | token => effect Token.decode
  | tokens count => effect (Token.decodeMany count)
  | record => effect Record.decode
  | packHeader => effect Container.Header.decode
  | packEntry index => effect (Entry.decode index)

theorem forward_run (op : Operation) (c : Cursor) :
    ∃ n ≤ c.remaining, (op.run c).2 = c.advance n := by
  cases op with
  | peekBytes n => exact (Orderly.peekBytes n.toNat c).forward
  | peekByte => exact (Orderly.peekByte c).forward
  | peekWord => exact (Orderly.peekWord c).forward
  | readBytes n => exact (Orderly.readBytes n.toNat c).forward
  | readByte => exact (Orderly.readByte c).forward
  | readWord => exact (Orderly.readWord c).forward
  | readInt => exact (Orderly.readInt c).forward
  | readLong => exact (Orderly.readLong c).forward
  | skip n => exact (Orderly.skip n.toNat c).forward
  | align alignment => exact (Orderly.align alignment.toNat c).forward
  | scriptHeader => exact (Script.Header.orderly_decode c).forward
  | identifier => exact (Identifier.orderly_decode c).forward
  | constant => exact (Constant.orderly_decode c).forward
  | lineMap count => exact (LineMap.orderly_decodeInto count.toNat [] c).forward
  | token => exact (Token.orderly_decode c).forward
  | tokens count => exact (Token.orderly_decode.times count.toNat c).forward
  | record => exact (Record.orderly_decode c).forward
  | packHeader => exact (Container.Header.orderly_decode c).forward
  | packEntry index => exact (Entry.orderly_decode index c).forward

theorem run_of_isPeek {op : Operation} (h : op.isPeek = true) (c : Cursor) : (op.run c).2 = c := by
  cases op with
  | peekBytes n => exact Decoder.still_peekBytes n.toNat c
  | peekByte => exact Decoder.still_peekByte c
  | peekWord => exact Decoder.still_peekWord c
  | _ => cases h

theorem effect_of_firm {ε α : Type} {d : Decoder ε α} (h : d.Firm) {c : Cursor}
    (hfailed : (effect d c).1 = false) : (effect d c).2 = c := by
  cases hd : (d.run c).outcome with
  | error e => exact h c e hd
  | ok a =>
    rw [effect, hd] at hfailed
    cases hfailed

theorem run_of_isPrimitive {op : Operation} (h : op.isPrimitive = true) {c : Cursor}
    (hfailed : (op.run c).1 = false) : (op.run c).2 = c := by
  cases op with
  | peekBytes n => exact run_of_isPeek rfl c
  | peekByte => exact run_of_isPeek rfl c
  | peekWord => exact run_of_isPeek rfl c
  | readBytes n => exact effect_of_firm (Decoder.firm_readBytes n.toNat) hfailed
  | readByte => exact effect_of_firm Decoder.firm_readByte hfailed
  | readWord => exact effect_of_firm Decoder.firm_readWord hfailed
  | readInt => exact effect_of_firm Decoder.firm_readInt hfailed
  | readLong => exact effect_of_firm Decoder.firm_readLong hfailed
  | skip n => exact effect_of_firm (Decoder.firm_skip n.toNat) hfailed
  | align alignment => exact effect_of_firm (Decoder.firm_align alignment.toNat) hfailed
  | _ => cases h

end Operation

namespace Cursor

/-- The cursor after operations in a row, whether they succeed or fail. -/
def after (c : Cursor) (ops : List Operation) : Cursor :=
  ops.foldl (fun c op => (op.run c).2) c

theorem forward_after (ops : List Operation) (c : Cursor) :
    ∃ n ≤ c.remaining, c.after ops = c.advance n := by
  induction ops generalizing c with
  | nil => exact ⟨0, Nat.zero_le _, rfl⟩
  | cons op ops ih =>
    obtain ⟨n, hn, hop⟩ := op.forward_run c
    obtain ⟨m, hm, hops⟩ := ih (c.advance n)
    rw [remaining_advance] at hm
    refine ⟨n + m, by omega, ?_⟩
    rw [← advance_advance, ← hops, ← hop]
    rfl

/-! ### In 64-bit words -/

/-- What the primitives compute at a cursor over `length` bytes comes out the same in 64-bit words,
where sums and differences wrap around. -/
structure FitsWords (length : Nat) (c : Cursor) : Prop where
  /-- The absolute position is a sum of two words. -/
  position : (UInt64.ofNat c.base + UInt64.ofNat c.pos).toNat = c.position
  /-- What is left is a difference of two words. -/
  remaining : (UInt64.ofNat length - UInt64.ofNat c.pos).toNat = c.remaining
  /-- An access that is not refused ends at a sum of two words. -/
  advance : ∀ n : UInt64, n.toNat ≤ c.remaining →
    (UInt64.ofNat c.pos + n).toNat = (c.advance n.toNat).pos
  /-- Padding is computed from the absolute position. -/
  padding : ∀ alignment : UInt64, alignment ≠ 0 →
    ((alignment - (UInt64.ofNat c.base + UInt64.ofNat c.pos) % alignment) % alignment).toNat =
      c.padding alignment.toNat

theorem fitsWords {length : Nat} {c : Cursor} (hlength : c.remaining + c.pos = length)
    (hfits : c.base + length < 2 ^ 64) : c.FitsWords length := by
  have hword : ∀ n < 2 ^ 64, (UInt64.ofNat n).toNat = n := fun n hn => by
    rw [UInt64.toNat_ofNat', Nat.mod_eq_of_lt hn]
  have hpos := hword c.pos (by omega)
  have hposition : (UInt64.ofNat c.base + UInt64.ofNat c.pos).toNat = c.position := by
    rw [UInt64.toNat_add, hword c.base (by omega), hpos, Nat.mod_eq_of_lt (by omega)]
    rfl
  refine ⟨hposition, ?_, fun n hn => ?_, fun alignment hne => ?_⟩
  · rw [UInt64.toNat_sub_of_le _ _ (by rw [UInt64.le_iff_toNat_le, hpos, hword] <;> omega), hpos,
      hword length (by omega)]
    omega
  · rw [UInt64.toNat_add, hpos, Nat.mod_eq_of_lt (by omega)]
    rfl
  · have hpositive : 0 < alignment.toNat := by
      rw [Nat.pos_iff_ne_zero]
      exact fun hzero => hne (UInt64.toNat_inj.mp hzero)
    have hmod : ((UInt64.ofNat c.base + UInt64.ofNat c.pos) % alignment).toNat =
        c.position % alignment.toNat := by
      rw [UInt64.toNat_mod, hposition]
    have hle : (UInt64.ofNat c.base + UInt64.ofNat c.pos) % alignment ≤ alignment := by
      rw [UInt64.le_iff_toNat_le, hmod]
      exact Nat.le_of_lt (Nat.mod_lt _ hpositive)
    rw [UInt64.toNat_mod, UInt64.toNat_sub_of_le _ _ hle, hmod]
    rfl

/-- **What holds of a cursor after any use.** Start at the beginning of a range and carry out any
operations, of which any may fail. The cursor is inside the range, equally far from its start and
from the start of the medium, and what is left is the rest of the range. From there no further use
takes it back, a look ahead and a failing primitive do not move it, reading `n` bytes succeeds
exactly if they are there and gives them, and 64-bit words suffice for all of it. -/
theorem after_invariant {bytes : Bytes} {base : Nat} (hfits : base + bytes.length < 2 ^ 64)
    (ops : List Operation) :
    ∃ c, c = (start bytes base).after ops ∧
      c.pos ≤ bytes.length ∧ c.position - c.pos = base ∧ c.pos ≤ c.position ∧
      c.remaining + c.pos = bytes.length ∧ c.rest = bytes.drop c.pos ∧
      (∀ more, c.pos ≤ (c.after more).pos) ∧
      (∀ op : Operation, op.isPeek = true → (op.run c).2 = c) ∧
      (∀ op : Operation, op.isPrimitive = true → (op.run c).1 = false → (op.run c).2 = c) ∧
      (∀ n : UInt64,
        ((∃ read, ((Decoder.readBytes n.toNat).run c).outcome = .ok read) ↔
          n.toNat ≤ c.remaining) ∧
        ∀ read, ((Decoder.readBytes n.toNat).run c).outcome = .ok read →
          read = (bytes.drop c.pos).take n.toNat ∧ read.length = n.toNat ∧
          ((Decoder.readBytes n.toNat).run c).cursor.pos = c.pos + n.toNat) ∧
      c.FitsWords bytes.length := by
  -- All that matters of the past is how many bytes were passed over.
  obtain ⟨passed, hpassed, hc⟩ := forward_after ops (start bytes base)
  have hle : passed ≤ bytes.length := hpassed
  have hpos : ((start bytes base).advance passed).pos = passed := Nat.zero_add passed
  have hrest : ((start bytes base).advance passed).rest = bytes.drop passed := rfl
  rw [← hc] at hpos hrest
  generalize (start bytes base).after ops = c at hc hpos hrest
  have hremaining : c.remaining + c.pos = bytes.length := by
    rw [remaining, hrest, hpos, List.length_drop]
    omega
  have hbase : c.base = base := by rw [hc]; rfl
  have hposition : c.position = base + c.pos := by rw [position, hbase]
  refine ⟨c, rfl, by omega, by omega, by omega, hremaining, by rw [hrest, hpos], fun more => ?_,
    fun op h => op.run_of_isPeek h c, fun op h => op.run_of_isPrimitive h, fun n => ⟨?_, ?_⟩,
    fitsWords hremaining (by omega)⟩
  · obtain ⟨m, -, hmore⟩ := forward_after more c
    rw [hmore]
    exact Nat.le_add_right c.pos m
  · rcases Nat.lt_or_ge c.remaining n.toNat with hlt | hge
    · rw [Decoder.run_readBytes_of_lt hlt]
      simp [Nat.not_le.mpr hlt]
    · rw [Decoder.run_readBytes_of_le hge]
      simp [hge]
  · intro read hread
    rcases Nat.lt_or_ge c.remaining n.toNat with hlt | hge
    · rw [Decoder.run_readBytes_of_lt hlt] at hread
      cases hread
    · rw [Decoder.run_readBytes_of_le hge] at hread ⊢
      cases hread
      exact ⟨by rw [hrest, hpos], List.length_take_of_le hge, rfl⟩

/-- A tag word without its number, and tokens of which the last is cut off. -/
def cutTokens : Bytes := [2, 0, 0, 0, 5, 0x17, 0x81]

/-- Operations of which all but one fail: the range ends right below the last offset that is a
64-bit word, and the others ask for more than there is. -/
def failingOperations : List Operation :=
  [.constant, .readBytes 0xFFFFFFFFFFFFFFFF, .align 0x8000000000000000, .token, .tokens 9,
    .readLong]

theorem after_invariant_cutTokens :
    (2 ^ 64 - 8) + cutTokens.length < 2 ^ 64 ∧
      ∃ c, c = (start cutTokens (2 ^ 64 - 8)).after failingOperations ∧ c.pos = 6 ∧
        c.remaining + c.pos = cutTokens.length ∧
        ((Decoder.readBytes (UInt64.toNat 1)).run c).outcome = .ok [0x81] ∧
        c.FitsWords cutTokens.length := by
  have hfits : (2 ^ 64 - 8) + cutTokens.length < 2 ^ 64 := by decide
  obtain ⟨c, hc, -, -, -, hremaining, -, -, -, -, -, hwords⟩ :=
    after_invariant hfits failingOperations
  exact ⟨hfits, c, hc, by rw [hc]; rfl, hremaining, by rw [hc]; rfl, hwords⟩

end Cursor

end AssetPack
