import AssetPack.Container.Index
import AssetPack.Script.Record

/-!
# What decoders do besides their result

A decoder leaves a cursor and notices behind, also if it fails halfway, and a caller may go on from
there. Of all decoders of the formats the same is known (`Decoder.Orderly`): the cursor ends
somewhere between where it was and the end of the range, and the notices are *remarks*, which no
counter of an extraction belongs to. This passes through every combinator, so each format has it by
one chain of rules.

The warning about an unknown bytecode version is a remark too. It is the only warning that a decoder
gives.

## Main definitions

* `Notice.isRemark`: a notice that no counter belongs to.
* `Trail`: what a decoder may leave behind.
* `Decoder.Orderly`: a decoder leaves nothing else behind.

## Main results

* `Decoder.Orderly.bind`, `Decoder.Orderly.times`: composite decoders.
* `Script.Record.orderly_decode`, `Container.Entry.orderly_decode`: the largest of them.
-/

namespace AssetPack

open Script Container

/-! ### Notices -/

namespace Notice

/-- The warning that a bytecode version is not the known one. -/
def isVersionWarning (n : Notice) : Bool := n matches unexpectedVersion ..

/-- An error. -/
def isError (n : Notice) : Bool := n.level == .error

/-- A warning that is not about a bytecode version. -/
def isComplaint (n : Notice) : Bool := n.level == .warn && !n.isVersionWarning

/-- A notice that no counter belongs to. -/
def isRemark (n : Notice) : Bool := !n.isError && !n.isComplaint

end Notice

/-! ### What a decoder leaves -/

/-- What a decoder may leave behind if it starts at `c`: the cursor `after` and the notices `ns`. -/
structure Trail (c after : Cursor) (ns : List Notice) : Prop where
  /-- The cursor has passed over some of the bytes that were left. -/
  forward : ∃ n ≤ c.remaining, after = c.advance n
  /-- The notices are remarks. -/
  remarks : ∀ n ∈ ns, n.isRemark = true

namespace Trail

variable {c c₁ c₂ : Cursor} {ns ns' : List Notice}

theorem advance {n : Nat} (h : n ≤ c.remaining) : Trail c (c.advance n) [] :=
  ⟨⟨n, h, rfl⟩, fun _ hn => by cases hn⟩

theorem refl (c : Cursor) : Trail c c [] := advance (Nat.zero_le c.remaining)

theorem trans (h : Trail c c₁ ns) (h' : Trail c₁ c₂ ns') : Trail c c₂ (ns ++ ns') := by
  obtain ⟨n, hn, rfl⟩ := h.forward
  obtain ⟨m, hm, rfl⟩ := h'.forward
  rw [Cursor.remaining_advance] at hm
  refine ⟨⟨n + m, by omega, Cursor.advance_advance c n m⟩, fun n hn => ?_⟩
  rcases List.mem_append.mp hn with hn | hn
  · exact h.remarks n hn
  · exact h'.remarks n hn

end Trail

namespace Decoder

variable {ε ε' α β : Type}

/-- Whatever comes out, the decoder has passed over some bytes and made remarks. -/
def Orderly (d : Decoder ε α) : Prop :=
  ∀ c : Cursor, Trail c (d.run c).cursor (d.run c).notices

namespace Orderly

/-! ### Combinators -/

protected theorem pure (a : α) : Orderly (pure a : Decoder ε α) := Trail.refl

protected theorem fail (e : ε) : Orderly (fail e : Decoder ε α) := Trail.refl

protected theorem ofExcept (result : Except ε α) : Orderly (ofExcept result) := Trail.refl

protected theorem note {n : Notice} (h : n.isRemark = true) :
    Orderly (note n : Decoder ε Unit) := by
  refine fun c => ⟨(Trail.refl c).forward, fun m hm => ?_⟩
  rw [List.mem_singleton.mp hm]
  exact h

protected theorem mapError {d : Decoder ε α} {f : ε → ε'} (h : Orderly d) :
    Orderly (mapError f d) := h

protected theorem lookahead {d : Decoder ε α} (h : Orderly d) : Orderly (lookahead d) :=
  fun c => ⟨(Trail.refl c).forward, (h c).remarks⟩

/-- **Sequencing.** A failure of the first decoder ends where that one ended. -/
protected theorem bind {d : Decoder ε α} {next : α → Decoder ε β} (h : Orderly d)
    (hnext : ∀ a, Orderly (next a)) : Orderly (d >>= next) := by
  intro c
  cases hfirst : (d.run c).outcome with
  | error e =>
    rw [run_bind_of_error next hfirst]
    exact h c
  | ok a =>
    rw [run_bind_of_ok next hfirst]
    exact (h c).trans (hnext a _)

theorem here_bind {next : Cursor → Decoder ε β} (h : ∀ c, Orderly (next c)) :
    Orderly (here >>= next) :=
  fun c => h c c

/-- **Counted repetition.** -/
protected theorem times {d : Decoder ε α} (h : Orderly d) (count : Nat) :
    Orderly (times count d) := by
  induction count with
  | zero => exact .pure []
  | succ count ih => exact h.bind fun a => ih.bind fun rest => .pure (a :: rest)

/-! ### Primitives -/

protected theorem peekBytes (n : Nat) : Orderly (peekBytes n) := Trail.refl

protected theorem readBytes (n : Nat) : Orderly (readBytes n) := by
  intro c
  rcases Nat.lt_or_ge c.remaining n with hlt | hle
  · rw [run_readBytes_of_lt hlt]
    exact .refl c
  · rw [run_readBytes_of_le hle]
    exact .advance hle

protected theorem skip (n : Nat) : Orderly (skip n) := (Orderly.readBytes n).bind fun _ => .pure _

protected theorem peekByte : Orderly peekByte := (Orderly.peekBytes 1).bind fun _ => .pure _

protected theorem peekWord : Orderly peekWord := (Orderly.peekBytes 4).bind fun _ => .pure _

protected theorem readByte : Orderly readByte := (Orderly.readBytes 1).bind fun _ => .pure _

protected theorem readWord : Orderly readWord := (Orderly.readBytes 4).bind fun _ => .pure _

protected theorem readInt : Orderly readInt := Orderly.readWord.bind fun _ => .pure _

protected theorem readLong : Orderly readLong := (Orderly.readBytes 8).bind fun _ => .pure _

protected theorem alignTo (alignment : Nat) : Orderly (alignTo alignment) :=
  fun c => Orderly.skip (c.padding alignment) c

protected theorem align (alignment : Nat) : Orderly (align alignment) := by
  rw [Decoder.align]
  split
  · exact .fail _
  · exact (Orderly.alignTo alignment).mapError

end Orderly

end Decoder

open Decoder (Orderly)

/-! ### Scripts -/

namespace Script

theorem Header.orderly_decode : Orderly Header.decode := by
  refine (Orderly.peekBytes _).mapError.bind fun _ => (Orderly.ofExcept _).bind fun header =>
    (Orderly.skip _).mapError.bind fun _ => ?_
  dsimp only
  split
  · exact (Orderly.note rfl).bind fun _ => .pure header
  · exact .pure header

theorem Identifier.orderly_decode : Orderly Identifier.decode :=
  Orderly.peekWord.mapError.bind fun _ => (Orderly.readBytes _).mapError.bind fun _ => .pure _

theorem Span.orderly_string : Orderly Span.string :=
  .here_bind fun _ => Orderly.readWord.mapError.bind fun _ =>
    (Orderly.skip _).mapError.bind fun _ => (Orderly.alignTo 4).mapError.bind fun _ =>
    .here_bind fun _ => .pure _

theorem Span.orderly_nodePath : Orderly Span.nodePath :=
  .here_bind fun _ => Orderly.readWord.mapError.bind fun _ =>
    Orderly.readWord.mapError.bind fun _ => Orderly.readWord.mapError.bind fun _ =>
    (Span.orderly_string.times _).bind fun _ => .here_bind fun _ => .pure _

theorem Span.orderly_measure (kind : ValueKind) (wide : Bool) :
    Orderly (Span.measure kind wide) := by
  have hkind : Orderly (Span.ofKind kind wide) := by
    unfold Span.ofKind
    cases kind.layout with
    | fixed size => exact .pure _
    | number => exact .pure _
    | string => exact Span.orderly_string
    | nodePath => exact Span.orderly_nodePath
    | pool elementSize => exact Orderly.readWord.mapError.bind fun _ => .pure _
    | unsupported => exact .fail _
  exact hkind.lookahead.bind fun _ => (Orderly.peekBytes _).mapError.bind fun _ => .pure _

theorem Constant.orderly_decode : Orderly Constant.decode :=
  .here_bind fun _ => Orderly.readWord.mapError.bind fun _ => (Orderly.ofExcept _).bind
    fun (kind, wide) => (Span.orderly_measure kind wide).bind fun _ =>
    (Orderly.readBytes _).mapError.bind fun _ => (Orderly.skip _).mapError.bind fun _ =>
    (Orderly.note rfl).bind fun _ => .pure _

theorem LineMap.orderly_decodeInto (count : Nat) (map : LineMap) :
    Orderly (LineMap.decodeInto count map) := by
  induction count generalizing map with
  | zero => exact .pure map
  | succ count ih =>
    have hpair : Orderly LineMap.decodePair :=
      (Orderly.readBytes 8).mapError.bind fun _ => .pure _
    refine hpair.bind fun (token, packed) => ?_
    dsimp only
    split
    · exact (Orderly.note rfl).bind fun _ => ih _
    · exact (Orderly.pure ()).bind fun _ => ih _

theorem Token.orderly_decode : Orderly Token.decode := by
  refine Orderly.peekByte.mapError.bind fun _ => ?_
  split
  · exact Orderly.readWord.mapError.bind fun _ => .pure _
  · exact (Orderly.skip 1).mapError.bind fun _ => .pure _

theorem Record.orderly_decode : Orderly Record.decode :=
  .here_bind fun _ => Header.orderly_decode.bind fun _ => (Orderly.note rfl).bind fun _ =>
    (Identifier.orderly_decode.times _).bind fun _ =>
    (Constant.orderly_decode.times _).bind fun _ => (LineMap.orderly_decodeInto _ _).bind fun _ =>
    (Token.orderly_decode.times _).bind fun _ => .here_bind fun _ =>
    (Orderly.note rfl).bind fun _ => .pure _

end Script

/-! ### Containers -/

namespace Container

theorem Header.orderly_decode : Orderly Header.decode := by
  have hword : Orderly (Decoder.mapError IndexError.bounds Decoder.readWord) :=
    Orderly.readWord.mapError
  refine Orderly.peekWord.mapError.bind fun _ => ?_
  split
  · exact .fail _
  · exact (Orderly.skip 4).mapError.bind fun _ => hword.bind fun _ => hword.bind fun _ =>
      hword.bind fun _ => hword.bind fun _ => (Orderly.skip 64).mapError.bind fun _ =>
      hword.bind fun _ => .pure _

theorem Entry.orderly_decode (index : Nat) : Orderly (Entry.decode index) := by
  refine Orderly.readWord.mapError.bind fun _ => (Orderly.readBytes _).mapError.bind fun _ =>
    (Orderly.alignTo 4).mapError.bind fun _ => Orderly.readLong.mapError.bind fun _ =>
    Orderly.readLong.mapError.bind fun _ => (Orderly.readBytes 16).mapError.bind fun _ =>
    (Orderly.alignTo 4).mapError.bind fun _ => ?_
  split
  · exact .fail _
  · exact .pure _

end Container

end AssetPack
