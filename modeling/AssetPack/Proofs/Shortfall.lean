import AssetPack.Proofs.Advance
import AssetPack.Proofs.Container.Storage
import AssetPack.Proofs.Script.PayloadLength

/-!
# What a failed decoder says

An access that does not fit is reported with three figures: where it was, how much was wanted, how
much was left there. The figures are true of the cursor at which the access was made
(`Cursor.truthful_shortfall`), but a report may come from deep inside a decoder: from a copy of the
cursor that measures a node path, or from a string behind many others. What the caller knows is the
cursor that it handed over.

So the figures are judged from there. `Bounds.Truthful` says that the access was in the part of the
range that was still to be read and that what was left reaches to the end of the range, which is the
same end for every cursor over it. A report that is truthful further on is therefore truthful
further back (`Bounds.Truthful.back`). Whatever has that property passes through all combinators;
`Grounds` is the general form, and `Decoder.FailsFor` a decoder that fails on such grounds only.

## Main definitions

* `Bounds.Truthful`: figures that fit the range of a cursor.
* `Grounds`, `Decoder.FailsFor`: what a decoder may fail for.
* `Script.BodyError`, `Container.TableError`: what a record may fail for once its header was read,
  and an index once its magic was seen.
* `Container.CutOff`: what the parts of an index may fail for.

## Main results

* `Script.Record.decode_error`, `Container.Index.decode_error`: all failures of a record and of an
  index.
* `Bounds.fits_of_refused`: reported figures are true.
-/

namespace AssetPack

open Script Container
open Decoder (Orderly)

/-! ### Figures -/

/-- The figures of a refused access are true, seen from a cursor that was there before. -/
structure Bounds.Truthful (c : Cursor) (e : Bounds) : Prop where
  /-- The access was at the cursor or behind it. -/
  offset : c.position ≤ e.offset
  /-- What was left reaches from the access to the end of the range. -/
  reach : e.offset + e.available = c.position + c.remaining
  /-- It was too little. -/
  short : e.available < e.length
  /-- What was wanted is a length, not the largest number there is room for. -/
  modest : e.length < 2 ^ 64 - 1

theorem Cursor.truthful_shortfall {c : Cursor} {n : Nat} (h : c.remaining < n)
    (hn : n < 2 ^ 64 - 1) : (c.shortfall n).Truthful c :=
  ⟨Nat.le_refl _, rfl, h, hn⟩

/-- What is true further on in the range is true further back. -/
theorem Bounds.Truthful.back {c : Cursor} {n : Nat} {e : Bounds} (hn : n ≤ c.remaining)
    (h : e.Truthful (c.advance n)) : e.Truthful c := by
  have hposition : (c.advance n).position = c.position + n := by
    simp only [Cursor.position, Cursor.advance, Nat.add_assoc]
  have hoffset := h.offset
  have hreach := h.reach
  rw [hposition] at hoffset hreach
  rw [Cursor.remaining_advance] at hreach
  exact ⟨by omega, by omega, h.short, h.modest⟩

/-! ### Grounds -/

/-- What a decoder may fail for, depending on the cursor it started at. An error that is covered
further on in the range has to be covered further back. -/
structure Grounds (ε : Type) where
  /-- The error is one of those that may come of a decoder that starts at the cursor. -/
  covers : Cursor → ε → Prop
  /-- Bytes passed over in between make no difference. -/
  back : ∀ {c : Cursor} {n : Nat} {e : ε}, n ≤ c.remaining → covers (c.advance n) e → covers c e

/-- A single access. -/
def Grounds.truthful : Grounds Bounds := ⟨fun c e => e.Truthful c, Bounds.Truthful.back⟩

namespace Decoder

variable {ε ε' α β : Type}

/-- A failure of two decoders in a row is a failure of the first or of the second. -/
theorem error_of_bind {d : Decoder ε α} {next : α → Decoder ε β} {c : Cursor} {e : ε}
    (h : ((d >>= next).run c).outcome = .error e) :
    (d.run c).outcome = .error e ∧ ((d >>= next).run c).cursor = (d.run c).cursor ∨
      ∃ a, (d.run c).outcome = .ok a ∧ ((next a).run (d.run c).cursor).outcome = .error e ∧
        ((d >>= next).run c).cursor = ((next a).run (d.run c).cursor).cursor := by
  cases hfirst : (d.run c).outcome with
  | error e' =>
    rw [run_bind_of_error next hfirst] at h ⊢
    cases h
    exact .inl ⟨rfl, rfl⟩
  | ok a =>
    rw [run_bind_of_ok next hfirst] at h ⊢
    exact .inr ⟨a, rfl, h, rfl⟩

/-- A success of two decoders in a row is a success of both. -/
theorem ok_of_bind {d : Decoder ε α} {next : α → Decoder ε β} {c : Cursor} {b : β}
    (h : ((d >>= next).run c).outcome = .ok b) :
    ∃ a, (d.run c).outcome = .ok a ∧ ((next a).run (d.run c).cursor).outcome = .ok b := by
  cases hfirst : (d.run c).outcome with
  | error e =>
    rw [run_bind_of_error next hfirst] at h
    cases h
  | ok a =>
    rw [run_bind_of_ok next hfirst] at h
    exact ⟨a, rfl, h⟩

/-- Going on with a result does not change why there is none. -/
theorem map_eq_error_iff {result : Except ε α} {f : α → β} {e : ε} :
    result.map f = .error e ↔ result = .error e := by
  cases result <;> simp [Except.map]

theorem map_eq_ok_iff {result : Except ε α} {f : α → β} {b : β} :
    result.map f = .ok b ↔ ∃ a, result = .ok a ∧ f a = b := by
  cases result <;> simp [Except.map]

theorem run_mapError_peekBytes_of_lt {c : Cursor} {n : Nat} (f : Bounds → ε)
    (h : c.remaining < n) :
    ((mapError f (peekBytes n)).run c).outcome = .error (f (c.shortfall n)) := by
  rw [run_mapError, run, peekBytes, Cursor.peek_of_lt h]
  rfl

theorem run_mapError_peekBytes_of_le {c : Cursor} {n : Nat} (f : Bounds → ε)
    (h : n ≤ c.remaining) :
    ((mapError f (peekBytes n)).run c).outcome = .ok (c.rest.take n) := by
  rw [run_mapError, run, peekBytes, Cursor.peek_of_le h]
  rfl

/-- The decoder fails on the given grounds only. -/
structure FailsFor (grounds : Grounds ε) (d : Decoder ε α) : Prop where
  /-- It leaves the cursor somewhere in the range. -/
  orderly : Orderly d
  /-- Its errors are covered. -/
  error : ∀ {c : Cursor} {e : ε}, (d.run c).outcome = .error e → grounds.covers c e

namespace FailsFor

variable {grounds : Grounds ε} {grounds' : Grounds ε'}

protected theorem pure (a : α) : FailsFor grounds (pure a : Decoder ε α) :=
  ⟨.pure a, fun h => by cases h⟩

protected theorem fail {e : ε} (h : ∀ c, grounds.covers c e) :
    FailsFor grounds (fail e : Decoder ε α) :=
  ⟨.fail e, fun he => by cases he; exact h _⟩

protected theorem ofExcept {result : Except ε α}
    (h : ∀ c e, result = .error e → grounds.covers c e) : FailsFor grounds (ofExcept result) :=
  ⟨.ofExcept result, h _ _⟩

protected theorem note {n : Notice} (h : n.isRemark = true) :
    FailsFor grounds (note n : Decoder ε Unit) :=
  ⟨.note h, fun he => by cases he⟩

/-- Stating errors in other terms is harmless if the terms cover what they stand for. -/
protected theorem mapError {d : Decoder ε α} {f : ε → ε'} (h : FailsFor grounds d)
    (hf : ∀ c e, grounds.covers c e → grounds'.covers c (f e)) :
    FailsFor grounds' (mapError f d) := by
  refine ⟨h.orderly.mapError, fun {c e} he => ?_⟩
  rw [run_mapError] at he
  cases hd : (d.run c).outcome with
  | error e' =>
    rw [hd] at he
    cases he
    exact hf c e' (h.error hd)
  | ok a =>
    rw [hd] at he
    cases he

protected theorem lookahead {d : Decoder ε α} (h : FailsFor grounds d) :
    FailsFor grounds (lookahead d) :=
  ⟨h.orderly.lookahead, h.error⟩

/-- **Sequencing.** An error of the second decoder comes from further on. -/
protected theorem bind {d : Decoder ε α} {next : α → Decoder ε β} (h : FailsFor grounds d)
    (hnext : ∀ a, FailsFor grounds (next a)) : FailsFor grounds (d >>= next) := by
  refine ⟨h.orderly.bind fun a => (hnext a).orderly, fun {c e} he => ?_⟩
  obtain ⟨hfirst, -⟩ | ⟨a, -, hsecond, -⟩ := error_of_bind he
  · exact h.error hfirst
  · obtain ⟨n, hn, hcursor⟩ := (h.orderly c).forward
    rw [hcursor] at hsecond
    exact grounds.back hn ((hnext a).error hsecond)

theorem here_bind {next : Cursor → Decoder ε β} (h : ∀ c, FailsFor grounds (next c)) :
    FailsFor grounds (here >>= next) :=
  ⟨.here_bind fun c => (h c).orderly, fun {c _} he => (h c).error he⟩

/-- **Counted repetition.** -/
protected theorem times {d : Decoder ε α} (h : FailsFor grounds d) (count : Nat) :
    FailsFor grounds (times count d) := by
  induction count with
  | zero => exact .pure []
  | succ count ih => exact h.bind fun a => ih.bind fun rest => .pure (a :: rest)

/-! ### Primitives -/

protected theorem readBytes {n : Nat} (hn : n < 2 ^ 64 - 1) :
    FailsFor .truthful (readBytes n) := by
  refine ⟨.readBytes n, fun {c e} he => ?_⟩
  rcases Nat.lt_or_ge c.remaining n with hlt | hle
  · rw [run_readBytes_of_lt hlt] at he
    cases he
    exact Cursor.truthful_shortfall hlt hn
  · rw [run_readBytes_of_le hle] at he
    cases he

protected theorem peekBytes {n : Nat} (hn : n < 2 ^ 64 - 1) :
    FailsFor .truthful (peekBytes n) := by
  rw [peekBytes_eq_lookahead]
  exact (FailsFor.readBytes hn).lookahead

protected theorem skip {n : Nat} (hn : n < 2 ^ 64 - 1) : FailsFor .truthful (skip n) :=
  (FailsFor.readBytes hn).bind fun _ => .pure _

protected theorem peekByte : FailsFor .truthful peekByte :=
  (FailsFor.peekBytes (by decide)).bind fun _ => .pure _

protected theorem peekWord : FailsFor .truthful peekWord :=
  (FailsFor.peekBytes (by decide)).bind fun _ => .pure _

protected theorem readWord : FailsFor .truthful readWord :=
  (FailsFor.readBytes (by decide)).bind fun _ => .pure _

protected theorem readLong : FailsFor .truthful readLong :=
  (FailsFor.readBytes (by decide)).bind fun _ => .pure _

protected theorem alignTo_four : FailsFor .truthful (alignTo 4) := by
  refine ⟨.alignTo 4, fun {c e} he => ?_⟩
  have hpadding : c.padding 4 < 2 ^ 64 - 1 := by
    rw [Cursor.padding]
    omega
  exact (FailsFor.skip hpadding).error he

end FailsFor

end Decoder

open Decoder (FailsFor)

/-! ### Scripts -/

/-- What a record may fail for once its header was read: it is cut off in another part, with true
figures, or it has a constant of a kind that cannot be read. -/
inductive Script.BodyError (c : Cursor) : RecordError → Prop where
  | truncated {part : Part} {bounds : Bounds} (hpart : part ≠ .header) (h : bounds.Truthful c) :
    Script.BodyError c (.truncated part bounds)
  | unsupported (kind : ValueKind) : Script.BodyError c (.unsupported kind)
  | unknownKind (number : UInt32) : Script.BodyError c (.unknownKind number)

theorem Script.BodyError.back {c : Cursor} {n : Nat} {e : RecordError} (hn : n ≤ c.remaining)
    (h : BodyError (c.advance n) e) : BodyError c e := by
  cases h with
  | truncated hpart h => exact .truncated hpart (h.back hn)
  | unsupported kind => exact .unsupported kind
  | unknownKind number => exact .unknownKind number

/-- Everything behind the header of a record. -/
def Grounds.body : Grounds RecordError := ⟨BodyError, BodyError.back⟩

namespace Script

/-- A primitive read as a part of the body. -/
theorem failsFor_part {α : Type} {d : Decoder Bounds α} {part : Part}
    (h : FailsFor .truthful d) (hpart : part ≠ .header := by decide) :
    FailsFor .body (Decoder.mapError (.truncated part) d) :=
  h.mapError fun _ _ htrue => .truncated hpart htrue

/-- A count that is a word never comes near the largest length. -/
theorem add_toNat_lt (n : Nat) (w : UInt32) (hn : n < 2 ^ 32 := by decide) :
    n + w.toNat < 2 ^ 64 - 1 := by
  have hw := w.toNat_lt
  omega

theorem Identifier.failsFor_decode : FailsFor .body Identifier.decode :=
  (failsFor_part .peekWord).bind fun length =>
    (failsFor_part (.readBytes (add_toNat_lt 4 length))).bind fun _ => .pure _

namespace Span

theorem failsFor_string : FailsFor .body string :=
  .here_bind fun _ => (failsFor_part .readWord).bind fun length =>
    (failsFor_part (.skip (by simpa using add_toNat_lt 0 length))).bind fun _ =>
    (failsFor_part .alignTo_four).bind fun _ => .here_bind fun _ => .pure _

theorem failsFor_nodePath : FailsFor .body nodePath :=
  .here_bind fun _ => (failsFor_part .readWord).bind fun _ =>
    (failsFor_part .readWord).bind fun _ => (failsFor_part .readWord).bind fun _ =>
    (failsFor_string.times _).bind fun _ => .here_bind fun _ => .pure _

theorem failsFor_ofKind (kind : ValueKind) (wide : Bool) : FailsFor .body (ofKind kind wide) := by
  unfold ofKind
  cases kind.layout with
  | fixed size => exact .pure _
  | number => exact .pure _
  | string => exact failsFor_string
  | nodePath => exact failsFor_nodePath
  | pool elementSize => exact (failsFor_part .readWord).bind fun _ => .pure _
  | unsupported => exact .fail fun _ => .unsupported kind

/-- A payload that was measured to be longer than what is left has a length that its kind and a
count tell. Those that are measured by passing over them are never longer than what is left. -/
theorem consumed_lt_of_overrun {kind : ValueKind} {wide : Bool} {c : Cursor} {span : Span}
    (h : ((ofKind kind wide).run c).outcome = .ok span) (hlong : c.remaining < span.consumed) :
    span.consumed < 2 ^ 64 - 1 := by
  obtain ⟨base, pos, rest⟩ := c
  obtain ⟨probe, tail, rfl, hformat, -⟩ := (reads_ofKind kind wide).sound h
  rw [Cursor.remaining, List.length_append] at hlong
  generalize hlayout : kind.layout = layout at hformat
  cases layout with
  | fixed size =>
    obtain ⟨rfl, -⟩ := hformat
    have hsize : size ≤ 48 := by
      cases kind <;> cases hlayout <;> decide
    exact Nat.lt_of_le_of_lt hsize (by decide)
  | number =>
    obtain ⟨rfl, -⟩ := hformat
    cases wide with
    | false => decide
    | true => decide
  | string =>
    obtain ⟨length, text, pad, -, -, -, rfl⟩ := hformat
    dsimp only at hlong
    omega
  | nodePath =>
    obtain ⟨-, rfl⟩ := hformat
    dsimp only [exact] at hlong
    omega
  | pool elementSize =>
    obtain ⟨count, -, rfl⟩ := hformat
    have hcount := count.toNat_lt
    have hproduct : count.toNat * elementSize ≤ (2 ^ 32 - 1) * 12 :=
      Nat.mul_le_mul (by omega) (ValueKind.elementSize_le hlayout)
    dsimp only [exact]
    omega
  | unsupported => exact hformat.elim

theorem failsFor_measure (kind : ValueKind) (wide : Bool) :
    FailsFor .body (measure kind wide) := by
  refine ⟨orderly_measure kind wide, fun {c e} he => ?_⟩
  obtain ⟨hprobe, -⟩ | ⟨span, hprobe, hcheck, -⟩ := Decoder.error_of_bind he
  · exact (failsFor_ofKind kind wide).lookahead.error hprobe
  · change ((Decoder.mapError (.truncated .constantPayload)
      (Decoder.peekBytes span.consumed) >>= fun _ => pure span).run c).outcome = .error e at hcheck
    rcases Nat.lt_or_ge c.remaining span.consumed with hlong | hfits
    · have hmodest := consumed_lt_of_overrun hprobe hlong
      exact ((failsFor_part (.peekBytes hmodest)).bind fun _ => .pure _).error hcheck
    · have hthere := Decoder.run_mapError_peekBytes_of_le
        (RecordError.truncated .constantPayload) hfits
      rw [Decoder.run_bind_of_ok _ hthere] at hcheck
      cases hcheck

end Span

namespace Constant

/-- Behind the tag word only the measuring can fail. -/
theorem measure_error_of_decodePayload {kind : ValueKind} {wide : Bool} {start : Nat} {c : Cursor}
    {e : RecordError} (h : ((decodePayload kind wide start).run c).outcome = .error e) :
    ((Span.measure kind wide).run c).outcome = .error e := by
  cases hmeasure : ((Span.measure kind wide).run c).outcome with
  | error e' =>
    rw [decodePayload, Decoder.run_bind_of_error _ hmeasure] at h
    cases h
    rfl
  | ok span =>
    rw [(run_decodePayload hmeasure start).1] at h
    cases h

theorem failsFor_decodePayload (kind : ValueKind) (wide : Bool) (start : Nat) :
    FailsFor .body (decodePayload kind wide start) :=
  ⟨(Span.orderly_measure kind wide).bind fun _ => (Orderly.readBytes _).mapError.bind fun _ =>
      (Orderly.skip _).mapError.bind fun _ => (Orderly.note rfl).bind fun _ => .pure _,
    fun h => (Span.failsFor_measure kind wide).error (measure_error_of_decodePayload h)⟩

theorem failsFor_decode : FailsFor .body decode := by
  refine .here_bind fun start => (failsFor_part .readWord).bind fun tag =>
    FailsFor.bind (.ofExcept fun c e he => ?_) fun (kind, wide) =>
      failsFor_decodePayload kind wide start.pos
  cases hkind : ValueKind.ofTag tag with
  | error number =>
    rw [hkind] at he
    cases he
    exact .unknownKind number
  | ok pair =>
    rw [hkind] at he
    cases he

end Constant

theorem LineMap.failsFor_decodeInto (count : Nat) (map : LineMap) :
    FailsFor .body (LineMap.decodeInto count map) := by
  induction count generalizing map with
  | zero => exact .pure map
  | succ count ih =>
    have hpair : FailsFor .body LineMap.decodePair :=
      (failsFor_part (.readBytes (by decide))).bind fun _ => .pure _
    refine hpair.bind fun (token, packed) => ?_
    dsimp only
    split
    · exact (FailsFor.note rfl).bind fun _ => ih _
    · exact (FailsFor.pure ()).bind fun _ => ih _

theorem Token.failsFor_decode : FailsFor .body Token.decode := by
  refine (failsFor_part .peekByte).bind fun _ => ?_
  split
  · exact (failsFor_part .readWord).bind fun _ => .pure _
  · exact (failsFor_part (.skip (by decide))).bind fun _ => .pure _

namespace Header

theorem ofBytes_error {bytes : Bytes} {e : RecordError} (h : ofBytes bytes = .error e) :
    ∃ found, e = .badSignature found := by
  rw [ofBytes] at h
  split at h
  · cases h
  · cases h
    exact ⟨_, rfl⟩

/-- With too few bytes for a header nothing is read. -/
theorem decode_of_lt {c : Cursor} (h : c.remaining < size) :
    (decode.run c).outcome = .error (.truncated .header (c.shortfall size)) ∧
      (decode.run c).cursor = c := by
  have hpeek := Decoder.run_mapError_peekBytes_of_lt (RecordError.truncated .header) h
  rw [decode, Decoder.run_bind_of_error _ hpeek]
  exact ⟨rfl, Decoder.still_peekBytes size c⟩

/-- **All failures of a header.** It is cut off, or it has another signature. Either way the cursor
stays. -/
theorem decode_error {c : Cursor} {e : RecordError} (h : (decode.run c).outcome = .error e) :
    (decode.run c).cursor = c ∧
      (c.remaining < size ∧ e = .truncated .header (c.shortfall size) ∨
        size ≤ c.remaining ∧ ∃ found, e = .badSignature found) := by
  rcases Nat.lt_or_ge c.remaining size with hlt | hle
  · obtain ⟨houtcome, hstay⟩ := decode_of_lt hlt
    rw [houtcome] at h
    cases h
    exact ⟨hstay, .inl ⟨hlt, rfl⟩⟩
  · obtain ⟨hpeek, -⟩ | ⟨bytes, -, hrest, hcursor⟩ := Decoder.error_of_bind h
    · rw [Decoder.run_mapError_peekBytes_of_le _ hle] at hpeek
      cases hpeek
    obtain ⟨hheader, hstay⟩ | ⟨header, -, hrest, -⟩ := Decoder.error_of_bind hrest
    · exact ⟨hcursor.trans hstay, .inr ⟨hle, ofBytes_error hheader⟩⟩
    -- all of it is there and is passed over, and a version that is not known is no failure
    obtain ⟨hskip, -⟩ | ⟨-, -, hrest, -⟩ := Decoder.error_of_bind hrest
    · change ((Decoder.mapError (RecordError.truncated .header) (Decoder.skip size)).run
        c).outcome = _ at hskip
      rw [Decoder.run_mapError, Decoder.run_skip_of_le hle] at hskip
      cases hskip
    · split at hrest
      · cases hrest
      · cases hrest

end Header

namespace Record

/-- What is done behind the header. -/
def decodeBody (start : Cursor) (header : Header) : Decoder RecordError Record := do
  Decoder.note (.scriptHeader start.position header.version header.identifiers header.constants
    header.lines header.tokens)
  let identifiers ← Decoder.times header.identifiers.toNat Identifier.decode
  let constants ← Decoder.times header.constants.toNat Constant.decode
  let lineMap ← LineMap.decode header.lines
  let tokens ← Token.decodeMany header.tokens
  let stop ← Decoder.here
  Decoder.note (.scriptEnd stop.position)
  return ⟨header, identifiers, constants, lineMap, tokens, stop.pos - start.pos⟩

theorem run_decode (c : Cursor) : decode.run c = (Header.decode >>= decodeBody c).run c := rfl

theorem failsFor_decodeBody (start : Cursor) (header : Header) :
    FailsFor .body (decodeBody start header) :=
  (FailsFor.note rfl).bind fun _ => (Identifier.failsFor_decode.times _).bind fun _ =>
    (Constant.failsFor_decode.times _).bind fun _ => (LineMap.failsFor_decodeInto _ _).bind fun _ =>
    (Token.failsFor_decode.times _).bind fun _ => .here_bind fun _ =>
    (FailsFor.note rfl).bind fun _ => .pure _

/-- **All failures of a record.** The header fails and the cursor stays, or the header was read and
what fails is behind it. -/
theorem decode_error {c : Cursor} {e : RecordError} (h : (decode.run c).outcome = .error e) :
    (Header.decode.run c).outcome = .error e ∧ (decode.run c).cursor = c ∨
      (∃ header, (Header.decode.run c).outcome = .ok header) ∧ BodyError c e := by
  rw [run_decode] at h ⊢
  obtain ⟨hheader, hcursor⟩ | ⟨header, hheader, hbody, -⟩ := Decoder.error_of_bind h
  · exact .inl ⟨hheader, hcursor.trans (Header.decode_error hheader).1⟩
  · obtain ⟨n, hn, hcursor⟩ := (Header.orderly_decode c).forward
    rw [hcursor] at hbody
    exact .inr ⟨⟨header, hheader⟩, ((failsFor_decodeBody c header).error hbody).back hn⟩

/-- A truncation of a record is reported with true figures, wherever it is. -/
theorem truthful_of_decode {c : Cursor} {part : Part} {bounds : Bounds}
    (h : (decode.run c).outcome = .error (.truncated part bounds)) : bounds.Truthful c := by
  obtain ⟨hheader, -⟩ | ⟨-, hbody⟩ := decode_error h
  · obtain ⟨hlt, heq⟩ | ⟨-, found, heq⟩ := (Header.decode_error hheader).2
    · cases heq
      exact Cursor.truthful_shortfall hlt (by decide)
    · cases heq
  · cases hbody with
    | truncated _ htrue => exact htrue

end Record

/-! ### The product of an array -/

namespace Span

/-- The product of a count and an element size in 64-bit words, unless it is too large for one. -/
def checkedProduct (count : UInt32) (elementSize : Nat) : Option Nat :=
  if count.toNat * elementSize < 2 ^ 64 then
    some (UInt64.ofNat count.toNat * UInt64.ofNat elementSize).toNat
  else none

/-- `Span.pool` with a product that is checked. What is reported of one that is too large may depend
on the cursor in front of the count and behind it. -/
def checkedPool (overflow : Cursor → Cursor → RecordError) (elementSize : Nat) :
    Decoder RecordError Span := do
  let start ← Decoder.here
  let count ← Decoder.mapError (.truncated .poolLength) Decoder.readWord
  let stop ← Decoder.here
  match checkedProduct count elementSize with
  | some length => return exact (4 + length)
  | none => Decoder.fail (overflow start stop)

/-- The product is never too large, so nothing is ever reported of it. -/
theorem checkedPool_eq_pool {kind : ValueKind} {elementSize : Nat}
    (h : kind.layout = .pool elementSize) (overflow : Cursor → Cursor → RecordError) :
    checkedPool overflow elementSize = pool elementSize := by
  have hproduct : ∀ count, checkedProduct count elementSize = some (count.toNat * elementSize) := by
    intro count
    obtain ⟨heq, hlt⟩ := ValueKind.toNat_mul_elementSize h count
    rw [checkedProduct, if_pos (by omega), heq]
  simp only [checkedPool, hproduct]
  rfl

end Span

end Script

/-! ### Containers -/

/-- An index that is cut off, with true figures. -/
def Container.CutOff (c : Cursor) (e : IndexError) : Prop :=
  ∃ bounds : Bounds, e = .bounds bounds ∧ bounds.Truthful c

theorem Container.CutOff.back {c : Cursor} {n : Nat} {e : IndexError} (hn : n ≤ c.remaining)
    (h : CutOff (c.advance n) e) : CutOff c e := by
  obtain ⟨bounds, he, htrue⟩ := h
  exact ⟨bounds, he, htrue.back hn⟩

/-- What an index may fail for once its magic was seen: it is cut off, or an entry has a negative
range. -/
inductive Container.TableError (c : Cursor) : IndexError → Prop where
  | bounds {bounds : Bounds} (h : bounds.Truthful c) : Container.TableError c (.bounds bounds)
  | negativeRange (index : Nat) (offset size : Int64) :
    Container.TableError c (.negativeRange index offset size)

theorem Container.TableError.back {c : Cursor} {n : Nat} {e : IndexError} (hn : n ≤ c.remaining)
    (h : TableError (c.advance n) e) : TableError c e := by
  cases h with
  | bounds h => exact .bounds (h.back hn)
  | negativeRange index offset size => exact .negativeRange index offset size

theorem Container.CutOff.tableError {c : Cursor} {e : IndexError} (h : CutOff c e) :
    TableError c e := by
  obtain ⟨bounds, rfl, htrue⟩ := h
  exact .bounds htrue

/-- Every single access to an index. -/
def Grounds.cutOff : Grounds IndexError := ⟨CutOff, CutOff.back⟩

/-- Everything behind the magic of an index. -/
def Grounds.table : Grounds IndexError := ⟨TableError, TableError.back⟩

namespace Container

theorem failsFor_bounds {α : Type} {d : Decoder Bounds α} (h : FailsFor .truthful d) :
    FailsFor .cutOff (Decoder.mapError .bounds d) :=
  h.mapError fun _ e htrue => ⟨e, rfl, htrue⟩

theorem failsFor_table {α : Type} {d : Decoder IndexError α} (h : FailsFor .cutOff d) :
    FailsFor .table d :=
  ⟨h.orderly, fun he => (h.error he : CutOff _ _).tableError⟩

namespace Entry

/-- An entry is not read only if it is cut off. -/
theorem failsFor_decodeRow : FailsFor .cutOff decodeRow :=
  (failsFor_bounds .readWord).bind fun length =>
    (failsFor_bounds (.readBytes (by simpa using add_toNat_lt 0 length))).bind fun _ =>
    (failsFor_bounds .alignTo_four).bind fun _ => (failsFor_bounds .readLong).bind fun _ =>
    (failsFor_bounds .readLong).bind fun _ =>
    (failsFor_bounds (.readBytes (by decide))).bind fun _ => .pure _

theorem failsFor_decode (index : Nat) : FailsFor .table (decode index) := by
  rw [decode_eq]
  refine (failsFor_table failsFor_decodeRow).bind fun e => ?_
  unfold judge
  split
  · exact .fail fun _ => .negativeRange index _ _
  · exact .pure _

end Entry

namespace Header

/-- What is done behind the magic. -/
def decodeFields : Decoder IndexError Header := do
  Decoder.mapError .bounds (Decoder.skip 4)
  let formatVersion ← Decoder.mapError .bounds Decoder.readWord
  let engineMajor ← Decoder.mapError .bounds Decoder.readWord
  let engineMinor ← Decoder.mapError .bounds Decoder.readWord
  let enginePatch ← Decoder.mapError .bounds Decoder.readWord
  Decoder.mapError .bounds (Decoder.skip 64)
  let fileCount ← Decoder.mapError .bounds Decoder.readWord
  return ⟨formatVersion, engineMajor, engineMinor, enginePatch, fileCount⟩

theorem failsFor_decodeFields : FailsFor .cutOff decodeFields :=
  have hword : FailsFor .cutOff (Decoder.mapError IndexError.bounds Decoder.readWord) :=
    failsFor_bounds .readWord
  (failsFor_bounds (.skip (by decide))).bind fun _ => hword.bind fun _ => hword.bind fun _ =>
    hword.bind fun _ => hword.bind fun _ => (failsFor_bounds (.skip (by decide))).bind fun _ =>
    hword.bind fun _ => .pure _

theorem decode_eq :
    decode = Decoder.mapError .bounds Decoder.peekWord >>= fun found =>
      if found ≠ magic then Decoder.fail (.badMagic found) else decodeFields := rfl

/-- **All failures of a header.** It has another magic and the cursor stays, or it is cut off. -/
theorem decode_error {c : Cursor} {e : IndexError} (h : (decode.run c).outcome = .error e) :
    (∃ found, e = .badMagic found) ∧ (decode.run c).cursor = c ∨ CutOff c e := by
  rw [decode_eq] at h ⊢
  have hstay : ((Decoder.mapError IndexError.bounds Decoder.peekWord).run c).cursor = c :=
    Decoder.still_peekWord c
  obtain ⟨hpeek, -⟩ | ⟨found, -, hrest, hcursor⟩ := Decoder.error_of_bind h
  · exact .inr ((failsFor_bounds .peekWord).error hpeek)
  · rw [hcursor, hstay]
    rw [hstay] at hrest
    split at hrest
    · cases hrest
      exact .inl ⟨⟨found, rfl⟩, by rw [if_pos ‹_›]; rfl⟩
    · exact .inr (failsFor_decodeFields.error hrest)

end Header

namespace Index

theorem failsFor_decodeEntries (index count : Nat) :
    FailsFor .table (decodeEntries index count) := by
  induction count generalizing index with
  | zero => exact .pure []
  | succ count ih =>
    exact (Entry.failsFor_decode index).bind fun entry => (ih (index + 1)).bind fun rest =>
      .pure (entry :: rest)

/-- What is done behind the header. -/
def decodeTable (header : Header) : Decoder IndexError Index := do
  let entries ← decodeEntries 0 header.fileCount.toNat
  let stop ← Decoder.here
  Decoder.note (.indexRead entries.length stop.pos)
  return ⟨header, entries⟩

theorem failsFor_decodeTable (header : Header) : FailsFor .table (decodeTable header) :=
  (failsFor_decodeEntries 0 _).bind fun _ => .here_bind fun _ => (FailsFor.note rfl).bind fun _ =>
    .pure _

/-- **All failures of an index.** It has another magic and the cursor stays, or it is cut off, or an
entry has a negative range. -/
theorem decode_error {c : Cursor} {e : IndexError} (h : (decode.run c).outcome = .error e) :
    (∃ found, e = .badMagic found) ∧ (decode.run c).cursor = c ∨ TableError c e := by
  change ((Header.decode >>= decodeTable).run c).outcome = .error e at h
  change _ ∧ ((Header.decode >>= decodeTable).run c).cursor = c ∨ _
  obtain ⟨hheader, hcursor⟩ | ⟨header, -, htable, -⟩ := Decoder.error_of_bind h
  · rw [hcursor]
    exact (Header.decode_error hheader).imp_right CutOff.tableError
  · obtain ⟨n, hn, hcursor⟩ := (Header.orderly_decode c).forward
    rw [hcursor] at htable
    exact .inr (((failsFor_decodeTable header).error htable).back hn)

end Index

theorem TableError.truthful {c : Cursor} {bounds : Bounds} (h : TableError c (.bounds bounds)) :
    bounds.Truthful c := by
  cases h with
  | bounds h => exact h

/-- An index that is cut off is reported with true figures. -/
theorem Index.truthful_of_decode {c : Cursor} {bounds : Bounds}
    (h : (Index.decode.run c).outcome = .error (.bounds bounds)) : bounds.Truthful c := by
  obtain ⟨⟨found, heq⟩, -⟩ | htable := Index.decode_error h
  · cases heq
  · exact htable.truthful

end Container

/-! ### All reports -/

/-- The figures fit a range of `length` bytes that starts at the absolute offset `base`, of which
`passed` bytes were passed over: the access was behind those, what was left there reaches to the end
of the range, and more was wanted, but not the largest number that a word can hold. -/
def Bounds.Fits (base passed length : Nat) (e : Bounds) : Prop :=
  base + passed ≤ e.offset ∧ e.offset + e.available = base + length ∧ e.available < e.length ∧
    e.length ≠ 2 ^ 64 - 1

theorem Bounds.Truthful.fits {bytes : Bytes} {base passed : Nat} {e : Bounds}
    (hpassed : passed ≤ bytes.length)
    (h : e.Truthful ((Cursor.start bytes base).advance passed)) :
    e.Fits base passed bytes.length := by
  have hposition : ((Cursor.start bytes base).advance passed).position = base + passed := by
    simp only [Cursor.start, Cursor.advance, Cursor.position, Nat.zero_add]
  have hremaining : ((Cursor.start bytes base).advance passed).remaining =
      bytes.length - passed := Cursor.remaining_advance _ _
  have hoffset := h.offset
  have hreach := h.reach
  have hmodest := h.modest
  rw [hposition] at hoffset hreach
  rw [hremaining] at hreach
  exact ⟨hoffset, by omega, h.short, by omega⟩

/-- **Reported figures are true.** Wherever in a range the reading of a record, of an entry or of an
index starts, if it ends because bytes are missing, then the figures in the error fit the range: the
place is not before the start, exactly the bytes between that place and the end of the range are
said to be there, and more were wanted. The number that an overflow in the length of an array would
give is never among them, because no such product overflows. -/
theorem Bounds.fits_of_refused {bytes : Bytes} {base passed : Nat}
    (hpassed : passed ≤ bytes.length) :
    (∀ part e, (Record.decode.run ((Cursor.start bytes base).advance passed)).outcome =
        .error (.truncated part e) → e.Fits base passed bytes.length) ∧
    (∀ index e, ((Entry.decode index).run ((Cursor.start bytes base).advance passed)).outcome =
        .error (.bounds e) → e.Fits base passed bytes.length) ∧
    (∀ e, (Index.decode.run ((Cursor.start bytes base).advance passed)).outcome =
        .error (.bounds e) → e.Fits base passed bytes.length) ∧
    ∀ (kind : ValueKind) (elementSize : Nat), kind.layout = .pool elementSize →
      ∀ overflow, Span.checkedPool overflow elementSize = Span.pool elementSize :=
  ⟨fun _ _ h => (Record.truthful_of_decode h).fits hpassed,
    fun index _ h => ((Entry.failsFor_decode index).error h : TableError _ _).truthful.fits hpassed,
    fun _ h => (Index.truthful_of_decode h).fits hpassed,
    fun _ _ h overflow => Span.checkedPool_eq_pool h overflow⟩

/-- A byte, and a record that is cut off in the second string of a node path. -/
def cutPath : Bytes :=
  [0xEE] ++ Script.Header.encode ⟨Script.signature, 13, 0, 1, 0, 0⟩ ++
    LittleEndian.word (ValueKind.tag .nodePath false) ++
    [2, 0, 0, 0, 0, 0, 0, 0, 0, 0, 0, 0, 1, 0, 0, 0, 0x61, 0, 0, 0, 9, 0, 0, 0, 0x62, 0x63]

theorem Bounds.fits_of_refused_cutPath :
    ((Record.decode.run ((Cursor.start cutPath 3).advance 1)).outcome =
        .error (.truncated .string ⟨56, 9, 2⟩) ∧ Bounds.Fits 3 1 cutPath.length ⟨56, 9, 2⟩) ∧
    (((Entry.decode 0).run ((Cursor.start cutPath 3).advance 41)).outcome =
        .error (.bounds ⟨52, 8, 6⟩) ∧ Bounds.Fits 3 41 cutPath.length ⟨52, 8, 6⟩) ∧
    ((Index.decode.run ((Cursor.start cutPath 3).advance 53)).outcome =
        .error (.bounds ⟨56, 4, 2⟩) ∧ Bounds.Fits 3 53 cutPath.length ⟨56, 4, 2⟩) ∧
    ∀ overflow, Span.checkedPool overflow 12 = Span.pool 12 := by
  have hrecord : (Record.decode.run ((Cursor.start cutPath 3).advance 1)).outcome =
      .error (.truncated .string ⟨56, 9, 2⟩) := by rfl
  have hentry : ((Entry.decode 0).run ((Cursor.start cutPath 3).advance 41)).outcome =
      .error (.bounds ⟨52, 8, 6⟩) := by rfl
  have hindex : (Index.decode.run ((Cursor.start cutPath 3).advance 53)).outcome =
      .error (.bounds ⟨56, 4, 2⟩) := by rfl
  exact ⟨⟨hrecord, (Bounds.fits_of_refused (by decide)).1 _ _ hrecord⟩,
    ⟨hentry, (Bounds.fits_of_refused (by decide)).2.1 _ _ hentry⟩,
    ⟨hindex, (Bounds.fits_of_refused (by decide)).2.2.1 _ hindex⟩,
    (@Bounds.fits_of_refused cutPath 3 0 (Nat.zero_le _)).2.2.2 .poolVector3Array 12 rfl⟩

end AssetPack
