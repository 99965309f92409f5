import AssetPack.Proofs.Script.Sections

/-!
# Constants are read as they are stored

A constant is measured before it is taken. The measuring has a format of its own (`Span.format`):
how many bytes were looked at and what they said about the length. `Span.format_iff_holds` turns
that into the layout of the payload, one case for each layout; after it the measuring is gone from
the statements.

## Main results

* `ValueKind.ofTag_eq_ok_iff`: tag words and pairs of a kind and a flag.
* `Span.reads_ofKind`: what measuring reads.
* `Constant.reads_decode`: a constant is read in its format.
-/

namespace AssetPack.Script

open LittleEndian (word)
open Decoder (Reads)
open RecordError (reads_part)

variable {base pos : Nat}

/-! ### Tag words -/

namespace ValueKind

theorem map_number_all : all.map number = List.range 27 := rfl

theorem ofNumber?_eq_some_iff {n : Nat} {kind : ValueKind} :
    ofNumber? n = some kind ↔ n = kind.number := by
  constructor
  · intro h
    have hn : (all.map number)[n]? = some kind.number := by
      rw [List.getElem?_map, show all[n]? = some kind from h]
      rfl
    rw [map_number_all, List.getElem?_eq_some_iff] at hn
    obtain ⟨hlt, hn⟩ := hn
    rwa [List.getElem_range] at hn
  · rintro rfl
    exact ofNumber?_number kind

/-- The wide flag of a word is all or nothing. -/
theorem and_wideFlag (w : UInt32) :
    w &&& wideFlag = if w &&& wideFlag != 0 then wideFlag else 0 := by
  have h : (w &&& wideFlag).toNat = (w.toNat.testBit 16).toNat * 2 ^ 16 := by
    rw [UInt32.toNat_and]
    exact Nat.and_two_pow w.toNat 16
  cases hbit : w.toNat.testBit 16 with
  | false =>
    have hzero : w &&& wideFlag = 0 := by
      rw [← UInt32.toNat_inj, h, hbit]
      rfl
    simp [hzero]
  | true =>
    have hflag : w &&& wideFlag = wideFlag := by
      rw [← UInt32.toNat_inj, h, hbit]
      rfl
    rw [hflag]
    rfl

/-- A word is what it has outside a mask together with what it has inside. -/
theorem and_not_or_and (w mask : UInt32) : (w &&& ~~~mask) ||| (w &&& mask) = w := by
  rw [← UInt32.toBitVec_inj]
  ext i
  simp only [UInt32.toBitVec_or, UInt32.toBitVec_and, UInt32.toBitVec_not, BitVec.getElem_or,
    BitVec.getElem_and, BitVec.getElem_not]
  cases w.toBitVec[i] <;> cases mask.toBitVec[i] <;> rfl

theorem ofTag_tag (kind : ValueKind) (wide : Bool) : ofTag (tag kind wide) = .ok (kind, wide) := by
  cases kind <;> cases wide <;> rfl

theorem ofTag_eq_ok_iff {w : UInt32} {kind : ValueKind} {wide : Bool} :
    ofTag w = .ok (kind, wide) ↔ w = tag kind wide := by
  constructor
  · intro h
    rw [ofTag] at h
    split at h
    · next k hk =>
      cases h
      have hnumber : w &&& ~~~wideFlag = UInt32.ofNat kind.number := by
        rw [← ofNumber?_eq_some_iff.mp hk, UInt32.ofNat_toNat]
      rw [tag, ← hnumber, ← and_wideFlag, and_not_or_and]
    · cases h
  · rintro rfl
    exact ofTag_tag kind wide

theorem layout_eq_string_iff {kind : ValueKind} : kind.layout = .string ↔ kind = .string := by
  cases kind <;> simp [layout]

end ValueKind

/-! ### Measuring -/

theorem pads_iff {position : Nat} {pad : Bytes} :
    Pads position pad ↔ pad.length = (4 - position % 4) % 4 := by
  rw [Pads]
  omega

theorem reads_alignTo_four :
    Reads (fun _ => True) (Decoder.alignTo 4) base pos fun _ pad => Pads (base + pos) pad := by
  -- how much is skipped depends on where the cursor is and not on what is left
  have hskip : Reads (fun _ => True) (Decoder.skip ((4 - (base + pos) % 4) % 4)) base pos
      fun _ pad => Pads (base + pos) pad :=
    (Reads.skip _).congr fun _ pad => pads_iff.symm
  exact ⟨hskip.sound, hskip.complete, fun {a _ _} h hlost => hskip.truncated (a := a) h hlost⟩

namespace Span

/-- A padded string is looked at as a whole. -/
def stringFormat (position : Nat) : Format Span := fun span bytes =>
  ∃ (length : UInt32) (text pad : Bytes), text.length = length.toNat ∧
    Pads (position + 4 + text.length) pad ∧ bytes = word length ++ text ++ pad ∧
    span = ⟨4 + text.length, bytes.length⟩

/-- What is looked at to measure a payload of a layout, and the span that it gives. -/
def format (wide : Bool) (position : Nat) : Layout → Format Span
  | .fixed size => Format.empty (exact size)
  | .number => Format.empty (exact (if wide then 8 else 4))
  | .string => stringFormat position
  | .nodePath => fun span bytes =>
    Layout.Holds wide position .nodePath bytes ∧ span = exact bytes.length
  | .pool elementSize => fun span bytes =>
    ∃ count : UInt32, bytes = word count ∧ span = exact (4 + count.toNat * elementSize)
  | .unsupported => fun _ _ => False

theorem reads_string :
    Reads RecordError.IsTruncation string base pos (stringFormat (base + pos)) := by
  unfold string
  refine (Reads.here_bind fun _ => (reads_part .readWord .stringLength).bind fun length f₁ _ =>
    (reads_part (.skip length.toNat) .string).bind fun _ f₂ _ =>
      (reads_part reads_alignTo_four .stringPadding).bind fun _ f₃ _ =>
        .here_bind fun _ => .pure
          (Span.mk (4 + length.toNat) (pos + f₁.length + f₂.length + f₃.length - pos))).congr
    fun span bytes => ?_
  constructor
  · rintro ⟨length, _, _, rfl, ⟨-, text, _, htext, ⟨-, pad, _, hpad, ⟨rfl, rfl⟩, rfl⟩, rfl⟩, rfl⟩
    refine ⟨length, text, pad, htext, ?_, by simp, ?_⟩
    · simpa [Nat.add_assoc] using hpad
    · simp only [Span.mk.injEq, List.length_append, LittleEndian.length_word, List.length_nil]
      omega
  · rintro ⟨length, text, pad, htext, hpad, rfl, rfl⟩
    refine ⟨length, _, _, rfl, ⟨(), text, _, htext, ⟨(), pad, [], ?_, ⟨?_, rfl⟩, rfl⟩, rfl⟩,
      by simp⟩
    · simpa [Nat.add_assoc] using hpad
    · simp only [Span.mk.injEq, List.length_append, LittleEndian.length_word]
      omega

/-- Measured strings one after another are padded strings. -/
theorem list_stringFormat_iff {position count : Nat} {bytes : Bytes} :
    (∃ spans, spans.length = count ∧ Format.list stringFormat position spans bytes) ↔
      PaddedStrings position count bytes := by
  constructor
  · rintro ⟨spans, rfl, hlist⟩
    induction spans generalizing position bytes with
    | nil =>
      obtain rfl : bytes = [] := hlist
      exact .nil position
    | cons span rest ih =>
      obtain ⟨_, back, ⟨length, text, pad, htext, hpad, rfl, -⟩, hback, rfl⟩ := hlist
      exact .cons (.mk length text pad htext hpad) (ih hback)
  · intro h
    induction h with
    | nil position => exact ⟨[], rfl, rfl⟩
    | @cons position count front back head tail ih =>
      obtain ⟨spans, rfl, hlist⟩ := ih
      obtain ⟨length, text, pad, htext, hpad⟩ := head
      exact ⟨_ :: spans, rfl, _, back, ⟨length, text, pad, htext, hpad, rfl, rfl⟩, hlist, rfl⟩

theorem reads_nodePath (wide : Bool) :
    Reads RecordError.IsTruncation nodePath base pos (format wide (base + pos) .nodePath) := by
  unfold nodePath
  refine (Reads.here_bind fun _ => (reads_part .readWord .nodePath).bind fun names f₁ _ =>
    (reads_part .readWord .nodePath).bind fun subnames f₂ _ =>
      (reads_part .readWord .nodePath).bind fun _ f₃ _ =>
        (Reads.times stringFormat (fun _ => reads_string) _).bind fun _ f₄ _ =>
          .here_bind fun _ => .pure
            (exact (pos + f₁.length + f₂.length + f₃.length + f₄.length - pos))).congr
    fun span bytes => ?_
  constructor
  · rintro ⟨names, _, _, rfl, ⟨subnames, _, _, rfl, ⟨flags, _, _, rfl,
      ⟨spans, strings, _, hstrings, ⟨rfl, rfl⟩, rfl⟩, rfl⟩, rfl⟩, rfl⟩
    refine ⟨⟨names, subnames, flags, strings, ?_, by simp⟩, ?_⟩
    · have := list_stringFormat_iff.mp ⟨spans, hstrings⟩
      simpa [Nat.add_assoc] using this
    · simp only [exact, Span.mk.injEq, List.length_append, LittleEndian.length_word,
        List.length_nil]
      omega
  · rintro ⟨⟨names, subnames, flags, strings, hstrings, rfl⟩, rfl⟩
    obtain ⟨spans, hspans⟩ := list_stringFormat_iff.mpr hstrings
    refine ⟨names, _, _, rfl, ⟨subnames, _, _, rfl, ⟨flags, _, _, rfl,
      ⟨spans, strings, [], ?_, ⟨?_, rfl⟩, rfl⟩, rfl⟩, rfl⟩, by simp⟩
    · simpa [Nat.add_assoc] using hspans
    · simp only [exact, Span.mk.injEq, List.length_append, LittleEndian.length_word]
      omega

theorem reads_pool (wide : Bool) (elementSize : Nat) :
    Reads RecordError.IsTruncation (pool elementSize) base pos
      (format wide (base + pos) (.pool elementSize)) :=
  (reads_part .readWord .poolLength).map fun count => exact (4 + count.toNat * elementSize)

/-- **Measuring.** Each kind looks at what its layout needs. -/
theorem reads_ofKind (kind : ValueKind) (wide : Bool) :
    Reads RecordError.IsTruncation (ofKind kind wide) base pos
      (format wide (base + pos) kind.layout) := by
  rw [ofKind]
  cases kind.layout with
  | fixed size => exact .pure _
  | number => exact .pure _
  | string => exact reads_string
  | nodePath => exact reads_nodePath wide
  | pool elementSize => exact reads_pool wide elementSize
  | unsupported => exact .fail _

/-- What is looked at is part of what is taken, and the payload is too. -/
theorem length_le_of_format {wide : Bool} {position : Nat} {layout : Layout} {span : Span}
    {probe : Bytes} (h : format wide position layout span probe) :
    probe.length ≤ span.consumed ∧ span.payload ≤ span.consumed := by
  cases layout with
  | fixed size =>
    obtain ⟨rfl, rfl⟩ := h
    simp [exact]
  | number =>
    obtain ⟨rfl, rfl⟩ := h
    simp [exact]
  | string =>
    obtain ⟨length, text, pad, -, -, rfl, rfl⟩ := h
    simp only [List.length_append, LittleEndian.length_word]
    omega
  | nodePath =>
    obtain ⟨-, rfl⟩ := h
    exact ⟨Nat.le_refl _, Nat.le_refl _⟩
  | pool elementSize =>
    obtain ⟨count, rfl, rfl⟩ := h
    simp [exact]
  | unsupported => exact h.elim

/-- A span taken from the front of some bytes: payload first, then padding. -/
def Takes (span : Span) (payload pad : Bytes) : Prop :=
  payload.length = span.payload ∧ pad.length = span.consumed - span.payload

theorem takes_exact_iff {length : Nat} {payload pad : Bytes} :
    (exact length).Takes payload pad ↔ payload.length = length ∧ pad = [] := by
  simp [Takes, exact]

/-- **Measuring finds the layout.** Bytes were measured and taken exactly if the payload is in the
layout and the padding is what belongs behind it. -/
theorem format_iff_holds {wide : Bool} {position : Nat} {layout : Layout} {payload pad : Bytes} :
    (∃ span probe, format wide position layout span probe ∧ probe <+: payload ++ pad ∧
        span.Takes payload pad) ↔
      layout.Holds wide position payload ∧
        if layout = .string then Pads (position + payload.length) pad else pad = [] := by
  cases layout with
  | fixed size =>
    constructor
    · rintro ⟨span, probe, ⟨rfl, rfl⟩, -, htakes⟩
      exact takes_exact_iff.mp htakes
    · intro h
      exact ⟨exact size, [], ⟨rfl, rfl⟩, List.nil_prefix, takes_exact_iff.mpr h⟩
  | number =>
    constructor
    · rintro ⟨span, probe, ⟨rfl, rfl⟩, -, htakes⟩
      exact takes_exact_iff.mp htakes
    · intro h
      exact ⟨_, [], ⟨rfl, rfl⟩, List.nil_prefix, takes_exact_iff.mpr h⟩
  | string =>
    rw [if_pos rfl]
    constructor
    · rintro ⟨span, probe, ⟨length, text, pad', htext, hpad, rfl, rfl⟩, hpre, hpayload, hlength⟩
      simp only [List.length_append, LittleEndian.length_word] at hpayload hlength
      have heq : word length ++ text ++ pad' = payload ++ pad := by
        refine hpre.eq_of_length ?_
        simp only [List.length_append, LittleEndian.length_word]
        omega
      obtain ⟨rfl, rfl⟩ := List.append_inj heq (by simp [hpayload])
      refine ⟨⟨length, text, htext, rfl⟩, ?_⟩
      simpa [Nat.add_assoc] using hpad
    · rintro ⟨⟨length, text, htext, rfl⟩, hpad⟩
      refine ⟨_, _, ⟨length, text, pad, htext, ?_, rfl, rfl⟩, List.prefix_rfl, ?_, ?_⟩
      · simpa [Nat.add_assoc] using hpad
      · simp
      · simp only [List.length_append, LittleEndian.length_word]
        omega
  | nodePath =>
    constructor
    · rintro ⟨span, probe, ⟨hholds, rfl⟩, hpre, htakes⟩
      obtain ⟨hlength, rfl⟩ := takes_exact_iff.mp htakes
      rw [List.append_nil] at hpre
      obtain rfl := hpre.eq_of_length hlength.symm
      exact ⟨hholds, rfl⟩
    · rintro ⟨hholds, hpad⟩
      exact ⟨exact payload.length, payload, ⟨hholds, rfl⟩, List.prefix_append _ _,
        takes_exact_iff.mpr ⟨rfl, hpad⟩⟩
  | pool elementSize =>
    constructor
    · rintro ⟨span, probe, ⟨count, rfl, rfl⟩, hpre, htakes⟩
      obtain ⟨hlength, rfl⟩ := takes_exact_iff.mp htakes
      rw [List.append_nil] at hpre
      obtain ⟨elements, rfl⟩ := hpre
      rw [List.length_append, LittleEndian.length_word] at hlength
      exact ⟨⟨count, elements, by omega, rfl⟩, rfl⟩
    · rintro ⟨⟨count, elements, hlength, rfl⟩, hpad⟩
      refine ⟨_, _, ⟨count, rfl, rfl⟩, ?_, takes_exact_iff.mpr ⟨?_, hpad⟩⟩
      · rw [List.append_assoc]
        exact List.prefix_append _ _
      · rw [List.length_append, LittleEndian.length_word, hlength]
  | unsupported =>
    constructor
    · rintro ⟨span, probe, h, -⟩
      exact h.elim
    · rintro ⟨h, -⟩
      exact h.elim

end Span

/-! ### Constants -/

namespace Constant

theorem padsBehind_iff {kind : ValueKind} {position : Nat} {pad : Bytes} :
    PadsBehind kind position pad ↔
      if kind.layout = .string then Pads position pad else pad = [] := by
  simp only [PadsBehind, ValueKind.layout_eq_string_iff]

/-- What is taken once the span is known. The check that all of it is there reads nothing. -/
theorem reads_span (span : Span) (kind : ValueKind) (wide : Bool) (start : Nat) :
    Reads RecordError.IsTruncation
      (do
        let _ ← Decoder.mapError (.truncated .constantPayload) (Decoder.peekBytes span.consumed)
        let payload ← Decoder.mapError (.truncated .constantPayload)
          (Decoder.readBytes span.payload)
        Decoder.mapError (.truncated .constantPadding)
          (Decoder.skip (span.consumed - span.payload))
        Decoder.note (.constantRead kind wide start payload.length)
        return Constant.mk kind wide payload) base pos
      fun c bytes => ∃ pad, span.Takes c.payload pad ∧ c = ⟨kind, wide, c.payload⟩ ∧
        bytes = c.payload ++ pad := by
  rw [Decoder.peekBytes_eq_lookahead, Decoder.mapError_lookahead]
  refine (Reads.lookahead_bind _ (reads_part (.readBytes span.consumed) .constantPayload)
    (fun _ _ _ => (reads_part (.readBytes span.payload) .constantPayload).bind fun payload _ _ =>
      (reads_part (.skip (span.consumed - span.payload)) .constantPadding).bind fun _ _ _ =>
        .note_bind (.pure (Constant.mk kind wide payload))) ?_).congr fun c bytes => ?_
  · rintro _ _ c _ ⟨rfl, hprobe⟩ ⟨payload, _, _, ⟨rfl, hpayload⟩,
      ⟨-, pad, _, hpad, ⟨-, rfl⟩, rfl⟩, rfl⟩
    simp only [List.length_append, List.length_nil]
    omega
  · constructor
    · rintro ⟨_, _, -, -, payload, _, _, ⟨rfl, hpayload⟩, ⟨-, pad, _, hpad, ⟨rfl, rfl⟩, rfl⟩, rfl⟩
      exact ⟨pad, ⟨hpayload, hpad⟩, rfl, by simp⟩
    · rintro ⟨pad, ⟨hpayload, hpad⟩, hc, rfl⟩
      have hlength : span.consumed ≤ (c.payload ++ pad).length := by
        rw [List.length_append]
        omega
      exact ⟨(c.payload ++ pad).take span.consumed, _, ⟨rfl, List.length_take_of_le hlength⟩,
        List.take_prefix _ _, c.payload, c.payload, pad, ⟨rfl, hpayload⟩,
        ⟨(), pad, [], hpad, ⟨hc, rfl⟩, by simp⟩, rfl⟩

/-- What follows the tag word: a payload in the layout of the kind, and its padding. -/
theorem reads_payload (kind : ValueKind) (wide : Bool) (start : Nat) :
    Reads RecordError.IsTruncation
      (do
        let span ← Span.measure kind wide
        let payload ← Decoder.mapError (.truncated .constantPayload)
          (Decoder.readBytes span.payload)
        Decoder.mapError (.truncated .constantPadding)
          (Decoder.skip (span.consumed - span.payload))
        Decoder.note (.constantRead kind wide start payload.length)
        return Constant.mk kind wide payload) base pos
      fun c bytes => ∃ pad, kind.layout.Holds wide (base + pos) c.payload ∧
        PadsBehind kind (base + pos + c.payload.length) pad ∧ c = ⟨kind, wide, c.payload⟩ ∧
        bytes = c.payload ++ pad := by
  simp only [Span.measure, Decoder.bind_assoc, Decoder.pure_bind]
  refine (Reads.lookahead_bind _ (Span.reads_ofKind kind wide)
    (fun span _ _ => reads_span span kind wide start) ?_).congr fun c bytes => ?_
  · rintro span probe c _ hprobe ⟨pad, ⟨hpayload, hpad⟩, -, rfl⟩
    obtain ⟨hle, -⟩ := Span.length_le_of_format hprobe
    rw [List.length_append]
    omega
  · simp only [padsBehind_iff]
    constructor
    · rintro ⟨span, probe, hprobe, hpre, pad, htakes, hc, rfl⟩
      obtain ⟨hholds, hpad⟩ := Span.format_iff_holds.mp ⟨span, probe, hprobe, hpre, htakes⟩
      exact ⟨pad, hholds, hpad, hc, rfl⟩
    · rintro ⟨pad, hholds, hpad, hc, rfl⟩
      obtain ⟨span, probe, hprobe, hpre, htakes⟩ := Span.format_iff_holds.mpr ⟨hholds, hpad⟩
      exact ⟨span, probe, hprobe, hpre, pad, htakes, hc, rfl⟩

theorem reads_decode :
    Reads RecordError.IsTruncation decode base pos (format (base + pos)) := by
  unfold decode
  refine (Reads.here_bind fun _ => (reads_part .readWord .constantKind).bind fun tag _ _ =>
    (Reads.ofExcept ((ValueKind.ofTag tag).mapError .unknownKind)).bind fun pair _ _ =>
      reads_payload pair.1 pair.2 pos).congr fun c bytes => ?_
  have htag : ∀ (w : UInt32) (kind : ValueKind) (wide : Bool),
      (ValueKind.ofTag w).mapError RecordError.unknownKind = .ok (kind, wide) ↔
        w = ValueKind.tag kind wide := by
    intro w kind wide
    rw [← ValueKind.ofTag_eq_ok_iff]
    cases ValueKind.ofTag w <;> simp [Except.mapError]
  constructor
  · rintro ⟨tag, _, _, rfl, ⟨⟨kind, wide⟩, _, _, ⟨hok, rfl⟩,
      ⟨pad, hholds, hpad, hc, rfl⟩, rfl⟩, rfl⟩
    obtain rfl := (htag tag kind wide).mp hok
    rw [hc]
    refine ⟨pad, ?_, ?_, by simp⟩
    · simpa [Nat.add_assoc] using hholds
    · simpa [Nat.add_assoc] using hpad
  · rintro ⟨pad, hholds, hpad, rfl⟩
    refine ⟨_, _, _, rfl, ⟨(c.kind, c.wide), [], _, ⟨(htag _ _ _).mpr rfl, rfl⟩,
      ⟨pad, ?_, ?_, rfl, rfl⟩, rfl⟩, by simp⟩
    · simpa [Nat.add_assoc] using hholds
    · simpa [Nat.add_assoc] using hpad

end Constant

end AssetPack.Script
