import AssetPack.Proofs.Script.ConstantPool

/-!
# How long a constant is

The length of a payload follows from the kind of the constant, and where it does not, from counts at
the front of the payload. `ValueKind.payloadLength` says so kind by kind, without a decoder. Only
for strings does the place of the payload matter, because they are padded to absolute multiples of
four: behind a string constant the padding is passed over, inside a node path it is part of the
payload.

A constant is measured on a copy of the cursor, and then the cursor moves once. So two things have
to fit: what was measured is what the law says, and what is taken afterwards is what was measured.
The second is `Constant.run_decodePayload`; after a measuring that succeeded nothing can fail any
more.

## Main definitions

* `paddedLength`, `stringsLength`: how long padded strings are.
* `ValueKind.payloadLength`: how long a payload is.

## Main results

* `Span.measure_ok`: what is known once a payload was measured.
* `ValueKind.length_of_holds`: a payload in the layout of its kind is as long as the law says.
* `Constant.decode_length_law`: how far the cursor moves over a constant.
-/

namespace AssetPack

open LittleEndian (word)

namespace Decoder

variable {ε ε' α β : Type}

theorem run_here_bind (next : Cursor → Decoder ε β) (c : Cursor) :
    (here >>= next).run c = (next c).run c := rfl

/-- What follows a look ahead starts where the look ahead did. -/
theorem run_lookahead_bind_of_ok {d : Decoder ε α} {c : Cursor} {a : α} (next : α → Decoder ε β)
    (h : (d.run c).outcome = .ok a) :
    (lookahead d >>= next).run c = ⟨((next a).run c).outcome, ((next a).run c).cursor,
      (d.run c).notices ++ ((next a).run c).notices⟩ :=
  run_bind_of_ok (d := lookahead d) next h

theorem run_readWord_append (w : UInt32) (base pos : Nat) (rest : Bytes) :
    readWord.run ⟨base, pos, word w ++ rest⟩ = ⟨.ok w, ⟨base, pos + 4, rest⟩, []⟩ := by
  have hle : 4 ≤ Cursor.remaining ⟨base, pos, word w ++ rest⟩ := by
    simp [Cursor.remaining]
  have hbytes := run_readBytes_of_le hle
  rw [readWord, run_bind_of_ok _ (by rw [hbytes]), hbytes]
  simp [Cursor.advance]

end Decoder

namespace Script

open Header (wordAt)

/-! ### The law -/

/-- The bytes of a string that starts at an absolute position: its length word, its text, and the
padding to the next multiple of four. -/
def paddedLength (position length : Nat) : Nat :=
  4 + length + (4 - (position + 4 + length) % 4) % 4

/-- The bytes of `count` padded strings that start at an absolute position, as their length words
tell them. -/
def stringsLength : Nat → Nat → Bytes → Nat
  | _, 0, _ => 0
  | position, count + 1, bytes =>
    let first := paddedLength position (wordAt bytes 0).toNat
    first + stringsLength (position + first) count (bytes.drop first)

/-- The length of a payload that starts at an absolute position, `bytes` being the payload and
whatever follows. The kinds that are never stored have none. -/
def ValueKind.payloadLength (kind : ValueKind) (wide : Bool) (position : Nat) (bytes : Bytes) :
    Nat :=
  match kind with
  | nil | rid => 0
  | bool | color => 4
  | vector2 | object => 8
  | vector3 => 12
  | rect2 | plane | quat => 16
  | transform2D | aabb => 24
  | basis => 36
  | transform => 48
  | int | real => if wide then 8 else 4
  | string => 4 + (wordAt bytes 0).toNat
  | nodePath =>
    12 + stringsLength (position + 12)
      ((wordAt bytes 0).toNat % 2 ^ 31 + (wordAt bytes 1).toNat) (bytes.drop 12)
  | poolByteArray => 4 + (wordAt bytes 0).toNat * 1
  | poolIntArray | poolRealArray | poolColorArray => 4 + (wordAt bytes 0).toNat * 4
  | poolVector2Array => 4 + (wordAt bytes 0).toNat * 8
  | poolVector3Array => 4 + (wordAt bytes 0).toNat * 12
  | dictionary | array | poolStringArray => 0

theorem stringsLength_of_paddedStrings {position count : Nat} {bytes : Bytes}
    (h : PaddedStrings position count bytes) (tail : Bytes) :
    stringsLength position count (bytes ++ tail) = bytes.length := by
  induction h generalizing tail with
  | nil position => rfl
  | @cons position count front back head _ ih =>
    obtain ⟨length, text, pad, htext, hpad⟩ := head
    have hfront : (word length ++ text ++ pad).length = paddedLength position length.toNat := by
      rw [pads_iff] at hpad
      rw [paddedLength, List.length_append, List.length_append, LittleEndian.length_word, hpad,
        htext]
    have hword : wordAt (word length ++ text ++ pad ++ back ++ tail) 0 = length := by
      simp only [List.append_assoc, Header.wordAt_zero]
    rw [stringsLength, hword, List.append_assoc, ← hfront, List.drop_left' rfl, ih tail]
    exact List.length_append.symm

namespace ValueKind

theorem toNat_and_low (w : UInt32) : (w &&& 0x7FFFFFFF).toNat = w.toNat % 2 ^ 31 := by
  rw [UInt32.toNat_and]
  exact Nat.and_two_pow_sub_one_eq_mod w.toNat 31

theorem length_of_holds_pool {wide : Bool} {position size : Nat} {payload : Bytes}
    (h : Layout.Holds wide position (.pool size) payload) (tail : Bytes) :
    payload.length = 4 + (wordAt (payload ++ tail) 0).toNat * size := by
  obtain ⟨count, elements, helements, rfl⟩ := h
  rw [List.append_assoc, Header.wordAt_zero, List.length_append, LittleEndian.length_word,
    helements]

/-- **A payload in the layout of its kind is as long as the law says.** -/
theorem length_of_holds {kind : ValueKind} {wide : Bool} {position : Nat} {payload : Bytes}
    (h : kind.layout.Holds wide position payload) (tail : Bytes) :
    payload.length = kind.payloadLength wide position (payload ++ tail) := by
  cases kind with
  | string =>
    obtain ⟨length, text, htext, rfl⟩ := h
    rw [payloadLength, List.append_assoc, Header.wordAt_zero, List.length_append,
      LittleEndian.length_word, htext]
  | nodePath =>
    obtain ⟨names, subnames, flags, strings, hstrings, rfl⟩ := h
    have hlength := stringsLength_of_paddedStrings hstrings tail
    have hdrop : (word names ++ word subnames ++ word flags ++ strings ++ tail).drop 12 =
        strings ++ tail := by
      rw [List.append_assoc, List.drop_left' (by simp)]
    rw [payloadLength, hdrop, ← toNat_and_low]
    simp only [List.append_assoc, Header.wordAt_zero, Header.wordAt_succ]
    rw [hlength]
    simp only [List.length_append, LittleEndian.length_word]
    omega
  | poolByteArray => exact length_of_holds_pool h tail
  | poolIntArray => exact length_of_holds_pool h tail
  | poolRealArray => exact length_of_holds_pool h tail
  | poolVector2Array => exact length_of_holds_pool h tail
  | poolVector3Array => exact length_of_holds_pool h tail
  | poolColorArray => exact length_of_holds_pool h tail
  | dictionary => exact h.elim
  | array => exact h.elim
  | poolStringArray => exact h.elim
  | _ => exact h

theorem elementSize_le {kind : ValueKind} {size : Nat} (h : kind.layout = .pool size) :
    size ≤ 12 := by
  cases kind with
  | poolByteArray | poolIntArray | poolRealArray | poolVector2Array | poolVector3Array
    | poolColorArray =>
    cases h
    decide
  | _ => cases h

/-- The bytes of an array fit a 64-bit word, whatever its count. -/
theorem toNat_mul_elementSize {kind : ValueKind} {size : Nat} (h : kind.layout = .pool size)
    (count : UInt32) :
    (UInt64.ofNat count.toNat * UInt64.ofNat size).toNat = count.toNat * size ∧
      4 + count.toNat * size < 2 ^ 64 := by
  have hcount := count.toNat_lt
  have hle : count.toNat * size ≤ (2 ^ 32 - 1) * 12 :=
    Nat.mul_le_mul (by omega) (elementSize_le h)
  refine ⟨?_, by omega⟩
  rw [UInt64.toNat_mul, UInt64.toNat_ofNat', UInt64.toNat_ofNat',
    Nat.mod_eq_of_lt (by omega : count.toNat < 2 ^ 64),
    Nat.mod_eq_of_lt (by have := elementSize_le h; omega : size < 2 ^ 64)]
  exact Nat.mod_eq_of_lt (by omega)

end ValueKind

/-! ### Measuring -/

namespace Span

/-- Measuring does not look at the wide flag unless the kind is a number. -/
theorem measure_wide {kind : ValueKind} (hint : kind ≠ .int) (hreal : kind ≠ .real) :
    measure kind true = measure kind false := by
  have hkind : ofKind kind true = ofKind kind false := by
    cases kind with
    | int => exact absurd rfl hint
    | real => exact absurd rfl hreal
    | _ => rfl
  rw [measure, measure, hkind]

/-- **Once a payload was measured**, all of it is there, and the padding behind it too. -/
theorem measure_ok {kind : ValueKind} {wide : Bool} {c : Cursor} {span : Span}
    (h : ((measure kind wide).run c).outcome = .ok span) :
    span.payload ≤ span.consumed ∧ span.consumed ≤ c.remaining ∧
      ((measure kind wide).run c).cursor = c := by
  rw [measure] at h ⊢
  simp only [Decoder.peekBytes_eq_lookahead, Decoder.mapError_lookahead] at h ⊢
  cases hprobe : ((ofKind kind wide).run c).outcome with
  | error e =>
    rw [Decoder.run_bind_of_error (d := Decoder.lookahead (ofKind kind wide)) _ hprobe] at h
    cases h
  | ok found =>
    obtain ⟨probe, tail, -, hformat, -⟩ := (reads_ofKind kind wide).sound hprobe
    rw [Decoder.run_lookahead_bind_of_ok _ hprobe] at h ⊢
    dsimp only at h ⊢
    generalize hcheck : Decoder.mapError (RecordError.truncated .constantPayload)
      (Decoder.readBytes found.consumed) = check at h ⊢
    rcases Nat.lt_or_ge c.remaining found.consumed with hlt | hle
    · have hrefused : ((Decoder.lookahead check).run c).outcome =
          .error (.truncated .constantPayload (c.shortfall found.consumed)) := by
        change (check.run c).outcome = _
        rw [← hcheck, Decoder.run_mapError, Decoder.run_readBytes_of_lt hlt]
        rfl
      rw [Decoder.run_bind_of_error _ hrefused] at h
      cases h
    · have hthere : (check.run c).outcome = .ok (c.rest.take found.consumed) := by
        rw [← hcheck, Decoder.run_mapError, Decoder.run_readBytes_of_le hle]
        rfl
      rw [Decoder.run_lookahead_bind_of_ok _ hthere] at h ⊢
      cases h
      exact ⟨(length_le_of_format hformat).2, hle, rfl⟩

end Span

/-! ### Taking what was measured -/

namespace Constant

/-- What is done behind the tag word. -/
def decodePayload (kind : ValueKind) (wide : Bool) (start : Nat) :
    Decoder RecordError Constant := do
  let span ← Span.measure kind wide
  let payload ← Decoder.mapError (.truncated .constantPayload) (Decoder.readBytes span.payload)
  Decoder.mapError (.truncated .constantPadding) (Decoder.skip (span.consumed - span.payload))
  Decoder.note (.constantRead kind wide start payload.length)
  return ⟨kind, wide, payload⟩

/-- The tag word is passed over, and its kind decides how to go on. -/
theorem run_decode_of_tag (kind : ValueKind) (wide : Bool) (base pos : Nat) (rest : Bytes) :
    decode.run ⟨base, pos, word (ValueKind.tag kind wide) ++ rest⟩ =
      (decodePayload kind wide pos).run ⟨base, pos + 4, rest⟩ := by
  have hword : (Decoder.mapError (RecordError.truncated .constantKind) Decoder.readWord).run
      ⟨base, pos, word (ValueKind.tag kind wide) ++ rest⟩ =
      ⟨.ok (ValueKind.tag kind wide), ⟨base, pos + 4, rest⟩, []⟩ := by
    rw [Decoder.run_mapError, Decoder.run_readWord_append]
    rfl
  rw [decode, Decoder.run_here_bind, Decoder.run_bind_of_ok _ (by rw [hword]), hword,
    ValueKind.ofTag_tag]
  rfl

/-- The two reads behind a measuring that succeeded. -/
theorem reads_of_measure {kind : ValueKind} {wide : Bool} {c : Cursor} {span : Span}
    (h : ((Span.measure kind wide).run c).outcome = .ok span) :
    (Decoder.readBytes span.payload).run c =
        ⟨.ok (c.rest.take span.payload), c.advance span.payload, []⟩ ∧
      (Decoder.skip (span.consumed - span.payload)).run (c.advance span.payload) =
        ⟨.ok (), c.advance span.consumed, []⟩ := by
  obtain ⟨hle, hfits, -⟩ := Span.measure_ok h
  have hpad : span.consumed - span.payload ≤ (c.advance span.payload).remaining := by
    rw [Cursor.remaining_advance]
    omega
  refine ⟨Decoder.run_readBytes_of_le (by omega), ?_⟩
  rw [Decoder.run_skip_of_le hpad, Cursor.advance_advance, Nat.add_sub_cancel' hle]

/-- **What was measured is taken.** Nothing fails any more, and the cursor moves by what was
measured. -/
theorem run_decodePayload {kind : ValueKind} {wide : Bool} {c : Cursor} {span : Span}
    (h : ((Span.measure kind wide).run c).outcome = .ok span) (start : Nat) :
    ((decodePayload kind wide start).run c).outcome =
        .ok ⟨kind, wide, c.rest.take span.payload⟩ ∧
      ((decodePayload kind wide start).run c).cursor = c.advance span.consumed := by
  obtain ⟨-, -, hstay⟩ := Span.measure_ok h
  obtain ⟨hread, hskip⟩ := reads_of_measure h
  have hread' := Decoder.run_mapError (RecordError.truncated .constantPayload)
    (Decoder.readBytes span.payload) c
  have hskip' := Decoder.run_mapError (RecordError.truncated .constantPadding)
    (Decoder.skip (span.consumed - span.payload)) (c.advance span.payload)
  rw [hread] at hread'
  rw [hskip] at hskip'
  rw [decodePayload, Decoder.run_bind_of_ok _ h, hstay,
    Decoder.run_bind_of_ok _ (by rw [hread']; rfl), hread']
  dsimp only
  rw [Decoder.run_bind_of_ok _ (by rw [hskip']; rfl), hskip']
  exact ⟨rfl, rfl⟩

/-- A kind without a layout is refused as soon as its tag word was read. -/
theorem run_decodePayload_of_unsupported {kind : ValueKind} (h : kind.layout = .unsupported)
    (wide : Bool) (start : Nat) (c : Cursor) :
    ((decodePayload kind wide start).run c).outcome = .error (.unsupported kind) := by
  have hprobe : ((Decoder.lookahead (Span.ofKind kind wide)).run c).outcome =
      .error (.unsupported kind) := by
    rw [Span.ofKind, h]
    rfl
  have hmeasure : ((Span.measure kind wide).run c).outcome = .error (.unsupported kind) := by
    rw [Span.measure, Decoder.run_bind_of_error _ hprobe]
  rw [decodePayload, Decoder.run_bind_of_error _ hmeasure]

/-- A constant that was read was measured behind its tag word. The cursor has moved by what was
measured, and that is the payload and its padding. -/
theorem measure_of_decode {base pos : Nat} {rest : Bytes} {k : Constant}
    (h : (decode.run ⟨base, pos, rest⟩).outcome = .ok k) :
    ∃ span pad tail,
      rest = word (ValueKind.tag k.kind k.wide) ++ (k.payload ++ (pad ++ tail)) ∧
      k.kind.layout.Holds k.wide (base + pos + 4) k.payload ∧
      PadsBehind k.kind (base + pos + 4 + k.payload.length) pad ∧
      ((Span.measure k.kind k.wide).run ⟨base, pos + 4, k.payload ++ (pad ++ tail)⟩).outcome =
        .ok span ∧
      span.payload = k.payload.length ∧ span.consumed = k.payload.length + pad.length ∧
      (decode.run ⟨base, pos, rest⟩).cursor = Cursor.advance ⟨base, pos, rest⟩
        (4 + span.consumed) := by
  obtain ⟨bytes, tail, rfl, ⟨pad, hholds, hpad, rfl⟩, hcursor⟩ := reads_decode.sound h
  simp only [List.append_assoc] at h hcursor ⊢
  generalize hbehind : k.payload ++ (pad ++ tail) = behind at h hcursor
  rw [run_decode_of_tag] at h
  cases hmeasure : ((Span.measure k.kind k.wide).run ⟨base, pos + 4, behind⟩).outcome with
  | error e =>
    rw [decodePayload, Decoder.run_bind_of_error _ hmeasure] at h
    cases h
  | ok span =>
    obtain ⟨hle, hfits, -⟩ := Span.measure_ok hmeasure
    obtain ⟨houtcome, hmoved⟩ := run_decodePayload hmeasure pos
    rw [houtcome, Except.ok.injEq] at h
    have hpayload : behind.take span.payload = k.payload := congrArg Constant.payload h
    have hlength : k.payload.length = span.payload := by
      rw [← hpayload]
      exact List.length_take_of_le (Nat.le_trans hle hfits)
    -- The padding is not in the constant, so its length is read off the end of the cursor.
    have hconsumed : span.consumed = k.payload.length + pad.length := by
      have hpos := congrArg Cursor.pos hcursor
      rw [run_decode_of_tag, hmoved] at hpos
      simp only [Cursor.advance, List.length_append, LittleEndian.length_word] at hpos
      omega
    refine ⟨span, pad, tail, by rw [hbehind], hholds, hpad, by rw [hbehind, hmeasure],
      hlength.symm, hconsumed, ?_⟩
    rw [run_decode_of_tag, hmoved, ← Cursor.advance_advance]
    congr 1

/-- **How far the cursor moves over a constant.** Over the tag word and what was measured, and that
is as long as the kind, the wide flag and the bytes behind the tag word say: the payload, and behind
a string the bytes up to the next absolute multiple of four. Only numbers take the wide flag into
account, and three kinds are always refused. After measuring nothing can fail any more, and no
count makes an array longer than a 64-bit word can say. -/
theorem decode_length_law :
    (∀ (c : Cursor) (k : Constant), (decode.run c).outcome = .ok k →
      ∃ span, ((Span.measure k.kind k.wide).run (c.advance 4)).outcome = .ok span ∧
        (decode.run c).cursor = c.advance (4 + span.consumed) ∧
        4 + span.consumed ≤ c.remaining ∧ k.payload.length = span.payload ∧
        span.payload = k.kind.payloadLength k.wide (c.position + 4) (c.rest.drop 4) ∧
        (k.kind ≠ .string → span.consumed = span.payload) ∧
        (k.kind = .string → span.payload ≤ span.consumed ∧ span.consumed < span.payload + 4 ∧
          4 ∣ c.position + 4 + span.consumed)) ∧
    (∀ kind : ValueKind, kind ≠ .int → kind ≠ .real →
      Span.measure kind true = Span.measure kind false) ∧
    (∀ kind : ValueKind, kind = .dictionary ∨ kind = .array ∨ kind = .poolStringArray →
      ∀ (wide : Bool) (base pos : Nat) (rest : Bytes),
        (decode.run ⟨base, pos, word (ValueKind.tag kind wide) ++ rest⟩).outcome =
          .error (.unsupported kind)) ∧
    (∀ (kind : ValueKind) (wide : Bool) (c : Cursor) (span : Span),
      ((Span.measure kind wide).run c).outcome = .ok span →
        span.payload ≤ span.consumed ∧
        (Decoder.readBytes span.payload).run c =
          ⟨.ok (c.rest.take span.payload), c.advance span.payload, []⟩ ∧
        (Decoder.skip (span.consumed - span.payload)).run (c.advance span.payload) =
          ⟨.ok (), c.advance span.consumed, []⟩) ∧
    ∀ (kind : ValueKind) (size : Nat), kind.layout = .pool size → ∀ count : UInt32,
      (UInt64.ofNat count.toNat * UInt64.ofNat size).toNat = count.toNat * size ∧
        4 + count.toNat * size < 2 ^ 64 := by
  refine ⟨fun c k h => ?_, fun kind => Span.measure_wide, fun kind hkind wide base pos rest => ?_,
    fun kind wide c span h => ⟨(Span.measure_ok h).1, reads_of_measure h⟩,
    fun kind size => ValueKind.toNat_mul_elementSize⟩
  · obtain ⟨base, pos, rest⟩ := c
    obtain ⟨span, pad, tail, rfl, hholds, hpad, hmeasure, hpayload, hconsumed, hcursor⟩ :=
      measure_of_decode h
    have hdrop : (word (ValueKind.tag k.kind k.wide) ++ (k.payload ++ (pad ++ tail))).drop 4 =
        k.payload ++ (pad ++ tail) := List.drop_left' (LittleEndian.length_word _)
    have hadvance : Cursor.advance ⟨base, pos, word (ValueKind.tag k.kind k.wide) ++
        (k.payload ++ (pad ++ tail))⟩ 4 = ⟨base, pos + 4, k.payload ++ (pad ++ tail)⟩ := by
      rw [Cursor.advance, hdrop]
    have hlaw := ValueKind.length_of_holds hholds (pad ++ tail)
    rw [PadsBehind] at hpad
    refine ⟨span, by rw [hadvance, hmeasure], hcursor, ?_, hpayload.symm, ?_, fun hkind => ?_,
      fun hkind => ?_⟩
    · simp only [Cursor.remaining, List.length_append, LittleEndian.length_word]
      omega
    · rw [hpayload, hdrop]
      exact hlaw
    · rw [if_neg hkind] at hpad
      rw [hconsumed, hpayload, hpad]
      rfl
    · rw [if_pos hkind, Pads] at hpad
      simp only [Cursor.position]
      omega
  · rw [run_decode_of_tag]
    refine run_decodePayload_of_unsupported ?_ wide pos _
    rcases hkind with rfl | rfl | rfl
    · rfl
    · rfl
    · rfl

/-- A node path with the top bit of its first count set. Its name is padded by three bytes if it is
read at an absolute offset of three. -/
def namedPath : Bytes :=
  word (ValueKind.tag .nodePath true) ++
    [1, 0, 0, 0x80, 0, 0, 0, 0, 7, 0, 0, 0, 2, 0, 0, 0, 0x61, 0x62, 0, 0, 0]

theorem decode_length_law_namedPath :
    ((decode.run (Cursor.start namedPath 3)).outcome =
        .ok ⟨.nodePath, true, namedPath.drop 4⟩ ∧
      ∃ span : Span, span.payload = 21 ∧ span.consumed = 21 ∧
        (decode.run (Cursor.start namedPath 3)).cursor =
          (Cursor.start namedPath 3).advance (4 + span.consumed) ∧
        (Decoder.readBytes span.payload).run ((Cursor.start namedPath 3).advance 4) =
          ⟨.ok (namedPath.drop 4), (Cursor.start namedPath 3).advance 25, []⟩) ∧
    Span.measure .nodePath true = Span.measure .nodePath false ∧
    (decode.run ⟨3, 0, word (ValueKind.tag .array false) ++ [1]⟩).outcome =
      .error (.unsupported .array) ∧
    ValueKind.layout .poolVector3Array = .pool 12 ∧
      4 + UInt32.toNat 0xFFFFFFFF * 12 < 2 ^ 64 := by
  obtain ⟨hlength, hwide, hrefused, hreads, hpool⟩ := decode_length_law
  have hok : (decode.run (Cursor.start namedPath 3)).outcome =
      .ok ⟨.nodePath, true, namedPath.drop 4⟩ := by rfl
  obtain ⟨span, hmeasure, hcursor, -, hpayload, -, hconsumed, -⟩ := hlength _ _ hok
  have hspan : span.payload = 21 := hpayload.symm
  have hconsumed := hconsumed (by decide)
  refine ⟨⟨hok, span, hspan, hconsumed.trans hspan, hcursor, ?_⟩, hwide .nodePath (by decide)
    (by decide), hrefused .array (by decide) false 3 0 [1], rfl,
    (hpool .poolVector3Array 12 rfl 0xFFFFFFFF).2⟩
  rw [(hreads .nodePath true _ span hmeasure).2.1, hspan]
  rfl

end Constant

end Script

end AssetPack
