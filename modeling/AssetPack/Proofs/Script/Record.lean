import AssetPack.Proofs.Script.ConstantPool

/-!
# Which byte strings are records

The parts of a record share one cursor, so the theorems about the parts join into one about the
whole: `Record.decode` reads `Record.format`. Everything this module says about acceptance follows
from that one statement: accepted bytes are in the format, what follows a record is not looked at,
and a record with bytes missing at its end is refused as truncated wherever it was cut.

## Main results

* `Record.reads_decode`: a record is read in its format.
* `Record.accepted_parts`: an accepted record, taken apart into the bytes it was read from.
* `Record.ofBytes_prefix_free`: a record decides where it ends, and no shorter string will do.
-/

namespace AssetPack.Script

open Decoder (Reads)

variable {base pos : Nat}

/-- Identifiers in a row are framed byte strings in a row. -/
theorem Identifier.list_format_iff {position : Nat} {names : List String} {bytes : Bytes} :
    Format.list (fun _ => Identifier.format) position names bytes ↔
      ∃ stored : List Bytes, (∀ s ∈ stored, s.length < 2 ^ 32) ∧
        names = stored.map Identifier.unmask ∧ bytes = stored.flatMap Identifier.frame := by
  induction names generalizing position bytes with
  | nil =>
    constructor
    · rintro rfl
      exact ⟨[], by simp, rfl, rfl⟩
    · rintro ⟨stored, -, hnames, rfl⟩
      obtain rfl : stored = [] := List.map_eq_nil_iff.mp hnames.symm
      rfl
  | cons name rest ih =>
    constructor
    · rintro ⟨_, back, ⟨s, hs, rfl, rfl⟩, hback, rfl⟩
      obtain ⟨stored, hstored, rfl, rfl⟩ := ih.mp hback
      exact ⟨s :: stored, List.forall_mem_cons.mpr ⟨hs, hstored⟩, rfl, rfl⟩
    · rintro ⟨stored, hstored, hnames, rfl⟩
      cases stored with
      | nil => cases hnames
      | cons s stored =>
        obtain ⟨hs, hstored⟩ := List.forall_mem_cons.mp hstored
        obtain ⟨rfl, rfl⟩ := List.cons.inj hnames
        exact ⟨_, _, ⟨s, hs, rfl, rfl⟩, ih.mpr ⟨stored, hstored, rfl, rfl⟩, rfl⟩

/-- Tokens in a row are their bytes in a row. -/
theorem Token.list_format_iff {position : Nat} {tokens : List Token} {bytes : Bytes} :
    Format.list (fun _ => Token.format) position tokens bytes ↔
      (∀ t ∈ tokens, t.Storable) ∧ bytes = tokens.flatMap Token.encode :=
  Format.list_iff_flatMap fun _ _ _ => Iff.rfl

/-- No constant of a stored pool has a kind without a layout. -/
theorem Constant.layout_ne_unsupported {position : Nat} {constants : List Constant} {pool : Bytes}
    (h : Format.list Constant.format position constants pool) :
    ∀ c ∈ constants, c.kind.layout ≠ .unsupported := by
  intro c hc hlayout
  obtain ⟨_, _, pad, hholds, -⟩ := Format.exists_of_mem_list h hc
  rw [hlayout] at hholds
  exact hholds

namespace Record

/-- **A record is read in its format.** -/
theorem reads_decode :
    Reads RecordError.IsTruncation decode base pos (format (base + pos)) := by
  unfold decode
  refine (Reads.here_bind fun _ => Header.reads_decode.bind fun header f₁ _ => .note_bind <|
    (Reads.times (fun _ => Identifier.format) (fun _ => Identifier.reads_decode) _).bind
      fun identifiers f₂ _ =>
    (Reads.times Constant.format (fun _ => Constant.reads_decode) _).bind
      fun constants f₃ _ =>
    (LineMap.reads_decode header.lines).bind fun lineMap f₄ _ =>
    (Reads.times (fun _ => Token.format) (fun _ => Token.reads_decode) _).bind
      fun tokens f₅ _ => .here_bind fun _ => .note_bind <| .pure
        (Record.mk header identifiers constants lineMap tokens
          (pos + f₁.length + f₂.length + f₃.length + f₄.length + f₅.length - pos))).congr
    fun r bytes => ?_
  constructor
  · rintro ⟨header, _, _, ⟨hsignature, rfl⟩, ⟨identifiers, _, _, ⟨hcount₁, hidentifiers⟩,
      ⟨constants, pool, _, ⟨hcount₂, hpool⟩, ⟨lineMap, _, _, ⟨pairs, hcount₃, hwins, rfl⟩,
        ⟨tokens, _, _, ⟨hcount₄, htokens⟩, ⟨rfl, rfl⟩, rfl⟩, rfl⟩, rfl⟩, rfl⟩, rfl⟩
    obtain ⟨stored, hstored, rfl, rfl⟩ := Identifier.list_format_iff.mp hidentifiers
    obtain ⟨hstorable, rfl⟩ := Token.list_format_iff.mp htokens
    refine ⟨stored, pool, pairs, ⟨hsignature, ?_, hstored, rfl, hcount₂, ?_, hcount₃, hwins,
      hcount₄, hstorable⟩, ?_, ?_⟩
    · simpa using hcount₁
    · simpa [Header.length_encode, Nat.add_assoc] using hpool
    · simp [join]
    · simp only [List.length_append, List.length_nil]
      omega
  · rintro ⟨stored, pool, pairs, h, rfl, hlength⟩
    refine ⟨r.header, _, _, ⟨h.signature, rfl⟩, ⟨r.identifiers, _, _,
      ⟨?_, Identifier.list_format_iff.mpr ⟨stored, h.storedLength, h.identifiers, rfl⟩⟩,
      ⟨r.constants, pool, _, ⟨h.constantCount, ?_⟩, ⟨r.lineMap, _, _,
        ⟨pairs, h.lineCount, h.lineMap, rfl⟩, ⟨r.tokens, _, [],
          ⟨h.tokenCount, Token.list_format_iff.mpr ⟨h.tokens, rfl⟩⟩, ⟨?_, rfl⟩, rfl⟩, rfl⟩, rfl⟩,
      rfl⟩, ?_⟩
    · rw [h.identifiers, List.length_map, h.identifierCount]
    · simpa [Header.length_encode, Nat.add_assoc] using h.constants
    · obtain ⟨header, identifiers, constants, lineMap, tokens, encodedLength⟩ := r
      simp only [join, List.length_append] at hlength
      simp only [Record.mk.injEq, true_and]
      omega
    · simp [join]

/-- An accepted record is as long as it says, and its bytes are in the format. -/
theorem format_of_decode {c : Cursor} {r : Record} (h : (decode.run c).outcome = .ok r) :
    r.encodedLength ≤ c.remaining ∧ (decode.run c).cursor = c.advance r.encodedLength ∧
      format c.position r (c.rest.take r.encodedLength) := by
  obtain ⟨base, pos, rest⟩ := c
  obtain ⟨bytes, tail, rfl, hformat, hcursor⟩ := reads_decode.sound h
  have hlength : r.encodedLength = bytes.length := by
    obtain ⟨_, _, _, -, -, hlength⟩ := hformat
    exact hlength
  refine ⟨?_, ?_, ?_⟩
  · simp [Cursor.remaining, hlength]
  · rw [hcursor, hlength]
    simp [Cursor.advance]
  · rw [hlength, List.take_left]
    exact hformat

/-- A record with all five parts. Its first constant is a string with three bytes of padding, its
second ends at an odd position. -/
def fullRecordBytes : Bytes :=
  [0x47, 0x44, 0x53, 0x43, 13, 0, 0, 0, 1, 0, 0, 0, 2, 0, 0, 0, 1, 0, 0, 0, 2, 0, 0, 0,
    2, 0, 0, 0, 0xCE, 0xB6,
    4, 0, 0, 0, 3, 0, 0, 0, 0x68, 0x69, 0x21, 0xEE, 0xEE, 0xEE, 20, 0, 0, 0, 1, 0, 0, 0, 7,
    0xFF, 0xFF, 0xFF, 0xFF, 5, 0, 0, 1,
    0x17, 0x81, 1, 0, 0]

/-- What is read from `fullRecordBytes`. -/
def fullRecord : Record :=
  ⟨⟨0x43534447, 13, 1, 2, 1, 2⟩, ["x"],
    [⟨.string, false, [3, 0, 0, 0, 0x68, 0x69, 0x21]⟩, ⟨.poolByteArray, false, [1, 0, 0, 0, 7]⟩],
    [(-1, 0x01000005)], [⟨0x17⟩, ⟨0x181⟩], 66⟩

theorem ofBytes_fullRecordBytes : (ofBytes fullRecordBytes).outcome = .ok fullRecord := by rfl

/-- **Accepted records, taken apart.** An accepted record was read from exactly `encodedLength`
bytes, and these are its five parts in a row: the words of its header, as many framed byte strings
as it has identifiers, each spelling its identifier, the constant pool, pairs that describe its line
map, and the bytes of its tokens. The tables are as long as the header says, except that pairs for
the same token share an entry of the line map. -/
theorem accepted_parts {c : Cursor} {r : Record} (h : (decode.run c).outcome = .ok r) :
    r.encodedLength ≤ c.remaining ∧ (decode.run c).cursor = c.advance r.encodedLength ∧
      (∃ stored pool pairs, Parts c.position r stored pool pairs ∧
        c.rest.take r.encodedLength = r.join stored pool pairs) ∧
      r.identifiers.length = r.header.identifiers.toNat ∧
      r.constants.length = r.header.constants.toNat ∧
      r.lineMap.length ≤ r.header.lines.toNat ∧
      r.tokens.length = r.header.tokens.toNat ∧
      (∀ k ∈ r.constants, k.kind ≠ .dictionary ∧ k.kind ≠ .array ∧ k.kind ≠ .poolStringArray) ∧
      ∀ t ∈ r.tokens, t.isWide = true ∨ t.word < 0x80 := by
  obtain ⟨hle, hcursor, stored, pool, pairs, hparts, hbytes, -⟩ := format_of_decode h
  refine ⟨hle, hcursor, ⟨stored, pool, pairs, hparts, hbytes⟩, ?_, hparts.constantCount, ?_,
    hparts.tokenCount, ?_, hparts.tokens⟩
  · rw [hparts.identifiers, List.length_map, hparts.identifierCount]
  · rw [LineMap.lastWins_iff.mp hparts.lineMap, ← hparts.lineCount]
    simpa using LineMap.length_insertAll_le [] pairs
  · intro k hk
    have hlayout := Constant.layout_ne_unsupported hparts.constants k hk
    refine ⟨?_, ?_, ?_⟩ <;> exact fun hkind => hlayout (by rw [hkind]; rfl)

theorem accepted_parts_fullRecord :
    (decode.run (Cursor.start fullRecordBytes)).outcome = .ok fullRecord ∧
      ∃ stored pool pairs, Parts 0 fullRecord stored pool pairs ∧
        fullRecordBytes = fullRecord.join stored pool pairs :=
  ⟨ofBytes_fullRecordBytes, (accepted_parts ofBytes_fullRecordBytes).2.2.1⟩

/-- **A record decides where it ends.** What a byte string holds behind a record makes no
difference, and a byte string that ends inside the record is refused as truncated, wherever the cut
is. -/
theorem ofBytes_prefix_free {d : Bytes} {r : Record} (h : (ofBytes d).outcome = .ok r) :
    (∀ e : Bytes, e.take r.encodedLength = d.take r.encodedLength →
      (ofBytes e).outcome = .ok r) ∧
    ∀ k < r.encodedLength, ∃ part bounds,
      (ofBytes (d.take k)).outcome = .error (.truncated part bounds) := by
  obtain ⟨hle, -, hformat⟩ := format_of_decode (c := Cursor.start d) h
  have hlength : (d.take r.encodedLength).length = r.encodedLength := List.length_take_of_le hle
  refine ⟨fun e he => ?_, fun k hk => ?_⟩
  · have hsplit : e = d.take r.encodedLength ++ e.drop r.encodedLength := by
      rw [← he, List.take_append_drop]
    rw [ofBytes, Cursor.start, hsplit]
    exact (reads_decode.complete _ hformat).1
  · -- the cut keeps the first `k` bytes of the record and loses the others
    have hcut : d.take r.encodedLength = d.take k ++ (d.take r.encodedLength).drop k := by
      have hsplit := List.take_append_drop k (d.take r.encodedLength)
      rw [List.take_take, Nat.min_eq_left (Nat.le_of_lt hk)] at hsplit
      exact hsplit.symm
    have hlost : (d.take r.encodedLength).drop k ≠ [] := by
      rw [← List.length_pos_iff, List.length_drop, hlength]
      omega
    change format (0 + 0) r (d.take r.encodedLength) at hformat
    rw [hcut] at hformat
    obtain ⟨e, ⟨part, bounds, rfl⟩, he⟩ := reads_decode.truncated hformat hlost
    exact ⟨part, bounds, he⟩

theorem ofBytes_prefix_free_fullRecord :
    (ofBytes fullRecordBytes).outcome = .ok fullRecord ∧
      (∀ rest, (ofBytes (fullRecordBytes ++ rest)).outcome = .ok fullRecord) ∧
      ∀ k < 66, ∃ part bounds,
        (ofBytes (fullRecordBytes.take k)).outcome = .error (.truncated part bounds) :=
  ⟨ofBytes_fullRecordBytes,
    fun rest => (ofBytes_prefix_free ofBytes_fullRecordBytes).1 (fullRecordBytes ++ rest) rfl,
    (ofBytes_prefix_free ofBytes_fullRecordBytes).2⟩

end Record

end AssetPack.Script
