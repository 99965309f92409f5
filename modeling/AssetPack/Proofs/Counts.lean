import AssetPack.Proofs.Container.Table
import AssetPack.Proofs.Script.Record
import AssetPack.Proofs.Stopping

/-!
# Counts and the bytes behind them

How many identifiers, constants, pairs, tokens or entries follow is told by words that nobody has
checked. But no item is free: an entry takes at least 36 bytes, a pair eight, identifiers, constants
and the strings of a node path four each, for a length word or a tag, and a token one. So a count
that was read to its end is backed by bytes, and one that is too large runs into the end of the
bytes.

Both come from what one turn of a loop does. `Decoder.Iterates` says it for loops of any kind, with
a state that is carried from turn to turn: a turn fails, or it takes bytes and leaves a loop with
one turn less. Then the turns that succeed can be counted without knowing the count
(`Decoder.Iterates.stops`).

## Main definitions

* `Decoder.Takes`: a decoder that takes at least some bytes when it succeeds.
* `Decoder.Iterates`, `Decoder.Stops`: what one turn of a loop does, and what follows for the loop.

## Main results

* `Decoder.Iterates.stops`: a loop whose turns take bytes stops.
* `Decoder.counts_backed`: all counts of records and of containers.
-/

namespace AssetPack

namespace Decoder

variable {ε α β σ : Type} {least : Nat}

/-! ### Bytes taken -/

/-- Whenever the decoder succeeds, it takes at least `least` of the bytes that are left. -/
def Takes (least : Nat) (d : Decoder ε α) : Prop :=
  ∀ (c : Cursor) (a : α), (d.run c).outcome = .ok a →
    ∃ n, least ≤ n ∧ n ≤ c.remaining ∧ (d.run c).cursor = c.advance n

/-- What is read takes as many bytes as its shortest stored form. -/
theorem Reads.takes {short : ε → Prop} {d : Decoder ε α} (format : Nat → Format α)
    (h : ∀ base pos, Reads short d base pos (format (base + pos)))
    (hformat : ∀ position a bytes, format position a bytes → least ≤ bytes.length) :
    Takes least d := by
  rintro ⟨base, pos, rest⟩ a hok
  obtain ⟨bytes, tail, rfl, hbytes, hcursor⟩ := (h base pos).sound hok
  refine ⟨bytes.length, hformat _ a bytes hbytes, ?_, ?_⟩
  · simp [Cursor.remaining]
  · rw [hcursor, Cursor.advance, List.drop_left]

/-- A repetition that succeeds has as many values as it was asked for, and bytes for all of
them. -/
theorem Reads.backed_of_times {short : ε → Prop} {d : Decoder ε α} (format : Nat → Format α)
    (h : ∀ base pos, Reads short d base pos (format (base + pos)))
    (hformat : ∀ position a bytes, format position a bytes → least ≤ bytes.length)
    {count : Nat} {c : Cursor} {values : List α}
    (hok : ((times count d).run c).outcome = .ok values) :
    values.length = count ∧ least * count ≤ c.remaining := by
  obtain ⟨base, pos, rest⟩ := c
  obtain ⟨bytes, tail, rfl, ⟨rfl, hlist⟩, -⟩ := (Reads.times format (h base) count).sound hok
  have hle := Format.le_length_of_list hformat hlist
  refine ⟨rfl, Nat.le_trans hle ?_⟩
  simp [Cursor.remaining]

/-! ### Loops -/

/-- The loop, which carries a state, goes on as long as its turns succeed: a turn fails in the same
way whatever the count is, or it takes at least `least` bytes and the loop is left with one turn
less. -/
structure Iterates (least : Nat) (loop : σ → Nat → Decoder ε β) : Prop where
  zero : ∀ s c, ∃ b, ((loop s 0).run c).outcome = .ok b
  succ : ∀ s c,
    (∃ e stop, ∀ count, ((loop s (count + 1)).run c).outcome = .error e ∧
      ((loop s (count + 1)).run c).cursor = stop) ∨
    ∃ s' n f, least ≤ n ∧ n ≤ c.remaining ∧ ∀ count,
      ((loop s (count + 1)).run c).outcome = ((loop s' count).run (c.advance n)).outcome.map f ∧
        ((loop s (count + 1)).run c).cursor = ((loop s' count).run (c.advance n)).cursor

/-- From wherever the loop starts, it succeeds for every count up to a limit, for which the bytes
have to be there, and for every count beyond the limit it fails, always in the same way and at the
same place. -/
def Stops (least : Nat) (loop : Nat → Decoder ε β) : Prop :=
  ∀ c : Cursor, ∃ limit, least * limit ≤ c.remaining ∧
    (∀ count ≤ limit, ∃ b, ((loop count).run c).outcome = .ok b) ∧
    ∃ e stop, ∀ count, limit < count →
      ((loop count).run c).outcome = .error e ∧ ((loop count).run c).cursor = stop

/-- **A loop whose turns take bytes stops.** -/
theorem Iterates.stops {loop : σ → Nat → Decoder ε β} (h : Iterates least loop)
    (hleast : 0 < least) (s : σ) : Stops least (loop s) := by
  intro c
  -- each turn leaves fewer bytes, so the induction is on how many there are
  induction hremaining : c.remaining using Nat.strong_induction_on generalizing s c with
  | _ remaining ih =>
    subst hremaining
    obtain ⟨e, stop, hfails⟩ | ⟨s', n, f, hleast', hn, hturn⟩ := h.succ s c
    · refine ⟨0, Nat.zero_le _, fun count hcount => ?_, e, stop, fun count hcount => ?_⟩
      · rw [Nat.le_zero.1 hcount]
        exact h.zero s c
      · obtain ⟨count, rfl⟩ := Nat.exists_eq_add_one.2 hcount
        exact hfails count
    · have hless := Cursor.remaining_advance c n
      obtain ⟨limit, hlimit, hok, e, stop, hfails⟩ :=
        ih (c.advance n).remaining (by omega) s' (c.advance n) rfl
      refine ⟨limit + 1, ?_, fun count hcount => ?_, e, stop, fun count hcount => ?_⟩
      · rw [Nat.mul_succ]
        omega
      · cases count with
        | zero => exact h.zero s c
        | succ count =>
          obtain ⟨b, hb⟩ := hok count (Nat.le_of_succ_le_succ hcount)
          exact ⟨f b, by rw [(hturn count).1, hb]; rfl⟩
      · obtain ⟨count, rfl⟩ := Nat.exists_eq_add_one.2 (Nat.zero_lt_of_lt hcount)
        obtain ⟨herror, hstop⟩ := hfails count (Nat.lt_of_succ_lt_succ hcount)
        refine ⟨?_, (hturn count).2.trans hstop⟩
        rw [(hturn count).1, herror]
        rfl

/-- **A repetition stops**, if its items take bytes. -/
theorem Takes.stops_times {d : Decoder ε α} (h : Takes least d) (hleast : 0 < least) :
    Stops least fun count => times count d := by
  have hiterates : Iterates least fun (_ : Unit) count => times count d := by
    refine ⟨fun _ _ => ⟨[], rfl⟩, fun _ c => ?_⟩
    cases hitem : (d.run c).outcome with
    | error e =>
      refine .inl ⟨e, (d.run c).cursor, fun count => ?_⟩
      rw [times, run_bind_of_error _ hitem]
      exact ⟨rfl, rfl⟩
    | ok a =>
      obtain ⟨n, hle, hn, hcursor⟩ := h c a hitem
      refine .inr ⟨(), n, (a :: ·), hle, hn, fun count => ?_⟩
      rw [← hcursor]
      exact times_succ_of_ok hitem count
  exact hiterates.stops hleast ()

end Decoder

open Decoder (Takes Iterates Stops Reads)

namespace Script

/-! ### What the items of a record take -/

theorem Identifier.length_of_format {name : String} {bytes : Bytes}
    (h : Identifier.format name bytes) : 4 ≤ bytes.length := by
  obtain ⟨stored, -, -, rfl⟩ := h
  rw [Identifier.frame, List.length_append, LittleEndian.length_encode]
  exact Nat.le_add_right _ _

theorem Identifier.takes_decode : Takes 4 Identifier.decode :=
  Reads.takes (fun _ => Identifier.format) (fun _ _ => Identifier.reads_decode)
    fun _ _ _ => Identifier.length_of_format

theorem Constant.length_of_format {position : Nat} {k : Constant} {bytes : Bytes}
    (h : Constant.format position k bytes) : 4 ≤ bytes.length := by
  obtain ⟨pad, -, -, rfl⟩ := h
  rw [List.length_append, List.length_append, LittleEndian.length_word]
  omega

theorem Constant.takes_decode : Takes 4 Constant.decode :=
  Reads.takes Constant.format (fun _ _ => Constant.reads_decode)
    fun _ _ _ => Constant.length_of_format

theorem Span.length_of_stringFormat {position : Nat} {span : Span} {bytes : Bytes}
    (h : Span.stringFormat position span bytes) : 4 ≤ bytes.length := by
  obtain ⟨length, text, pad, -, -, rfl, -⟩ := h
  rw [List.length_append, List.length_append, LittleEndian.length_word]
  omega

theorem Span.takes_string : Decoder.Takes 4 Span.string :=
  Reads.takes Span.stringFormat (fun _ _ => Span.reads_string)
    fun _ _ _ => Span.length_of_stringFormat

theorem Token.length_of_format {t : Token} {bytes : Bytes} (h : Token.format t bytes) :
    1 ≤ bytes.length := by
  obtain ⟨-, rfl⟩ := h
  rw [Token.encode]
  split
  · rw [LittleEndian.length_word]
    decide
  · exact Nat.le_refl 1

theorem Token.takes_decode : Takes 1 Token.decode :=
  Reads.takes (fun _ => Token.format) (fun _ _ => Token.reads_decode)
    fun _ _ _ => Token.length_of_format

theorem LineMap.length_flatMap_encodePair (pairs : List (Int32 × UInt32)) :
    (pairs.flatMap LineMap.encodePair).length = 8 * pairs.length := by
  simp only [List.length_flatMap, LineMap.length_encodePair]
  rw [List.map_const', List.sum_replicate_nat, Nat.mul_comm]

theorem LineMap.iterates_decodeInto :
    Iterates 8 fun (map : LineMap) count => LineMap.decodeInto count map := by
  refine ⟨fun map _ => ⟨map, rfl⟩, fun map c => ?_⟩
  rcases Nat.lt_or_ge c.remaining 8 with hlt | hle
  · obtain ⟨⟨e, hpair⟩, hstay⟩ := LineMap.decodePair_of_lt hlt
    refine .inl ⟨e, c, fun count => ?_⟩
    rw [LineMap.decodeInto, Decoder.run_bind_of_error _ hpair]
    exact ⟨rfl, hstay⟩
  · obtain ⟨⟨pair, hpair⟩, hmoved⟩ := LineMap.decodePair_of_le hle
    refine .inr ⟨map.insert pair.1 pair.2, 8, id, Nat.le_refl 8, hle, fun count => ?_⟩
    obtain ⟨houtcome, hcursor⟩ := LineMap.decodeInto_succ_of_ok count map hpair
    rw [hmoved] at houtcome hcursor
    refine ⟨houtcome.trans ?_, hcursor⟩
    cases ((LineMap.decodeInto count (map.insert pair.1 pair.2)).run (c.advance 8)).outcome with
    | error e => rfl
    | ok map' => rfl

/-- A node path has bytes for all its strings. -/
theorem Layout.le_length_of_holds_nodePath {wide : Bool} {position : Nat} {payload : Bytes}
    (h : Layout.Holds wide position .nodePath payload) :
    12 + 4 * ((Header.wordAt payload 0 &&& 0x7FFFFFFF).toNat + (Header.wordAt payload 1).toNat) ≤
      payload.length := by
  obtain ⟨names, subnames, flags, strings, hstrings, rfl⟩ := h
  obtain ⟨spans, hcount, hlist⟩ := Span.list_stringFormat_iff.2 hstrings
  have hle := Format.le_length_of_list (fun _ _ _ => Span.length_of_stringFormat) hlist
  simp only [List.append_assoc, Header.wordAt_zero, Header.wordAt_succ]
  rw [hcount] at hle
  simp only [List.length_append, LittleEndian.length_word]
  omega

namespace Record

/-- **A record has bytes for everything that it counts.** -/
theorem Parts.le_length_join {position : Nat} {r : Record} {stored : List Bytes} {pool : Bytes}
    {pairs : List (Int32 × UInt32)} (h : Parts position r stored pool pairs) :
    24 + 4 * r.header.identifiers.toNat + 4 * r.header.constants.toNat +
      8 * r.header.lines.toNat + r.header.tokens.toNat ≤ (r.join stored pool pairs).length := by
  have hidentifiers := Format.le_length_of_list (fun _ _ _ => Identifier.length_of_format)
    (Identifier.list_format_iff.2 ⟨stored, h.storedLength, h.identifiers, rfl⟩ :
      Format.list _ 0 _ _)
  have hconstants := Format.le_length_of_list (fun _ _ _ => Constant.length_of_format) h.constants
  have htokens := Format.le_length_of_list (fun _ _ _ => Token.length_of_format)
    (Token.list_format_iff.2 ⟨h.tokens, rfl⟩ : Format.list _ 0 r.tokens _)
  rw [h.identifiers, List.length_map, h.identifierCount] at hidentifiers
  rw [h.constantCount] at hconstants
  rw [h.tokenCount] at htokens
  simp only [join, List.length_append, Header.length_encode, Header.size,
    LineMap.length_flatMap_encodePair, h.lineCount]
  omega

/-- The tokens of a record were read in one stream, as many as the header says. -/
theorem exists_decodeMany {c : Cursor} {r : Record} (h : (decode.run c).outcome = .ok r) :
    ∃ c', ((Token.decodeMany r.header.tokens).run c').outcome = .ok r.tokens := by
  rw [run_decode] at h
  obtain ⟨header, -, h⟩ := Decoder.ok_of_bind h
  obtain ⟨-, -, h⟩ := Decoder.ok_of_bind h
  obtain ⟨identifiers, -, h⟩ := Decoder.ok_of_bind h
  obtain ⟨constants, -, h⟩ := Decoder.ok_of_bind h
  obtain ⟨lineMap, -, h⟩ := Decoder.ok_of_bind h
  obtain ⟨tokens, htokens, h⟩ := Decoder.ok_of_bind h
  cases h
  exact ⟨_, htokens⟩

end Record

end Script

namespace Container

/-! ### What entries take -/

theorem Entry.length_of_format {position : Nat} {e : Entry} {bytes : Bytes}
    (h : Entry.format position e bytes) : 36 ≤ bytes.length := by
  obtain ⟨name, pad, -, -, -, -, -, hdigest, rfl⟩ := h
  simp only [Entry.encode, List.length_append, LittleEndian.length_encode,
    LittleEndian.length_long, hdigest]
  omega

theorem Index.iterates_decodeEntries : Iterates 36 Index.decodeEntries := by
  refine ⟨fun _ _ => ⟨[], rfl⟩, fun place c => ?_⟩
  have htakes : Takes 36 (Entry.decode place) :=
    Reads.takes Entry.format (fun _ _ => Entry.reads_decode place)
      fun _ _ _ => Entry.length_of_format
  cases hentry : ((Entry.decode place).run c).outcome with
  | error e => exact .inl ⟨e, _, Index.decodeEntries_succ_of_error hentry⟩
  | ok entry =>
    obtain ⟨n, hle, hn, hcursor⟩ := htakes c entry hentry
    refine .inr ⟨place + 1, n, (entry :: ·), hle, hn, fun count => ?_⟩
    rw [← hcursor]
    exact Index.decodeEntries_succ_of_ok hentry count

theorem Index.le_extent (rows : List Row) : 88 + 36 * rows.length ≤ Index.extent rows := by
  rw [Index.extent]
  induction rows with
  | nil => exact Nat.le_refl 88
  | cons r rest ih =>
    rw [List.map_cons, List.sum_cons, List.length_cons, Row.extent]
    omega

/-- Behind the header of an index there are all bytes but 88. -/
theorem Header.remaining_of_ofBytes {data : Bytes} {index : Index}
    (h : (Index.ofBytes data).outcome = .ok index) :
    (Header.decode.run (Cursor.start data)).cursor.remaining = data.length - 88 := by
  change ((Header.decode >>= Index.decodeTable).run ⟨0, 0, data⟩).outcome = .ok index at h
  change (Header.decode.run ⟨0, 0, data⟩).cursor.remaining = _
  obtain ⟨header, hheader, -⟩ := Decoder.ok_of_bind h
  obtain ⟨_, tail, rfl, ⟨reserved, hreserved, rfl⟩, hcursor⟩ := Header.reads_decode.sound hheader
  rw [hcursor, List.length_append, Header.length_encode hreserved, Nat.add_sub_cancel_left]
  rfl

end Container

open Script Container

/-- **Counts are backed by bytes.** A record that was read is no longer than its byte string and not
shorter than its counts say: 24 bytes for the header, four for each identifier and for each
constant, eight for each pair of the line map and one for each token. Each of its node paths has
twelve bytes and four for each string. A container whose index was read has 88 bytes and 36 for each
entry.

So the room that is made in advance, for as many tokens as there are bytes left and for a
thirty-sixth as many entries but no more than were announced, is exactly what is filled if all goes
well. And no loop over a count goes on behind the end of the bytes: it succeeds up to a limit that
the bytes give, and for all larger counts it fails in the same way at the same place. -/
theorem Decoder.counts_backed (d : Bytes) :
    (∀ r, (Record.ofBytes d).outcome = .ok r →
      24 + 4 * r.header.identifiers.toNat + 4 * r.header.constants.toNat +
        8 * r.header.lines.toNat + r.header.tokens.toNat ≤ r.encodedLength ∧
      r.encodedLength ≤ d.length ∧
      (∀ k ∈ r.constants, k.kind = .nodePath →
        12 + 4 * ((Script.Header.wordAt k.payload 0 &&& 0x7FFFFFFF).toNat +
          (Script.Header.wordAt k.payload 1).toNat) ≤ k.payload.length) ∧
      ∃ c, ((Token.decodeMany r.header.tokens).run c).outcome = .ok r.tokens ∧
        min r.header.tokens.toNat c.remaining = r.tokens.length) ∧
    (∀ index, (Index.ofBytes d).outcome = .ok index →
      88 + 36 * index.header.fileCount.toNat ≤ d.length ∧
      min index.header.fileCount.toNat
        ((Container.Header.decode.run (Cursor.start d)).cursor.remaining / 36) =
          index.entries.length) ∧
    (∀ count c tokens, ((Token.decodeMany count).run c).outcome = .ok tokens →
      min count.toNat c.remaining = tokens.length) ∧
    Stops 4 (fun count => Decoder.times count Identifier.decode) ∧
    Stops 4 (fun count => Decoder.times count Constant.decode) ∧
    (∀ map, Stops 8 fun count => LineMap.decodeInto count map) ∧
    Stops 1 (fun count => Decoder.times count Token.decode) ∧
    Stops 4 (fun count => Decoder.times count Span.string) ∧
    ∀ place, Stops 36 fun count => Index.decodeEntries place count := by
  have hroom : ∀ count c tokens, ((Token.decodeMany count).run c).outcome = .ok tokens →
      min count.toNat c.remaining = tokens.length := by
    intro count c tokens h
    obtain ⟨hlength, hle⟩ := Reads.backed_of_times (fun _ => Token.format)
      (fun _ _ => Token.reads_decode) (fun _ _ _ => Token.length_of_format) h
    omega
  refine ⟨fun r h => ?_, fun index h => ?_, hroom, Identifier.takes_decode.stops_times (by decide),
    Constant.takes_decode.stops_times (by decide), LineMap.iterates_decodeInto.stops (by decide),
    Token.takes_decode.stops_times (by decide), Span.takes_string.stops_times (by decide),
    Index.iterates_decodeEntries.stops (by decide)⟩
  · obtain ⟨hle, -, stored, pool, pairs, hparts, hbytes, hlength⟩ :=
      Record.format_of_decode (c := Cursor.start d) h
    obtain ⟨c, htokens⟩ := Record.exists_decodeMany h
    refine ⟨?_, hle, fun k hk hkind => ?_, c, htokens, hroom _ c _ htokens⟩
    · rw [hlength, hbytes]
      exact hparts.le_length_join
    · obtain ⟨_, _, pad, hholds, -⟩ := Format.exists_of_mem_list hparts.constants hk
      rw [hkind] at hholds
      exact Layout.le_length_of_holds_nodePath hholds
  · obtain ⟨rows, hopens, hcount, -, hrows, -⟩ := Index.opens_of_ofBytes h
    have hextent := Index.le_extent rows
    have hle := hopens.extent_le
    rw [Container.Header.remaining_of_ofBytes h, hrows, List.length_map]
    omega

/-- A record with a node path of two strings, the first of them empty, and the top bit of its first
count set. -/
def nodePathBytes : Bytes :=
  Script.Header.encode ⟨Script.signature, 13, 0, 1, 0, 1⟩ ++
    LittleEndian.word (ValueKind.tag .nodePath false) ++
    [1, 0, 0, 0x80, 1, 0, 0, 0, 0, 0, 0, 0, 0, 0, 0, 0, 1, 0, 0, 0, 0x61, 0, 0, 0, 0x17]

/-- What is read from `nodePathBytes`. -/
def nodePathRecord : Record :=
  ⟨⟨Script.signature, 13, 0, 1, 0, 1⟩, [],
    [⟨.nodePath, false, (nodePathBytes.drop 28).take 24⟩], [], [⟨0x17⟩], 53⟩

theorem Decoder.counts_backed_nodePathRecord :
    ((Record.ofBytes nodePathBytes).outcome = .ok nodePathRecord ∧ 24 + 4 * 1 + 1 ≤ 53 ∧
      12 + 4 * (1 + 1) ≤ ((nodePathBytes.drop 28).take 24).length) ∧
    ((Index.ofBytes (Index.twoRows 1)).outcome =
        .ok ⟨⟨1, 3, 2, 0, 1⟩, [Index.paddedRow.entry]⟩ ∧
      88 + 36 * 1 ≤ (Index.twoRows 1).length) ∧
    min (UInt32.toNat 1) (Cursor.start [0x17, 0x18]).remaining = [Token.mk 0x17].length ∧
    ∃ limit, limit ≤ 2 ∧ ∃ e stop, ∀ count, limit < count →
      ((Decoder.times count Token.decode).run (Cursor.start [0x17, 0x81])).outcome = .error e ∧
        ((Decoder.times count Token.decode).run (Cursor.start [0x17, 0x81])).cursor = stop := by
  obtain ⟨hrecord, -, htokens, -, -, -, hstops, -⟩ := counts_backed nodePathBytes
  obtain ⟨-, hindex, -⟩ := counts_backed (Index.twoRows 1)
  have hread : (Record.ofBytes nodePathBytes).outcome = .ok nodePathRecord := by rfl
  have hopened : (Index.ofBytes (Index.twoRows 1)).outcome =
      .ok ⟨⟨1, 3, 2, 0, 1⟩, [Index.paddedRow.entry]⟩ := by rfl
  obtain ⟨hcounts, -, hpaths, -⟩ := hrecord _ hread
  obtain ⟨limit, hlimit, -, hfails⟩ := hstops (Cursor.start [0x17, 0x81])
  rw [Nat.one_mul] at hlimit
  exact ⟨⟨hread, hcounts, hpaths _ (List.mem_singleton.2 rfl) rfl⟩, ⟨hopened, (hindex _ hopened).1⟩,
    htokens 1 (Cursor.start [0x17, 0x18]) _ rfl, limit, hlimit, hfails⟩

end AssetPack
