import AssetPack.Proofs.Shortfall

/-!
# The index of a container, byte for byte

The header takes 88 bytes, so the first entry starts at a multiple of four, and so does every other
one: behind its padded name an entry takes 32 bytes. Hence how an entry is stored does not depend on
what is before it, and an index is a header and `Row`s back to back. The length of a row is known
from the length of its name, so where an index ends is known from its names.

Rows are read whatever their ranges are. A negative range is found out when its row has been passed,
so it is reported only if everything up to the end of that row is there, and then whatever comes
behind it.

## Main definitions

* `Row`: an entry as it is stored, with the bytes of its name and of the padding behind.
* `Index.Opens`: a container starts with a header and given rows.
* `Index.Reaches`: some rows of the table are in order and another one follows.
* `Index.recount`: a container with another count in its header.

## Main results

* `Index.format_iff`: the stored forms of an index are those with a header and rows.
* `Index.decodeEntries_eq_error_iff`: entries fail as the first of them that fails.
* `Index.ofBytes_self_delimiting`: an index ends where its rows end, and a negative range is
  reported for the first row that has one.
-/

namespace AssetPack.Container

open LittleEndian (word long)
open Script (Pads pads_iff)

/-! ### Rows -/

/-- An entry as it is stored at a multiple of four. -/
structure Row where
  /-- The entry. -/
  entry : Entry
  /-- The bytes of its name. -/
  name : Bytes
  /-- The bytes between the name and the next multiple of four. -/
  pad : Bytes
  nameLength : name.length < 2 ^ 32
  text : entry.name = Utf8.text name
  padded : Pads name.length pad
  digest : entry.digest.length = 16

namespace Row

/-- The bytes of a row. -/
def encode (r : Row) : Bytes := r.entry.encode r.name r.pad

/-- How many bytes a row takes: 36, and its name rounded up to a multiple of four. -/
def extent (r : Row) : Nat := 36 + (r.name.length + 3) / 4 * 4

theorem length_encode (r : Row) : r.encode.length = r.extent := by
  have hpad := pads_iff.1 r.padded
  simp only [encode, Entry.encode, extent, List.length_append, LittleEndian.length_encode,
    LittleEndian.length_long, r.digest]
  omega

theorem four_dvd_extent (r : Row) : 4 ∣ r.extent := by
  rw [extent]
  omega

/-- Rows back to back take as many bytes as they take one by one. -/
theorem length_flatMap_encode (rows : List Row) :
    (rows.flatMap encode).length = (rows.map extent).sum := by
  rw [List.length_flatMap]
  simp only [length_encode]

theorem four_dvd_sum_extent (rows : List Row) : 4 ∣ (rows.map extent).sum := by
  induction rows with
  | nil => exact Nat.dvd_zero 4
  | cons r rest ih =>
    rw [List.map_cons, List.sum_cons]
    exact Nat.dvd_add r.four_dvd_extent ih

end Row

/-- At a multiple of four an entry is stored as a row. -/
theorem Entry.rowFormat_iff {position : Nat} {e : Entry} {bytes : Bytes} (h : 4 ∣ position) :
    rowFormat position e bytes ↔ ∃ r : Row, e = r.entry ∧ bytes = r.encode := by
  have hpads : ∀ name pad : Bytes, Pads (position + 4 + name.length) pad ↔ Pads name.length pad :=
    fun name pad => by rw [pads_iff, pads_iff]; omega
  constructor
  · rintro ⟨name, pad, hname, htext, hpad, hdigest, rfl⟩
    exact ⟨⟨e, name, pad, hname, htext, (hpads name pad).1 hpad, hdigest⟩, rfl, rfl⟩
  · rintro ⟨r, rfl, rfl⟩
    exact ⟨r.name, r.pad, r.nameLength, r.text, (hpads r.name r.pad).2 r.padded, r.digest, rfl⟩

/-- **Every entry starts at a multiple of four**, if the first one does, so entries are stored as
rows back to back. -/
theorem Entry.list_format_iff {position : Nat} {entries : List Entry} {bytes : Bytes}
    (h : 4 ∣ position) :
    Format.list format position entries bytes ↔ ∃ rows : List Row,
      (∀ r ∈ rows, r.entry.InRange) ∧ entries = rows.map Row.entry ∧
        bytes = rows.flatMap Row.encode := by
  induction entries generalizing position bytes with
  | nil =>
    constructor
    · rintro rfl
      exact ⟨[], by simp, rfl, rfl⟩
    · rintro ⟨rows, -, hrows, rfl⟩
      rw [List.map_eq_nil_iff.1 hrows.symm]
      rfl
  | cons e rest ih =>
    have hnext : ∀ r : Row, 4 ∣ position + r.encode.length := fun r => by
      rw [r.length_encode]
      exact Nat.dvd_add h r.four_dvd_extent
    constructor
    · rintro ⟨front, back, hfront, hback, rfl⟩
      obtain ⟨hrow, hrange⟩ := format_iff.1 hfront
      obtain ⟨r, rfl, rfl⟩ := (rowFormat_iff h).1 hrow
      obtain ⟨rows, hranges, rfl, rfl⟩ := (ih (hnext r)).1 hback
      exact ⟨r :: rows, List.forall_mem_cons.2 ⟨hrange, hranges⟩, rfl, rfl⟩
    · rintro ⟨rows, hranges, hrows, rfl⟩
      cases rows with
      | nil => cases hrows
      | cons r rows =>
        rw [List.map_cons, List.cons.injEq] at hrows
        obtain ⟨rfl, rfl⟩ := hrows
        obtain ⟨hrange, hranges⟩ := List.forall_mem_cons.1 hranges
        exact ⟨r.encode, rows.flatMap Row.encode,
          format_iff.2 ⟨(rowFormat_iff h).2 ⟨r, rfl, rfl⟩, hrange⟩,
          (ih (hnext r)).2 ⟨rows, hranges, rfl, rfl⟩, rfl⟩

/-- **When a negative range is reported.** The entry was read, and it is the one with the reported
place and numbers. -/
theorem Entry.decode_eq_negativeRange_iff {index i : Nat} {offset size : Int64} {c : Cursor} :
    ((decode index).run c).outcome = .error (.negativeRange i offset size) ↔
      i = index ∧ (offset < 0 ∨ size < 0) ∧ ∃ e, (decodeRow.run c).outcome = .ok e ∧
        e.offset = offset.toUInt64 ∧ e.size = size.toUInt64 := by
  rw [decode_eq]
  cases hrow : (decodeRow.run c).outcome with
  | error e =>
    obtain ⟨bounds, rfl, -⟩ := (failsFor_decodeRow.error hrow : CutOff c e)
    rw [Decoder.run_bind_of_error _ hrow]
    simp
  | ok e =>
    rw [Decoder.run_bind_of_ok _ hrow, judge]
    constructor
    · intro h
      split at h
      · next hnegative =>
        cases h
        exact ⟨rfl, hnegative, e, rfl, (UInt64.toUInt64_toInt64 _).symm,
          (UInt64.toUInt64_toInt64 _).symm⟩
      · cases h
    · rintro ⟨rfl, hnegative, e', he, hoffset, hsize⟩
      cases he
      rw [hoffset, hsize, Int64.toInt64_toUInt64, Int64.toInt64_toUInt64, if_pos hnegative]
      rfl

namespace Index

/-! ### The table -/

/-- How many bytes the header and given rows take. -/
def extent (rows : List Row) : Nat := 88 + (rows.map Row.extent).sum

/-- The container starts with the header and the rows. How many rows the header announces does not
matter. -/
def Opens (data : Bytes) (header : Header) (rows : List Row) : Prop :=
  ∃ reserved tail : Bytes, reserved.length = 64 ∧
    data = header.encode reserved ++ rows.flatMap Row.encode ++ tail

variable {data : Bytes} {header : Header} {rows : List Row}

theorem length_front {reserved : Bytes} (hreserved : reserved.length = 64) (rows : List Row) :
    (header.encode reserved ++ rows.flatMap Row.encode).length = extent rows := by
  rw [List.length_append, Header.length_encode hreserved, Row.length_flatMap_encode, extent]

/-- **The stored forms of an index** are those with a header and as many rows as it announces. -/
theorem format_iff {index : Index} {bytes : Bytes} :
    format 0 index bytes ↔ ∃ (reserved : Bytes) (rows : List Row), reserved.length = 64 ∧
      rows.length = index.header.fileCount.toNat ∧ (∀ r ∈ rows, r.entry.InRange) ∧
        index.entries = rows.map Row.entry ∧
          bytes = index.header.encode reserved ++ rows.flatMap Row.encode := by
  have hstart : ∀ {reserved : Bytes}, reserved.length = 64 →
      4 ∣ 0 + (index.header.encode reserved).length := fun hreserved => by
    rw [Header.length_encode hreserved]
    decide
  constructor
  · rintro ⟨_, back, ⟨reserved, hreserved, rfl⟩, hcount, hlist, rfl⟩
    obtain ⟨rows, hranges, hrows, rfl⟩ := (Entry.list_format_iff (hstart hreserved)).1 hlist
    refine ⟨reserved, rows, hreserved, ?_, hranges, hrows, rfl⟩
    rw [← hcount, hrows, List.length_map]
  · rintro ⟨reserved, rows, hreserved, hcount, hranges, hrows, rfl⟩
    refine ⟨_, _, ⟨reserved, hreserved, rfl⟩, ?_,
      (Entry.list_format_iff (hstart hreserved)).2 ⟨rows, hranges, hrows, rfl⟩, rfl⟩
    rw [hrows, List.length_map, hcount]

/-- What opens a container is an index if the header announces as many rows and none has a negative
range. -/
theorem Opens.exists_format (h : Opens data header rows)
    (hcount : rows.length = header.fileCount.toNat) (hranges : ∀ r ∈ rows, r.entry.InRange) :
    ∃ front tail : Bytes, data = front ++ tail ∧ front.length = extent rows ∧
      format 0 ⟨header, rows.map Row.entry⟩ front := by
  obtain ⟨reserved, tail, hreserved, rfl⟩ := h
  exact ⟨_, tail, rfl, length_front hreserved rows,
    format_iff.2 ⟨reserved, rows, hreserved, hcount, hranges, rfl, rfl⟩⟩

theorem reads_decode_start : Decoder.Reads IndexError.IsTruncation decode 0 0 (format 0) :=
  reads_decode

/-- An index that was read is in front of the container, and the cursor is behind it. -/
theorem opens_of_ofBytes {index : Index} (h : (ofBytes data).outcome = .ok index) :
    ∃ rows : List Row, Opens data index.header rows ∧
      rows.length = index.header.fileCount.toNat ∧ (∀ r ∈ rows, r.entry.InRange) ∧
      index.entries = rows.map Row.entry ∧
      (ofBytes data).cursor = (Cursor.start data).advance (extent rows) := by
  obtain ⟨bytes, tail, hdata, hformat, hcursor⟩ := reads_decode_start.sound h
  obtain ⟨reserved, rows, hreserved, hcount, hranges, hrows, rfl⟩ := format_iff.1 hformat
  refine ⟨rows, ⟨reserved, tail, hreserved, hdata⟩, hcount, hranges, hrows, ?_⟩
  rw [length_front hreserved] at hcursor
  refine hcursor.trans ?_
  rw [Cursor.advance, Cursor.start, hdata, List.drop_left' (length_front hreserved rows)]

/-- A header with as many rows as it announces is an index, unless one of them has a negative
range. -/
theorem ofBytes_of_opens (h : Opens data header rows)
    (hcount : rows.length = header.fileCount.toNat) (hranges : ∀ r ∈ rows, r.entry.InRange) :
    (ofBytes data).outcome = .ok ⟨header, rows.map Row.entry⟩ := by
  obtain ⟨front, tail, rfl, -, hformat⟩ := h.exists_format hcount hranges
  exact (reads_decode_start.complete tail hformat).1

/-- An index that is cut anywhere is refused for that. -/
theorem ofBytes_take {k : Nat} (h : Opens data header rows)
    (hcount : rows.length = header.fileCount.toNat) (hranges : ∀ r ∈ rows, r.entry.InRange)
    (hk : k < extent rows) :
    ∃ bounds, (ofBytes (data.take k)).outcome = .error (.bounds bounds) := by
  obtain ⟨front, tail, rfl, hlength, hformat⟩ := h.exists_format hcount hranges
  have hlost : front.drop k ≠ [] := by
    rw [← List.length_pos_iff, List.length_drop, hlength]
    omega
  rw [← List.take_append_drop k front] at hformat
  obtain ⟨_, ⟨bounds, rfl⟩, hcut⟩ := reads_decode_start.truncated hformat hlost
  refine ⟨bounds, ?_⟩
  rw [List.take_append_of_le_length (by omega)]
  exact hcut

/-- Containers with the same bytes up to the end of the rows start with the same rows. -/
theorem Opens.of_take_eq {other : Bytes} (h : Opens data header rows)
    (heq : other.take (extent rows) = data.take (extent rows)) : Opens other header rows := by
  obtain ⟨reserved, tail, hreserved, rfl⟩ := h
  rw [List.take_left' (length_front hreserved rows)] at heq
  refine ⟨reserved, other.drop (extent rows), hreserved, ?_⟩
  rw [← heq, List.take_append_drop]

theorem Opens.extent_le (h : Opens data header rows) : extent rows ≤ data.length := by
  obtain ⟨reserved, tail, hreserved, rfl⟩ := h
  rw [List.length_append, length_front hreserved]
  exact Nat.le_add_right _ _

/-! ### Another count -/

/-- The container with another count in its header. -/
def recount (data : Bytes) (count : UInt32) : Bytes := data.take 84 ++ word count ++ data.drop 88

theorem Opens.recount (h : Opens data header rows) (count : UInt32) :
    Opens (recount data count) { header with fileCount := count } rows := by
  obtain ⟨reserved, tail, hreserved, rfl⟩ := h
  refine ⟨reserved, tail, hreserved, ?_⟩
  have htake : (header.encode reserved ++ rows.flatMap Row.encode ++ tail).take 84 =
      word magic ++ word header.formatVersion ++ word header.engineMajor ++
        word header.engineMinor ++ word header.enginePatch ++ reserved := by
    rw [Header.encode, List.append_assoc, List.append_assoc]
    exact List.take_left' (by simp [hreserved])
  have hdrop : (header.encode reserved ++ rows.flatMap Row.encode ++ tail).drop 88 =
      rows.flatMap Row.encode ++ tail := by
    rw [List.append_assoc]
    exact List.drop_left' (Header.length_encode hreserved)
  rw [Index.recount, htake, hdrop]
  simp only [Header.encode, List.append_assoc]

/-! ### Failures -/

/-- After an entry that was read, the others follow. -/
theorem decodeEntries_succ_of_ok {index : Nat} {c : Cursor} {entry : Entry}
    (h : ((Entry.decode index).run c).outcome = .ok entry) (count : Nat) :
    ((decodeEntries index (count + 1)).run c).outcome =
        ((decodeEntries (index + 1) count).run
          ((Entry.decode index).run c).cursor).outcome.map (entry :: ·) ∧
      ((decodeEntries index (count + 1)).run c).cursor =
        ((decodeEntries (index + 1) count).run ((Entry.decode index).run c).cursor).cursor := by
  rw [decodeEntries, Decoder.run_bind_of_ok _ h]
  cases hrest : ((decodeEntries (index + 1) count).run
      ((Entry.decode index).run c).cursor).outcome with
  | error e =>
    rw [Decoder.run_bind_of_error _ hrest]
    exact ⟨rfl, rfl⟩
  | ok entries =>
    rw [Decoder.run_bind_of_ok _ hrest]
    exact ⟨rfl, rfl⟩

theorem decodeEntries_succ_of_error {index : Nat} {c : Cursor} {e : IndexError}
    (h : ((Entry.decode index).run c).outcome = .error e) (count : Nat) :
    ((decodeEntries index (count + 1)).run c).outcome = .error e ∧
      ((decodeEntries index (count + 1)).run c).cursor = ((Entry.decode index).run c).cursor := by
  rw [decodeEntries, Decoder.run_bind_of_error _ h]
  exact ⟨rfl, rfl⟩

/-- **Entries fail as the first of them that fails.** All before it were read, and what comes behind
it does not matter. -/
theorem decodeEntries_eq_error_iff {index count : Nat} {c : Cursor} {e : IndexError} :
    ((decodeEntries index count).run c).outcome = .error e ↔
      ∃ k < count, ∃ entries, ((decodeEntries index k).run c).outcome = .ok entries ∧
        ((Entry.decode (index + k)).run ((decodeEntries index k).run c).cursor).outcome =
          .error e := by
  induction count generalizing index c with
  | zero => exact ⟨nofun, fun ⟨_, hk, _⟩ => absurd hk (Nat.not_lt_zero _)⟩
  | succ count ih =>
    cases hentry : ((Entry.decode index).run c).outcome with
    | error e' =>
      rw [(decodeEntries_succ_of_error hentry count).1]
      constructor
      · intro h
        cases h
        exact ⟨0, Nat.succ_pos count, [], rfl, hentry⟩
      · rintro ⟨k, -, entries, hentries, hfails⟩
        cases k with
        | zero =>
          cases hentry.symm.trans hfails
          rfl
        | succ k =>
          rw [(decodeEntries_succ_of_error hentry k).1] at hentries
          cases hentries
    | ok entry =>
      -- one more entry is read in front, and the others are counted from the next place on
      have hshift : ∀ k, index + (k + 1) = index + 1 + k := fun k => by omega
      rw [(decodeEntries_succ_of_ok hentry count).1]
      constructor
      · intro h
        obtain ⟨k, hk, entries, hentries, hfails⟩ := ih.1 (Decoder.map_eq_error_iff.1 h)
        refine ⟨k + 1, Nat.succ_lt_succ hk, entry :: entries, ?_, ?_⟩
        · rw [(decodeEntries_succ_of_ok hentry k).1, hentries]
          rfl
        · rw [hshift, (decodeEntries_succ_of_ok hentry k).2]
          exact hfails
      · rintro ⟨k, hk, entries, hentries, hfails⟩
        cases k with
        | zero => cases hentry.symm.trans hfails
        | succ k =>
          rw [(decodeEntries_succ_of_ok hentry k).1] at hentries
          obtain ⟨entries', hentries', -⟩ := Decoder.map_eq_ok_iff.1 hentries
          rw [hshift, (decodeEntries_succ_of_ok hentry k).2] at hfails
          rw [ih.2 ⟨k, Nat.lt_of_succ_lt_succ hk, entries', hentries', hfails⟩]
          rfl

/-- The table is in order as far as the rows reach, and they do not reach to its end: one more row
is there. -/
structure Reaches (data : Bytes) (header : Header) (rows : List Row) (row : Row) : Prop where
  opens : Opens data header (rows ++ [row])
  inRange : ∀ r ∈ rows, r.entry.InRange
  within : rows.length < header.fileCount.toNat

/-- A table that is reached in part is a whole table with a lower count. -/
theorem Reaches.ofBytes_recount {row : Row} (h : Reaches data header rows row) :
    (ofBytes (recount data (UInt32.ofNat rows.length))).outcome =
      .ok ⟨{ header with fileCount := UInt32.ofNat rows.length }, rows.map Row.entry⟩ := by
  have hopens : Opens data header rows := by
    obtain ⟨reserved, tail, hreserved, rfl⟩ := h.opens
    refine ⟨reserved, row.encode ++ tail, hreserved, ?_⟩
    simp only [List.flatMap_append, List.flatMap_singleton, List.append_assoc]
  refine ofBytes_of_opens (hopens.recount _) ?_ h.inRange
  have hcount := header.fileCount.toNat_lt
  have hwithin := h.within
  rw [UInt32.toNat_ofNat', Nat.mod_eq_of_lt (by omega)]

/-- Entries that are read behind a header are rows, and the next one starts at a multiple of
four. -/
theorem rows_of_decodeEntries {rest : Bytes} {k : Nat} {entries : List Entry}
    (h : ((decodeEntries 0 k).run ⟨0, 88, rest⟩).outcome = .ok entries) :
    ∃ (rows : List Row) (tail : Bytes), rows.length = k ∧ (∀ r ∈ rows, r.entry.InRange) ∧
      rest = rows.flatMap Row.encode ++ tail ∧
      ((decodeEntries 0 k).run ⟨0, 88, rest⟩).cursor = ⟨0, extent rows, tail⟩ := by
  obtain ⟨bytes, tail, rfl, ⟨hcount, hlist⟩, hcursor⟩ := (reads_decodeEntries 0 k).sound h
  obtain ⟨rows, hranges, rfl, rfl⟩ := (Entry.list_format_iff (by decide)).1 hlist
  rw [Row.length_flatMap_encode] at hcursor
  exact ⟨rows, tail, by rw [← hcount, List.length_map], hranges, rfl, hcursor⟩

theorem decodeEntries_of_rows (hranges : ∀ r ∈ rows, r.entry.InRange) (tail : Bytes) :
    ((decodeEntries 0 rows.length).run ⟨0, 88, rows.flatMap Row.encode ++ tail⟩).outcome =
        .ok (rows.map Row.entry) ∧
      ((decodeEntries 0 rows.length).run ⟨0, 88, rows.flatMap Row.encode ++ tail⟩).cursor =
        ⟨0, extent rows, tail⟩ := by
  have hlist : Format.list Entry.format (0 + 88) (rows.map Row.entry)
      (rows.flatMap Row.encode) :=
    (Entry.list_format_iff (by decide)).2 ⟨rows, hranges, rfl, rfl⟩
  obtain ⟨houtcome, hcursor⟩ := (reads_decodeEntries 0 rows.length).complete tail
    ⟨List.length_map _, hlist⟩
  rw [Row.length_flatMap_encode] at hcursor
  exact ⟨houtcome, hcursor⟩

/-- Behind rows, one entry is read exactly if one more row is there. -/
theorem decodeRow_eq_ok_iff {rest : Bytes} {e : Entry} :
    (Entry.decodeRow.run ⟨0, extent rows, rest⟩).outcome = .ok e ↔
      ∃ (row : Row) (tail : Bytes), e = row.entry ∧ rest = row.encode ++ tail := by
  have hdvd : 4 ∣ 0 + extent rows := by
    rw [Nat.zero_add]
    exact Nat.dvd_add (by decide) (Row.four_dvd_sum_extent rows)
  constructor
  · intro h
    obtain ⟨bytes, tail, rfl, hrow, -⟩ := Entry.reads_decodeRow.sound h
    obtain ⟨row, rfl, rfl⟩ := (Entry.rowFormat_iff hdvd).1 hrow
    exact ⟨row, tail, rfl, rfl⟩
  · rintro ⟨row, tail, rfl, rfl⟩
    exact (Entry.reads_decodeRow.complete tail
      ((Entry.rowFormat_iff hdvd).2 ⟨row, rfl, rfl⟩)).1

/-- Behind its header, an index fails only in its entries. -/
theorem decodeTable_eq_error_iff {c : Cursor} {e : IndexError} :
    ((decodeTable header).run c).outcome = .error e ↔
      ((decodeEntries 0 header.fileCount.toNat).run c).outcome = .error e := by
  rw [decodeTable]
  cases hentries : ((decodeEntries 0 header.fileCount.toNat).run c).outcome with
  | error e' => rw [Decoder.run_bind_of_error _ hentries, Except.error.injEq, Except.error.injEq]
  | ok entries =>
    rw [Decoder.run_bind_of_ok _ hentries]
    exact ⟨nofun, nofun⟩

/-- **When the reading of an index ends at a negative range.** The reading has come to a row with
one, and all rows before it are in order. -/
theorem ofBytes_eq_negativeRange_iff {i : Nat} {offset size : Int64} :
    (ofBytes data).outcome = .error (.negativeRange i offset size) ↔
      ∃ header rows row, Reaches data header rows row ∧ rows.length = i ∧
        row.entry.offset = offset.toUInt64 ∧ row.entry.size = size.toUInt64 ∧
        (offset < 0 ∨ size < 0) := by
  change ((Header.decode >>= decodeTable).run ⟨0, 0, data⟩).outcome = _ ↔ _
  constructor
  · intro h
    obtain ⟨hheader, -⟩ | ⟨header, hheader, htable, -⟩ := Decoder.error_of_bind h
    · obtain ⟨⟨found, he⟩, -⟩ | ⟨bounds, he, -⟩ := Header.decode_error hheader
      · cases he
      · cases he
    obtain ⟨_, rest, rfl, ⟨reserved, hreserved, rfl⟩, hcursor⟩ :=
      Header.reads_decode.sound hheader
    rw [hcursor, Header.length_encode hreserved, decodeTable_eq_error_iff,
      decodeEntries_eq_error_iff] at htable
    obtain ⟨k, hk, entries, hentries, hfails⟩ := htable
    obtain ⟨rows, tail, rfl, hranges, rfl, hcursor⟩ := rows_of_decodeEntries hentries
    rw [hcursor, Entry.decode_eq_negativeRange_iff] at hfails
    obtain ⟨rfl, hnegative, e, hrow, hoffset, hsize⟩ := hfails
    obtain ⟨row, tail, rfl, rfl⟩ := decodeRow_eq_ok_iff.1 hrow
    refine ⟨header, rows, row, ⟨⟨reserved, tail, hreserved, ?_⟩, hranges, hk⟩,
      (Nat.zero_add _).symm, hoffset, hsize, hnegative⟩
    simp only [List.flatMap_append, List.flatMap_singleton, List.append_assoc]
  · rintro ⟨header, rows, row, ⟨⟨reserved, tail, hreserved, rfl⟩, hranges, hk⟩, rfl, hoffset,
      hsize, hnegative⟩
    have hreads : Decoder.Reads IndexError.IsTruncation Header.decode 0 0 Header.format :=
      Header.reads_decode
    obtain ⟨hheader, hcursor⟩ := hreads.complete ((rows ++ [row]).flatMap Row.encode ++ tail)
      ⟨reserved, hreserved, rfl⟩
    rw [← List.append_assoc] at hheader hcursor
    rw [Decoder.run_bind_of_ok _ hheader]
    dsimp only
    rw [hcursor, Header.length_encode hreserved, decodeTable_eq_error_iff,
      decodeEntries_eq_error_iff]
    obtain ⟨hentries, hcursor⟩ := decodeEntries_of_rows hranges (row.encode ++ tail)
    simp only [List.flatMap_append, List.flatMap_singleton, List.append_assoc]
    refine ⟨rows.length, hk, _, hentries, ?_⟩
    rw [hcursor, Entry.decode_eq_negativeRange_iff]
    exact ⟨(Nat.zero_add _).symm, hnegative, row.entry,
      decodeRow_eq_ok_iff.2 ⟨row, tail, rfl, rfl⟩, hoffset, hsize⟩

/-- **An index is self-delimiting.** If it can be read, then it has as many entries as its header
says, none of them with a negative number, and it takes exactly the bytes of its header and its
rows: 88, and for each entry 36 and the name rounded up to a multiple of four. Whatever agrees on
those bytes has the same index, and whatever ends before the last of them is refused for ending too
early.

A negative range is reported for the first row that has one, if the header announces that row and
everything up to its end is there. The rows before it would be an index on their own.

The alignment behind an entry is no part of this, because it never skips anything. -/
theorem ofBytes_self_delimiting (data : Bytes) :
    (∀ index, (ofBytes data).outcome = .ok index →
      index.entries.length = index.header.fileCount.toNat ∧
      (∀ e ∈ index.entries, e.offset.toNat < 2 ^ 63 ∧ e.size.toNat < 2 ^ 63) ∧
      ∃ rows : List Row, Opens data index.header rows ∧ index.entries = rows.map Row.entry ∧
        (ofBytes data).cursor = (Cursor.start data).advance (extent rows) ∧
        extent rows ≤ data.length ∧
        (∀ other : Bytes, other.take (extent rows) = data.take (extent rows) →
          (ofBytes other).outcome = .ok index) ∧
        ∀ k < extent rows, ∃ bounds, (ofBytes (data.take k)).outcome = .error (.bounds bounds)) ∧
    (∀ i offset size, (ofBytes data).outcome = .error (.negativeRange i offset size) ↔
      ∃ header rows row, Reaches data header rows row ∧ rows.length = i ∧
        row.entry.offset = offset.toUInt64 ∧ row.entry.size = size.toUInt64 ∧
        (offset < 0 ∨ size < 0)) ∧
    (∀ header rows row, Reaches data header rows row →
      (ofBytes (recount data (UInt32.ofNat rows.length))).outcome =
        .ok ⟨{ header with fileCount := UInt32.ofNat rows.length }, rows.map Row.entry⟩) ∧
    ∀ place, Entry.decode place = Entry.decodeRow >>= Entry.judge place := by
  refine ⟨fun index h => ?_, fun i offset size => ofBytes_eq_negativeRange_iff,
    fun header rows row h => h.ofBytes_recount, Entry.decode_eq⟩
  obtain ⟨rows, hopens, hcount, hranges, hrows, hcursor⟩ := opens_of_ofBytes h
  have hentries : ∀ e ∈ index.entries, e.InRange := by
    rw [hrows]
    exact List.forall_mem_map.2 hranges
  refine ⟨by rw [hrows, List.length_map, hcount], hentries, rows, hopens, hrows, hcursor,
    hopens.extent_le, fun other hother => ?_, fun k hk => ofBytes_take hopens hcount hranges hk⟩
  rw [ofBytes_of_opens (hopens.of_take_eq hother) hcount hranges, ← hrows]

/-- A row with a byte of padding. -/
def paddedRow : Row :=
  ⟨⟨"res://a", 3, 2, List.replicate 16 7⟩, Bytes.ofText "res://a", [0xAA], by decide, by rfl,
    pads_iff.2 rfl, rfl⟩

/-- A row with a negative offset and no name. -/
def negativeRow : Row :=
  ⟨⟨"", 0xFFFFFFFFFFFFFFFF, 5, List.replicate 16 9⟩, [], [], by decide, by rfl, pads_iff.2 rfl,
    rfl⟩

/-- A container with these rows of which the header counts the first `count`. -/
def twoRows (count : UInt32) : Bytes :=
  Header.encode ⟨1, 3, 2, 0, count⟩ (List.replicate 64 0) ++
    [paddedRow, negativeRow].flatMap Row.encode

theorem ofBytes_self_delimiting_twoRows :
    ((ofBytes (twoRows 1)).outcome = .ok ⟨⟨1, 3, 2, 0, 1⟩, [paddedRow.entry]⟩ ∧
      ∃ rows : List Row, [paddedRow.entry] = rows.map Row.entry ∧
        (ofBytes (twoRows 1)).cursor = (Cursor.start (twoRows 1)).advance (extent rows) ∧
        ∀ k < extent rows, ∃ bounds,
          (ofBytes ((twoRows 1).take k)).outcome = .error (.bounds bounds)) ∧
    (ofBytes (twoRows 9)).outcome = .error (.negativeRange 1 (-1) 5) ∧
      ∃ header rows row, Reaches (twoRows 9) header rows row ∧ rows.length = 1 ∧
        row.entry.offset = 0xFFFFFFFFFFFFFFFF ∧
        (ofBytes (recount (twoRows 9) 1)).outcome =
          .ok ⟨{ header with fileCount := 1 }, rows.map Row.entry⟩ := by
  have hwhole : (ofBytes (twoRows 1)).outcome = .ok ⟨⟨1, 3, 2, 0, 1⟩, [paddedRow.entry]⟩ := by rfl
  have hcrooked : (ofBytes (twoRows 9)).outcome = .error (.negativeRange 1 (-1) 5) := by rfl
  obtain ⟨-, -, rows, -, hrows, hcursor, -, -, hcut⟩ :=
    (ofBytes_self_delimiting (twoRows 1)).1 _ hwhole
  obtain ⟨-, hnegative, hrecount, -⟩ := ofBytes_self_delimiting (twoRows 9)
  obtain ⟨header, before, row, hreaches, hlength, hoffset, -⟩ := (hnegative _ _ _).1 hcrooked
  have hwithout := hrecount header before row hreaches
  rw [hlength] at hwithout
  exact ⟨⟨hwhole, rows, hrows, hcursor, hcut⟩, hcrooked, header, before, row, hreaches, hlength,
    hoffset, hwithout⟩

end Index

end AssetPack.Container
