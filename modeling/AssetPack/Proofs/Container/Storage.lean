import AssetPack.Container.Index
import AssetPack.Proofs.Script.ConstantPool

/-!
# How the index of a container is stored

The index as a relation between values and byte strings, written without a decoder, and the proof
that the decoder reads it:

```
header   magic, format version, three parts of the engine version, 64 reserved bytes, count
entries  each a length word, that many bytes of name, padding, offset, size, 16 bytes of digest
```

Padding reaches to the next absolute multiple of four and may hold any bytes. The decoder aligns
once more behind an entry, but there is nothing left to pass over there: what follows the padding
takes 32 bytes. So an entry is read by `Entry.decodeRow` and then judged by its range.

## Main definitions

* `Header.format`, `Entry.format`, `Index.format`
* `Entry.rowFormat`, `Entry.decodeRow`: an entry whatever its range.

## Main results

* `Entry.decode_eq`: the second alignment never skips anything.
* `Header.reads_decode`, `Entry.reads_decode`, `Index.reads_decode`
-/

namespace AssetPack.Container

open LittleEndian (word long)
open Decoder (Reads)
open Script (Pads)

variable {base pos : Nat}

/-- The error says that the container ended too early. -/
def IndexError.IsTruncation (e : IndexError) : Prop := ∃ bounds, e = .bounds bounds

theorem IndexError.reads_bounds {α : Type} {d : Decoder Bounds α} {format : Format α}
    (h : Reads (fun _ => True) d base pos format) :
    Reads IndexError.IsTruncation (Decoder.mapError .bounds d) base pos format :=
  h.mapError fun e _ => ⟨e, rfl⟩

open IndexError (reads_bounds)

/-! ### Header -/

namespace Header

/-- The 88 bytes of a header. -/
def encode (h : Header) (reserved : Bytes) : Bytes :=
  word magic ++ word h.formatVersion ++ word h.engineMajor ++ word h.engineMinor ++
    word h.enginePatch ++ reserved ++ word h.fileCount

/-- A header is its words, with the magic in front and anything in the reserved bytes. -/
def format : Format Header := fun h bytes =>
  ∃ reserved : Bytes, reserved.length = 64 ∧ bytes = h.encode reserved

/-- What follows once the magic was seen. -/
theorem reads_body :
    Reads IndexError.IsTruncation
      (do
        Decoder.mapError .bounds (Decoder.skip 4)
        let formatVersion ← Decoder.mapError .bounds Decoder.readWord
        let engineMajor ← Decoder.mapError .bounds Decoder.readWord
        let engineMinor ← Decoder.mapError .bounds Decoder.readWord
        let enginePatch ← Decoder.mapError .bounds Decoder.readWord
        Decoder.mapError .bounds (Decoder.skip 64)
        let fileCount ← Decoder.mapError .bounds Decoder.readWord
        return (⟨formatVersion, engineMajor, engineMinor, enginePatch, fileCount⟩ : Header))
      base pos fun h bytes => ∃ (first : UInt32) (reserved : Bytes), reserved.length = 64 ∧
        bytes = word first ++ word h.formatVersion ++ word h.engineMajor ++ word h.engineMinor ++
          word h.enginePatch ++ reserved ++ word h.fileCount := by
  refine ((reads_bounds (.skip 4)).bind fun _ _ _ => (reads_bounds .readWord).bind fun v _ _ =>
    (reads_bounds .readWord).bind fun a _ _ => (reads_bounds .readWord).bind fun b _ _ =>
    (reads_bounds .readWord).bind fun c _ _ => (reads_bounds (.skip 64)).bind fun _ _ _ =>
    (reads_bounds .readWord).map fun n => Header.mk v a b c n).congr fun h bytes => ?_
  constructor
  · rintro ⟨-, first, _, hfirst, ⟨v, _, _, rfl, ⟨a, _, _, rfl, ⟨b, _, _, rfl, ⟨c, _, _, rfl,
      ⟨-, reserved, _, hreserved, ⟨n, rfl, rfl⟩, rfl⟩, rfl⟩, rfl⟩, rfl⟩, rfl⟩, rfl⟩
    refine ⟨UInt32.ofNat (LittleEndian.decode first), reserved, hreserved, ?_⟩
    rw [LittleEndian.word_ofNat_decode hfirst]
    simp only [List.append_assoc]
  · rintro ⟨first, reserved, hreserved, rfl⟩
    exact ⟨(), word first, _, LittleEndian.length_word first, ⟨_, _, _, rfl, ⟨_, _, _, rfl,
      ⟨_, _, _, rfl, ⟨_, _, _, rfl, ⟨(), reserved, _, hreserved, ⟨_, rfl, rfl⟩, rfl⟩, rfl⟩, rfl⟩,
      rfl⟩, rfl⟩, by simp only [List.append_assoc]⟩

/-- **A header is read as it is stored.** -/
theorem reads_decode : Reads IndexError.IsTruncation decode base pos format := by
  unfold decode
  rw [Decoder.peekWord_eq_lookahead, Decoder.mapError_lookahead]
  refine (Reads.lookahead_bind (fun found h bytes => found = magic ∧ ∃ (first : UInt32)
    (reserved : Bytes), reserved.length = 64 ∧ bytes = word first ++ word h.formatVersion ++
      word h.engineMajor ++ word h.engineMinor ++ word h.enginePatch ++ reserved ++
      word h.fileCount) (reads_bounds .readWord) (fun found _ _ => ?_) ?_).congr fun h bytes => ?_
  · split
    · next hfound =>
      refine (Reads.fail _).congr fun h bytes => ?_
      simp [show found ≠ magic from hfound]
    · next hfound =>
      refine reads_body.congr fun h bytes => ?_
      simp [show found = magic by simpa using hfound]
  · rintro found probe h bytes rfl ⟨-, first, reserved, -, rfl⟩
    simp only [List.length_append, LittleEndian.length_word]
    omega
  · constructor
    · rintro ⟨found, _, rfl, hprobe, rfl, first, reserved, hreserved, rfl⟩
      have hfirst : word magic = word first := by
        refine (List.prefix_of_prefix_length_le hprobe ?_ ?_).eq_of_length ?_
        · simp only [List.append_assoc]
          exact List.prefix_append _ _
        · simp
        · simp
      exact ⟨reserved, hreserved, by rw [← hfirst]; rfl⟩
    · rintro ⟨reserved, hreserved, rfl⟩
      refine ⟨magic, word magic, rfl, ?_, rfl, magic, reserved, hreserved, rfl⟩
      simp only [encode, List.append_assoc]
      exact List.prefix_append _ _

@[simp] theorem length_encode {h : Header} {reserved : Bytes} (hreserved : reserved.length = 64) :
    (h.encode reserved).length = 88 := by
  simp [encode, hreserved]

end Header

/-! ### Entries -/

namespace Entry

/-- The bytes of an entry with a given stored name and padding. -/
def encode (e : Entry) (name pad : Bytes) : Bytes :=
  LittleEndian.encode 4 name.length ++ name ++ pad ++ long e.offset ++ long e.size ++ e.digest

/-- An entry is its length word, its name, padding, two words that are not negative, and a
digest. -/
def format (position : Nat) : Format Entry := fun e bytes =>
  ∃ name pad : Bytes, name.length < 2 ^ 32 ∧ e.name = Utf8.text name ∧
    Pads (position + 4 + name.length) pad ∧ e.offset.toNat < 2 ^ 63 ∧ e.size.toNat < 2 ^ 63 ∧
    e.digest.length = 16 ∧ bytes = e.encode name pad

/-- Neither number of an entry is negative as a signed word. -/
def InRange (e : Entry) : Prop := e.offset.toNat < 2 ^ 63 ∧ e.size.toNat < 2 ^ 63

/-- An entry as it is stored, whatever its range. -/
def rowFormat (position : Nat) : Format Entry := fun e bytes =>
  ∃ name pad : Bytes, name.length < 2 ^ 32 ∧ e.name = Utf8.text name ∧
    Pads (position + 4 + name.length) pad ∧ e.digest.length = 16 ∧ bytes = e.encode name pad

theorem format_iff {position : Nat} {e : Entry} {bytes : Bytes} :
    format position e bytes ↔ rowFormat position e bytes ∧ e.InRange := by
  constructor
  · rintro ⟨name, pad, hname, htext, hpad, hoffset, hsize, hdigest, hbytes⟩
    exact ⟨⟨name, pad, hname, htext, hpad, hdigest, hbytes⟩, hoffset, hsize⟩
  · rintro ⟨⟨name, pad, hname, htext, hpad, hdigest, hbytes⟩, hoffset, hsize⟩
    exact ⟨name, pad, hname, htext, hpad, hoffset, hsize, hdigest, hbytes⟩

/-- Read an entry whatever its range, aligning behind the name only. -/
def decodeRow : Decoder IndexError Entry := do
  let length ← Decoder.mapError .bounds Decoder.readWord
  let name ← Decoder.mapError .bounds (Decoder.readBytes length.toNat)
  Decoder.mapError .bounds (Decoder.alignTo 4)
  let offset ← Decoder.mapError .bounds Decoder.readLong
  let size ← Decoder.mapError .bounds Decoder.readLong
  let digest ← Decoder.mapError .bounds (Decoder.readBytes 16)
  return ⟨Utf8.text name, offset.toUInt64, size.toUInt64, digest⟩

/-- Refuse an entry with a negative range. -/
def judge (index : Nat) (e : Entry) : Decoder IndexError Entry :=
  if e.offset.toInt64 < 0 ∨ e.size.toInt64 < 0 then
    Decoder.fail (.negativeRange index e.offset.toInt64 e.size.toInt64)
  else
    return e

/-- Where an entry ends at a multiple of four, only the signs are left to look at. -/
theorem run_align_judge (index : Nat) (name digest : Bytes) (offset size : Int64) {c : Cursor}
    (h : 4 ∣ c.position) :
    Decoder.run (do
      Decoder.mapError IndexError.bounds (Decoder.alignTo 4)
      if offset < 0 ∨ size < 0 then Decoder.fail (IndexError.negativeRange index offset size)
        else pure (⟨Utf8.text name, offset.toUInt64, size.toUInt64, digest⟩ : Entry)) c =
      (judge index ⟨Utf8.text name, offset.toUInt64, size.toUInt64, digest⟩).run c := by
  have halign := Decoder.run_mapError IndexError.bounds (Decoder.alignTo 4) c
  rw [Decoder.run_alignTo_of_dvd h] at halign
  rw [Decoder.run_bind_of_ok _ (by rw [halign]; rfl), halign, judge, Int64.toInt64_toUInt64,
    Int64.toInt64_toUInt64]
  rfl

/-- **The alignment behind the digest never skips anything.** Wherever an entry starts, what
follows its padding takes 32 bytes, so an entry is read as if there were one alignment, and judged
afterwards. -/
theorem decode_eq (index : Nat) : decode index = decodeRow >>= judge index := by
  have hlong : ∀ {c : Cursor} {v : Int64}, 4 ∣ c.position →
      ((Decoder.mapError IndexError.bounds Decoder.readLong).run c).outcome = .ok v →
      4 ∣ ((Decoder.mapError IndexError.bounds Decoder.readLong).run c).cursor.position :=
    fun hdvd hok => (reads_bounds .readLong).dvd_position
      (by rintro v _ rfl; rw [LittleEndian.length_long]; omega) hok
  funext c
  change (decode index).run c = (decodeRow >>= judge index).run c
  rw [decode, decodeRow]
  simp only [Decoder.bind_assoc, Decoder.pure_bind]
  refine Decoder.run_bind_congr fun length _ => Decoder.run_bind_congr fun name _ =>
    Decoder.run_bind_congr fun _ halign => ?_
  have hpadded := (reads_bounds Script.reads_alignTo_four).dvd_position
    (fun _ _ hpads => hpads.2) halign
  refine Decoder.run_bind_congr fun offset hoffset => Decoder.run_bind_congr fun size hsize =>
    Decoder.run_bind_congr fun digest hdigest => ?_
  have hdvd := hlong (hlong hpadded hoffset) hsize
  refine run_align_judge index name digest offset size
    ((reads_bounds (.readBytes 16)).dvd_position ?_ hdigest)
  rintro bytes _ ⟨rfl, hlength⟩
  rw [hlength]
  omega

/-- **An entry is read as it is stored**, whatever its range. -/
theorem reads_decodeRow :
    Reads IndexError.IsTruncation decodeRow base pos (rowFormat (base + pos)) := by
  unfold decodeRow
  refine ((reads_bounds .readWord).bind fun length _ _ =>
    (reads_bounds (.readBytes length.toNat)).bind fun name _ _ =>
    (reads_bounds Script.reads_alignTo_four).bind fun _ _ _ =>
    (reads_bounds .readLong).bind fun offset _ _ => (reads_bounds .readLong).bind fun size _ _ =>
    (reads_bounds (.readBytes 16)).map fun digest =>
      Entry.mk (Utf8.text name) offset.toUInt64 size.toUInt64 digest).congr fun e bytes => ?_
  constructor
  · rintro ⟨length, _, _, rfl, ⟨_, name, _, ⟨rfl, hname⟩, ⟨-, pad, _, hpad, ⟨offset, _, _, rfl,
      ⟨size, _, _, rfl, ⟨digest, ⟨rfl, hdigest⟩, rfl⟩, rfl⟩, rfl⟩, rfl⟩, rfl⟩, rfl⟩
    simp only [LittleEndian.length_word, ← Nat.add_assoc] at hpad
    refine ⟨name, pad, hname ▸ length.toNat_lt, rfl, hpad, hdigest, ?_⟩
    simp only [encode, hname, word, List.append_assoc]
  · rintro ⟨name, pad, hname, htext, hpad, hdigest, rfl⟩
    have hlength : (UInt32.ofNat name.length).toNat = name.length := by
      rw [UInt32.toNat_ofNat', Nat.mod_eq_of_lt hname]
    refine ⟨UInt32.ofNat name.length, _, _, rfl, ⟨name, _, _, ⟨rfl, hlength.symm⟩, ⟨(), pad, _, ?_,
      ⟨e.offset.toInt64, _, _, rfl, ⟨e.size.toInt64, _, _, rfl, ⟨e.digest, ⟨rfl, hdigest⟩, ?_⟩,
      rfl⟩, rfl⟩, rfl⟩, rfl⟩, ?_⟩
    · simpa only [LittleEndian.length_word, ← Nat.add_assoc] using hpad
    · simp only [UInt64.toUInt64_toInt64, ← htext]
    · simp only [encode, word, hlength, UInt64.toUInt64_toInt64, List.append_assoc]

theorem inRange_iff (e : Entry) : e.InRange ↔ ¬ (e.offset.toInt64 < 0 ∨ e.size.toInt64 < 0) := by
  rw [InRange, LittleEndian.lt_zero_iff_toUInt64, LittleEndian.lt_zero_iff_toUInt64,
    UInt64.toUInt64_toInt64, UInt64.toUInt64_toInt64]
  omega

theorem reads_judge (index : Nat) (e : Entry) :
    Reads IndexError.IsTruncation (judge index e) base pos
      fun a bytes => e.InRange ∧ a = e ∧ bytes = [] := by
  rw [judge, inRange_iff]
  split
  · next hnegative => exact (Reads.fail _).congr fun a bytes => by simp [hnegative]
  · next hnegative => exact (Reads.pure e).congr fun a bytes => by simp [Format.empty, hnegative]

/-- **An entry is read as it is stored**, unless its range is negative. -/
theorem reads_decode (index : Nat) :
    Reads IndexError.IsTruncation (decode index) base pos (format (base + pos)) := by
  rw [decode_eq]
  refine (reads_decodeRow.bind fun e _ _ => reads_judge index e).congr fun e bytes => ?_
  rw [format_iff]
  constructor
  · rintro ⟨_, front, _, hrow, ⟨hrange, rfl, rfl⟩, rfl⟩
    exact ⟨by rwa [List.append_nil], hrange⟩
  · rintro ⟨hrow, hrange⟩
    exact ⟨e, bytes, [], hrow, ⟨hrange, rfl, rfl⟩, (List.append_nil bytes).symm⟩

end Entry

/-! ### The index -/

namespace Index

/-- Entries are read one after another, whatever places they are given in messages. -/
theorem reads_decodeEntries (index count : Nat) :
    Reads IndexError.IsTruncation (decodeEntries index count) base pos fun entries bytes =>
      entries.length = count ∧ Format.list Entry.format (base + pos) entries bytes := by
  induction count generalizing index pos with
  | zero =>
    refine (Reads.pure []).congr fun entries bytes => ?_
    cases entries <;> simp [Format.empty, Format.list]
  | succ count ih =>
    refine ((Entry.reads_decode index).bind fun entry front _ =>
      (@ih (pos + front.length) (index + 1)).map (entry :: ·)).congr fun entries bytes => ?_
    constructor
    · rintro ⟨entry, front, back, hfront, ⟨rest, ⟨hlength, hrest⟩, rfl⟩, rfl⟩
      refine ⟨by simp [hlength], front, back, hfront, ?_, rfl⟩
      simpa [Nat.add_assoc] using hrest
    · rintro ⟨hlength, hlist⟩
      cases entries with
      | nil => simp at hlength
      | cons entry rest =>
        obtain ⟨front, back, hfront, hrest, rfl⟩ := hlist
        refine ⟨entry, front, back, hfront, ⟨rest, ⟨by simpa using hlength, ?_⟩, rfl⟩, rfl⟩
        simpa [Nat.add_assoc] using hrest

/-- An index is a header and as many entries as it says. -/
def format (position : Nat) : Format Index := fun index bytes =>
  ∃ front back, Header.format index.header front ∧
    index.entries.length = index.header.fileCount.toNat ∧
    Format.list Entry.format (position + front.length) index.entries back ∧ bytes = front ++ back

/-- **An index is read as it is stored.** -/
theorem reads_decode :
    Reads IndexError.IsTruncation decode base pos (format (base + pos)) := by
  unfold decode
  refine (Header.reads_decode.bind fun header _ _ =>
    (reads_decodeEntries 0 header.fileCount.toNat).bind fun entries _ _ =>
      .here_bind fun _ => .note_bind (.pure (Index.mk header entries))).congr fun index bytes => ?_
  constructor
  · rintro ⟨header, front, _, hheader, ⟨entries, back, _, ⟨hlength, hlist⟩, ⟨rfl, rfl⟩, rfl⟩, rfl⟩
    refine ⟨front, back, hheader, hlength, ?_, by simp⟩
    rwa [Nat.add_assoc]
  · rintro ⟨front, back, hheader, hlength, hlist, rfl⟩
    refine ⟨index.header, front, _, hheader, ⟨index.entries, back, [], ⟨hlength, ?_⟩, ⟨rfl, rfl⟩,
      rfl⟩, by simp⟩
    rwa [← Nat.add_assoc]

end Index

end AssetPack.Container
