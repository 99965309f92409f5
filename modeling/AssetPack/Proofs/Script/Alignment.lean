import AssetPack.Proofs.Script.PayloadLength

/-!
# Where constants end

Strings are padded to absolute multiples of four, and nothing else is. So a constant that ends with
a string ends at a multiple of four, wherever it started: a string constant always does, and a node
path does if it has a string. A node path without strings is four words and ends as far from a
multiple of four as it started.

That it may start off a multiple is not far-fetched. An array of bytes is not padded, so the
constant behind it starts wherever the bytes happen to end.

## Main results

* `PaddedStrings.aligned_iff`: where strings in a row end.
* `Constant.decode_aligned_iff`: where a constant that has strings ends.
* `Constant.decode_unaligned`: a node path without strings, behind an array of one byte.
-/

namespace AssetPack.Script

open LittleEndian (word)
open Header (wordAt)

theorem PaddedString.aligned {position : Nat} {bytes : Bytes} (h : PaddedString position bytes) :
    4 ∣ position + bytes.length := by
  obtain ⟨length, text, pad, -, -, hdvd⟩ := h
  simp only [List.length_append, LittleEndian.length_word]
  omega

/-- **Strings in a row end at a multiple of four**, unless there are none. -/
theorem PaddedStrings.aligned_iff {position count : Nat} {bytes : Bytes}
    (h : PaddedStrings position count bytes) :
    4 ∣ position + bytes.length ↔ 4 ∣ position ∨ 0 < count := by
  induction h with
  | nil position => simp
  | @cons position count front back head tail ih =>
    -- the first string already is aligned, so the others start where they should
    have hback := ih.mpr (.inl head.aligned)
    rw [Nat.add_assoc, ← List.length_append] at hback
    exact ⟨fun _ => .inr (Nat.succ_pos count), fun _ => hback⟩

namespace Constant

/-- How many strings the payload of a node path says it has. The top bit of the first count is no
part of the number. -/
def stringCount (payload : Bytes) : Nat :=
  (wordAt payload 0).toNat % 2 ^ 31 + (wordAt payload 1).toNat

/-- A string constant ends at a multiple of four. -/
theorem aligned_of_format_string {position : Nat} {k : Constant} {bytes : Bytes}
    (h : format position k bytes) (hkind : k.kind = .string) : 4 ∣ position + bytes.length := by
  obtain ⟨pad, -, hpad, rfl⟩ := h
  rw [PadsBehind, if_pos hkind] at hpad
  obtain ⟨-, hdvd⟩ := hpad
  simp only [List.length_append, LittleEndian.length_word]
  omega

/-- A node path ends at a multiple of four if it starts at one or has a string. -/
theorem aligned_iff_of_format_nodePath {position : Nat} {k : Constant} {bytes : Bytes}
    (h : format position k bytes) (hkind : k.kind = .nodePath) :
    4 ∣ position + bytes.length ↔ 4 ∣ position ∨ 0 < stringCount k.payload := by
  obtain ⟨pad, hholds, hpad, rfl⟩ := h
  rw [PadsBehind, hkind, if_neg (by decide)] at hpad
  rw [hkind] at hholds
  obtain ⟨names, subnames, flags, strings, hstrings, hpayload⟩ := hholds
  have hcount : stringCount k.payload = (names &&& 0x7FFFFFFF).toNat + subnames.toNat := by
    simp only [stringCount, hpayload, List.append_assoc, Header.wordAt_zero, Header.wordAt_succ,
      ValueKind.toNat_and_low]
  have haligned := hstrings.aligned_iff
  rw [hcount, hpad, hpayload]
  simp only [List.length_append, LittleEndian.length_word, List.length_nil]
  -- the tag word and the three words in front of the strings are a multiple of four
  omega

/-- **Where constants with strings end.** Behind a string constant the cursor is at an absolute
multiple of four. Behind a node path it is there exactly if it was at one before, or if the node
path has a string. -/
theorem decode_aligned_iff {c : Cursor} {k : Constant} (h : (decode.run c).outcome = .ok k) :
    (k.kind = .string → 4 ∣ (decode.run c).cursor.position) ∧
      (k.kind = .nodePath →
        (4 ∣ (decode.run c).cursor.position ↔ 4 ∣ c.position ∨ 0 < stringCount k.payload)) := by
  obtain ⟨base, pos, rest⟩ := c
  obtain ⟨bytes, tail, -, hformat, hcursor⟩ := reads_decode.sound h
  have hposition : (decode.run ⟨base, pos, rest⟩).cursor.position = base + pos + bytes.length := by
    rw [hcursor, Cursor.position, Nat.add_assoc]
  rw [hposition]
  exact ⟨aligned_of_format_string hformat, aligned_iff_of_format_nodePath hformat⟩

/-- An array of one byte, a node path without strings, and three bytes more. -/
def unalignedPath : Bytes :=
  word (ValueKind.tag .poolByteArray false) ++ [1, 0, 0, 0, 7] ++
    word (ValueKind.tag .nodePath false) ++ List.replicate 12 0 ++ [0, 0, 0]

/-- The cursor behind the array of `unalignedPath`. -/
def unalignedCursor : Cursor := (decode.run (Cursor.start unalignedPath)).cursor

theorem decode_unalignedCursor :
    (decode.run unalignedCursor).outcome = .ok ⟨.nodePath, false, List.replicate 12 0⟩ := by rfl

theorem decode_aligned_iff_namedPath :
    ((decode.run (Cursor.start namedPath 3)).outcome =
        .ok ⟨.nodePath, true, namedPath.drop 4⟩ ∧
      ¬ 4 ∣ (Cursor.start namedPath 3).position ∧
      4 ∣ (decode.run (Cursor.start namedPath 3)).cursor.position) ∧
    ¬ 4 ∣ (decode.run unalignedCursor).cursor.position := by
  have hok : (decode.run (Cursor.start namedPath 3)).outcome =
      .ok ⟨.nodePath, true, namedPath.drop 4⟩ := by rfl
  refine ⟨⟨hok, by decide, ?_⟩, ?_⟩
  · exact ((decode_aligned_iff hok).2 rfl).mpr (.inr (by decide))
  · rw [(decode_aligned_iff decode_unalignedCursor).2 rfl]
    decide

/-- Not every constant with strings leaves the cursor at a multiple of four: a node path without
strings that starts off one does not. -/
theorem decode_unaligned :
    ¬ ∀ (c : Cursor) (k : Constant), (decode.run c).outcome = .ok k →
      k.kind = .string ∨ k.kind = .nodePath → 4 ∣ (decode.run c).cursor.position := by
  intro h
  have hposition := h unalignedCursor _ decode_unalignedCursor (.inr rfl)
  rw [show (decode.run unalignedCursor).cursor.position = 25 from rfl] at hposition
  revert hposition
  decide

end Constant

end AssetPack.Script
