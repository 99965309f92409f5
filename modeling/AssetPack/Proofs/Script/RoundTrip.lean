import AssetPack.Proofs.Script.Record
import AssetPack.Proofs.Text.Utf8

/-!
# Writing a record and reading it back

A `Draft` holds what a record is written from, and `Draft.encode` writes it. The writer makes the
two choices that the format leaves open: padding is zero, and each identifier comes with the number
of NULs to put behind it. Reading what was written gives the draft back, with the line map that its
pairs describe.

Where a draft is written matters, because padding is absolute. `Draft.WellFormed` therefore takes
the position too: a node path is in its layout at one position and may not be at another.

## Main results

* `Draft.format_encode`: what is written is in the format.
* `Draft.decode_encode_append`: the round trip, whatever follows the record.
-/

namespace AssetPack.Script

open LittleEndian (word)

/-- The stored form of an identifier with `nuls` NULs behind it. -/
def Identifier.encode (name : String) (nuls : Nat) : Bytes :=
  Identifier.mask (Bytes.ofText name ++ List.replicate nuls 0)

@[simp] theorem Identifier.length_encode (name : String) (nuls : Nat) :
    (Identifier.encode name nuls).length = (Bytes.ofText name).length + nuls := by
  simp [Identifier.encode, Identifier.mask]

theorem Identifier.unmask_encode {name : String}
    (h : name.toList.getLast? ≠ some (Char.ofNat 0)) (nuls : Nat) :
    Identifier.unmask (Identifier.encode name nuls) = name := by
  rw [Identifier.unmask, Identifier.encode, Identifier.mask_mask, Utf8.text_ofText_nuls h]

/-- Zeros up to the next multiple of four. -/
def zerosTo4 (position : Nat) : Bytes := List.replicate ((4 - position % 4) % 4) 0

theorem pads_zerosTo4 (position : Nat) : Pads position (zerosTo4 position) := by
  rw [pads_iff, zerosTo4, List.length_replicate]

namespace Constant

/-- The bytes of a constant: tag word, payload, and zeros behind a string. -/
def encode (position : Nat) (c : Constant) : Bytes :=
  word (ValueKind.tag c.kind c.wide) ++ c.payload ++
    if c.kind = .string then zerosTo4 (position + 4 + c.payload.length) else []

/-- The bytes of constants in a row. -/
def encodeAll : Nat → List Constant → Bytes
  | _, [] => []
  | position, c :: rest =>
    c.encode position ++ encodeAll (position + (c.encode position).length) rest

/-- Every payload is in the layout of its kind where it is written. -/
def AllLaidOut : Nat → List Constant → Prop
  | _, [] => True
  | position, c :: rest =>
    c.kind.layout.Holds c.wide (position + 4) c.payload ∧
      AllLaidOut (position + (c.encode position).length) rest

theorem format_encode {position : Nat} {c : Constant}
    (h : c.kind.layout.Holds c.wide (position + 4) c.payload) :
    format position c (c.encode position) := by
  refine ⟨_, h, ?_, rfl⟩
  rw [PadsBehind]
  split
  · exact pads_zerosTo4 _
  · rfl

theorem list_format_encodeAll {position : Nat} {constants : List Constant}
    (h : AllLaidOut position constants) :
    Format.list format position constants (encodeAll position constants) := by
  induction constants generalizing position with
  | nil => rfl
  | cons c rest ih =>
    obtain ⟨hc, hrest⟩ := h
    exact ⟨_, _, format_encode hc, ih hrest, rfl⟩

end Constant

/-- What a record is written from. -/
structure Draft where
  /-- The version of the bytecode. -/
  version : UInt32
  /-- The identifiers, each with the number of NULs to store behind it. -/
  identifiers : List (String × Nat)
  /-- The constants. -/
  constants : List Constant
  /-- The pairs of the line map, in any order and with any repetition. -/
  pairs : List (Int32 × UInt32)
  /-- The tokens. -/
  tokens : List Token
  deriving DecidableEq, Repr

namespace Draft

/-- The header of a draft. -/
def header (d : Draft) : Header :=
  ⟨signature, d.version, UInt32.ofNat d.identifiers.length, UInt32.ofNat d.constants.length,
    UInt32.ofNat d.pairs.length, UInt32.ofNat d.tokens.length⟩

/-- The identifiers of a draft in their stored form. -/
def stored (d : Draft) : List Bytes :=
  d.identifiers.map fun entry => Identifier.encode entry.1 entry.2

/-- Where the constants of a draft start if the draft is written at `position`. -/
def poolPosition (d : Draft) (position : Nat) : Nat :=
  position + Header.size + (d.stored.flatMap Identifier.frame).length

/-- The bytes of a draft that is written at `position`. -/
def encode (d : Draft) (position : Nat) : Bytes :=
  d.header.encode ++ d.stored.flatMap Identifier.frame ++
    Constant.encodeAll (d.poolPosition position) d.constants ++
    d.pairs.flatMap LineMap.encodePair ++ d.tokens.flatMap Token.encode

/-- A draft that the format can hold at `position`. -/
structure WellFormed (d : Draft) (position : Nat) : Prop where
  /-- A name that ended in a NUL would lose it. -/
  names : ∀ entry ∈ d.identifiers, entry.1.toList.getLast? ≠ some (Char.ofNat 0)
  nameLength : ∀ entry ∈ d.identifiers, (Bytes.ofText entry.1).length + entry.2 < 2 ^ 32
  constants : Constant.AllLaidOut (d.poolPosition position) d.constants
  tokens : ∀ t ∈ d.tokens, t.isWide = true ∨ t.word < 0x80
  identifierCount : d.identifiers.length < 2 ^ 32
  constantCount : d.constants.length < 2 ^ 32
  pairCount : d.pairs.length < 2 ^ 32
  tokenCount : d.tokens.length < 2 ^ 32

/-- The record of a draft, with a given line map. -/
def record (d : Draft) (position : Nat) (map : LineMap) : Record :=
  ⟨d.header, d.identifiers.map Prod.fst, d.constants, map, d.tokens, (d.encode position).length⟩

theorem map_unmask_stored {d : Draft} {position : Nat} (h : d.WellFormed position) :
    d.stored.map Identifier.unmask = d.identifiers.map Prod.fst := by
  rw [stored, List.map_map]
  refine List.map_congr_left fun entry hentry => ?_
  exact Identifier.unmask_encode (h.names entry hentry) entry.2

/-- What is written is in the format. -/
theorem format_encode {d : Draft} {position : Nat} (h : d.WellFormed position) {map : LineMap}
    (hmap : LineMap.LastWins d.pairs map) :
    Record.format position (d.record position map) (d.encode position) := by
  have hcount : ∀ {n : Nat}, n < 2 ^ 32 → n = (UInt32.ofNat n).toNat := by
    intro n hn
    rw [UInt32.toNat_ofNat', Nat.mod_eq_of_lt hn]
  refine ⟨d.stored, Constant.encodeAll (d.poolPosition position) d.constants, d.pairs, ?_, rfl, rfl⟩
  refine ⟨rfl, ?_, ?_, (map_unmask_stored h).symm, hcount h.constantCount,
    Constant.list_format_encodeAll h.constants, hcount h.pairCount, hmap, hcount h.tokenCount,
    h.tokens⟩
  · rw [stored, List.length_map]
    exact hcount h.identifierCount
  · intro s hs
    obtain ⟨entry, hentry, rfl⟩ := List.mem_map.mp hs
    rw [Identifier.length_encode]
    exact h.nameLength entry hentry

/-- **Round trip.** A draft that is written and read back gives its header, names, constants and
tokens, and the map in which the last pair of each token wins. The cursor ends behind the record,
whatever follows it. -/
theorem decode_encode_append {d : Draft} {base pos : Nat} (h : d.WellFormed (base + pos))
    (rest : Bytes) :
    ∃ map, LineMap.LastWins d.pairs map ∧
      (Record.decode.run ⟨base, pos, d.encode (base + pos) ++ rest⟩).outcome =
        .ok (d.record (base + pos) map) ∧
      (Record.decode.run ⟨base, pos, d.encode (base + pos) ++ rest⟩).cursor =
        ⟨base, pos + (d.encode (base + pos)).length, rest⟩ := by
  have hmap : LineMap.LastWins d.pairs (LineMap.insertAll [] d.pairs) :=
    LineMap.lastWins_iff.mpr rfl
  obtain ⟨houtcome, hcursor⟩ := Record.reads_decode.complete rest (format_encode h hmap)
  exact ⟨_, hmap, houtcome, hcursor⟩

/-- A draft whose string stands behind an array that ends at an odd position, and whose node path
has a padded name. -/
def paddedDraft : Draft :=
  ⟨13, [("speed", 3), ("é", 0)],
    [⟨.poolByteArray, true, [1, 0, 0, 0, 9]⟩, ⟨.string, false, [3, 0, 0, 0, 0x68, 0x69, 0x21]⟩,
      ⟨.nodePath, false, [1, 0, 0, 0x80, 0, 0, 0, 0, 7, 0, 0, 0, 2, 0, 0, 0, 0x61, 0x62, 0, 0]⟩],
    [(4, 1), (-1, 5), (4, 2)], [⟨0x17⟩, ⟨0x181⟩]⟩

theorem wellFormed_paddedDraft : paddedDraft.WellFormed 3 where
  names := by decide
  nameLength := by decide
  constants :=
    ⟨⟨1, [9], rfl, rfl⟩, ⟨3, [0x68, 0x69, 0x21], rfl, rfl⟩,
      ⟨0x80000001, 0, 7, [2, 0, 0, 0, 0x61, 0x62, 0, 0],
        @PaddedStrings.cons _ _ _ [] (.mk 2 [0x61, 0x62] [0, 0] rfl ⟨by decide, by decide⟩)
          (.nil _), rfl⟩,
      trivial⟩
  tokens := by decide
  identifierCount := by decide
  constantCount := by decide
  pairCount := by decide
  tokenCount := by decide

theorem decode_encode_append_paddedDraft :
    paddedDraft.WellFormed (1 + 2) ∧ ∃ map, LineMap.LastWins paddedDraft.pairs map ∧
      (Record.decode.run ⟨1, 2, paddedDraft.encode (1 + 2) ++ [0xFF]⟩).outcome =
        .ok (paddedDraft.record (1 + 2) map) ∧
      (Record.decode.run ⟨1, 2, paddedDraft.encode (1 + 2) ++ [0xFF]⟩).cursor =
        ⟨1, 2 + (paddedDraft.encode (1 + 2)).length, [0xFF]⟩ :=
  ⟨wellFormed_paddedDraft, decode_encode_append wellFormed_paddedDraft [0xFF]⟩

end Draft

end AssetPack.Script
