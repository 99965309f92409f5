import AssetPack.Proofs.Container.Storage
import AssetPack.Proofs.Path
import AssetPack.Proofs.Range
import AssetPack.Proofs.Script.RoundTrip

/-!
# Writing a container and reading its index back

A `Draft` holds what a container is written from: the words of its header and the assets.
`Draft.encode` writes the header, the table and the data of the assets back to back, so the offset
of an asset depends on the length of the whole table and on all assets before it. That is
`Draft.placement`, and both the table and the entries are made from it.

## Main definitions

* `Asset`, `Draft`: what a container is written from.
* `Draft.WellFormed`: what the format and a file tree can hold.

## Main results

* `Draft.WellFormed.ofBytes_encode`: the index that is read has an entry for each asset.
* `Draft.WellFormed.range_encode`: each entry leads to the data of its asset.
* `Asset.WellNamed.relativePath_entry`: and to the path of its asset.
-/

namespace AssetPack.Container

open Script (zerosTo4 Pads pads_iff)

/-- A file that is put in a container. -/
structure Asset where
  /-- Whether the root marker stands in front of the path. -/
  marked : Bool
  /-- The segments of the path. -/
  names : List String
  /-- The content. -/
  data : Bytes
  deriving DecidableEq, Repr

/-- A name that a file or a directory can have. -/
structure IsSegment (s : String) : Prop where
  nonempty : s ≠ ""
  not_dots : ¬ (s = "." ∨ s = "..")
  plain : '/' ∉ s.toList
  no_nul : Char.ofNat 0 ∉ s.toList
  short : s.utf8ByteSize ≤ 255

instance (s : String) : Decidable (IsSegment s) :=
  decidable_of_iff (s ≠ "" ∧ ¬ (s = "." ∨ s = "..") ∧ '/' ∉ s.toList ∧ Char.ofNat 0 ∉ s.toList ∧
      s.utf8ByteSize ≤ 255)
    ⟨fun ⟨h₁, h₂, h₃, h₄, h₅⟩ => ⟨h₁, h₂, h₃, h₄, h₅⟩,
      fun h => ⟨h.nonempty, h.not_dots, h.plain, h.no_nul, h.short⟩⟩

namespace Asset

/-- The path of an asset. -/
def path (a : Asset) : String := Path.ofSegments a.names

/-- The name under which an asset is stored. -/
def name (a : Asset) : String := if a.marked then Entry.rootMarker ++ a.path else a.path

/-- The entry of an asset whose data is at a given offset. -/
def entry (a : Asset) (offset : Nat) : Entry :=
  ⟨a.name, UInt64.ofNat offset, UInt64.ofNat a.data.length, Md5.digest a.data⟩

/-- The bytes of this entry: NULs fill the name up to a multiple of four. -/
def row (a : Asset) (offset : Nat) : Bytes :=
  (a.entry offset).encode (Bytes.ofText a.name) (zerosTo4 (Bytes.ofText a.name).length)

/-- An asset with a path that a file can have. -/
def WellNamed (a : Asset) : Prop := a.names ≠ [] ∧ ∀ s ∈ a.names, IsSegment s

instance (a : Asset) : Decidable a.WellNamed :=
  inferInstanceAs (Decidable (a.names ≠ [] ∧ ∀ s ∈ a.names, IsSegment s))

/-- Neither path is the other or leads through it. -/
def Separate (a b : Asset) : Prop := ¬ a.names <+: b.names ∧ ¬ b.names <+: a.names

instance (a b : Asset) : Decidable (a.Separate b) :=
  inferInstanceAs (Decidable (¬ a.names <+: b.names ∧ ¬ b.names <+: a.names))

end Asset

/-- What a container is written from. -/
structure Draft where
  /-- Version of the container format. -/
  formatVersion : UInt32
  /-- First part of the engine version. -/
  engineMajor : UInt32
  /-- Second part of the engine version. -/
  engineMinor : UInt32
  /-- Third part of the engine version. -/
  enginePatch : UInt32
  /-- The reserved bytes of the header. -/
  reserved : Bytes
  /-- The files. -/
  assets : List Asset
  deriving DecidableEq, Repr

/-- Assets whose data is back to back, each with its offset. -/
def placed : Nat → List Asset → List (Nat × Asset)
  | _, [] => []
  | offset, a :: rest => (offset, a) :: placed (offset + a.data.length) rest

namespace Draft

/-- The header of a draft. -/
def header (d : Draft) : Header :=
  ⟨d.formatVersion, d.engineMajor, d.engineMinor, d.enginePatch, UInt32.ofNat d.assets.length⟩

/-- Where the data starts, behind the header and the table. -/
def dataStart (d : Draft) : Nat := 88 + (d.assets.map fun a => (a.row 0).length).sum

/-- The assets of a draft with their offsets. -/
def placement (d : Draft) : List (Nat × Asset) := placed d.dataStart d.assets

/-- The entries of a draft. -/
def entries (d : Draft) : List Entry := d.placement.map fun p => p.2.entry p.1

/-- The table of a draft. -/
def table (d : Draft) : Bytes := d.placement.flatMap fun p => p.2.row p.1

/-- The bytes of a draft. -/
def encode (d : Draft) : Bytes :=
  d.header.encode d.reserved ++ d.table ++ d.assets.flatMap Asset.data

/-- A draft that the format can hold, and whose files can be in one directory: no path is another
one or leads through it. -/
structure WellFormed (d : Draft) : Prop where
  reserved : d.reserved.length = 64
  count : d.assets.length < 2 ^ 32
  names : ∀ a ∈ d.assets, a.WellNamed
  nameLength : ∀ a ∈ d.assets, (Bytes.ofText a.name).length < 2 ^ 32
  fits : ∀ p ∈ d.placement, p.1 < 2 ^ 63 ∧ p.2.data.length < 2 ^ 63
  separate : d.assets.Pairwise Asset.Separate

end Draft

/-! ### Names -/

namespace Asset

variable {a : Asset}

theorem WellNamed.segments_path (h : a.WellNamed) : Path.segments a.path = a.names :=
  Path.segments_ofSegments h.1 fun s hs => (h.2 s hs).plain

theorem WellNamed.nul_not_mem_path (h : a.WellNamed) : Char.ofNat 0 ∉ a.path.toList := by
  intro hmem
  rcases Path.mem_ofSegments hmem with hslash | ⟨s, hs, hnul⟩
  · exact absurd hslash (by decide)
  · exact (h.2 s hs).no_nul hnul

theorem WellNamed.nul_not_mem_name (h : a.WellNamed) : Char.ofNat 0 ∉ a.name.toList := by
  rw [name]
  split
  · rw [String.toList_append, List.mem_append, not_or]
    exact ⟨by decide, h.nul_not_mem_path⟩
  · exact h.nul_not_mem_path

/-- No path shows the root marker, because that has an empty segment in it. -/
theorem WellNamed.not_isPrefixOf_path (h : a.WellNamed) :
    Entry.rootMarker.toList.isPrefixOf a.path.toList = false := by
  rw [Bool.eq_false_iff, Ne, List.isPrefixOf_iff_prefix]
  rintro ⟨rest, hrest⟩
  have hpath : a.path = "res:" ++ "/" ++ "" ++ "/" ++ String.ofList rest :=
    String.toList_inj.1 (by rw [← hrest]; simp [Entry.rootMarker])
  have hsegments := h.segments_path
  rw [hpath, Path.segments_append_slash, Path.segments_append_slash, Path.segments_empty]
    at hsegments
  exact (h.2 "" (by simp [← hsegments])).nonempty rfl

/-- **The name without the marker is the path.** -/
theorem WellNamed.relativePath_entry (h : a.WellNamed) (offset : Nat) :
    (a.entry offset).relativePath = a.path := by
  have hname : Entry.afterMarker Entry.rootMarker.toList a.name.toList = a.path.toList := by
    rw [Entry.afterMarker, name]
    cases a.marked with
    | true => simp [List.isPrefixOf_iff_prefix]
    | false =>
      rw [if_neg Bool.false_ne_true, h.not_isPrefixOf_path]
      rfl
  rw [Entry.relativePath]
  show String.ofList (Entry.afterMarker Entry.rootMarker.toList a.name.toList) = a.path
  rw [hname, String.ofList_toList]

/-! ### Rows -/

theorem length_digest (message : Bytes) : (Md5.digest message).length = 16 := by
  simp only [Md5.digest, List.length_append, LittleEndian.length_word]

/-- Where the data of an asset is makes no difference to the length of its row. -/
theorem length_row (a : Asset) (offset : Nat) :
    (a.row offset).length =
      (Bytes.ofText a.name).length + (zerosTo4 (Bytes.ofText a.name).length).length + 36 := by
  have hdigest : (a.entry offset).digest.length = 16 := length_digest a.data
  simp only [row, Entry.encode, List.length_append, LittleEndian.length_encode,
    LittleEndian.length_long, hdigest]
  omega

theorem four_dvd_length_row (a : Asset) (offset : Nat) : 4 ∣ (a.row offset).length := by
  rw [length_row, zerosTo4, List.length_replicate]
  omega

theorem length_row_le (a : Asset) (offset : Nat) :
    (a.row offset).length ≤ (Bytes.ofText a.name).length + 39 := by
  rw [length_row, zerosTo4, List.length_replicate]
  omega

/-- A row that starts at a multiple of four is in the format of entries. -/
theorem WellNamed.format_row (h : a.WellNamed) {position offset : Nat} (hposition : 4 ∣ position)
    (hname : (Bytes.ofText a.name).length < 2 ^ 32) (hoffset : offset < 2 ^ 63)
    (hsize : a.data.length < 2 ^ 63) : Entry.format position (a.entry offset) (a.row offset) := by
  have hlong : ∀ {n : Nat}, n < 2 ^ 63 → (UInt64.ofNat n).toNat < 2 ^ 63 := by
    intro n hn
    rw [UInt64.toNat_ofNat', Nat.mod_eq_of_lt (by omega)]
    exact hn
  have htext := Utf8.text_ofText_nuls (s := a.name)
    (fun hlast => h.nul_not_mem_name (List.mem_of_getLast? hlast)) 0
  rw [List.replicate_zero, List.append_nil] at htext
  refine ⟨Bytes.ofText a.name, zerosTo4 (Bytes.ofText a.name).length, hname, htext.symm, ?_,
    hlong hoffset, hlong hsize, length_digest a.data, rfl⟩
  rw [pads_iff, zerosTo4, List.length_replicate]
  omega

end Asset

/-! ### The table -/

theorem map_snd_placed (start : Nat) (assets : List Asset) :
    (placed start assets).map Prod.snd = assets := by
  induction assets generalizing start with
  | nil => rfl
  | cons a rest ih => rw [placed, List.map_cons, ih]

theorem length_placed (start : Nat) (assets : List Asset) :
    (placed start assets).length = assets.length := by
  rw [← List.length_map Prod.snd, map_snd_placed]

theorem mem_of_mem_placed {start : Nat} {assets : List Asset} {p : Nat × Asset}
    (h : p ∈ placed start assets) : p.2 ∈ assets := by
  rw [← map_snd_placed start assets]
  exact List.mem_map_of_mem h

theorem length_rows (start : Nat) (assets : List Asset) :
    ((placed start assets).flatMap fun p => p.2.row p.1).length =
      (assets.map fun a => (a.row 0).length).sum := by
  induction assets generalizing start with
  | nil => rfl
  | cons a rest ih =>
    rw [placed, List.flatMap_cons, List.length_append, ih, List.map_cons, List.sum_cons,
      a.length_row, a.length_row]

/-- **Data back to back is found at its offset.** -/
theorem split_at_placed {start : Nat} {assets : List Asset} {p : Nat × Asset}
    (h : p ∈ placed start assets) :
    ∃ before after, assets.flatMap Asset.data = before ++ p.2.data ++ after ∧
      p.1 = start + before.length := by
  induction assets generalizing start with
  | nil => cases h
  | cons a rest ih =>
    rcases List.mem_cons.1 h with rfl | h
    · exact ⟨[], rest.flatMap Asset.data, rfl, rfl⟩
    · obtain ⟨before, after, hdata, hoffset⟩ := ih h
      refine ⟨a.data ++ before, after, ?_, ?_⟩
      · rw [List.flatMap_cons, hdata]
        simp only [List.append_assoc]
      · rw [hoffset, List.length_append, Nat.add_assoc]

/-- Rows from a multiple of four on are a list of entries. -/
theorem list_format_rows {position start : Nat} {assets : List Asset} (hposition : 4 ∣ position)
    (hnames : ∀ a ∈ assets, a.WellNamed)
    (hlength : ∀ a ∈ assets, (Bytes.ofText a.name).length < 2 ^ 32)
    (hfits : ∀ p ∈ placed start assets, p.1 < 2 ^ 63 ∧ p.2.data.length < 2 ^ 63) :
    Format.list Entry.format position ((placed start assets).map fun p => p.2.entry p.1)
      ((placed start assets).flatMap fun p => p.2.row p.1) := by
  induction assets generalizing position start with
  | nil => rfl
  | cons a rest ih =>
    obtain ⟨hname, hnames⟩ := List.forall_mem_cons.1 hnames
    obtain ⟨hlong, hlength⟩ := List.forall_mem_cons.1 hlength
    obtain ⟨⟨hoffset, hsize⟩, hfits⟩ := List.forall_mem_cons.1 hfits
    refine ⟨_, _, hname.format_row hposition hlong hoffset hsize, ?_, rfl⟩
    exact ih (Nat.dvd_add hposition (a.four_dvd_length_row start)) hnames hlength hfits

namespace Draft

variable {d : Draft}

theorem WellFormed.length_front (h : d.WellFormed) :
    (d.header.encode d.reserved ++ d.table).length = d.dataStart := by
  rw [List.length_append, Header.length_encode h.reserved, table, placement, length_rows, dataStart]

/-- **The index that is read has an entry for each asset**, in order. -/
theorem WellFormed.ofBytes_encode (h : d.WellFormed) :
    (Index.ofBytes d.encode).outcome = .ok ⟨d.header, d.entries⟩ := by
  have hcount : d.entries.length = d.header.fileCount.toNat := by
    rw [entries, List.length_map, placement, length_placed]
    show d.assets.length = (UInt32.ofNat d.assets.length).toNat
    rw [UInt32.toNat_ofNat', Nat.mod_eq_of_lt h.count]
  have hformat : Index.format 0 ⟨d.header, d.entries⟩ (d.header.encode d.reserved ++ d.table) := by
    refine ⟨_, _, ⟨d.reserved, h.reserved, rfl⟩, hcount, ?_, rfl⟩
    rw [Header.length_encode h.reserved]
    exact list_format_rows (by decide) h.names h.nameLength h.fits
  exact (Index.reads_decode.complete (d.assets.flatMap Asset.data) hformat).1

/-- **Each entry leads to the data of its asset.** -/
theorem WellFormed.range_encode (h : d.WellFormed) {p : Nat × Asset} (hp : p ∈ d.placement) :
    (Medium.mk d.encode).range (p.2.entry p.1).offset (some (p.2.entry p.1).size) =
      .ok p.2.data := by
  obtain ⟨hoffset, hsize⟩ := h.fits p hp
  obtain ⟨before, after, hdata, hstart⟩ := split_at_placed hp
  have hencode : d.encode =
      d.header.encode d.reserved ++ d.table ++ before ++ p.2.data ++ after := by
    rw [encode, hdata]
    simp only [List.append_assoc]
  have hbefore : (d.header.encode d.reserved ++ d.table ++ before).length = p.1 := by
    rw [List.length_append, h.length_front, hstart]
  have hoffset' : (p.2.entry p.1).offset.toNat = p.1 := by
    rw [Asset.entry, UInt64.toNat_ofNat', Nat.mod_eq_of_lt (by omega)]
  have hsize' : (p.2.entry p.1).size.toNat = p.2.data.length := by
    rw [Asset.entry, UInt64.toNat_ofNat', Nat.mod_eq_of_lt (by omega)]
  exact Medium.range_eq_ok_iff.mpr
    ⟨_, after, hencode, hbefore.trans hoffset'.symm, hsize'.symm⟩

end Draft

end AssetPack.Container
