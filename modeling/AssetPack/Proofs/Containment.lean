import AssetPack.Extraction
import AssetPack.Proofs.FileTree

/-!
# Extraction stays in the output directory

The names in a container are not to be trusted. An asset is written under its name, its directories
are made on the way, and a script gets a listing and a report beside it, each under a path made from
the name by text operations of its own. The theorem of this module says that none of this reaches
anything outside the output directory, whatever the names are.

If the output directory is missing, it is made for the first asset, and so are the directories that
are missing above it. They are outside.

The check at the start of `Extraction.extract` looks at the components of the name, and the
operations behind it take texts. What carries the argument is that every path in use has the
components of the output directory with names behind them (`Path.components_join`,
`Path.components_parent`, `Path.components_withExtension`), with one exception: a script whose stem
is a dot has its listing at a path that ends in `..`, and there no file can be written.

## Main results

* `Extraction.confined_extract`: one asset changes nothing outside.
* `Extraction.extractAll_outside`: a whole extraction changes nothing outside.
* `Extraction.extractAll_makes_ancestor`: unless the output directory is missing.
-/

namespace AssetPack

open Container Script
open FileTree (Confined)
open AssetPack.Path (components segments)

/-! ### Names of scripts -/

namespace Container.Entry

theorem not_mem_afterLast (sep : Char) (chars : List Char) : sep ∉ afterLast sep chars := by
  intro hmem
  simpa using List.mem_takeWhile_imp (List.mem_reverse.1 hmem)

/-- **Cutting at the last separator** loses nothing but the separator. -/
theorem eq_of_beforeLast? {sep : Char} {chars before : List Char}
    (h : beforeLast? sep chars = some before) : chars = before ++ sep :: afterLast sep chars := by
  rw [beforeLast?] at h
  split at h
  · cases h
  · next c rest hdrop =>
    cases h
    have hsep : c = sep := by
      have hhead := List.head?_dropWhile_not (· != sep) chars.reverse
      rw [hdrop] at hhead
      simpa using hhead
    have hwhole := List.takeWhile_append_dropWhile (p := (· != sep)) (l := chars.reverse)
    rw [hdrop, hsep] at hwhole
    have hback := congrArg List.reverse hwhole
    simpa [afterLast] using hback.symm

theorem afterLast_eq_self {sep : Char} {chars : List Char} (h : beforeLast? sep chars = none) :
    afterLast sep chars = chars := by
  rw [beforeLast?] at h
  split at h
  · next hdrop =>
    have hall := List.dropWhile_eq_nil_iff.1 hdrop
    rw [afterLast, List.takeWhile_eq_self_iff.2 hall, List.reverse_reverse]
  · cases h

/-- The extension is looked for in the last segment of the path. -/
theorem exists_segments_eq (e : Entry) :
    ∃ front, segments e.relativePath =
      front ++ [String.ofList (afterLast '/' e.relativePath.toList)] := by
  have hplain := List.splitOn_eq_singleton (not_mem_afterLast '/' e.relativePath.toList)
  cases hbefore : beforeLast? '/' e.relativePath.toList with
  | none =>
    rw [afterLast_eq_self hbefore] at hplain ⊢
    exact ⟨[], by rw [segments, hplain]; rfl⟩
  | some before =>
    refine ⟨(before.splitOn '/').map String.ofList, ?_⟩
    rw [segments, eq_of_beforeLast? hbefore, List.splitOn_append_cons_self, List.map_append]
    rw [← eq_of_beforeLast? hbefore, hplain]
    rfl

/-- A script has a stem and the extension of scripts behind it. -/
theorem segments_of_isScript {e : Entry} (h : e.isScript = true) :
    ∃ front stem, segments e.relativePath = front ++ [stem ++ "." ++ scriptExtension] ∧
      stem ≠ "" := by
  obtain ⟨front, hsegments⟩ := e.exists_segments_eq
  rw [isScript, beq_iff_eq, extension?] at h
  split at h
  · cases h
  · cases h
  · next c chars hbefore =>
    have hextension :
        afterLast '.' (afterLast '/' e.relativePath.toList) = scriptExtension.toList :=
      String.ofList_injective (by simpa using Option.some.inj h)
    refine ⟨front, String.ofList (c :: chars), ?_, by simp⟩
    have hname : String.ofList (afterLast '/' e.relativePath.toList) =
        String.ofList (c :: chars) ++ "." ++ scriptExtension := by
      rw [eq_of_beforeLast? hbefore, hextension]
      apply String.toList_inj.1
      simp
    rw [hsegments, hname]

end Container.Entry

/-! ### Paths that stay below -/

/-- A path under which a file can only be written below `output`: names follow those of `output`,
or the path ends going up, and then no file can be written there. -/
def Path.StaysBelow (output path : String) : Prop :=
  (∃ names : List String, components path = components output ++ names.map .name) ∨
    ∃ front, components path = front ++ [.up]

namespace Container.Entry

variable {e : Entry}

/-- The target of an asset has the names of the asset behind those of the output directory. -/
theorem components_target (output : String) (h : Path.isContained e.relativePath = true) :
    ∃ names : List String, names ≠ [] ∧
      components (Path.join output e.relativePath) = components output ++ names.map .name := by
  obtain ⟨names, hnames, hne⟩ := Path.exists_names_of_isContained h
  exact ⟨names, hne, by rw [Path.components_join output h, hnames]⟩

/-- The target of a script ends as the path of the script does, in a stem and the extension of
scripts. -/
theorem segments_target (output : String) (h : Path.isContained e.relativePath = true)
    (hscript : e.isScript = true) :
    ∃ front stem, stem ≠ "" ∧
      segments (Path.join output e.relativePath) = front ++ [stem ++ "." ++ scriptExtension] ∧
      (segments e.relativePath).getLast? = some (stem ++ "." ++ scriptExtension) := by
  obtain ⟨front, stem, hsegments, hstem⟩ := segments_of_isScript hscript
  obtain ⟨before, hjoin⟩ := Path.segments_join output h
  refine ⟨before ++ front, stem, hstem, ?_, ?_⟩
  · rw [hjoin, hsegments, List.append_assoc]
  · rw [hsegments, List.getLast?_concat]

/-- **What is written beside a script stays below** the output directory, under any extension. -/
theorem artifact_staysBelow (output : String) (h : Path.isContained e.relativePath = true)
    (hscript : e.isScript = true) {extension : String} (hextension : extension ≠ "")
    (hslash : '/' ∉ extension.toList) :
    Path.StaysBelow output (Path.withExtension (Path.join output e.relativePath) extension) := by
  obtain ⟨names, hne, hnames⟩ := components_target output h
  obtain ⟨front, stem, hstem, hjoin, -⟩ := segments_target output h hscript
  have hcomponents := Path.components_withExtension hjoin hstem (by decide) (by decide) hextension
    hslash
  rw [hnames, List.dropLast_append_of_ne_nil (by simpa using hne), ← List.map_dropLast]
    at hcomponents
  by_cases hone : stem = "."
  · rw [if_pos hone] at hcomponents
    exact .inr ⟨_, hcomponents⟩
  · rw [if_neg hone] at hcomponents
    refine .inl ⟨names.dropLast ++ [stem ++ "." ++ extension], ?_⟩
    rw [hcomponents, List.map_append, List.append_assoc]
    rfl

end Container.Entry

/-! ### One asset -/

namespace Extraction

variable {job : Job} {x : Extraction} {entry : Entry} {target output : String}

@[simp] theorem tree_noteAll (x : Extraction) (ns : List Notice) : (x.noteAll ns).tree = x.tree :=
  rfl

@[simp] theorem tree_count (x : Extraction) (f : ExtractStats → ExtractStats) :
    (x.count f).tree = x.tree := rfl

@[simp] theorem tree_checkDigest (x : Extraction) (job : Job) (entry : Entry) (payload : Bytes) :
    (x.checkDigest job entry payload).tree = x.tree := by
  rw [checkDigest]
  split
  · rfl
  · rfl

theorem confined_store {t : FileTree} (ht : x.tree = t) (h : Path.StaysBelow output target)
    (action : String) (content : Bytes) :
    Confined output t (x.store action target content).1.tree := by
  subst ht
  rw [store]
  split
  · next tree hwrite =>
    rcases h with ⟨names, hnames⟩ | ⟨front, hup⟩
    · exact FileTree.confined_writeFile hnames hwrite
    · -- a file is written under a name, and this path has none at its end
      obtain ⟨-, -, before, name, hend⟩ := FileTree.writeFile_ok hwrite
      rw [hup] at hend
      cases (List.append_inj' hend rfl).2
  · exact .refl output x.tree

theorem confined_makeParent {names : List String}
    (h : components target = components output ++ names.map .name) (x : Extraction) :
    Confined output x.tree (x.makeParent target).1.tree := by
  rw [makeParent]
  split
  · exact .refl output x.tree
  · next parent hparent =>
    have hprefix : components parent <+: components output ++ names.map .name := by
      rw [Path.components_parent hparent, ← h]
      exact List.dropLast_prefix _
    have hmade := FileTree.confined_createAll x.tree hprefix
    split
    · next tree hcreate =>
      rw [hcreate] at hmade
      exact hmade
    · next tree fault hcreate =>
      rw [hcreate] at hmade
      exact hmade

theorem confined_copy {names : List String}
    (h : components target = components output ++ names.map .name) (x : Extraction) (job : Job)
    (entry : Entry) (payload : Bytes) :
    Confined output x.tree (x.copy job entry payload target).1.tree := by
  have hparent := confined_makeParent h x
  rw [copy]
  split
  · next y reason hmake =>
    rw [hmake] at hparent
    exact hparent
  · next y hmake =>
    rw [hmake] at hparent
    have hstore := confined_store (tree_checkDigest y job entry payload) (.inl ⟨names, h⟩) "create"
      payload
    split
    · next z reason hstored =>
      rw [hstored] at hstore
      exact hparent.trans hstore
    · next z hstored =>
      rw [hstored] at hstore
      exact hparent.trans hstore

theorem confined_writeReport {t : FileTree} (ht : x.tree = t)
    (h : Path.StaysBelow output (Path.withExtension target reportExtension)) (job : Job)
    (entry : Entry) (record : Record) :
    Confined output t (x.writeReport job entry record target).1.tree := by
  subst ht
  rw [writeReport]
  split
  · dsimp only
    split
    · exact .refl output x.tree
    · exact confined_store (tree_noteAll x record.listingNotices) h "write" _
  · exact .refl output x.tree

theorem confined_decompile {t : FileTree} (ht : x.tree = t)
    (hlisting : Path.StaysBelow output (Path.withExtension target listingExtension))
    (hreport : Path.StaysBelow output (Path.withExtension target reportExtension)) (job : Job)
    (entry : Entry) : Confined output t (x.decompile job entry target).1.tree := by
  rw [decompile]
  rcases decodeScript job entry with ⟨decoded, ns⟩
  dsimp only
  split
  · refine confined_store ?_ hlisting "write" _
    exact ht
  · next record listing =>
    generalize hnoted : (if record.encodedLength ≠ entry.size.toNat then
      (x.noteAll ns).note (.lengthDiffers entry.name record.encodedLength entry.size)
      else x.noteAll ns) = y
    have hy : y.tree = t := by
      rw [← hnoted, ← ht]
      split
      · rfl
      · rfl
    have hstore := confined_store hy hlisting "write" (Bytes.ofText listing)
    split
    · next z reason hstored =>
      rw [hstored] at hstore
      exact hstore
    · next z hstored =>
      rw [hstored] at hstore
      refine hstore.trans (confined_writeReport ?_ hreport job entry record)
      rfl

/-- **One asset changes nothing outside the output directory.** -/
theorem confined_extract (job : Job) (x : Extraction) (entry : Entry) :
    Confined job.output x.tree (extract job x entry).tree := by
  rw [extract]
  split
  · exact .refl job.output x.tree
  · next hcontained =>
    have hcontained : Path.isContained entry.relativePath = true := by simpa using hcontained
    obtain ⟨names, -, hnames⟩ := Entry.components_target job.output hcontained
    dsimp only
    split
    · exact .refl job.output x.tree
    · next payload hrange =>
      have hcopy := confined_copy hnames x job entry payload
      split
      · next y reason hcopied =>
        rw [hcopied] at hcopy
        exact hcopy
      · next y hcopied =>
        rw [hcopied] at hcopy
        split
        · next hscript =>
          have hscript : entry.isScript = true := (Bool.and_eq_true_iff.1 hscript).2
          have hmade := confined_decompile
            (tree_count y fun s => { s with extracted := s.extracted + 1 })
            (Entry.artifact_staysBelow job.output hcontained hscript (by decide) (by decide))
            (Entry.artifact_staysBelow job.output hcontained hscript (by decide) (by decide))
            job entry
          split
          · next z reason hdone =>
            rw [hdone] at hmade
            exact hcopy.trans hmade
          · next z hdone =>
            rw [hdone] at hmade
            exact hcopy.trans hmade
        · exact hcopy

/-! ### Whole extractions -/

theorem confined_extractAll (job : Job) (x : Extraction) (entries : List Entry) :
    Confined job.output x.tree (extractAll job x entries).tree := by
  induction entries generalizing x with
  | nil => exact .refl job.output x.tree
  | cons entry rest ih =>
    rw [extractAll, List.foldl_cons, ← extractAll]
    exact (confined_extract job x entry).trans (ih (extract job x entry))

/-- **Extraction stays in the output directory.** If the output directory is there, whatever is
neither that directory nor below it is after the extraction what it was before. If it is not there,
the only difference outside can be directories that were missing on the way to it. -/
theorem extractAll_outside (job : Job) (x : Extraction) (entries : List Entry) :
    (∀ root, x.tree.resolve job.output = .ok root → ∀ place, ¬ root <+: place →
      (extractAll job x entries).tree.node? place = x.tree.node? place) ∧
    ∀ place, ¬ x.tree.destination job.output <+: place →
      (extractAll job x entries).tree.node? place = x.tree.node? place ∨
        x.tree.Passes job.output place ∧ x.tree.node? place = none ∧
          (extractAll job x entries).tree.node? place = some .directory := by
  have hconfined := confined_extractAll job x entries
  refine ⟨fun root hroot place hplace => ?_, hconfined.outside⟩
  rw [← FileTree.destination_of_resolve hroot] at hplace
  rcases hconfined.outside place hplace with hsame | ⟨hpasses, hnone, -⟩
  · exact hsame
  · exact absurd hnone (FileTree.node?_of_passes hroot hpasses)

/-- An output directory with a file beside it. -/
def outAndKeep : FileTree :=
  ⟨["home"], [(["home"], .directory), (["home", "out"], .directory),
    (["home", "keep"], .file [7])]⟩

/-- Names that aim at the file beside the output directory, and two whose listings would be at
`..`. -/
def outwardEntries : List Entry :=
  ["res://../keep", "/home/keep", "res://..gdc", "res://a/..gdc", "res://a/../../keep"].map
    fun name => ⟨name, 0, 3, []⟩

/-- The output directory and what is beside it after all of them were extracted. -/
def outwardExtracted : FileTree :=
  (extractAll ⟨⟨[1, 2, 3]⟩, "out", ⟨true, true, true⟩⟩ ⟨outAndKeep, {}, []⟩ outwardEntries).tree

theorem extractAll_outside_outwardEntries :
    outAndKeep.resolve "out" = .ok ["home", "out"] ∧ ¬ ["home", "out"] <+: ["home", "keep"] ∧
      outwardExtracted.node? ["home", "keep"] = some (.file [7]) ∧
      outwardExtracted.node? ["home", "out", "a", "..gdc"] = some (.file [1, 2, 3]) := by
  have hout : outAndKeep.resolve "out" = .ok ["home", "out"] := by decide +kernel
  have hbeside : ¬ ["home", "out"] <+: ["home", "keep"] := by decide
  have hkept : outAndKeep.node? ["home", "keep"] = some (.file [7]) := by decide
  have hsame : outwardExtracted.node? ["home", "keep"] = outAndKeep.node? ["home", "keep"] :=
    (extractAll_outside ⟨⟨[1, 2, 3]⟩, "out", ⟨true, true, true⟩⟩ ⟨outAndKeep, {}, []⟩
      outwardEntries).1 ["home", "out"] hout ["home", "keep"] hbeside
  exact ⟨hout, hbeside, hsame.trans hkept, by decide +kernel⟩

/-- A tree without an output directory. -/
def noOutput : FileTree := ⟨["home"], [(["home"], .directory)]⟩

/-- **Not all that is made is in the output directory.** For an asset in `a/b` the directory `a` is
made if it is missing, and it is not below `a/b`. -/
theorem extractAll_makes_ancestor :
    noOutput.destination "a/b" = ["home", "a", "b"] ∧ ¬ ["home", "a", "b"] <+: ["home", "a"] ∧
      noOutput.node? ["home", "a"] = none ∧
      (extractAll ⟨⟨[7]⟩, "a/b", ⟨true, true, true⟩⟩ ⟨noOutput, {}, []⟩
        [⟨"x", 0, 1, []⟩]).tree.node? ["home", "a"] = some .directory := by
  decide +kernel

end Extraction

end AssetPack
