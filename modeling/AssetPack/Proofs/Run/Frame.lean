import AssetPack.Proofs.FileTree.Creation
import AssetPack.Proofs.FileTree.Removal
import AssetPack.Proofs.Mapping
import AssetPack.Run

/-!
# What a run leaves alone

A run removes an old output directory, makes a new one and extracts assets into it. Each of these
steps is confined to the output directory, so the whole run is: outside, only directories that were
missing on the way to the output directory can be new.

For the container itself this means that it is safe wherever the output directory is not above it.
The directory that is taken when none is named is beside the container, hence never above it. A
directory that is named may be, and then the container goes the way of all that is in it: it is
removed with the old directory, or an asset of its own name is written over it. Where neither
happens, the assets that are extracted are those of the container as it was.

## Main results

* `Run.confined_perform`: a run is confined to its output directory.
* `Run.extractAll_of_unowned`: if no asset goes to the place of the container, its bytes are
  extracted.
* `Run.run_outside`: what a run leaves alone, in terms of places.
* `Run.run_keeps_input`: when the container survives.
-/

namespace AssetPack

open Container
open FileTree (Confined Alters)
open AssetPack.Path (Component components component? segments)

/-! ### The directory beside a container -/

namespace Path

/-- A name is its stem, or its stem with a dot and more behind it. -/
theorem splitName_cases (name : String) :
    (splitName name).1 = name ∨ ∃ rest, name = (splitName name).1 ++ "." ++ rest := by
  have hwhole := List.takeWhile_append_dropWhile (p := (· != '.')) (l := name.toList.reverse)
  have hhead := List.head?_dropWhile_not (· != '.') name.toList.reverse
  rw [splitName]
  split
  · exact .inl rfl
  · exact .inl rfl
  · next c before _ hdrop =>
    rw [hdrop] at hwhole hhead
    obtain rfl : c = '.' := by simpa using hhead
    refine .inr ⟨String.ofList (name.toList.reverse.takeWhile (· != '.')).reverse, ?_⟩
    have hback := congrArg List.reverse hwhole
    rw [List.reverse_reverse] at hback
    apply String.toList_inj.1
    simpa using hback.symm

theorem splitName_isPrefix (name : String) : (splitName name).1.toList <+: name.toList := by
  rcases splitName_cases name with hstem | ⟨rest, hrest⟩
  · exact ⟨[], by rw [List.append_nil, hstem]⟩
  · refine ⟨'.' :: rest.toList, ?_⟩
    simpa using (congrArg String.toList hrest).symm

theorem slash_not_mem_of_fileName? {path name : String} (h : fileName? path = some name) :
    '/' ∉ name.toList := by
  have hne : path ≠ "" := by
    rintro rfl
    cases h
  have hfits := fits_lead fun s (hs : s ∈ segments path) => slash_not_mem_of_mem_segments hs
  rw [← split_eq_lead hne] at hfits
  rw [fileName?] at h
  split at h
  · cases h
  · next last hlast =>
    split at h
    · cases h
    · cases h
      exact hfits.plain name ((trimEnd_isPrefix _).subset (List.mem_of_getLast? hlast))

theorem components_of_plain {name : String} (hslash : '/' ∉ name.toList)
    (hname : component? name = some (.name name)) : components name = [.name name] := by
  have hsegments : segments name = [] ++ [name] := by
    rw [segments, List.splitOn_eq_singleton hslash]
    simp
  exact components_concat hsegments (not_isTrivial_of_name hname) hname

/-- The name of the directory beside a container. -/
def besideName (container : String) : String := (stem? container).getD "pack" ++ "_unpacked"

theorem besideName_ne {container name : String} (h : fileName? container = some name) :
    besideName container ≠ name := by
  rw [besideName, stem?, h, Option.map_some, Option.getD_some]
  intro heq
  rcases splitName_cases name with hstem | ⟨rest, hrest⟩
  · rw [hstem] at heq
    have hlength := congrArg (List.length ∘ String.toList) heq
    simp at hlength
  · have htail : (splitName name).1.toList ++ "_unpacked".toList =
        (splitName name).1.toList ++ '.' :: rest.toList := by
      simpa using congrArg String.toList (heq.trans hrest)
    cases List.append_cancel_left htail

theorem slash_not_mem_besideName (container : String) : '/' ∉ (besideName container).toList := by
  have hstem : '/' ∉ ((stem? container).getD "pack").toList := by
    rw [stem?]
    cases hname : fileName? container with
    | none => decide
    | some name =>
      intro hmem
      exact slash_not_mem_of_fileName? hname ((splitName_isPrefix name).subset hmem)
  rw [besideName, String.toList_append, List.mem_append, not_or]
  exact ⟨hstem, by decide⟩

theorem components_beside (container : String) :
    components (beside container) =
      components ((parent? container).getD ".") ++ [.name (besideName container)] := by
  have hname : component? (besideName container) = some (.name (besideName container)) := by
    have hlong : 9 ≤ (besideName container).toList.length := by simp [besideName]
    refine component?_eq_name_iff.2 ⟨?_, ?_⟩
    · intro heq
      rw [heq] at hlong
      exact absurd hlong (by decide)
    · rintro (heq | heq)
      · rw [heq] at hlong
        exact absurd hlong (by decide)
      · rw [heq] at hlong
        exact absurd hlong (by decide)
  have hcomponents := components_of_plain (slash_not_mem_besideName container) hname
  have hcontained : isContained (besideName container) = true := by
    rw [isContained, hcomponents]
    rfl
  rw [beside, ← besideName, components_join _ hcontained, hcomponents]

end Path

namespace FileTree

variable {t : FileTree} {input : String} {place there : Place} {content : Bytes}

/-- Where a container can be found, nothing is missing on the way to the directory beside it. -/
theorem node?_of_passes_beside (h : t.resolve input = .ok there)
    (hpasses : t.Passes (Path.beside input) place)
    (hplace : place ≠ t.destination (Path.beside input)) : t.node? place ≠ none := by
  obtain ⟨front, name, hfront, rfl⟩ := hpasses
  rw [destination] at hplace
  rw [Path.components_beside] at hfront hplace
  rcases List.prefix_concat_iff.1 hfront with heq | hfront
  · exact absurd (congrArg t.arrive heq) hplace
  · refine node?_of_passes h ⟨front, name, ?_, rfl⟩
    cases hparent : Path.parent? input with
    | none =>
      rw [hparent] at hfront
      have hhere : components "." = Path.Anchor.front .here := rfl
      rw [Option.getD_none, hhere] at hfront
      obtain ⟨back, hback⟩ := hfront
      cases front with
      | nil => cases hback
      | cons c front => simp [Path.Anchor.front] at hback
    | some parent =>
      rw [hparent, Option.getD_some, Path.components_parent hparent] at hfront
      exact hfront.trans (List.dropLast_prefix _)

/-- **The directory beside a container is a sibling of it.** -/
theorem destination_beside (h : t.Holds input content) :
    ∃ parent name, t.destination input = parent ++ [name] ∧
      t.destination (Path.beside input) = parent ++ [Path.besideName input] ∧
      Path.besideName input ≠ name := by
  obtain ⟨⟨-, name, parent, hends, -, henter, hplace⟩, -⟩ := h
  obtain ⟨front, hsegments, hname⟩ := hends
  have hfile : Path.fileName? input = some name := by
    have hup := (not_or.1 (Path.component?_eq_name_iff.1 hname).2).2
    rw [Path.fileName?_concat hsegments (Path.not_isTrivial_of_name hname), if_neg hup]
  obtain ⟨above, habove⟩ := Path.exists_parent (Path.EndsIn.components_eq ⟨front, hsegments, hname⟩)
  refine ⟨parent, name, hplace, ?_, Path.besideName_ne hfile⟩
  obtain ⟨rfl, -⟩ := enter_ok henter
  rw [destination, Path.components_beside, habove, Option.getD_some, Path.components_parent habove]
  exact t.arrive_names _ [Path.besideName input]

/-- Without steps up, a walk ends at or below the place where it starts. -/
theorem isPrefix_of_walk {here : Place} {body : List String} (hup : ".." ∉ body)
    (h : t.walk here body = .ok there) : here <+: there := by
  induction body generalizing here with
  | nil =>
    cases h
    exact List.prefix_refl _
  | cons segment rest ih =>
    obtain ⟨hsegment, hrest⟩ := List.ne_and_not_mem_of_not_mem_cons hup
    rw [walk] at h
    split at h
    · cases h
    · next next hfollow =>
      have hnext := ih hrest h
      rcases follow_ok hfollow with ⟨-, rfl⟩ | ⟨c, hc, rfl, -⟩
      · exact hnext
      · rw [Path.component?] at hc
        split at hc
        · cases hc
        · rw [if_neg hsegment.symm] at hc
          cases hc
          exact (List.prefix_append here [segment]).trans hnext

/-- A walk without steps up can be repeated in a tree that has kept the directories above its end,
and something there. -/
theorem walk_of_kept {t' : FileTree} {here : Place} {body : List String} (hup : ".." ∉ body)
    (h : t.walk here body = .ok there)
    (hkept : ∀ q, q <+: there → t.node? q = some .directory → t'.node? q = some .directory)
    (hthere : t'.node? there ≠ none) : t'.walk here body = .ok there := by
  induction body generalizing here with
  | nil => exact h
  | cons segment rest ih =>
    obtain ⟨hsegment, hrest⟩ := List.ne_and_not_mem_of_not_mem_cons hup
    have hhere := hkept here (isPrefix_of_walk hup h) (node?_of_walk_cons h)
    rw [walk] at h
    split at h
    · cases h
    · next next hfollow =>
      have hnext : t'.node? next ≠ none := by
        cases rest with
        | nil =>
          cases h
          exact hthere
        | cons second others =>
          rw [hkept next (isPrefix_of_walk hrest h) (node?_of_walk_cons h)]
          exact Option.some_ne_none _
      have hfollow' : t'.follow here segment = .ok next := by
        rw [follow] at hfollow
        split at hfollow
        · cases hfollow
        · cases hfollow
        · simp only [follow, hhere]
          split at hfollow
          · next htrivial =>
            cases hfollow
            rw [if_pos htrivial]
          · next htrivial =>
            rw [if_neg hsegment.symm] at hfollow
            split at hfollow
            · cases hfollow
            · next hshort =>
              split at hfollow
              · cases hfollow
              · cases hfollow
                rw [if_neg htrivial, if_neg hsegment.symm, if_neg hshort]
                cases hnode : t'.node? (here ++ [segment]) with
                | none => exact absurd hnode hnext
                | some node => rfl
      rw [walk, hfollow']
      exact ih hrest h

end FileTree

namespace Run

variable {request : CommandLine.Request} {words : List String} {tree : FileTree}

/-! ### The steps of a run -/

theorem tree_run (h : CommandLine.parse words = .ok request) (tree : FileTree) :
    (run words tree).tree = (perform request tree).tree := by
  rw [run, h]

theorem tree_run_of_error {stop : CommandLine.Stop} (h : CommandLine.parse words = .error stop)
    (tree : FileTree) : (run words tree).tree = tree := by
  rw [run, h]
  cases stop with
  | _ => rfl

/-- The extraction that a request asks for, of a container with given bytes. -/
def job (request : CommandLine.Request) (data : Bytes) : Job :=
  ⟨⟨data⟩, outputDirectory request, extractOptions request⟩

/-- The output directory of a request, prepared. -/
def prepared (request : CommandLine.Request) (tree : FileTree) : Prepared :=
  prepare tree (outputDirectory request) request.keepExisting

/-- The extraction of a container that was mapped, into the prepared output directory. -/
def extraction (request : CommandLine.Request) (tree : FileTree) (data : Bytes) (index : Index)
    (notices : List Notice) : Attempt :=
  (mapping request data tree (prepared request tree).tree).extractAll (outputDirectory request)
    (extractOptions request) ⟨(prepared request tree).tree, {}, notices⟩ index.entries

theorem tree_extractIndex (request : CommandLine.Request) (m : Mapping) (index : Index)
    (tree : FileTree) (notices : List Notice) :
    (extractIndex request m index tree notices).tree =
      (m.extractAll (outputDirectory request) (extractOptions request) ⟨tree, {}, notices⟩
        index.entries).reached.tree := by
  rw [extractIndex]
  split
  · rfl
  · rfl

theorem confined_createOutput (tree : FileTree) (directory : String) (notices : List Notice) :
    Confined directory tree (createOutput tree directory notices).tree := by
  have hmade : Confined directory tree (tree.createAll directory).1 :=
    FileTree.confined_createAll tree (List.prefix_append _ (([] : List String).map Component.name))
  rw [createOutput]
  split
  · next made hcreate =>
    rw [hcreate] at hmade
    exact hmade
  · next made fault hcreate =>
    rw [hcreate] at hmade
    exact hmade

theorem confined_prepare (tree : FileTree) (directory : String) (keepExisting : Bool) :
    Confined directory tree (prepare tree directory keepExisting).tree := by
  have hremoved := FileTree.confined_removeAll tree directory
  rw [prepare]
  split
  · split
    · next gone fault hremove =>
      rw [hremove] at hremoved
      exact hremoved
    · next gone hremove =>
      rw [hremove] at hremoved
      exact hremoved.trans (confined_createOutput gone directory _)
  · exact confined_createOutput tree directory []

/-- All that a run can do to a tree: nothing, or prepare the output directory, or prepare it and
extract the assets of the container. -/
theorem perform_cases (request : CommandLine.Request) (tree : FileTree) :
    (perform request tree).tree = tree ∨
    ∃ data index, tree.readFile request.input = .ok data ∧
      (Index.ofBytes data).outcome = .ok index ∧
      ((perform request tree).tree = (prepared request tree).tree ∨
        ∃ notices, (perform request tree).tree =
          (extraction request tree data index notices).reached.tree) := by
  rw [perform]
  split
  · exact .inl rfl
  · next data hread =>
    dsimp only
    split
    · exact .inl rfl
    · next index hindex =>
      refine .inr ⟨data, index, hread, hindex, ?_⟩
      split
      · exact .inl rfl
      · exact .inr ⟨_, tree_extractIndex request _ index _ _⟩

/-- **A run is confined to its output directory.** -/
theorem confined_perform (request : CommandLine.Request) (tree : FileTree) :
    Confined (outputDirectory request) tree (perform request tree).tree := by
  have hprepared := confined_prepare tree (outputDirectory request) request.keepExisting
  rcases perform_cases request tree with
    hsame | ⟨data, index, -, -, hprepare | ⟨notices, hextract⟩⟩
  · rw [hsame]
    exact .refl _ tree
  · rw [hprepare]
    exact hprepared
  · rw [hextract]
    exact hprepared.trans (Mapping.confined_extractAll _ _ _ ⟨_, {}, notices⟩ _)

theorem perform_of_readFile_error {fault : Fault} (h : tree.readFile request.input = .error fault) :
    (perform request tree).tree = tree := by
  rw [perform, h]

/-! ### Outside the output directory -/

theorem passes_of_isContained {output : String} {place : Place}
    (h : Path.isContained output = true) (hpasses : tree.Passes output place) :
    place <+: tree.destination output := by
  obtain ⟨names, hnames, -⟩ := Path.exists_names_of_isContained h
  obtain ⟨front, name, hfront, rfl⟩ := hpasses
  rw [hnames] at hfront
  obtain ⟨names', hprefix, heq⟩ := List.prefix_map_iff.1 hfront
  have harrive : ∀ names : List String, tree.arrive (names.map .name) = tree.workingDir ++ names :=
    fun names => tree.arrive_names [] names
  rw [heq, FileTree.destination, hnames, harrive, harrive]
  exact (List.prefix_append_right_inj _).2 hprefix

/-- If no output directory is named, nothing is missing on the way to it. -/
theorem node?_perform_of_beside {place : Place} (houtput : request.output = none)
    (hplace : ¬ tree.destination (outputDirectory request) <+: place) :
    (perform request tree).tree.node? place = tree.node? place := by
  cases hread : tree.readFile request.input with
  | error fault => rw [perform_of_readFile_error hread]
  | ok data =>
    obtain ⟨there, hresolve⟩ : ∃ there, tree.resolve request.input = .ok there := by
      rw [FileTree.readFile] at hread
      split at hread
      · cases hread
      · next there hresolve => exact ⟨there, hresolve⟩
    rcases (confined_perform request tree).outside place hplace with hsame | ⟨hpasses, hnone, -⟩
    · exact hsame
    · have hbeside : outputDirectory request = Path.beside request.input := by
        rw [outputDirectory, houtput, Option.getD_none]
      rw [hbeside] at hpasses hplace
      refine absurd hnone (FileTree.node?_of_passes_beside hresolve hpasses fun heq => ?_)
      rw [heq] at hplace
      exact hplace (List.prefix_refl _)

/-- **A run changes nothing outside its output directory**, directories that were missing above it
apart. If no output directory is named, it is beside the container, so the container is outside. -/
theorem run_outside (words : List String) (tree : FileTree) :
    (∀ stop, CommandLine.parse words = .error stop → (run words tree).tree = tree) ∧
    ∀ request, CommandLine.parse words = .ok request →
      ((∀ output, request.output = some output → Path.isContained output = true) →
        ∀ place, ¬ tree.destination (outputDirectory request) <+: place →
          (run words tree).tree.node? place = tree.node? place ∨
            place <+: tree.destination (outputDirectory request) ∧ tree.node? place = none ∧
              (run words tree).tree.node? place = some .directory) ∧
      (request.output = none → ∀ content, tree.Holds request.input content →
        (∃ parent name other, tree.destination request.input = parent ++ [name] ∧
          tree.destination (outputDirectory request) = parent ++ [other] ∧ other ≠ name) ∧
        ¬ tree.destination (outputDirectory request) <+: tree.destination request.input ∧
        (run words tree).tree.node? (tree.destination request.input) = some (.file content)) := by
  refine ⟨fun stop hstop => tree_run_of_error hstop tree, fun request hparse => ⟨?_, ?_⟩⟩
  · intro hplain place hplace
    rw [tree_run hparse]
    cases houtput : request.output with
    | none => exact .inl (node?_perform_of_beside houtput hplace)
    | some output =>
      rcases (confined_perform request tree).outside place hplace with hsame | ⟨hpasses, hmade⟩
      · exact .inl hsame
      · refine .inr ⟨passes_of_isContained ?_ hpasses, hmade⟩
        rw [outputDirectory, houtput, Option.getD_some]
        exact hplain output houtput
  · intro houtput content hholds
    have hbeside : outputDirectory request = Path.beside request.input := by
      rw [outputDirectory, houtput, Option.getD_none]
    obtain ⟨parent, name, hinput, hdirectory, hne⟩ := FileTree.destination_beside hholds
    rw [← hbeside] at hdirectory
    have hoff : ¬ tree.destination (outputDirectory request) <+:
        tree.destination request.input := by
      intro hprefix
      rw [hdirectory, hinput] at hprefix
      have hsame := hprefix.eq_of_length (by simp)
      exact hne (by simpa using hsame)
    refine ⟨⟨parent, name, _, hinput, hdirectory, hne⟩, hoff, ?_⟩
    rw [tree_run hparse, node?_perform_of_beside houtput hoff]
    exact hholds.2

/-- A container with one asset, which has the name of a container and is the first `size` bytes of
this one. -/
def gamePack (size : UInt8) : Bytes :=
  [0x47, 0x44, 0x50, 0x43, 1, 0, 0, 0, 3, 0, 0, 0, 2, 0, 0, 0, 1, 0, 0, 0] ++
    List.replicate 64 0 ++ [1, 0, 0, 0, 8, 0, 0, 0] ++ Bytes.ofText "game.pck" ++
    List.replicate 8 0 ++ [size] ++ List.replicate 23 0

/-- The index of `gamePack size`. -/
def gameIndex (size : UInt64) : Index :=
  ⟨⟨1, 3, 2, 1, 1⟩, [⟨"game.pck", 0, size, List.replicate 16 0⟩]⟩

/-- A directory with such a container in it, under two names. Its asset is empty. -/
def twoPacks : FileTree :=
  ⟨["home"], [(["home"], .directory), (["home", "d"], .directory),
    (["home", "d", "game.pck"], .file (gamePack 0)),
    (["home", "d", "pack.bin"], .file (gamePack 0))]⟩

theorem run_outside_defaultOutput :
    twoPacks.Holds "d/pack.bin" (gamePack 0) ∧
      (∃ parent name other, twoPacks.destination "d/pack.bin" = parent ++ [name] ∧
        twoPacks.destination "d/pack_unpacked" = parent ++ [other] ∧ other ≠ name) ∧
      (run ["d/pack.bin"] twoPacks).tree.node? ["home", "d", "pack.bin"] =
        some (.file (gamePack 0)) ∧
      (run ["d/pack.bin"] twoPacks).tree.node? ["home", "d", "pack_unpacked", "game.pck"] =
        some (.file []) := by
  have hparse : CommandLine.parse ["d/pack.bin"] =
      .ok ⟨"d/pack.bin", none, false, false, false, false, false⟩ := by decide +kernel
  have hholds : twoPacks.Holds "d/pack.bin" (gamePack 0) :=
    ⟨⟨by decide, "pack.bin", ["home", "d"], ⟨["d"], by decide +kernel, by decide⟩, by decide,
      by decide +kernel, by decide +kernel⟩, by decide +kernel⟩
  obtain ⟨hsibling, -, hkept⟩ :=
    ((run_outside ["d/pack.bin"] twoPacks).2 _ hparse).2 rfl (gamePack 0) hholds
  exact ⟨hholds, hsibling, hkept, by decide +kernel⟩

/-! ### The container -/

/-- If nothing is removed, preparing an output directory only adds directories. -/
theorem alters_prepare {directory : String} {keepExisting : Bool}
    (h : keepExisting = true ∨ tree.isDirectory directory = false) (written : Place → Prop) :
    Alters written tree (prepare tree directory keepExisting).tree := by
  have hcreate : ∀ notices, Alters written tree (createOutput tree directory notices).tree := by
    intro notices
    have hmade := FileTree.alters_createAll written tree directory
    rw [createOutput]
    split
    · next made hmake =>
      rw [hmake] at hmade
      exact hmade
    · next made fault hmake =>
      rw [hmake] at hmade
      exact hmade
  rw [prepare]
  split
  · next hremove =>
    rw [Bool.and_eq_true, Bool.not_eq_true'] at hremove
    have hgone := FileTree.removeAll_of_not_isDirectory
      (h.resolve_left (by rw [hremove.2]; exact Bool.false_ne_true))
    split
    · next gone fault hremoved =>
      rw [hremoved] at hgone
      dsimp only at hgone ⊢
      rw [hgone]
      exact .refl written tree
    · next gone hremoved =>
      rw [hremoved] at hgone
      dsimp only at hgone
      rw [hgone]
      exact hcreate _
  · exact hcreate []

/-- No asset of an index goes to the place of the container, or the container is not there any more
when the output directory is prepared. -/
def Unowned (request : CommandLine.Request) (tree : FileTree) (data : Bytes) (index : Index) :
    Prop :=
  ∀ place, tree.resolve request.input = .ok place →
    (prepared request tree).tree.node? place = some (.file data) →
    ∀ entry ∈ index.entries, ¬ Extraction.Owns (job request data) entry tree place

theorem mapping_data (request : CommandLine.Request) (data : Bytes) (opened ready : FileTree) :
    (mapping request data opened ready).data = data := by
  rw [mapping]
  split
  · rfl
  · rfl

theorem mapping_place {data : Bytes} {opened ready : FileTree} {place : Place}
    (h : (mapping request data opened ready).place = some place) :
    opened.resolve request.input = .ok place ∧ ready.node? place = some (.file data) := by
  rw [mapping] at h
  split at h
  · cases h
  · next there hresolve =>
    dsimp only at h
    split at h
    · next hthere =>
      cases h
      exact ⟨hresolve, hthere⟩
    · cases h

/-- **If no asset goes to the place of the container, its bytes are extracted.** -/
theorem extraction_of_unowned {data : Bytes} {index : Index}
    (h : Unowned request tree data index) (notices : List Notice) :
    extraction request tree data index notices =
      ⟨Extraction.extractAll (job request data) ⟨(prepared request tree).tree, {}, notices⟩
        index.entries, false⟩ := by
  have hdata := mapping_data request data tree (prepared request tree).tree
  have hintact : (mapping request data tree (prepared request tree).tree).Intact
      (prepared request tree).tree := by
    intro place hplace
    rw [hdata]
    exact (mapping_place hplace).2
  have hjob : (mapping request data tree (prepared request tree).tree).job
      (outputDirectory request) (extractOptions request) = job request data := by
    rw [Mapping.job, hdata, job]
  have hconfined := confined_prepare tree (outputDirectory request) request.keepExisting
  rw [extraction, Mapping.extractAll_of_intact hintact, hjob]
  intro entry hentry place hplace
  rw [hjob]
  rintro ⟨path, hpath, hbelow, heq⟩
  obtain ⟨hresolve, hthere⟩ := mapping_place hplace
  exact h place hresolve hthere entry hentry
    ⟨path, hpath, hbelow, heq.trans (hconfined.destination_eq path)⟩

/-- A run over the assets of an index does not reach a place: it is not below the output directory,
or no old output directory is removed and no asset goes to the place. -/
def Spares (request : CommandLine.Request) (tree : FileTree) (data : Bytes) (index : Index)
    (place : Place) : Prop :=
  ¬ tree.destination (outputDirectory request) <+: place ∨
    (request.keepExisting = true ∨ tree.isDirectory (outputDirectory request) = false) ∧
      ∀ entry ∈ index.entries, ¬ Extraction.Owns (job request data) entry tree place

/-- Assets go below the output directory only. -/
theorem unowned_of_outside {data : Bytes} {index : Index}
    (h : ¬ tree.destination (outputDirectory request) <+: tree.destination request.input) :
    Unowned request tree data index := by
  rintro place hplace - entry - ⟨path, -, ⟨names, hnames⟩, heq⟩
  rw [FileTree.destination_of_resolve hplace, heq] at h
  exact h (FileTree.destination_below hnames tree)

theorem Spares.unowned {data : Bytes} {index : Index} {place : Place}
    (h : Spares request tree data index place) (hinput : tree.resolve request.input = .ok place) :
    Unowned request tree data index := by
  rcases h with hoff | ⟨-, hassets⟩
  · exact unowned_of_outside (by rwa [FileTree.destination_of_resolve hinput])
  · intro there hthere _
    obtain rfl : place = there := Except.ok.inj (hinput.symm.trans hthere)
    exact hassets

/-- What a run does not reach is as it was, and so are the directories above it. -/
theorem perform_keeps {place : Place} {data : Bytes}
    (hinput : tree.resolve request.input = .ok place)
    (hfile : tree.node? place = some (.file data))
    (hsafe : ∀ index, (Index.ofBytes data).outcome = .ok index →
      Spares request tree data index place) :
    (perform request tree).tree.workingDir = tree.workingDir ∧
      (perform request tree).tree.node? place = some (.file data) ∧
      ∀ q, q <+: place → tree.node? q = some .directory →
        (perform request tree).tree.node? q = some .directory := by
  have hconfined := confined_perform request tree
  rcases perform_cases request tree with hsame | ⟨data', index, hread, hindex, hend⟩
  · rw [hsame]
    exact ⟨rfl, hfile, fun _ _ h => h⟩
  · obtain rfl : data = data' := by
      simp only [FileTree.readFile, hinput, hfile] at hread
      exact Except.ok.inj hread
    refine ⟨hconfined.workingDir, ?_⟩
    have hunowned := (hsafe index hindex).unowned hinput
    rcases hsafe index hindex with hoff | ⟨hkeep, hassets⟩
    · have hsame : ∀ q node, q <+: place → tree.node? q = some node →
          (perform request tree).tree.node? q = some node := by
        intro q node hq hnode
        rcases hconfined.outside q fun hbelow => hoff (hbelow.trans hq) with heq | ⟨-, hnone, -⟩
        · rw [heq, hnode]
        · rw [hnode] at hnone
          cases hnone
      exact ⟨hsame _ _ (List.prefix_refl _) hfile, fun q hq hnode => hsame q _ hq hnode⟩
    · have halters : Alters (fun place => ∃ entry ∈ index.entries,
          Extraction.Owns (job request data) entry tree place)
          tree (perform request tree).tree := by
        have hprepared := alters_prepare hkeep fun place => ∃ entry ∈ index.entries,
          Extraction.Owns (job request data) entry tree place
        rcases hend with hprepare | ⟨notices, hextract⟩
        · rw [hprepare]
          exact hprepared
        · obtain ⟨fates, hrun, -⟩ := Extraction.run_extractAll (job request data)
            ⟨(prepared request tree).tree, {}, notices⟩ index.entries
          rw [hextract, extraction_of_unowned hunowned notices]
          refine hprepared.trans (hrun.alters.mono ?_)
          rintro place ⟨entry, hentry, path, hpath, hbelow, rfl⟩
          exact ⟨entry, hentry, path, hpath, hbelow, hprepared.destination_eq path⟩
      refine ⟨halters.file hfile ?_, fun q _ hnode => halters.directory hnode⟩
      rintro ⟨entry, hentry, howns⟩
      exact hassets entry hentry howns

/-- **A run keeps its container** where it does not reach it: the container is not below the output
directory, or it is there but nothing is removed and no asset goes to its place. It can then be read
as before, if its path does not step up, which could lead through a directory that is gone. -/
theorem run_keeps_input {place : Place} {data : Bytes}
    (hparse : CommandLine.parse words = .ok request)
    (hinput : tree.resolve request.input = .ok place)
    (hfile : tree.node? place = some (.file data))
    (hsafe : ∀ index, (Index.ofBytes data).outcome = .ok index →
      Spares request tree data index place) :
    (run words tree).tree.node? place = some (.file data) ∧
      (".." ∉ segments request.input →
        (run words tree).tree.readFile request.input = .ok data) := by
  obtain ⟨hdir, hkept, habove⟩ := perform_keeps hinput hfile hsafe
  rw [tree_run hparse]
  refine ⟨hkept, fun hup => ?_⟩
  have hresolve : (perform request tree).tree.resolve request.input = .ok place := by
    rw [FileTree.resolve] at hinput ⊢
    split at hinput
    · cases hinput
    · rw [FileTree.origin, hdir, ← FileTree.origin]
      exact FileTree.walk_of_kept hup hinput habove (by rw [hkept]; exact Option.some_ne_none _)
  simp only [FileTree.readFile, hresolve, hkept]

theorem run_keeps_input_keptOutput :
    Spares ⟨"d/pack.bin", some "d", false, false, true, false, false⟩ twoPacks (gamePack 0)
        (gameIndex 0) ["home", "d", "pack.bin"] ∧
      (run ["d/pack.bin", "-o", "d", "--keep-existing"] twoPacks).tree.node?
        ["home", "d", "pack.bin"] = some (.file (gamePack 0)) := by
  have hparse : CommandLine.parse ["d/pack.bin", "-o", "d", "--keep-existing"] =
      .ok ⟨"d/pack.bin", some "d", false, false, true, false, false⟩ := by decide +kernel
  have hindex : (Index.ofBytes (gamePack 0)).outcome = .ok (gameIndex 0) := by decide +kernel
  have hspares : Spares ⟨"d/pack.bin", some "d", false, false, true, false, false⟩ twoPacks
      (gamePack 0) (gameIndex 0) ["home", "d", "pack.bin"] := by
    refine .inr ⟨.inl rfl, ?_⟩
    rintro entry hentry ⟨path, hpath, -, hplace⟩
    rw [gameIndex, List.mem_singleton] at hentry
    rw [hentry] at hpath
    revert path
    decide +kernel
  refine ⟨hspares, (run_keeps_input hparse (by decide +kernel) (by decide +kernel) ?_).1⟩
  intro index hok
  rw [hindex] at hok
  cases hok
  exact hspares

/-- An output directory above the container takes it away with all that was in the directory, and if
the directory is kept, an asset with the name of the container is written over it. -/
theorem run_loses_input :
    twoPacks.readFile "d/pack.bin" = .ok (gamePack 0) ∧
      twoPacks.readFile "d/game.pck" = .ok (gamePack 0) ∧
      (run ["d/pack.bin", "-o", "d"] twoPacks).ending = .completed ∧
      (run ["d/pack.bin", "-o", "d"] twoPacks).tree.node? ["home", "d", "pack.bin"] = none ∧
      (run ["d/game.pck", "-o", "d", "--keep-existing"] twoPacks).ending = .completed ∧
      (run ["d/game.pck", "-o", "d", "--keep-existing"] twoPacks).tree.node?
        ["home", "d", "game.pck"] = some (.file []) := by
  decide +kernel

end Run

end AssetPack
