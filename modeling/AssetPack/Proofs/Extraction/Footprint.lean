import AssetPack.Proofs.Extraction.Artifact

/-!
# What extracting one asset changes

Extracting an asset makes the directories that its target needs, writes the target, and may write a
listing and a report. Any of this may fail, and what was done before a failure stays. So the tree
that is left depends on where the asset ended, and its *fate* says that: `Fate.written` lists what
each fate may have written, by what is put behind the target.

What is said about the rest of the tree is said of places, and of all of them: each has what it had,
or is a directory that was missing on the way to the target, or has a file that belongs to the
asset. Nothing is removed, and no file becomes a directory or the other way round.

The directories on the way are those of the path as it is written. For the target `a/../b/c` these
are `a/../b`, which is `b`, and `a`, although the place of the target is not below `a`.

## Main definitions

* `FileTree.LeadsThrough`: the places of the directories on the way to a path.
* `FileTree.Footprint`: a tree differs from another in these and in files at given paths.
* `Fate.written`: the files that an asset with a given fate may have written.

## Main results

* `Extraction.Step.footprint`: the footprint of a step.
* `Extraction.extract_footprint`: what extracting an asset changes, and what it leaves alone.
-/

namespace AssetPack

open Container Script
open FileTree (Alters)

/-! ### Directories that are made -/

namespace FileTree

variable {t t' t'' : FileTree} {path target : String} {place : Place} {content : Bytes}
  {made written : Place → Prop}

/-- Where nothing was and a directory is now, one was to be made. -/
def Founds (made : Place → Prop) (before after : FileTree) : Prop :=
  ∀ place, before.node? place = none → after.node? place = some .directory → made place

theorem Founds.refl (made : Place → Prop) (t : FileTree) : Founds made t t := by
  intro place hnone hdirectory
  rw [hnone] at hdirectory
  cases hdirectory

theorem Founds.trans (h : Founds made t t') (h' : Founds made t' t'')
    (halters : Alters written t' t'') : Founds made t t'' := by
  intro place hnone hdirectory
  cases hnode : t'.node? place with
  | none => exact h' place hnode hdirectory
  | some node =>
    cases node with
    | directory => exact h place hnone hnode
    | file content =>
      -- what is a file in between does not become a directory
      rcases halters.node? place with hsame | ⟨hmissing, -⟩ | ⟨-, -, content', hfile⟩
      · rw [hsame, hnode] at hdirectory
        cases hdirectory
      · rw [hnode] at hmissing
        cases hmissing
      · rw [hfile] at hdirectory
        cases hdirectory

theorem founds_makeDirectory (h : t.makeDirectory path = .ok t')
    (hplace : made (t.destination path)) : Founds made t t' := by
  obtain ⟨rfl, -, _, _, hend⟩ := makeDirectory_ok h
  intro place hnone hdirectory
  rw [node?_put t (destination_ne_nil hend)] at hdirectory
  split at hdirectory
  · next heq => rwa [heq]
  · rw [hnone] at hdirectory
    cases hdirectory

/-- Writing a file makes no directory. -/
theorem Founds.writeFile (h : Founds made t t') (hwrite : t'.writeFile path content = .ok t'') :
    Founds made t t'' := by
  obtain ⟨place, haims, -, rfl⟩ := writeFile_eq_ok_iff.1 hwrite
  intro other hnone hdirectory
  rw [node?_put t' haims.ne_nil] at hdirectory
  split at hdirectory
  · cases hdirectory
  · exact h other hnone hdirectory

/-- Making directories, as far as it comes, makes those that were asked for. -/
theorem founds_createChain (t : FileTree) {paths : List String}
    (h : ∀ path ∈ paths, made (t.destination path)) :
    Founds made t (t.createChain paths).1 := by
  induction paths with
  | nil => exact .refl made t
  | cons path parents ih =>
    obtain ⟨hpath, hparents⟩ := List.forall_mem_cons.1 h
    have hgrows := ih hparents
    have halters := alters_createChain (fun _ => False) t parents
    rw [createChain]
    split
    · exact .refl made t
    · split
      · next hmade => exact founds_makeDirectory hmade hpath
      · split
        · next grown _ hgrown =>
          rw [hgrown] at hgrows
          exact hgrows
        · next grown hgrown =>
          rw [hgrown] at hgrows halters
          split
          · next hmade =>
            rw [← halters.destination_eq] at hpath
            have hlast : Alters (fun _ => False) grown _ := alters_makeDirectory hmade
            exact hgrows.trans (founds_makeDirectory hmade hpath) hlast
          · exact hgrows
      · exact .refl made t

/-- The place of a directory that a path leads through, going by its text. -/
def LeadsThrough (t : FileTree) (target : String) (place : Place) : Prop :=
  ∃ parent, Path.parent? target = some parent ∧
    ∃ above ∈ Path.ancestors parent, place = t.destination above

theorem founds_createParent (t : FileTree) (target : String) :
    Founds (t.LeadsThrough target) t (t.createParent target).1 := by
  rw [createParent]
  split
  · exact .refl _ t
  · next parent hparent =>
    exact founds_createChain t fun above habove => ⟨parent, hparent, above, habove, rfl⟩

/-- All in which two trees differ: directories that were missing on the way to `target`, and files
at the paths in `files`. -/
structure Footprint (target : String) (files : List String) (before after : FileTree) : Prop where
  workingDir : after.workingDir = before.workingDir
  node? : ∀ place, after.node? place = before.node? place ∨
    (before.node? place = none ∧ after.node? place = some .directory ∧
      before.LeadsThrough target place) ∨
    (before.node? place ≠ some .directory ∧ (∃ content, after.node? place = some (.file content)) ∧
      ∃ path ∈ files, place = before.destination path)

theorem Footprint.of_alters {files : List String}
    (halters : Alters (fun place => ∃ path ∈ files, place = t.destination path) t t')
    (hfounds : Founds (t.LeadsThrough target) t t') : Footprint target files t t' := by
  refine ⟨halters.workingDir, fun place => ?_⟩
  rcases halters.node? place with hsame | ⟨hnone, hmade⟩ | ⟨hwritten, hnode, hfile⟩
  · exact .inl hsame
  · exact .inr (.inl ⟨hnone, hmade, hfounds place hnone hmade⟩)
  · exact .inr (.inr ⟨hnode, hfile, hwritten⟩)

theorem Footprint.mono {files files' : List String} (h : Footprint target files t t')
    (hsub : files ⊆ files') : Footprint target files' t t' := by
  refine ⟨h.workingDir, fun place => ?_⟩
  rcases h.node? place with hsame | hmade | ⟨hnode, hfile, path, hpath, hplace⟩
  · exact .inl hsame
  · exact .inr (.inl hmade)
  · exact .inr (.inr ⟨hnode, hfile, path, hsub hpath, hplace⟩)

/-- **What was there is there**, and it is of the same sort. -/
theorem Alters.same_sort {node : Node} (h : Alters written t t')
    (hnode : t.node? place = some node) :
    ∃ node', t'.node? place = some node' ∧ (node' = .directory ↔ node = .directory) := by
  rcases h.node? place with hsame | ⟨hnone, -⟩ | ⟨-, hno, content, hfile⟩
  · exact ⟨node, hsame.trans hnode, Iff.rfl⟩
  · rw [hnode] at hnone
    cases hnone
  · refine ⟨.file content, hfile, nofun, fun hdirectory => absurd ?_ hno⟩
    rw [hnode, hdirectory]

end FileTree

/-! ### Fates and files -/

/-- What is put behind the target in the paths that may have been written. -/
def Fate.written : Fate → List String
  | .rejected | .outOfRange | .uncopied => []
  | .copied | .script none => [""]
  | .script (some .listed) => ["", "_decompiled", "_dump"]
  | .script (some _) => ["", "_decompiled"]

theorem Fate.written_of_not_isCopied {fate : Fate} (h : fate.isCopied = false) :
    fate.written = [] := by
  cases fate with
  | copied => cases h
  | script text => cases h
  | _ => rfl

theorem Fate.written_subset (fate : Fate) : fate.written ⊆ ["", "_decompiled", "_dump"] := by
  cases fate with
  | script text =>
    cases text with
    | none => simp [Fate.written]
    | some text => cases text <;> simp [Fate.written]
  | _ => simp [Fate.written]

namespace Extraction

variable {job : Job} {entry : Entry} {t t' t₁ t₂ : FileTree} {fate : Fate} {text : TextFate}

theorem Copies.founds (h : Copies job entry t t') :
    FileTree.Founds (t.LeadsThrough (job.target entry)) t t' := by
  obtain ⟨-, payload, t₁, -, hparent, hwrite⟩ := h
  have hmade := FileTree.founds_createParent t (job.target entry)
  rw [hparent] at hmade
  exact hmade.writeFile hwrite

theorem TextStep.founds {made : Place → Prop} (htext : TextStep job entry t₁ text t')
    (h : FileTree.Founds made t t₁) : FileTree.Founds made t t' := by
  cases htext with
  | listed _ hlisting hreport =>
    split at hreport
    · obtain ⟨report, -, hwrite⟩ := hreport
      exact (h.writeFile hlisting).writeFile hwrite
    · rw [hreport]
      exact h.writeFile hlisting
  | unreported _ hlisting _ _ _ => exact h.writeFile hlisting
  | unlisted _ _ => exact h
  | undecoded _ hstore => exact h.writeFile hstore
  | unmarked _ _ => exact h

/-- **The footprint of a step.** -/
theorem Step.footprint (h : Step job entry t fate t') :
    FileTree.Footprint (job.target entry) (fate.written.map (job.target entry ++ ·)) t t' := by
  have hparent : ∀ {t₁ : FileTree} {made : Except Fault Unit},
      t.createParent (job.target entry) = (t₁, made) →
        FileTree.Footprint (job.target entry) [] t t₁ := by
    intro t₁ made hmade
    have halters := alters_createParent
      (fun place => ∃ path ∈ [], place = t.destination path) t (job.target entry)
    have hfounds := FileTree.founds_createParent t (job.target entry)
    rw [hmade] at halters hfounds
    exact .of_alters halters hfounds
  have hcopied : ∀ {t₁ : FileTree} {files : List String}, Copies job entry t t₁ →
      job.target entry ∈ files →
        Alters (fun place => ∃ path ∈ files, place = t.destination path) t t₁ :=
    fun hcopy hmem => hcopy.alters ⟨_, hmem, rfl⟩
  cases h with
  | rejected _ => exact .of_alters (.refl _ t) (.refl _ t)
  | outOfRange _ _ => exact .of_alters (.refl _ t) (.refl _ t)
  | homeless _ _ hmade => exact hparent hmade
  | unwritten _ _ hmade _ => exact hparent hmade
  | copied hcopy _ => exact .of_alters (hcopied hcopy (by simp [Fate.written])) hcopy.founds
  | untold hcopy _ _ => exact .of_alters (hcopied hcopy (by simp [Fate.written])) hcopy.founds
  | @script t₁ _ text hcopy hscript _ htext =>
    have hfirst := hcopied hcopy
      (show job.target entry ∈ (Fate.script (some text)).written.map (job.target entry ++ ·) by
        cases text <;> simp [Fate.written])
    refine .of_alters (hfirst.trans (htext.alters hcopy.1 hscript ?_ fun hlisted => ?_))
      (htext.founds hcopy.founds)
    · refine ⟨_, ?_, hfirst.destination_eq _⟩
      cases text <;> simp [Fate.written]
    · subst hlisted
      exact ⟨_, by simp [Fate.written], hfirst.destination_eq _⟩

/-! ### The end of the copying -/

/-- **Copying that succeeds stores the bytes of the asset**, and nothing else does. -/
theorem copies_iff (x : Extraction) {payload : Bytes}
    (hcontained : Path.isContained entry.relativePath = true)
    (hrange : job.medium.range entry.offset (some entry.size) = .ok payload) :
    Copies job entry x.tree t₁ ↔ (x.copy job entry payload (job.target entry)).2 = .ok () ∧
      t₁ = (x.copy job entry payload (job.target entry)).1.tree := by
  obtain ⟨y, result, hcopy, -, hend⟩ := copy_cases x job entry payload
  rw [hcopy]
  constructor
  · rintro ⟨-, payload', u, hrange', hparent, hwrite⟩
    cases hrange.symm.trans hrange'
    rcases hend with ⟨_, fault, rfl, hhomeless⟩ | ⟨_, fault, rfl, hhome, hrefused⟩ |
      ⟨u', rfl, hhome, hwritten⟩
    · cases hparent.symm.trans hhomeless
    · cases hparent.symm.trans hhome
      cases hwrite.symm.trans hrefused
    · cases hparent.symm.trans hhome
      cases hwrite.symm.trans hwritten
      exact ⟨rfl, rfl⟩
  · rintro ⟨hok, rfl⟩
    rcases hend with ⟨_, fault, rfl, -⟩ | ⟨_, fault, rfl, -, -⟩ | ⟨u', rfl, hhome, hwritten⟩
    · cases hok
    · cases hok
    · exact ⟨hcontained, payload, u', hrange, hhome, hwritten⟩

/-- The bytes of an asset are stored or not, and its fate says which. -/
theorem Step.isCopied_iff (h : Step job entry t fate t') :
    fate.isCopied = true ↔ ∃ t₁, Copies job entry t t₁ := by
  constructor
  · intro hcopied
    cases h with
    | copied hcopy _ => exact ⟨_, hcopy⟩
    | untold hcopy _ _ => exact ⟨_, hcopy⟩
    | script hcopy _ _ _ => exact ⟨_, hcopy⟩
    | _ => cases hcopied
  · rintro ⟨t₁, hcontained, payload, u, hrange, hparent, hwrite⟩
    cases h with
    | rejected hpath =>
      rw [hcontained] at hpath
      cases hpath
    | outOfRange _ hrange' => cases hrange.symm.trans hrange'
    | homeless _ _ hparent' => cases hparent.symm.trans hparent'
    | unwritten _ hrange' hparent' hrefused =>
      cases hrange.symm.trans hrange'
      cases hparent.symm.trans hparent'
      cases hwrite.symm.trans hrefused
    | copied _ _ => rfl
    | untold _ _ _ => rfl
    | script _ _ _ _ => rfl

/-- An asset that is refused before anything is done leaves the tree as it is. -/
theorem Step.eq_of_refused (h : Step job entry t fate t')
    (hrefused : Path.isContained entry.relativePath = false ∨
      ∃ e, job.medium.range entry.offset (some entry.size) = .error e) : t' = t := by
  have hnot : ∀ {payload : Bytes}, Path.isContained entry.relativePath = true →
      job.medium.range entry.offset (some entry.size) ≠ .ok payload := by
    intro payload hpath hrange
    rcases hrefused with hno | ⟨e, hno⟩
    · rw [hpath] at hno
      cases hno
    · cases hrange.symm.trans hno
  have huncopied : ∀ {t₁ : FileTree}, ¬ Copies job entry t t₁ :=
    fun ⟨hpath, _, _, hrange, _⟩ => hnot hpath hrange
  cases h with
  | rejected _ => rfl
  | outOfRange _ _ => rfl
  | homeless hpath hrange _ => exact absurd hrange (hnot hpath)
  | unwritten hpath hrange _ _ => exact absurd hrange (hnot hpath)
  | copied hcopy _ => exact absurd hcopy huncopied
  | untold hcopy _ _ => exact absurd hcopy huncopied
  | script hcopy _ _ _ => exact absurd hcopy huncopied

/-- The bytes of an asset that were stored are at its target in the end. -/
theorem Step.keeps (h : Step job entry t fate t') (hcopied : fate.isCopied = true) :
    Keeps job t' (job.target entry)
      ((job.medium.data.drop entry.offset.toNat).take entry.size.toNat) := by
  cases h with
  | copied hcopy _ => exact hcopy.delivers.2
  | untold hcopy _ _ => exact hcopy.delivers.2
  | script hcopy hscript _ htext => exact htext.keeps hcopy.1 hscript hcopy.delivers.2
  | _ => cases hcopied

/-- **A script that cannot be decoded** leaves a placeholder if one can be written, and no
report. -/
theorem Step.undecoded {e : ScriptError} (h : Step job entry t fate t')
    (hcopy : ∀ t₂, Copies job entry t t₂ ↔ t₂ = t₁) (hdecompile : job.options.decompile = true)
    (hscript : entry.isScript = true) (hdecode : (decodeScript job entry).1 = .error e) :
    fate.written = ["", "_decompiled"] ∧
      ∀ t₂, t₁.writeFile (listingPath job entry) (Bytes.ofText (placeholder entry e)) = .ok t₂ →
        t'.Holds (job.target entry ++ "_decompiled") (Bytes.ofText (placeholder entry e)) := by
  have hcopied := h.isCopied_iff.2 ⟨t₁, (hcopy t₁).2 rfl⟩
  cases h with
  | copied _ hno =>
    rw [hscript] at hno
    cases hno
  | untold _ _ hno =>
    rw [hdecompile] at hno
    cases hno
  | script hcopy' _ _ htext =>
    obtain rfl := (hcopy _).1 hcopy'
    cases htext with
    | undecoded hdecode' hstore =>
      cases hdecode.symm.trans hdecode'
      refine ⟨rfl, fun _ _ => ?_⟩
      rw [listingPath_eq] at hstore
      rw [artifact_of_writeFile (by decide) hcopy'.1 hscript hstore] at hstore
      exact FileTree.holds_of_writeFile hstore
    | unmarked hdecode' hstore =>
      cases hdecode.symm.trans hdecode'
      refine ⟨rfl, fun t₂ hwrite => ?_⟩
      cases hwrite.symm.trans hstore
    | listed hdecode' _ _ => cases hdecode.symm.trans hdecode'
    | unreported hdecode' _ _ _ _ => cases hdecode.symm.trans hdecode'
    | unlisted hdecode' _ => cases hdecode.symm.trans hdecode'
  | _ => cases hcopied

/-- **What extracting an asset changes.** Whatever the asset, the container, the options and the
tree are:

* Nothing is removed, and what was a directory or a file stays one.
* If the path of the asset is not contained, or its bytes are not all in the container, the tree
  stays as it is.
* If the bytes cannot be copied, directories on the way to the target may have been made, and that
  is all.
* If they are copied, the target has them in the end. Apart from it and from directories on the way
  to it, only files at the target with `_decompiled` or `_dump` behind it are new or changed.
* If the asset is a script that cannot be decoded, no report is written, and the listing is a
  placeholder if it can be written at all. Its path is the target with `_decompiled` behind it, but
  for the name `..gdc`. -/
theorem extract_footprint (job : Job) (x : Extraction) (entry : Entry) :
    (∀ place node, x.tree.node? place = some node →
      ∃ node', (extract job x entry).tree.node? place = some node' ∧
        (node' = .directory ↔ node = .directory)) ∧
    ((Path.isContained entry.relativePath = false ∨
        ∃ e, job.medium.range entry.offset (some entry.size) = .error e) →
      (extract job x entry).tree = x.tree) ∧
    (Path.isContained entry.relativePath = true →
      ∀ payload, job.medium.range entry.offset (some entry.size) = .ok payload →
      (∀ reason, (x.copy job entry payload (job.target entry)).2 = .error reason →
        FileTree.Footprint (job.target entry) [] x.tree (extract job x entry).tree) ∧
      ((x.copy job entry payload (job.target entry)).2 = .ok () →
        entry.offset.toNat + entry.size.toNat ≤ job.medium.data.length ∧
        (extract job x entry).tree.readFile (job.target entry) =
          .ok ((job.medium.data.drop entry.offset.toNat).take entry.size.toNat) ∧
        FileTree.Footprint (job.target entry) [job.target entry,
          job.target entry ++ "_decompiled", job.target entry ++ "_dump"] x.tree
          (extract job x entry).tree ∧
        ∀ e, job.options.decompile = true → entry.isScript = true →
          (decodeScript job entry).1 = .error e →
          FileTree.Footprint (job.target entry) [job.target entry,
            job.target entry ++ "_decompiled"] x.tree (extract job x entry).tree ∧
          (∀ t, (x.copy job entry payload (job.target entry)).1.tree.writeFile
              (Path.withExtension (job.target entry) listingExtension)
              (Bytes.ofText (placeholder entry e)) = .ok t →
            (extract job x entry).tree.readFile (job.target entry ++ "_decompiled") =
              .ok (Bytes.ofText (placeholder entry e))) ∧
          ((Path.segments entry.relativePath).getLast? ≠ some "..gdc" →
            Path.withExtension (job.target entry) listingExtension =
              job.target entry ++ "_decompiled"))) := by
  obtain ⟨fate, hstep, -⟩ := step_extract job x entry
  have hfootprint := hstep.footprint
  refine ⟨fun place node hnode => hstep.alters.same_sort hnode, hstep.eq_of_refused,
    fun hcontained payload hrange => ⟨fun reason herror => ?_, fun hok => ?_⟩⟩
  · have hnot : fate.isCopied = false := by
      rw [← Bool.not_eq_true, hstep.isCopied_iff]
      rintro ⟨t₁, hcopy⟩
      rw [((copies_iff x hcontained hrange).1 hcopy).1] at herror
      cases herror
    rwa [Fate.written_of_not_isCopied hnot] at hfootprint
  · have hcopy : ∀ t₂, Copies job entry x.tree t₂ ↔
        t₂ = (x.copy job entry payload (job.target entry)).1.tree := fun t₂ => by
      rw [copies_iff x hcontained hrange, hok, eq_self, true_and]
    have hcopied := hstep.isCopied_iff.2 ⟨_, (hcopy _).2 rfl⟩
    obtain ⟨hinside, -⟩ := range_eq_ok hrange
    refine ⟨hinside, (hstep.keeps hcopied).2.readFile_eq, ?_,
      fun e hdecompile hscript hdecode => ?_⟩
    · have hmap := List.map_subset (job.target entry ++ ·) fate.written_subset
      simp only [List.map_cons, String.append_empty, List.map_nil] at hmap
      exact hfootprint.mono hmap
    · obtain ⟨hwritten, hplaceholder⟩ := hstep.undecoded hcopy hdecompile hscript hdecode
      rw [hwritten] at hfootprint
      simp only [List.map_cons, String.append_empty, List.map_nil] at hfootprint
      exact ⟨hfootprint, fun t hwrite => (hplaceholder t hwrite).readFile_eq, fun hlast =>
        (listingPath_eq job entry).trans (artifact_of_stem (by decide) hcontained hscript hlast)⟩

/-- A container of three bytes, extracted to a given directory with all that can be wanted. -/
def bytesJob (output : String) : Job := ⟨⟨[1, 2, 3]⟩, output, ⟨true, true, true⟩⟩

/-- Three bytes from a given offset on, which are no script. -/
def noScript (offset : UInt64) : Entry := ⟨"res://a/b.gdc", offset, 3, []⟩

/-- Why they are none. -/
def noScriptError : ScriptError := .record (.truncated .header ⟨0, 24, 3⟩)

/-- The tree once they were copied. -/
def noScriptCopied : FileTree :=
  (copy ⟨outAndKeep, {}, []⟩ (bytesJob "out") (noScript 0) [1, 2, 3]
    ((bytesJob "out").target (noScript 0))).1.tree

theorem extract_footprint_noScript :
    (extract (bytesJob "out") ⟨outAndKeep, {}, []⟩ (noScript 1)).tree = outAndKeep ∧
    FileTree.Footprint ((bytesJob "keep").target (noScript 0)) [] outAndKeep
      (extract (bytesJob "keep") ⟨outAndKeep, {}, []⟩ (noScript 0)).tree ∧
    (extract (bytesJob "out") ⟨outAndKeep, {}, []⟩ (noScript 0)).tree.readFile
      ((bytesJob "out").target (noScript 0)) = .ok [1, 2, 3] ∧
    (extract (bytesJob "out") ⟨outAndKeep, {}, []⟩ (noScript 0)).tree.readFile
      ((bytesJob "out").target (noScript 0) ++ "_decompiled") =
        .ok (Bytes.ofText (placeholder (noScript 0) noScriptError)) := by
  obtain ⟨-, hrefused, -⟩ := extract_footprint (bytesJob "out") ⟨outAndKeep, {}, []⟩ (noScript 1)
  obtain ⟨-, -, hblocked⟩ := extract_footprint (bytesJob "keep") ⟨outAndKeep, {}, []⟩ (noScript 0)
  obtain ⟨-, -, hcopied⟩ := extract_footprint (bytesJob "out") ⟨outAndKeep, {}, []⟩ (noScript 0)
  have hcontained : Path.isContained (noScript 0).relativePath = true := by decide
  have hdecode : (decodeScript (bytesJob "out") (noScript 0)).1 = .error noScriptError := by rfl
  have hfails : (copy ⟨outAndKeep, {}, []⟩ (bytesJob "keep") (noScript 0) [1, 2, 3]
      ((bytesJob "keep").target (noScript 0))).2 =
        .error (storeReason "create" "keep/a" .notDirectory) := by decide +kernel
  have hsucceeds : (copy ⟨outAndKeep, {}, []⟩ (bytesJob "out") (noScript 0) [1, 2, 3]
      ((bytesJob "out").target (noScript 0))).2 = .ok () := by decide +kernel
  have hwrites : (noScriptCopied.writeFile
      (Path.withExtension ((bytesJob "out").target (noScript 0)) listingExtension)
      (Bytes.ofText (placeholder (noScript 0) noScriptError))).isOk = true := by decide +kernel
  obtain ⟨-, hbytes, -, htext⟩ := (hcopied hcontained [1, 2, 3] rfl).2 hsucceeds
  obtain ⟨-, hplaceholder, -⟩ := htext noScriptError rfl (by decide) hdecode
  refine ⟨hrefused (.inr ⟨_, rfl⟩), (hblocked hcontained [1, 2, 3] rfl).1 _ hfails, hbytes, ?_⟩
  cases hwrite : noScriptCopied.writeFile
      (Path.withExtension ((bytesJob "out").target (noScript 0)) listingExtension)
      (Bytes.ofText (placeholder (noScript 0) noScriptError)) with
  | error fault =>
    rw [hwrite] at hwrites
    cases hwrites
  | ok t => exact hplaceholder t hwrite

end Extraction

end AssetPack
