import AssetPack.Proofs.Extraction.Order
import AssetPack.Proofs.FileTree.Clearing
import AssetPack.Proofs.Run.Outcome

/-!
# A run that starts afresh

Unless it is told to keep what is there, a run removes an old output directory before it makes the
new one. Nothing of the old one is then left to be seen: trees that differ in the output directory
only lead to the same tree and the same counts, and no old file or directory can have been in the
way of an asset.

Whether preparing succeeds at all could still depend on the old directory, since it is removed where
it is there and only made where it is missing. It does not depend on it, because both ask the same
of the path: it must be one that a tree can be asked about, its names must not be too long, and it
must end in a name (`Run.Usable`).

What does depend on it is whether the container is found. A path may lead through the output
directory and out again by a step up, and such a path leads nowhere if the directory is missing.

## Main definitions

* `Run.Usable`: a path that can be prepared.

## Main results

* `Run.prepare_eq_createOutput`: preparing afresh is making the directory in a cleared tree.
* `Run.run_afresh`: what was in the output directory does not matter.
* `Run.run_through_output`: unless the container is found through it.
-/

namespace AssetPack

open Container
open FileTree (AllShort Cleared DifferIn Like LikeOutside Settled)
open AssetPack.Path (components)

namespace Run

variable {request : CommandLine.Request} {words : List String} {t u : FileTree}
  {directory : String} {names : List String}

/-! ### Preparing afresh -/

/-- What a path must be like to be the output directory of a run, whatever the tree. -/
structure Usable (directory : String) (names : List String) : Prop where
  /-- A tree can be asked about it. -/
  refusal : FileTree.refusal? directory = none
  /-- No name is too long. -/
  short : AllShort names
  /-- It ends in a name. -/
  ends : Path.Ends directory

theorem createAll_of_createOutput {notices : List Notice}
    (h : (createOutput t directory notices).failure = none) :
    t.createAll directory = ((createOutput t directory notices).tree, .ok ()) := by
  rw [createOutput] at h ⊢
  split at h
  · next made hcreate => rw [hcreate]
  · cases h

theorem allShort_of_createOutput {notices : List Notice} (hpath : Path.Descends directory names)
    (h : (createOutput t directory notices).failure = none) :
    FileTree.refusal? directory = none ∧ AllShort names := by
  have hne : directory ≠ "" := by
    rintro rfl
    obtain ⟨front, name, hlast⟩ := hpath.exists_last
    exact absurd hlast (List.concat_ne_nil _ front).symm
  exact FileTree.allShort_of_isDirectory hpath
    (FileTree.isDirectory_of_createAll hne (createAll_of_createOutput h))

/-- **A directory that could be prepared has a path that can be used.** -/
theorem usable_of_prepare (hpath : Path.Descends directory names)
    (ht : t.Replaceable (t.destination directory))
    (h : (prepare t directory false).failure = none) : Usable directory names := by
  rw [prepare, Bool.not_false, Bool.and_true] at h
  split at h
  · next hexists =>
    have hthere : t.node? (t.destination directory) ≠ none := by
      intro hnone
      rw [FileTree.pathExists_eq_false hpath hnone] at hexists
      cases hexists
    have hdirectory := FileTree.isDirectory_of_pathExists hexists (ht.node.resolve_left hthere)
    split at h
    · cases h
    · next gone hremove =>
      obtain ⟨hrefusal, hshort⟩ := allShort_of_createOutput hpath h
      refine ⟨hrefusal, hshort, ?_⟩
      by_contra hends
      obtain ⟨g, e, hfailed⟩ := (FileTree.removeAll_of_isDirectory hpath hdirectory).2 hends
      rw [hremove] at hfailed
      cases hfailed
  · next hexists =>
    obtain ⟨hrefusal, hshort⟩ := allShort_of_createOutput hpath h
    refine ⟨hrefusal, hshort, ?_⟩
    -- a directory that was there would have been found by a path that can make it
    have hnone : t.node? (t.destination directory) = none := by
      refine ht.node.resolve_right fun hnode => hexists ?_
      exact FileTree.pathExists_of_isDirectory
        (ht.rooted.isDirectory hpath hrefusal hshort hnode)
    exact FileTree.ends_of_createAll hpath (createAll_of_createOutput h) hnone

/-- **Preparing afresh is making the directory in a cleared tree.** -/
theorem prepare_eq_createOutput (hpath : Path.Descends directory names)
    (ht : t.Replaceable (t.destination directory)) (h : Usable directory names) :
    ∃ g notices, Cleared (t.destination directory) t g ∧
      prepare t directory false = createOutput g directory notices := by
  rcases ht.node with hnone | hnode
  · have hexists := FileTree.pathExists_eq_false hpath hnone
    refine ⟨t, [], ht.rooted.cleared hnone, ?_⟩
    simp only [prepare, hexists, Bool.false_and, Bool.false_eq_true, if_false]
  · have hdirectory := ht.rooted.isDirectory hpath h.refusal h.short hnode
    have hexists := FileTree.pathExists_of_isDirectory hdirectory
    obtain ⟨g, hremove, hcleared⟩ :=
      (FileTree.removeAll_of_isDirectory hpath hdirectory).1 h.ends
    refine ⟨g, [.removing directory], hcleared, ?_⟩
    simp only [prepare, hexists, hremove, Bool.not_false, Bool.and_true, if_true]

theorem createOutput_of_createAll {notices : List Notice} {made : FileTree}
    (h : t.createAll directory = (made, .ok ())) :
    createOutput t directory notices = ⟨made, notices, none⟩ := by
  rw [createOutput, h]

/-- Trees that differ in the output directory only are prepared alike. -/
theorem prepare_like (hpath : Path.Descends directory names)
    (hdiffer : DifferIn (t.destination directory) t u)
    (h : (prepare t directory false).failure = none) :
    (prepare u directory false).failure = none ∧
      Like (prepare t directory false).tree (prepare u directory false).tree ∧
      (prepare t directory false).tree.isDirectory directory = true := by
  obtain ⟨hlike, ht, hu⟩ := hdiffer
  have husable := usable_of_prepare hpath ht h
  have hne : directory ≠ "" := (FileTree.refusal?_eq_none_iff.1 husable.refusal).2.1
  obtain ⟨g, notices, hg, hprepare⟩ := prepare_eq_createOutput hpath ht husable
  rw [← hlike.destination_eq] at hu
  obtain ⟨g', notices', hg', hprepare'⟩ := prepare_eq_createOutput hpath hu husable
  rw [hlike.destination_eq] at hg'
  rw [hprepare] at h
  have hmade := createAll_of_createOutput h
  obtain ⟨hlike', hok⟩ := (hlike.like hg hg').createAll directory
  have hmade' : g'.createAll directory = ((g'.createAll directory).1, .ok ()) :=
    Prod.ext rfl (hok.trans (by rw [hmade]))
  rw [hmade] at hlike'
  rw [hprepare, hprepare', createOutput_of_createAll hmade']
  exact ⟨rfl, hlike', FileTree.isDirectory_of_createAll hne hmade⟩

/-! ### Extracting into trees that are alike -/

/-- Where the output directory is there, extracting does not tell trees apart, and neither do
notices that went before. -/
theorem extractAll_like (job : Job) (entries : List Entry) (h : Like t u)
    (ht : t.isDirectory job.output = true) (notices notices' : List Notice) :
    Like (Extraction.extractAll job ⟨t, {}, notices⟩ entries).tree
        (Extraction.extractAll job ⟨u, {}, notices'⟩ entries).tree ∧
      (Extraction.extractAll job ⟨u, {}, notices'⟩ entries).stats =
        (Extraction.extractAll job ⟨t, {}, notices⟩ entries).stats := by
  have hsettled : ∀ {v : FileTree}, Like t v →
      Settled (components job.output) (some (t.destination job.output)) v := by
    intro v hv
    have hdirectory : v.isDirectory job.output = true := (hv.isDirectory_eq _).trans ht
    obtain ⟨-, place, henter⟩ := FileTree.isDirectory_iff.1 hdirectory
    have hplace : place = v.destination job.output := (FileTree.enter_ok henter).1
    rw [hplace, hv.destination_eq] at henter
    exact FileTree.pave_of_enter (FileTree.root_not_mem_tail job.output) henter
  have hstart : Extraction.Alike (t, {}) (u, {}) := ⟨h.workingDir, h.node?, rfl⟩
  have halike := hstart.foldl_account (hsettled (.refl t)) (hsettled h) entries
  rw [← Extraction.extractAll_account job ⟨t, {}, notices⟩,
    ← Extraction.extractAll_account job ⟨u, {}, notices'⟩] at halike
  exact ⟨⟨halike.workingDir, halike.node?⟩, halike.stats⟩

/-! ### Runs -/

/-- If a run that starts afresh completes in one of two trees that differ in the output directory
only, and the container is found in the other, it completes there too, and nothing tells the two
apart. -/
theorem run_like_of_completed (hparse : CommandLine.parse words = .ok request)
    (hfresh : request.keepExisting = false)
    (hpath : Path.Descends (outputDirectory request) names)
    (hdiffer : DifferIn (t.destination (outputDirectory request)) t u)
    (hinput : ¬ t.destination (outputDirectory request) <+: t.destination request.input)
    (hexists : u.pathExists request.input = t.pathExists request.input)
    (h : (run words t).ending = .completed) :
    (run words u).ending = .completed ∧ Like (run words t).tree (run words u).tree ∧
      ∃ stats, (run words t).notices.getLast? = some (farewell stats (outputDirectory request)) ∧
        (run words u).notices.getLast? = some (farewell stats (outputDirectory request)) := by
  obtain ⟨data, index, hread, hheads, hfailure⟩ := exists_of_completed hparse h
  have hread' := hdiffer.outside.readFile_eq hinput hexists hread
  have hprepared : (prepared request u).failure = none ∧
      Like (prepared request t).tree (prepared request u).tree ∧
      (prepared request t).tree.isDirectory (outputDirectory request) = true := by
    simp only [prepared, hfresh] at hfailure ⊢
    exact prepare_like hpath hdiffer hfailure
  obtain ⟨hfailure', hlike, hdirectory⟩ := hprepared
  have hinput' : ¬ u.destination (outputDirectory request) <+: u.destination request.input := by
    rwa [hdiffer.outside.destination_eq, hdiffer.outside.destination_eq]
  obtain ⟨notices, -, htree, hlast⟩ :=
    run_of_prepared hparse hread hheads hfailure (unowned_of_outside hinput)
  obtain ⟨notices', hending', htree', hlast'⟩ :=
    run_of_prepared hparse hread' hheads hfailure' (unowned_of_outside hinput')
  obtain ⟨htrees, hstats⟩ :=
    extractAll_like (job request data) index.entries hlike hdirectory notices notices'
  refine ⟨hending', ?_, _, hlast, ?_⟩
  · rw [htree, htree']
    exact htrees
  · rw [hlast', hstats]

/-- **What was in the output directory does not matter** to a run that starts afresh. Let the path
of the output directory go down by names only, and let two trees differ in that directory only,
which may be missing in either, while the container is elsewhere. If the container is found in both
trees or in neither, the run completes in both or in neither, and if it does, the same is everywhere
in the end and the same has been counted. The container is found in both or in neither if its path
does not lead through the output directory. -/
theorem run_afresh (hparse : CommandLine.parse words = .ok request)
    (hfresh : request.keepExisting = false)
    (hpath : Path.Descends (outputDirectory request) names)
    (hdiffer : DifferIn (t.destination (outputDirectory request)) t u)
    (hinput : ¬ t.destination (outputDirectory request) <+: t.destination request.input) :
    (t.Avoids request.input (t.destination (outputDirectory request)) →
      u.pathExists request.input = t.pathExists request.input) ∧
    (u.pathExists request.input = t.pathExists request.input →
      ((run words u).ending = .completed ↔ (run words t).ending = .completed) ∧
      ((run words t).ending = .completed →
        Like (run words t).tree (run words u).tree ∧
        ∃ stats,
          (run words t).notices.getLast? = some (farewell stats (outputDirectory request)) ∧
          (run words u).notices.getLast? = some (farewell stats (outputDirectory request)))) := by
  constructor
  · intro havoids
    rw [FileTree.pathExists, FileTree.pathExists, hdiffer.outside.resolve_eq havoids]
  · intro hexists
    refine ⟨⟨fun hcompleted => ?_, fun hcompleted => ?_⟩, fun hcompleted => ?_⟩
    · have hdiffer' := hdiffer.symm
      rw [← hdiffer.outside.destination_eq] at hdiffer' hinput
      rw [← hdiffer.outside.destination_eq request.input] at hinput
      exact (run_like_of_completed hparse hfresh hpath hdiffer' hinput hexists.symm hcompleted).1
    · exact (run_like_of_completed hparse hfresh hpath hdiffer hinput hexists hcompleted).1
    · exact (run_like_of_completed hparse hfresh hpath hdiffer hinput hexists hcompleted).2

/-- A container beside an output directory in which a directory has the name of its asset. -/
def staleOutput : FileTree :=
  ⟨["home"], [(["home"], .directory), (["home", "game.pck"], .file (gamePack 0)),
    (["home", "out"], .directory), (["home", "out", "game.pck"], .directory),
    (["home", "out", "game.pck", "old"], .file [1])]⟩

/-- The same tree without the output directory. -/
def missingOutput : FileTree := (staleOutput.clearBelow ["home", "out"]).remove ["home", "out"]

theorem staleOutput_differIn : DifferIn ["home", "out"] staleOutput missingOutput where
  outside := (FileTree.cleared_remove_clearBelow staleOutput (by decide)).likeOutside
  left := ⟨.of_nodes (by decide +kernel), .inr (by decide +kernel)⟩
  right := ⟨.of_nodes (by decide +kernel), .inl (by decide +kernel)⟩

theorem run_afresh_staleOutput :
    DifferIn ["home", "out"] staleOutput missingOutput ∧
      (run ["game.pck", "-o", "out"] missingOutput).ending = .completed ∧
      Like (run ["game.pck", "-o", "out"] staleOutput).tree
        (run ["game.pck", "-o", "out"] missingOutput).tree ∧
      (run ["game.pck", "-o", "out"] staleOutput).tree.node? ["home", "out", "game.pck"] =
        some (.file []) := by
  have hparse : CommandLine.parse ["game.pck", "-o", "out"] =
      .ok ⟨"game.pck", some "out", false, false, false, false, false⟩ := by decide +kernel
  have hplain : Path.isContained "out" = true := by decide +kernel
  obtain ⟨names, hpath⟩ := Path.exists_descends hplain
  have hdiffer : DifferIn (staleOutput.destination "out") staleOutput missingOutput := by
    rw [show staleOutput.destination "out" = ["home", "out"] by decide +kernel]
    exact staleOutput_differIn
  have hcompleted : (run ["game.pck", "-o", "out"] staleOutput).ending = .completed := by
    decide +kernel
  obtain ⟨-, hafresh⟩ := run_afresh hparse rfl hpath hdiffer (by decide +kernel)
  obtain ⟨hiff, hlike⟩ := hafresh (by decide +kernel)
  exact ⟨staleOutput_differIn, hiff.2 hcompleted, (hlike hcompleted).1, by decide +kernel⟩

/-- A path that leads through the output directory and out again finds the container only while the
directory is there. -/
theorem run_through_output :
    CommandLine.parse ["out/../game.pck", "-o", "out"] =
        .ok ⟨"out/../game.pck", some "out", false, false, false, false, false⟩ ∧
      Path.isContained "out" = true ∧ staleOutput.destination "out" = ["home", "out"] ∧
      DifferIn ["home", "out"] staleOutput missingOutput ∧
      staleOutput.destination "out/../game.pck" = ["home", "game.pck"] ∧
      (run ["out/../game.pck", "-o", "out"] staleOutput).ending = .completed ∧
      (run ["out/../game.pck", "-o", "out"] missingOutput).ending.status = 1 :=
  ⟨by decide +kernel, by decide +kernel, by decide +kernel, staleOutput_differIn, by decide +kernel,
    by decide +kernel, by decide +kernel⟩

end Run

end AssetPack
