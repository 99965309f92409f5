import AssetPack.Proofs.FileTree.Entering

/-!
# What the operations on a file tree keep

Making directories and writing files takes nothing away. A directory stays a directory, so a path
that can be entered stays so, and a file can only be replaced by a file that is written at its very
place. `FileTree.Alters` says this of two trees, and it composes, so it holds of any number of
operations one after the other.

A file that is written can be read back under the same path, and with the above it stays readable
until something else is written at its place.

## Main definitions

* `FileTree.Alters`: what was there is still there, apart from files at given places.
* `FileTree.Holds`: a path leads to a file with a given content.

## Main results

* `FileTree.holds_of_writeFile`: what is written can be read.
* `FileTree.Alters.holds`: what can be read stays so.
-/

namespace AssetPack.FileTree

open AssetPack.Path (Component components)

variable {t t' t'' : FileTree} {path : String} {here place : Place} {content : Bytes}
  {written written' : Place → Prop}

/-- All that was there is still there: directories may have been made where nothing was, and files
may have been written at the places in `written`, where no directory was. -/
structure Alters (written : Place → Prop) (before after : FileTree) : Prop where
  workingDir : after.workingDir = before.workingDir
  node? : ∀ place, after.node? place = before.node? place ∨
    (before.node? place = none ∧ after.node? place = some .directory) ∨
    (written place ∧ before.node? place ≠ some .directory ∧
      ∃ content, after.node? place = some (.file content))

namespace Alters

theorem refl (written : Place → Prop) (t : FileTree) : Alters written t t :=
  ⟨rfl, fun _ => .inl rfl⟩

theorem mono (h : Alters written t t') (hsub : ∀ place, written place → written' place) :
    Alters written' t t' := by
  refine ⟨h.workingDir, fun place => ?_⟩
  rcases h.node? place with hsame | hmade | ⟨hwritten, hrest⟩
  · exact .inl hsame
  · exact .inr (.inl hmade)
  · exact .inr (.inr ⟨hsub place hwritten, hrest⟩)

theorem trans (h : Alters written t t') (h' : Alters written t' t'') : Alters written t t'' := by
  refine ⟨h'.workingDir.trans h.workingDir, fun place => ?_⟩
  rcases h.node? place with hsame | ⟨hnone, hmade⟩ | ⟨hwritten, hnode, content, hfile⟩
  · have hnext := h'.node? place
    rwa [hsame] at hnext
  · -- a directory by now, which the second leaves as it is
    rcases h'.node? place with hsame | ⟨hmissing, -⟩ | ⟨-, hdirectory, -⟩
    · exact .inr (.inl ⟨hnone, hsame.trans hmade⟩)
    · rw [hmade] at hmissing
      cases hmissing
    · exact absurd hmade hdirectory
  · rcases h'.node? place with hsame | ⟨hmissing, -⟩ | ⟨-, -, content', hfile'⟩
    · exact .inr (.inr ⟨hwritten, hnode, content, hsame.trans hfile⟩)
    · rw [hfile] at hmissing
      cases hmissing
    · exact .inr (.inr ⟨hwritten, hnode, content', hfile'⟩)

/-! ### What stays -/

theorem directory (h : Alters written t t') (hnode : t.node? place = some .directory) :
    t'.node? place = some .directory := by
  rcases h.node? place with hsame | ⟨hnone, -⟩ | ⟨-, hno, -⟩
  · rw [hsame, hnode]
  · rw [hnode] at hnone
    cases hnone
  · exact absurd hnode hno

theorem file (h : Alters written t t') (hnode : t.node? place = some (.file content))
    (hplace : ¬ written place) : t'.node? place = some (.file content) := by
  rcases h.node? place with hsame | ⟨hnone, -⟩ | ⟨hwritten, -, -⟩
  · rw [hsame, hnode]
  · rw [hnode] at hnone
    cases hnone
  · exact absurd hwritten hplace

theorem node?_ne_none (h : Alters written t t') (hnode : t.node? place ≠ none) :
    t'.node? place ≠ none := by
  rcases h.node? place with hsame | ⟨hnone, -⟩ | ⟨-, -, content, hfile⟩
  · rwa [hsame]
  · exact absurd hnone hnode
  · rw [hfile]
    exact Option.some_ne_none _

theorem directoryAt (h : Alters written t t') (hat : t.directoryAt here = .ok place) :
    t'.directoryAt here = .ok place := by
  obtain ⟨rfl, hnode⟩ := directoryAt_ok hat
  exact directoryAt_of_node? (h.directory hnode)

theorem enter (h : Alters written t t') {cs : List Component}
    (henter : t.enter here cs = .ok place) : t'.enter here cs = .ok place := by
  induction cs generalizing here with
  | nil => exact h.directoryAt henter
  | cons c rest ih =>
    cases c with
    | root => exact ih henter
    | here => exact ih henter
    | up =>
      rw [FileTree.enter] at henter
      split at henter
      · cases henter
      · next there hat =>
        rw [FileTree.enter, h.directoryAt hat]
        exact ih henter
    | name text =>
      rw [FileTree.enter] at henter
      split at henter
      · cases henter
      · next there hat =>
        split at henter
        · cases henter
        · next hshort =>
          rw [FileTree.enter, h.directoryAt hat]
          simp only [if_neg hshort]
          exact ih henter

theorem aims (h : Alters written t t') (haims : t.Aims path place) : t'.Aims path place := by
  obtain ⟨hrefusal, name, parent, hends, hshort, henter, rfl⟩ := haims
  refine ⟨hrefusal, name, parent, hends, hshort, ?_, rfl⟩
  rw [h.workingDir]
  exact h.enter henter

theorem destination_eq (h : Alters written t t') (path : String) :
    t'.destination path = t.destination path :=
  destination_congr h.workingDir path

/-! ### What the operations do -/

theorem put_directory (hne : place ≠ []) (hnone : t.node? place = none) :
    Alters written t (t.put place .directory) := by
  refine ⟨rfl, fun other => ?_⟩
  rw [node?_put t hne]
  by_cases heq : other = place
  · rw [if_pos heq, heq]
    exact .inr (.inl ⟨hnone, rfl⟩)
  · exact .inl (if_neg heq)

theorem put_file (hne : place ≠ []) (hnode : t.node? place ≠ some .directory)
    (hplace : written place) : Alters written t (t.put place (.file content)) := by
  refine ⟨rfl, fun other => ?_⟩
  rw [node?_put t hne]
  by_cases heq : other = place
  · rw [if_pos heq, heq]
    exact .inr (.inr ⟨hplace, hnode, content, rfl⟩)
  · exact .inl (if_neg heq)

end Alters

theorem alters_makeDirectory (h : t.makeDirectory path = .ok t') : Alters written t t' := by
  obtain ⟨rfl, hnone, _, _, hend⟩ := makeDirectory_ok h
  exact .put_directory (destination_ne_nil hend) hnone

/-- Making directories, as far as it comes, only adds directories. -/
theorem alters_createChain (written : Place → Prop) (t : FileTree) (paths : List String) :
    Alters written t (t.createChain paths).1 := by
  induction paths with
  | nil => exact .refl written t
  | cons path parents ih =>
    rw [createChain]
    split
    · exact .refl written t
    · split
      · next made hmade => exact alters_makeDirectory hmade
      · split
        · next grown _ hgrown =>
          rw [hgrown] at ih
          exact ih
        · next grown hgrown =>
          rw [hgrown] at ih
          split
          · next made hmade => exact ih.trans (alters_makeDirectory hmade)
          · exact ih
      · exact .refl written t

theorem alters_createAll (written : Place → Prop) (t : FileTree) (path : String) :
    Alters written t (t.createAll path).1 :=
  alters_createChain written t (Path.ancestors path)

theorem alters_writeFile (h : t.writeFile path content = .ok t')
    (hplace : written (t.destination path)) : Alters written t t' := by
  obtain ⟨place, haims, hnode, rfl⟩ := writeFile_eq_ok_iff.1 h
  rw [← haims.eq_destination] at hplace
  exact .put_file haims.ne_nil hnode hplace

/-! ### Files -/

/-- A path leads to a file with a given content, through directories that are there. -/
def Holds (t : FileTree) (path : String) (content : Bytes) : Prop :=
  t.Aims path (t.destination path) ∧ t.node? (t.destination path) = some (.file content)

theorem Holds.readFile_eq (h : t.Holds path content) : t.readFile path = .ok content :=
  h.1.readFile_eq h.2

/-- **What is written can be read.** -/
theorem holds_of_writeFile (h : t.writeFile path content = .ok t') : t'.Holds path content := by
  have halters : Alters (fun _ => True) t t' := alters_writeFile h trivial
  obtain ⟨place, haims, -, rfl⟩ := writeFile_eq_ok_iff.1 h
  rw [Holds, halters.destination_eq, ← haims.eq_destination]
  refine ⟨halters.aims haims, ?_⟩
  rw [node?_put t haims.ne_nil, if_pos rfl]

/-- **What can be read stays so** while nothing else is written at its place. -/
theorem Alters.holds (h : Alters written t t') (hholds : t.Holds path content)
    (hplace : ¬ written (t.destination path)) : t'.Holds path content := by
  rw [Holds, h.destination_eq]
  exact ⟨h.aims hholds.1, h.file hholds.2 hplace⟩

end AssetPack.FileTree
