import AssetPack.Proofs.FileTree

/-!
# What removing a directory takes away

`FileTree.removeAll` first clears what is below the directory and then takes the directory itself.
The second part resolves the path anew, in a tree that has less in it, and may no longer find the
directory. Either way nothing goes but what is at the destination of the path or below it, so
removing is confined as making and writing are.

## Main results

* `FileTree.removeDirectory_ok`: all that removing an empty directory does.
* `FileTree.confined_removeAll`: removing takes nothing from elsewhere.
-/

namespace AssetPack.FileTree

open AssetPack.Path (Component components)

variable {t t' : FileTree} {path : String} {place : Place}

theorem lookup_filter (keep : Place → Bool) (nodes : List (Place × Node)) (q : Place) :
    (nodes.filter fun entry => keep entry.1).lookup q =
      if keep q then nodes.lookup q else none := by
  induction nodes with
  | nil => simp
  | cons entry rest ih =>
    obtain ⟨p, n⟩ := entry
    by_cases hq : q = p
    · subst hq
      by_cases hkeep : keep q = true
      · simp [List.filter_cons_of_pos, hkeep]
      · have hdrop : keep q = false := by simpa using hkeep
        rw [List.filter_cons_of_neg (by simpa using hdrop), ih]
        simp [hdrop]
    · have hne : (q == p) = false := by simpa using hq
      rw [List.filter_cons]
      split
      · rw [List.lookup_cons, List.lookup_cons, hne, ih]
      · rw [List.lookup_cons, hne, ih]

theorem isBelow_iff {above : Place} :
    isBelow above place = true ↔ above <+: place ∧ place ≠ above := by
  simp [isBelow]

theorem node?_clearBelow (t : FileTree) (place q : Place) :
    (t.clearBelow place).node? q = if isBelow place q then none else t.node? q := by
  by_cases hq : q = []
  · subst hq
    have hroot : isBelow place [] = false := by
      cases place with
      | nil => rfl
      | cons name rest => rfl
    simp [node?, hroot]
  · simp only [node?, if_neg hq, clearBelow, lookup_filter fun p => !isBelow place p]
    cases isBelow place q with
    | true => rfl
    | false => rfl

theorem node?_remove (t : FileTree) (hplace : place ≠ []) (q : Place) :
    (t.remove place).node? q = if q = place then none else t.node? q := by
  by_cases hq : q = []
  · subst hq
    simp [node?, hplace.symm]
  · simp only [node?, if_neg hq, remove, lookup_filter fun p => p != place]
    by_cases heq : q = place
    · simp [heq]
    · simp [heq]

/-- All that removing an empty directory can do. -/
theorem removeDirectory_ok (h : t.removeDirectory path = .ok t') :
    t' = t.remove (t.destination path) ∧ ∃ front name, components path = front ++ [.name name] := by
  rw [removeDirectory] at h
  split at h
  · cases h
  · next slot hlocate =>
    split at h
    · cases h
    · split at h
      · cases h
      · next place hplace =>
        obtain ⟨rfl, hend⟩ := place_of_locate hlocate hplace
        split at h
        · cases h
        · cases h
          exact ⟨rfl, hend⟩

theorem confined_clearBelow (t : FileTree) (path : String) :
    Confined path t (t.clearBelow (t.destination path)) := by
  refine ⟨rfl, fun place hplace => .inl ?_⟩
  rw [node?_clearBelow, if_neg]
  intro hbelow
  exact hplace (isBelow_iff.1 hbelow).1

theorem confined_removeDirectory (h : t.removeDirectory path = .ok t') : Confined path t t' := by
  obtain ⟨rfl, _, _, hend⟩ := removeDirectory_ok h
  refine ⟨rfl, fun place hplace => .inl ?_⟩
  rw [node?_remove t (destination_ne_nil hend), if_neg]
  rintro rfl
  exact hplace (List.prefix_refl _)

/-- **Removing a directory takes nothing from elsewhere**, whether or not it succeeds. -/
theorem confined_removeAll (t : FileTree) (path : String) :
    Confined path t (t.removeAll path).1 := by
  rw [removeAll]
  split
  · exact .refl path t
  · next place hresolve =>
    split
    · obtain rfl := destination_of_resolve hresolve
      have hcleared := confined_clearBelow t path
      dsimp only
      split
      · next gone hgone => exact hcleared.trans (confined_removeDirectory hgone)
      · exact hcleared
      · exact hcleared
    · exact .refl path t

/-- What is no directory is not removed. -/
theorem removeAll_of_not_isDirectory (h : t.isDirectory path = false) :
    (t.removeAll path).1 = t := by
  rw [isDirectory] at h
  rw [removeAll]
  split
  · rfl
  · next place hresolve =>
    simp only [hresolve] at h
    split
    · next hnode =>
      rw [hnode] at h
      cases h
    · rfl

end AssetPack.FileTree
