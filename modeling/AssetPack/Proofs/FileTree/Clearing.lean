import AssetPack.Proofs.FileTree.Paving
import AssetPack.Proofs.FileTree.Removal

/-!
# Taking a directory away and making it again

A tree is *cleared* of a directory if nothing is left at its place or below it. Removing a directory
clears it, if the path can be used for that, and where no directory is the tree is clear already,
since nothing is ever below nothing (`FileTree.Rooted`). What the directory held makes no difference
to what is left, so two trees that differ in it only have become one, as far as anyone can see.

Seeing is `FileTree.node?`. A tree is a list of nodes, and trees with their nodes in another order
are different lists, but no operation tells them apart. `FileTree.Like` is this likeness, and it is
followed here as far as making directories.

Whether a path can be used for removing and for making is a matter of its text. Both want it to end
in a name, slashes apart (`Path.Ends`). Under the path `out/.` a directory can be entered that is
there, but it can neither be removed nor, if it is missing, be made.

## Main definitions

* `FileTree.Like`: trees that no operation tells apart.
* `FileTree.Rooted`: whatever is somewhere is in a directory.
* `FileTree.Cleared`: a tree without what is at a place or below it.
* `FileTree.DifferIn`: trees that differ in a directory only, which may be missing in either.
* `Path.Descends`: a path that goes down by names only.

## Main results

* `FileTree.Like.createAll`: making directories does not tell trees apart.
* `FileTree.isDirectory_of_createAll`: what has been made is there.
* `FileTree.removeAll_of_isDirectory`: removing a directory clears it, or fails.
* `FileTree.ends_of_createAll`: only a path that ends in a name can be made.
-/

namespace AssetPack

open AssetPack.Path (Component components component? segments)

namespace FileTree

variable {t u : FileTree} {path : String} {here place root : Place}

/-! ### Likeness -/

/-- The same is at every place, and relative paths start at the same. -/
structure Like (t u : FileTree) : Prop where
  /-- Relative paths start at the same place. -/
  workingDir : u.workingDir = t.workingDir
  /-- The same is at every place. -/
  node? : ∀ q, u.node? q = t.node? q

namespace Like

theorem refl (t : FileTree) : Like t t := ⟨rfl, fun _ => rfl⟩

theorem destination_eq (h : Like t u) (path : String) :
    u.destination path = t.destination path :=
  destination_congr h.workingDir path

theorem walk_eq (h : Like t u) (here : Place) (body : List String) :
    u.walk here body = t.walk here body := by
  induction body generalizing here with
  | nil => rfl
  | cons segment rest ih => simp only [walk, follow, h.node?, ih]

theorem locate_eq (h : Like t u) (path : String) : u.locate path = t.locate path := by
  simp only [locate, origin, h.workingDir, h.walk_eq]

theorem isDirectory_eq (h : Like t u) (path : String) :
    u.isDirectory path = t.isDirectory path := by
  simp only [isDirectory, resolve, origin, h.workingDir, h.walk_eq, h.node?]

theorem put (h : Like t u) (hplace : place ≠ []) (node : Node) :
    Like (t.put place node) (u.put place node) :=
  ⟨h.workingDir, fun q => by rw [node?_put u hplace, node?_put t hplace, h.node?]⟩

/-- A directory can be made in both or in neither, and for the same reason. -/
theorem makeDirectory_eq (h : Like t u) (path : String) :
    u.makeDirectory path =
      (t.makeDirectory path).map fun _ => u.put (t.destination path) .directory := by
  rw [makeDirectory, makeDirectory, h.locate_eq]
  cases hlocate : t.locate path with
  | error e => rfl
  | ok slot =>
    dsimp only
    cases hplace : slot.place .alreadyExists with
    | error e => rfl
    | ok place =>
      obtain ⟨rfl, -⟩ := place_of_locate hlocate hplace
      dsimp only
      rw [h.node?]
      cases t.node? (t.destination path) with
      | none => rfl
      | some node => rfl

theorem makeOrFind (h : Like t u) (path : String) :
    Like (t.makeOrFind path).1 (u.makeOrFind path).1 ∧
      (u.makeOrFind path).2 = (t.makeOrFind path).2 := by
  rw [FileTree.makeOrFind, FileTree.makeOrFind, h.makeDirectory_eq, h.isDirectory_eq]
  cases hmake : t.makeDirectory path with
  | error e => exact ⟨h, rfl⟩
  | ok made =>
    obtain ⟨rfl, -, _, _, hend⟩ := makeDirectory_ok hmake
    exact ⟨h.put (destination_ne_nil hend) .directory, rfl⟩

theorem createChain (h : Like t u) (paths : List String) :
    Like (t.createChain paths).1 (u.createChain paths).1 ∧
      (u.createChain paths).2 = (t.createChain paths).2 := by
  induction paths with
  | nil => exact ⟨h, rfl⟩
  | cons path parents ih =>
    by_cases hne : path = ""
    · simp only [FileTree.createChain, if_pos hne]
      exact ⟨h, trivial⟩
    · have hmissing : u.makeDirectory path = .error .notFound ↔
          t.makeDirectory path = .error .notFound := by
        rw [h.makeDirectory_eq]
        cases t.makeDirectory path with
        | error e => rfl
        | ok made => exact ⟨nofun, nofun⟩
      rw [createChain_cons t hne, createChain_cons u hne, if_congr hmissing rfl rfl]
      split
      · rcases hchain : t.createChain parents with ⟨grown, made⟩
        rcases hchain' : u.createChain parents with ⟨grown', made'⟩
        rw [hchain, hchain'] at ih
        obtain ⟨hlike, rfl⟩ := ih
        cases made' with
        | error e => exact ⟨hlike, rfl⟩
        | ok _ => exact hlike.makeOrFind path
      · exact h.makeOrFind path

/-- **Making directories does not tell trees apart** that are alike. -/
theorem createAll (h : Like t u) (path : String) :
    Like (t.createAll path).1 (u.createAll path).1 ∧
      (u.createAll path).2 = (t.createAll path).2 :=
  h.createChain (Path.ancestors path)

end Like

/-! ### Rooted trees -/

/-- Whatever is somewhere is in a directory. -/
def Rooted (t : FileTree) : Prop :=
  ∀ place name, t.node? (place ++ [name]) ≠ none → t.node? place = some .directory

namespace Rooted

/-- Only the nodes of a tree have to be looked at. -/
theorem of_nodes (h : ∀ entry ∈ t.nodes, t.node? entry.1.dropLast = some .directory) :
    t.Rooted := by
  intro place name hnode
  obtain ⟨node, hsome⟩ := Option.ne_none_iff_exists'.1 hnode
  rw [FileTree.node?, if_neg (List.concat_ne_nil name place)] at hsome
  obtain ⟨front, back, hnodes, -⟩ := List.lookup_eq_some_iff.1 hsome
  have hentry : (place ++ [name], node) ∈ t.nodes := by
    rw [hnodes]
    exact List.mem_append_right _ List.mem_cons_self
  simpa using h _ hentry

theorem directory_of_append (h : t.Rooted) {names : List String} (hne : names ≠ [])
    (hnode : t.node? (place ++ names) ≠ none) : t.node? place = some .directory := by
  induction names using List.reverseRecOn with
  | nil => exact absurd rfl hne
  | append_singleton names name ih =>
    rw [← List.append_assoc] at hnode
    have hparent := h _ name hnode
    by_cases hnil : names = []
    · simpa [hnil] using hparent
    · exact ih hnil (by rw [hparent]; exact Option.some_ne_none _)

/-- **Nothing is below nothing.** -/
theorem none_below (h : t.Rooted) (hroot : t.node? root = none) (hplace : root <+: place) :
    t.node? place = none := by
  obtain ⟨names, rfl⟩ := hplace
  by_cases hne : names = []
  · rw [hne, List.append_nil, hroot]
  · by_contra hnode
    rw [h.directory_of_append hne hnode] at hroot
    cases hroot

/-- All places above a directory are directories. -/
theorem paved (h : t.Rooted) {names : List String}
    (hnode : t.node? (root ++ names) = some .directory) : t.Paved root names := by
  rintro q ⟨rest, rfl⟩
  by_cases hne : rest = []
  · rwa [hne, List.append_nil] at hnode
  · rw [← List.append_assoc] at hnode
    exact h.directory_of_append hne (by rw [hnode]; exact Option.some_ne_none _)

end Rooted

/-! ### Cleared trees -/

/-- The tree `g` is the tree `t` without what is at a place or below it. -/
structure Cleared (root : Place) (t g : FileTree) : Prop where
  /-- Relative paths start at the same place. -/
  workingDir : g.workingDir = t.workingDir
  /-- What is elsewhere is as it was. -/
  node? : ∀ q, g.node? q = if root <+: q then none else t.node? q

/-- The same is at every place that is not in a given directory. -/
structure LikeOutside (root : Place) (t u : FileTree) : Prop where
  /-- Relative paths start at the same place. -/
  workingDir : u.workingDir = t.workingDir
  /-- What is not in the directory is the same. -/
  node? : ∀ q, ¬ root <+: q → u.node? q = t.node? q

theorem LikeOutside.symm (h : LikeOutside root t u) : LikeOutside root u t :=
  ⟨h.workingDir.symm, fun q hq => (h.node? q hq).symm⟩

theorem LikeOutside.destination_eq (h : LikeOutside root t u) (path : String) :
    u.destination path = t.destination path :=
  destination_congr h.workingDir path

theorem Cleared.likeOutside {g : FileTree} (h : Cleared root t g) : LikeOutside root t g :=
  ⟨h.workingDir, fun q hq => by rw [h.node?, if_neg hq]⟩

/-- **Trees that differ in a directory only are alike without it.** -/
theorem LikeOutside.like {g g' : FileTree} (h : LikeOutside root t u) (hg : Cleared root t g)
    (hg' : Cleared root u g') : Like g g' := by
  refine ⟨hg'.workingDir.trans (h.workingDir.trans hg.workingDir.symm), fun q => ?_⟩
  rw [hg'.node?, hg.node?]
  split
  · rfl
  · next hq => exact h.node? q hq

/-- A place in a rooted tree where nothing is, or a directory. -/
structure Replaceable (t : FileTree) (root : Place) : Prop where
  /-- The tree is rooted. -/
  rooted : t.Rooted
  /-- Nothing is there, or a directory. -/
  node : t.node? root = none ∨ t.node? root = some .directory

/-- Two trees are the same but for what is in a directory, which may be missing in either. -/
structure DifferIn (root : Place) (t u : FileTree) : Prop where
  /-- They are the same elsewhere. -/
  outside : LikeOutside root t u
  /-- The first has the directory, or nothing there. -/
  left : t.Replaceable root
  /-- So has the second. -/
  right : u.Replaceable root

theorem DifferIn.symm (h : DifferIn root t u) :
    DifferIn root u t :=
  ⟨h.outside.symm, h.right, h.left⟩

/-- Where nothing is, a tree is clear already. -/
theorem Rooted.cleared (h : t.Rooted) (hroot : t.node? root = none) : Cleared root t t := by
  refine ⟨rfl, fun q => ?_⟩
  split
  · next hq => exact h.none_below hroot hq
  · rfl

theorem cleared_remove_clearBelow (t : FileTree) (hroot : root ≠ []) :
    Cleared root t ((t.clearBelow root).remove root) := by
  refine ⟨rfl, fun q => ?_⟩
  rw [node?_remove _ hroot, node?_clearBelow]
  by_cases hq : q = root
  · rw [if_pos hq, hq, if_pos (List.prefix_refl root)]
  · rw [if_neg hq]
    by_cases hbelow : root <+: q
    · rw [if_pos (isBelow_iff.2 ⟨hbelow, hq⟩), if_pos hbelow]
    · rw [if_neg fun h => hbelow (isBelow_iff.1 h).1, if_neg hbelow]

end FileTree

/-! ### Paths that go down -/

namespace Path

/-- A path goes down by names only, at least one, from wherever it starts. -/
def Descends (path : String) (names : List String) : Prop :=
  names ≠ [] ∧ components path = (split path).1.front ++ names.map .name

/-- A path ends in a name, slashes apart. -/
def Ends (path : String) : Prop :=
  ∃ name, (FileTree.dropSlashes (segments path)).getLast? = some name ∧
    ¬ (name = "." ∨ name = "..")

variable {path : String} {names : List String}

theorem exists_descends (h : isContained path = true) : ∃ names, Descends path names := by
  obtain ⟨names, hnames, hne⟩ := exists_names_of_isContained h
  refine ⟨names, hne, ?_⟩
  cases hanchor : (split path).1 with
  | none => exact hnames
  | root =>
    have hfront := components_eq path
    rw [hanchor, hnames] at hfront
    cases names with
    | nil => exact absurd rfl hne
    | cons name rest => cases hfront
  | here =>
    have hfront := components_eq path
    rw [hanchor, hnames] at hfront
    cases names with
    | nil => exact absurd rfl hne
    | cons name rest => cases hfront

namespace Descends

theorem filterMap_segments (h : Descends path names) :
    (segments path).filterMap component? = names.map .name := by
  have hcomponents := h.2
  rw [FileTree.components_eq_segments] at hcomponents
  exact List.append_cancel_left hcomponents

theorem exists_last (h : Descends path names) :
    ∃ front name, components path = front ++ [.name name] := by
  obtain ⟨front, name, rfl⟩ := (List.eq_nil_or_concat' names).resolve_left h.1
  exact ⟨_, name, by rw [h.2, List.map_append, ← List.append_assoc, List.map_singleton]⟩

theorem destination_eq (h : Descends path names) (t : FileTree) :
    t.destination path = t.origin path ++ names := by
  rw [FileTree.destination, h.2, FileTree.arrive_names, FileTree.arrive_front]

theorem enter_eq (h : Descends path names) (t : FileTree) :
    t.enter t.workingDir (components path) = t.enter (t.origin path) (names.map .name) := by
  rw [FileTree.enter_components, h.filterMap_segments]

/-- A segment that is a name is one of the names. -/
theorem mem_of_segment (h : Descends path names) {name : String} (hmem : name ∈ segments path)
    (hname : component? name = some (.name name)) : name ∈ names := by
  have hcomponent := List.mem_filterMap.2 ⟨name, hmem, hname⟩
  rw [h.filterMap_segments] at hcomponent
  obtain ⟨other, hother, heq⟩ := List.mem_map.1 hcomponent
  rwa [← Component.name.inj heq]

end Descends

end Path

namespace FileTree

variable {t u : FileTree} {path : String} {here place root : Place} {names : List String}

theorem allShort_of_enter (h : t.enter root (names.map .name) = .ok place) : AllShort names := by
  induction names generalizing root with
  | nil => exact fun name hname => absurd hname List.not_mem_nil
  | cons name rest ih =>
    rw [List.map_cons, enter] at h
    split at h
    · cases h
    · split at h
      · cases h
      · next hshort => exact List.forall_mem_cons.2 ⟨Nat.le_of_not_lt hshort, ih h⟩

/-- What a path must be like to lead to a directory, whatever the tree. -/
theorem allShort_of_isDirectory (hpath : Path.Descends path names)
    (h : t.isDirectory path = true) : refusal? path = none ∧ AllShort names := by
  obtain ⟨hrefusal, there, henter⟩ := isDirectory_iff.1 h
  rw [hpath.enter_eq] at henter
  exact ⟨hrefusal, allShort_of_enter henter⟩

theorem isDirectory_of_way (hpath : Path.Descends path names) (hrefusal : refusal? path = none)
    (hshort : AllShort names) (h : t.Paved (t.origin path) names) : t.isDirectory path = true := by
  refine isDirectory_iff.2 ⟨hrefusal, t.origin path ++ names, ?_⟩
  rw [hpath.enter_eq, enter_names hshort h]

theorem way_of_isDirectory (hpath : Path.Descends path names) (h : t.isDirectory path = true) :
    t.Paved (t.origin path) names := by
  obtain ⟨-, there, henter⟩ := isDirectory_iff.1 h
  rw [hpath.enter_eq] at henter
  exact paved_of_enter henter

/-- In a rooted tree, a directory at the destination of a path can be reached by it. -/
theorem Rooted.isDirectory (h : t.Rooted) (hpath : Path.Descends path names)
    (hrefusal : refusal? path = none) (hshort : AllShort names)
    (hnode : t.node? (t.destination path) = some .directory) : t.isDirectory path = true := by
  rw [hpath.destination_eq] at hnode
  exact isDirectory_of_way hpath hrefusal hshort (h.paved hnode)

theorem resolve_of_isDirectory (h : t.isDirectory path = true) :
    t.resolve path = .ok (t.destination path) := by
  rw [isDirectory] at h
  split at h
  · next place hresolve => rw [hresolve, destination_of_resolve hresolve]
  · cases h

theorem pathExists_of_isDirectory (h : t.isDirectory path = true) : t.pathExists path = true := by
  rw [pathExists, resolve_of_isDirectory h]

/-- A path to nothing leads nowhere. -/
theorem pathExists_eq_false (hpath : Path.Descends path names)
    (hnode : t.node? (t.destination path) = none) : t.pathExists path = false := by
  obtain ⟨front, name, hlast⟩ := hpath.exists_last
  rw [pathExists]
  split
  · next place hresolve =>
    refine absurd hnode (node?_of_passes hresolve ⟨front, name, ?_, ?_⟩)
    · exact hlast ▸ List.prefix_refl _
    · rw [destination, hlast]
  · rfl

theorem isDirectory_of_pathExists (h : t.pathExists path = true)
    (hnode : t.node? (t.destination path) = some .directory) : t.isDirectory path = true := by
  rw [pathExists] at h
  rw [isDirectory]
  split at h
  · next place hresolve =>
    rw [destination_of_resolve hresolve] at hnode
    simp only [hnode, beq_self_eq_true]
  · cases h

/-! ### What has been made is there -/

theorem Slot.ends {slot : Slot} {dots : Fault} (hlocate : t.locate path = .ok slot)
    (hplace : slot.place dots = .ok place) : Path.Ends path := by
  obtain ⟨name, hname, hdots, -⟩ := Slot.place_ok hplace
  rw [(locate_ok hlocate).2] at hname
  exact ⟨name, hname, hdots⟩

theorem makeDirectory_eq_ok {made : FileTree} (h : t.makeDirectory path = .ok made) :
    ∃ slot, t.locate path = .ok slot ∧ slot.place .alreadyExists = .ok (t.destination path) ∧
      made = t.put (t.destination path) .directory := by
  rw [makeDirectory] at h
  split at h
  · cases h
  · next slot hlocate =>
    split at h
    · cases h
    · next place hplace =>
      obtain ⟨rfl, -⟩ := place_of_locate hlocate hplace
      split at h
      · cases h
      · cases h
        exact ⟨slot, hlocate, hplace, rfl⟩

theorem ends_of_makeDirectory {made : FileTree} (h : t.makeDirectory path = .ok made) :
    Path.Ends path := by
  obtain ⟨slot, hlocate, hplace, -⟩ := makeDirectory_eq_ok h
  exact Slot.ends hlocate hplace

/-- **A directory that has been made is there**, under the path it was made by. -/
theorem isDirectory_of_makeDirectory {made : FileTree} (h : t.makeDirectory path = .ok made) :
    made.isDirectory path = true := by
  have halters : Alters (fun _ => False) t made := alters_makeDirectory h
  obtain ⟨-, -, _, _, hend⟩ := makeDirectory_ok h
  obtain ⟨slot, hlocate, hplace, rfl⟩ := makeDirectory_eq_ok h
  obtain ⟨hrefusal, hwalk, hlast, -⟩ := locate_eq_ok_iff.1 hlocate
  obtain ⟨name, hname, hdots, hshort, hparent⟩ := Slot.place_eq_ok_iff.1 hplace
  rw [hlast] at hname
  obtain ⟨front, hbody⟩ := List.getLast?_eq_some_iff.1 hname
  have hcomponent := Path.component?_eq_name_iff.2 ⟨getLast?_dropSlashes_ne hname, hdots⟩
  rw [hbody, List.dropLast_concat, walk_dot] at hwalk
  have henter := halters.enter hwalk
  have hmade : (t.put (t.destination path) .directory).node? (slot.parent ++ [name]) =
      some .directory := by
    rw [node?_put t (destination_ne_nil hend), if_pos hparent.symm]
  refine isDirectory_iff.2 ⟨hrefusal, slot.parent ++ [name], ?_⟩
  rw [enter_components, ← filterMap_dropSlashes, hbody, List.filterMap_append,
    List.filterMap_cons_some hcomponent, List.filterMap_nil]
  refine (enter_append henter _).trans ?_
  rw [enter, directoryAt_of_node? (enter_ok henter).2]
  simp only [if_neg (Nat.not_lt.2 hshort), enter, directoryAt_of_node? hmade]

theorem isDirectory_of_makeOrFind {made : FileTree} (h : t.makeOrFind path = (made, .ok ())) :
    made.isDirectory path = true := by
  rw [makeOrFind] at h
  split at h
  · next hmake =>
    cases h
    exact isDirectory_of_makeDirectory hmake
  · obtain ⟨rfl, hfound⟩ := Prod.mk.inj h
    split at hfound
    · next hdirectory => exact hdirectory
    · cases hfound

/-- Where a chain of parents succeeds, it does so by its first path. -/
theorem makeOrFind_of_createChain {parents : List String} {made : FileTree} (hne : path ≠ "")
    (h : t.createChain (path :: parents) = (made, .ok ())) :
    t.makeOrFind path = (made, .ok ()) ∨
      (t.createChain parents).1.makeOrFind path = (made, .ok ()) := by
  rw [createChain_cons t hne] at h
  split at h
  · split at h
    · cases h
    · next grown hgrown =>
      rw [hgrown]
      exact .inr h
  · exact .inl h

/-- **What has been made with all that was missing is there.** -/
theorem isDirectory_of_createAll {made : FileTree} (hne : path ≠ "")
    (h : t.createAll path = (made, .ok ())) : made.isDirectory path = true := by
  obtain ⟨parents, hparents⟩ := exists_ancestorsUpTo ((segments path).length + 1) path
  rw [createAll, Path.ancestors, hparents] at h
  rcases makeOrFind_of_createChain hne h with hfirst | hfirst
  · exact isDirectory_of_makeOrFind hfirst
  · exact isDirectory_of_makeOrFind hfirst

/-! ### What can be made -/

theorem components_of_mem_ancestors {fuel : Nat} {above : String}
    (h : above ∈ Path.ancestorsUpTo fuel path) : components above <+: components path := by
  induction fuel generalizing path with
  | zero => exact List.mem_singleton.1 h ▸ List.prefix_refl _
  | succ fuel ih =>
    rw [Path.ancestorsUpTo] at h
    split at h
    · exact List.mem_singleton.1 h ▸ List.prefix_refl _
    · next parent hparent =>
      rcases List.mem_cons.1 h with rfl | hmem
      · exact List.prefix_refl _
      · refine (ih hmem).trans ?_
        rw [Path.components_parent hparent]
        exact List.dropLast_prefix _

theorem node?_makeOrFind (hplace : ¬ t.Passes path place) :
    (t.makeOrFind path).1.node? place = t.node? place := by
  rw [makeOrFind]
  split
  · next made hmade =>
    obtain ⟨rfl, -, front, name, hend⟩ := makeDirectory_ok hmade
    rw [node?_put t (destination_ne_nil hend), if_neg]
    rintro rfl
    exact hplace ⟨front, name, hend ▸ List.prefix_refl _, by rw [destination, hend]⟩
  · rfl

/-- A chain of paths makes nothing that none of them passes. -/
theorem node?_createChain {paths : List String} (h : ∀ path ∈ paths, ¬ t.Passes path place) :
    (t.createChain paths).1.node? place = t.node? place := by
  induction paths with
  | nil => rfl
  | cons path parents ih =>
    obtain ⟨hpath, hparents⟩ := List.forall_mem_cons.1 h
    by_cases hne : path = ""
    · simp only [createChain, if_pos hne]
    · have hdir := (alters_createChain (fun _ => False) t parents).workingDir
      have hgrown := ih hparents
      rw [createChain_cons t hne]
      split
      · rcases hchain : t.createChain parents with ⟨grown, made⟩
        rw [hchain] at hgrown hdir
        cases made with
        | error e => exact hgrown
        | ok _ =>
          refine (node?_makeOrFind ?_).trans hgrown
          rintro ⟨front, name, hfront, hplace⟩
          exact hpath ⟨front, name, hfront, by rw [hplace, arrive, arrive, hdir]⟩
      · exact node?_makeOrFind hpath

/-- The parents of a path do not pass its destination. -/
theorem not_passes_parent (hpath : Path.Descends path names) {parent above : String} {fuel : Nat}
    (hparent : Path.parent? path = some parent) (habove : above ∈ Path.ancestorsUpTo fuel parent) :
    ¬ t.Passes above (t.destination path) := by
  rintro ⟨front, name, hfront, hplace⟩
  have hway := hfront.trans (components_of_mem_ancestors habove)
  obtain ⟨first, last, rfl⟩ := (List.eq_nil_or_concat' names).resolve_left hpath.1
  have hlast : components path =
      ((Path.split path).1.front ++ first.map .name) ++ [.name last] := by
    rw [hpath.2, List.map_append, ← List.append_assoc, List.map_singleton]
  rw [Path.components_parent hparent, hlast, List.dropLast_concat] at hway
  obtain ⟨back, rfl, hback⟩ := prefix_front hway
  obtain ⟨passed, hpassed, heq⟩ := List.prefix_map_iff.1 hback
  rw [hpath.destination_eq, List.append_assoc, heq, arrive_names, arrive_front] at hplace
  have hlength := congrArg List.length (List.append_cancel_left hplace)
  rw [List.length_append, List.length_singleton] at hlength
  have hle := hpassed.length_le
  omega

theorem ends_of_makeOrFind {made : FileTree} (h : t.makeOrFind path = (made, .ok ()))
    (hnone : t.node? (t.destination path) = none) : Path.Ends path := by
  have hthere := node?_of_isDirectory (isDirectory_of_makeOrFind h)
  rw [makeOrFind] at h
  split at h
  · next hmake => exact ends_of_makeDirectory hmake
  · obtain ⟨rfl, -⟩ := Prod.mk.inj h
    rw [hnone] at hthere
    cases hthere

/-- **Only a path that ends in a name can be made**, if it is not there yet. -/
theorem ends_of_createAll {made : FileTree} (hpath : Path.Descends path names)
    (h : t.createAll path = (made, .ok ())) (hnone : t.node? (t.destination path) = none) :
    Path.Ends path := by
  obtain ⟨front, name, hlast⟩ := hpath.exists_last
  obtain ⟨parent, hparent⟩ := Path.exists_parent hlast
  have hne : path ≠ "" := by
    rintro rfl
    cases hparent
  rw [createAll, Path.ancestors, Path.ancestorsUpTo, hparent] at h
  rcases makeOrFind_of_createChain hne h with hfirst | hgrown
  · exact ends_of_makeOrFind hfirst hnone
  · refine ends_of_makeOrFind hgrown ?_
    rw [(alters_createChain (fun _ => False) t _).destination_eq,
      node?_createChain fun above habove => not_passes_parent hpath hparent habove]
    exact hnone

/-! ### Removing -/

/-- A directory is still there when it has been emptied. -/
theorem isDirectory_clearBelow (hpath : Path.Descends path names) (h : t.isDirectory path = true) :
    (t.clearBelow (t.destination path)).isDirectory path = true := by
  obtain ⟨hrefusal, hshort⟩ := allShort_of_isDirectory hpath h
  refine isDirectory_of_way hpath hrefusal hshort fun q hq => ?_
  have hway := way_of_isDirectory hpath h q hq
  rw [node?_clearBelow, if_neg]
  · exact hway
  · intro hbelow
    obtain ⟨habove, hne⟩ := isBelow_iff.1 hbelow
    rw [hpath.destination_eq] at habove hne
    have hq' : t.origin path ++ q <+: t.origin path ++ names :=
      (List.prefix_append_right_inj _).2 hq
    exact hne (hq'.eq_of_length_le habove.length_le)

theorem removeDirectory_of_isDirectory (hpath : Path.Descends path names)
    (h : t.isDirectory path = true) :
    (Path.Ends path → t.removeDirectory path = .ok (t.remove (t.destination path))) ∧
      (¬ Path.Ends path → ∃ e, t.removeDirectory path = .error e ∧ e ≠ .notFound) := by
  have hthere := node?_of_isDirectory h
  obtain ⟨slot, hlocate⟩ := locate_of_isDirectory h
  have hlast := (locate_ok hlocate).2
  constructor
  · rintro ⟨name, hname, hdots⟩
    have hcomponent := Path.component?_eq_name_iff.2 ⟨getLast?_dropSlashes_ne hname, hdots⟩
    have hmem : name ∈ segments path :=
      (List.rdropWhile_prefix _ _).subset (List.mem_of_getLast? hname)
    have hshort := (allShort_of_isDirectory hpath h).2 name (hpath.mem_of_segment hmem hcomponent)
    have hplace : slot.place .invalid = .ok (slot.parent ++ [name]) :=
      Slot.place_eq_ok_iff.2 ⟨name, hlast.trans hname, hdots, hshort, rfl⟩
    have hup : slot.last ≠ some ".." := by
      rw [hlast, hname]
      exact fun heq => hdots (.inr (Option.some.inj heq))
    obtain ⟨hdestination, -⟩ := place_of_locate hlocate hplace
    rw [hdestination] at hplace
    simp only [removeDirectory, hlocate, if_neg hup, hplace, hthere]
  · intro hends
    cases hplace : slot.place .invalid with
    | ok place => exact absurd (Slot.ends hlocate hplace) hends
    | error e =>
      simp only [removeDirectory, hlocate, hplace]
      split
      · exact ⟨.notEmpty, rfl, by decide⟩
      · refine ⟨e, rfl, ?_⟩
        rintro rfl
        exact slot.place_ne_notFound (by decide) hplace

/-- **Removing a directory clears it**, if the path ends in a name, and fails otherwise. -/
theorem removeAll_of_isDirectory (hpath : Path.Descends path names)
    (h : t.isDirectory path = true) :
    (Path.Ends path → ∃ g, t.removeAll path = (g, .ok ()) ∧ Cleared (t.destination path) t g) ∧
      (¬ Path.Ends path → ∃ g e, t.removeAll path = (g, .error e)) := by
  obtain ⟨front, name, hlast⟩ := hpath.exists_last
  obtain ⟨hends, hnot⟩ := removeDirectory_of_isDirectory hpath (isDirectory_clearBelow hpath h)
  have hdestination : (t.clearBelow (t.destination path)).destination path = t.destination path :=
    rfl
  constructor
  · intro hyes
    refine ⟨_, ?_, cleared_remove_clearBelow t (destination_ne_nil hlast)⟩
    simp only [removeAll, resolve_of_isDirectory h, node?_of_isDirectory h, hends hyes,
      hdestination]
  · intro hno
    obtain ⟨e, he, hfound⟩ := hnot hno
    refine ⟨t.clearBelow (t.destination path), e, ?_⟩
    simp only [removeAll, resolve_of_isDirectory h, node?_of_isDirectory h, he]

/-! ### Paths that keep out of a directory -/

/-- No place on the way of a path is in a directory. -/
def Avoids (t : FileTree) (path : String) (root : Place) : Prop :=
  ¬ root <+: t.origin path ∧ ∀ place, t.Passes path place → ¬ root <+: place

namespace LikeOutside

theorem follow_eq (h : LikeOutside root t u) {segment : String} (hhere : ¬ root <+: here)
    (hnext : component? segment = some (.name segment) → ¬ root <+: here ++ [segment]) :
    u.follow here segment = t.follow here segment := by
  by_cases hname : component? segment = some (.name segment)
  · simp only [follow, h.node? here hhere, h.node? _ (hnext hname)]
  · have hdots : segment = "" ∨ segment = "." ∨ segment = ".." := by
      by_contra hnot
      rw [not_or] at hnot
      exact hname (Path.component?_eq_name_iff.2 hnot)
    rcases hdots with rfl | rfl | rfl
    · simp only [follow, h.node? here hhere, Path.isTrivial, beq_self_eq_true, Bool.true_or]
      rfl
    · simp only [follow, h.node? here hhere, Path.isTrivial, beq_self_eq_true, Bool.or_true]
      rfl
    · simp only [follow, h.node? here hhere, if_true]

theorem walk_eq (h : LikeOutside root t u) {body : List String} (hhere : ¬ root <+: here)
    (hbody : ∀ front name, front ++ [.name name] <+: body.filterMap component? →
      ¬ root <+: (front ++ [Component.name name]).foldl Component.advance here) :
    u.walk here body = t.walk here body := by
  induction body generalizing here with
  | nil => rfl
  | cons segment rest ih =>
    have hfirst : component? segment = some (.name segment) → ¬ root <+: here ++ [segment] := by
      intro hname
      refine hbody [] segment ?_
      rw [List.filterMap_cons_some hname]
      exact List.cons_prefix_cons.2 ⟨rfl, List.nil_prefix⟩
    rw [walk, walk, h.follow_eq hhere hfirst]
    cases hfollow : t.follow here segment with
    | error e => rfl
    | ok next =>
      rcases follow_ok hfollow with ⟨hnone, rfl⟩ | ⟨c, hsome, rfl, -⟩
      · rw [List.filterMap_cons_none hnone] at hbody
        exact ih hhere hbody
      · rw [List.filterMap_cons_some hsome] at hbody
        refine ih ?_ fun front name hfront => ?_
        · cases c with
          | root => exact absurd hsome (component?_ne_root segment)
          | here => exact hhere
          | up => exact fun hup => hhere (hup.trans (List.dropLast_prefix here))
          | name text => exact hbody [] text (List.cons_prefix_cons.2 ⟨rfl, List.nil_prefix⟩)
        · exact hbody (c :: front) name (List.cons_prefix_cons.2 ⟨rfl, hfront⟩)

/-- **A path that avoids the directory** leads to the same place in both trees. -/
theorem resolve_eq (h : LikeOutside root t u) (havoids : t.Avoids path root) :
    u.resolve path = t.resolve path := by
  have horigin : u.origin path = t.origin path := by rw [origin, origin, h.workingDir]
  rw [resolve, resolve, horigin]
  cases refusal? path with
  | some fault => rfl
  | none =>
    refine h.walk_eq havoids.1 fun front name hfront => ?_
    rw [← t.arrive_front, ← arrive_append, ← List.append_assoc]
    refine havoids.2 _ ⟨_, name, ?_, rfl⟩
    rw [components_eq_segments, List.append_assoc]
    exact (List.prefix_append_right_inj _).2 hfront

/-- A file that is not in the directory is the same in both trees, if it is found in both. -/
theorem readFile_eq (h : LikeOutside root t u) (hplace : ¬ root <+: t.destination path)
    (hexists : u.pathExists path = t.pathExists path) {content : Bytes}
    (hread : t.readFile path = .ok content) : u.readFile path = .ok content := by
  rw [pathExists, pathExists] at hexists
  rw [readFile] at hread ⊢
  split at hread
  · cases hread
  · next there hthere =>
    rw [hthere] at hexists
    split at hexists
    · next there' hthere' =>
      have hsame : there' = there := by
        rw [← destination_of_resolve hthere', ← destination_of_resolve hthere, h.destination_eq]
      rw [hthere']
      dsimp only
      rw [hsame, h.node? there (destination_of_resolve hthere ▸ hplace)]
      exact hread
    · cases hexists

end LikeOutside

end FileTree

end AssetPack
