import AssetPack.Proofs.FileTree.Alteration

/-!
# Making a directory with all that is missing on the way

`FileTree.createAll` tries the whole path first, goes to the parent if something is missing, and
comes back. It succeeds if nothing but directories is on the way, and then all of the way is there
and nothing else has changed.

The way is counted from a directory that is there (`root` below, with components `start`), since
only the names behind it can be missing. The paths that are tried are texts, made by taking parents,
and what is used of them is that each ends in the name that it is to make
(`Path.segments_parent`) and that none is longer than the first (`Path.parent_isPrefix`).

## Main results

* `FileTree.createChain_of_isDirectory`: a directory that is there is left alone.
* `FileTree.createChain_names`: all that is missing is made.
* `FileTree.store_names`: then a file can be written below.
-/

namespace AssetPack.FileTree

open AssetPack.Path (Component components component? segments)

variable {t t' : FileTree} {path name : String} {here root place : Place}

/-! ### Names -/

/-- No name is too long for a file or directory. -/
def AllShort (names : List String) : Prop := ∀ name ∈ names, name.utf8ByteSize ≤ longestName

/-- All places on the way down from `root` are directories. -/
def Paved (t : FileTree) (root : Place) (names : List String) : Prop :=
  ∀ q, q <+: names → t.node? (root ++ q) = some .directory

/-- No place on the way down from `root` is a file. -/
def Open (t : FileTree) (root : Place) (names : List String) : Prop :=
  ∀ q, q <+: names → ∀ content, t.node? (root ++ q) ≠ some (.file content)

/-- The last place on a way is not one of those before it. -/
theorem append_concat_ne {names q : List String} (hq : q <+: names) :
    root ++ (names ++ [name]) ≠ root ++ q := by
  intro heq
  have hlength := hq.length_le
  rw [← List.append_cancel_left heq, List.length_append, List.length_singleton] at hlength
  omega

theorem paved_concat {names : List String} :
    t.Paved root (names ++ [name]) ↔
      t.Paved root names ∧ t.node? (root ++ (names ++ [name])) = some .directory := by
  constructor
  · intro h
    exact ⟨fun q hq => h q (hq.trans (List.prefix_append _ _)), h _ (List.prefix_refl _)⟩
  · rintro ⟨hnames, hlast⟩ q hq
    rcases List.prefix_concat_iff.1 hq with rfl | hq
    · exact hlast
    · exact hnames q hq

/-- **Names can be entered if they are paved**, and then they lead to where they say. -/
theorem enter_names {names : List String} (hshort : AllShort names) (h : t.Paved root names) :
    t.enter root (names.map .name) = .ok (root ++ names) := by
  induction names generalizing root with
  | nil =>
    rw [List.append_nil]
    exact directoryAt_of_node? (by simpa using h [] List.nil_prefix)
  | cons name names ih =>
    obtain ⟨hname, hnames⟩ := List.forall_mem_cons.1 hshort
    have hroot : t.directoryAt root = .ok root :=
      directoryAt_of_node? (by simpa using h [] List.nil_prefix)
    have hrest : t.Paved (root ++ [name]) names := by
      intro q hq
      have hcons := h (name :: q) (List.cons_prefix_cons.2 ⟨rfl, hq⟩)
      rwa [List.append_cons] at hcons
    rw [List.map_cons, enter, hroot]
    simp only [if_neg (Nat.not_lt.2 hname), ih hnames hrest, List.append_assoc, List.cons_append,
      List.nil_append]

theorem paved_of_enter {names : List String} (h : t.enter root (names.map .name) = .ok place) :
    t.Paved root names := by
  induction names generalizing root with
  | nil =>
    intro q hq
    rw [List.prefix_nil.1 hq, List.append_nil]
    exact (directoryAt_ok h).2
  | cons name names ih =>
    rw [List.map_cons, enter] at h
    split at h
    · cases h
    · next there hat =>
      split at h
      · cases h
      · intro q hq
        cases q with
        | nil => simpa using (directoryAt_ok hat).2
        | cons first q =>
          obtain ⟨rfl, htail⟩ := List.cons_prefix_cons.1 hq
          rw [List.append_cons]
          exact ih h q htail

/-- Where no file is in the way, a directory can only be missing. -/
theorem enter_names_error {names : List String} {e : Fault} (hshort : AllShort names)
    (hopen : t.Open root names) (h : t.enter root (names.map .name) = .error e) :
    e = .notFound := by
  have hat : ∀ {here : Place} {e : Fault}, (∀ content, t.node? here ≠ some (.file content)) →
      t.directoryAt here = .error e → e = .notFound := by
    intro here e hfile hat
    rw [directoryAt] at hat
    split at hat
    · cases hat
      rfl
    · next content hnode => exact absurd hnode (hfile content)
    · cases hat
  induction names generalizing root with
  | nil => exact hat (by simpa using hopen [] List.nil_prefix) h
  | cons name names ih =>
    obtain ⟨hname, hnames⟩ := List.forall_mem_cons.1 hshort
    rw [List.map_cons, enter] at h
    split at h
    · next e' hroot =>
      cases h
      exact hat (by simpa using hopen [] List.nil_prefix) hroot
    · rw [if_neg (Nat.not_lt.2 hname)] at h
      refine ih hnames (fun q hq => ?_) h
      have hcons := hopen (name :: q) (List.cons_prefix_cons.2 ⟨rfl, hq⟩)
      rwa [List.append_cons] at hcons

/-! ### Single directories -/

theorem node?_of_walk_cons {segment : String} {rest : List String}
    (h : t.walk here (segment :: rest) = .ok place) : t.node? here = some .directory := by
  rw [walk, follow] at h
  split at h
  · cases h
  · next next hfollow =>
    split at hfollow
    · cases hfollow
    · cases hfollow
    · next hnode => exact hnode

/-- A directory that is there has a slot. -/
theorem locate_of_isDirectory (h : t.isDirectory path = true) :
    ∃ slot, t.locate path = .ok slot := by
  obtain ⟨hrefusal, there, henter⟩ := isDirectory_iff.1 h
  rw [enter_components, ← walk_dot] at henter
  -- the walk to the parent is a part of the walk that succeeds
  obtain ⟨more, hmore⟩ : (dropSlashes (segments path)).dropLast <+: segments path :=
    (List.dropLast_prefix _).trans (List.rdropWhile_prefix _ _)
  obtain ⟨next, rest, hnext⟩ := List.exists_cons_of_ne_nil (List.concat_ne_nil "." more)
  rw [← hmore, List.append_assoc, hnext] at henter
  obtain ⟨mid, hwalk, hstep⟩ := walk_append.1 henter
  have hstand := walk_append.2 ⟨mid, hwalk, walk_standing.2 ⟨rfl, node?_of_walk_cons hstep⟩⟩
  exact ⟨⟨mid, _, _⟩, locate_eq_ok_iff.2 ⟨hrefusal, hstand, rfl, rfl⟩⟩

theorem node?_of_isDirectory (h : t.isDirectory path = true) :
    t.node? (t.destination path) = some .directory := by
  obtain ⟨-, there, henter⟩ := isDirectory_iff.1 h
  obtain ⟨rfl, hnode⟩ := enter_ok henter
  exact hnode

/-- A slot that cannot be filled is not missing. -/
theorem Slot.place_ne_notFound (slot : Slot) {dots : Fault} (hdots : dots ≠ .notFound) :
    slot.place dots ≠ .error .notFound := by
  intro hplace
  rw [Slot.place] at hplace
  split at hplace
  · exact hdots (Except.error.inj hplace)
  · split at hplace
    · exact hdots (Except.error.inj hplace)
    · split at hplace
      · cases hplace
      · cases hplace

/-- A directory cannot be made where one is, and not because something is missing. -/
theorem makeDirectory_of_isDirectory (h : t.isDirectory path = true) :
    ∃ e, t.makeDirectory path = .error e ∧ e ≠ .notFound := by
  have hthere := node?_of_isDirectory h
  obtain ⟨slot, hlocate⟩ := locate_of_isDirectory h
  cases hplace : slot.place .alreadyExists with
  | ok place =>
    obtain ⟨rfl, -⟩ := place_of_locate hlocate hplace
    refine ⟨.alreadyExists, ?_, by decide⟩
    simp only [makeDirectory, hlocate, hplace, hthere]
  | error e =>
    refine ⟨e, by simp only [makeDirectory, hlocate, hplace], ?_⟩
    rintro rfl
    exact slot.place_ne_notFound (by decide) hplace

/-- **A directory that is there is left alone.** -/
theorem createChain_of_isDirectory (h : t.isDirectory path = true) (parents : List String) :
    t.createChain (path :: parents) = (t, .ok ()) := by
  obtain ⟨e, hmake, hne⟩ := makeDirectory_of_isDirectory h
  rw [createChain]
  split
  · rfl
  · rw [hmake]
    split
    · next heq => cases heq
    · next heq =>
      cases heq
      exact absurd rfl hne
    · rfl

/-- The slot of a path whose last segment means something. -/
theorem locate_last (t : FileTree) {front : List String} {c : Component}
    (hrefusal : refusal? path = none) (hsegments : segments path = front ++ [name])
    (hname : component? name = some c) :
    t.locate path = (t.enter t.workingDir (components path).dropLast).map
      fun parent => ⟨parent, some name, false⟩ := by
  have hne : name ≠ "" := by
    rintro rfl
    cases hname
  rw [locate, hrefusal, enter_dropLast t hsegments hname]
  simp only [hsegments, dropSlashes_concat hne, List.dropLast_concat, List.getLast?_concat,
    Nat.lt_irrefl, decide_false]
  cases t.walk (t.origin path) (front ++ ["."]) with
  | error e => rfl
  | ok parent => rfl

/-- Where the parent cannot be entered, nothing can be made. -/
theorem makeDirectory_of_enter_error {front : List String} {c : Component} {e : Fault}
    (hrefusal : refusal? path = none) (hsegments : segments path = front ++ [name])
    (hname : component? name = some c)
    (h : t.enter t.workingDir (components path).dropLast = .error e) :
    t.makeDirectory path = .error e := by
  have hlocate := t.locate_last hrefusal hsegments hname
  rw [h, Except.map] at hlocate
  simp only [makeDirectory, hlocate]

/-! ### All that is missing -/

/-- What making all directories on a way does: they are there, and the rest is as it was. -/
structure Paves (t : FileTree) (root : Place) (names : List String) (t' : FileTree) : Prop where
  alters : Alters (fun _ => False) t t'
  paved : t'.Paved root names
  elsewhere : ∀ place, (∀ q, q <+: names → place ≠ root ++ q) → t'.node? place = t.node? place

theorem Paves.refl {names : List String} (h : t.Paved root names) : Paves t root names t :=
  ⟨.refl _ t, h, fun _ _ => rfl⟩

theorem Paves.enter {names : List String} (h : Paves t root names t') {cs : List Component}
    (henter : t.enter t.workingDir cs = .ok place) : t'.enter t'.workingDir cs = .ok place := by
  rw [h.alters.workingDir]
  exact h.alters.enter henter

theorem Paves.put {names : List String} (h : Paves t root names t')
    (hnone : t'.node? (root ++ (names ++ [name])) = none) :
    Paves t root (names ++ [name]) (t'.put (root ++ (names ++ [name])) .directory) := by
  have hne : root ++ (names ++ [name]) ≠ [] := by simp
  refine ⟨h.alters.trans (.put_directory hne hnone), paved_concat.2 ⟨fun q hq => ?_, ?_⟩,
    fun place hplace => ?_⟩
  · rw [node?_put t' hne, if_neg (append_concat_ne hq).symm, h.paved q hq]
  · rw [node?_put t' hne, if_pos rfl]
  · rw [node?_put t' hne, if_neg (hplace _ (List.prefix_refl _))]
    exact h.elsewhere place fun q hq => hplace q (hq.trans (List.prefix_append _ _))

/-- A directory that was there already makes the way longer too. -/
theorem Paves.concat {names : List String} (h : Paves t root names t')
    (hnode : t'.node? (root ++ (names ++ [name])) = some .directory) :
    Paves t root (names ++ [name]) t' := by
  refine ⟨h.alters, paved_concat.2 ⟨h.paved, hnode⟩, fun place hplace => ?_⟩
  exact h.elsewhere place fun q hq => hplace q (hq.trans (List.prefix_append _ _))

theorem refusal?_of_parent {parent : String} (h : Path.parent? path = some parent)
    (hne : parent ≠ "") (hrefusal : refusal? path = none) : refusal? parent = none := by
  obtain ⟨rest, hrest⟩ := Path.parent_isPrefix h
  have hpath : path = parent ++ String.ofList rest := String.toList_inj.1 (by simp [hrest])
  obtain ⟨hnul, -, hsize⟩ := refusal?_eq_none_iff.1 hrefusal
  rw [hpath, String.toList_append, List.mem_append, not_or] at hnul
  rw [hpath, String.utf8ByteSize_append] at hsize
  exact refusal?_eq_none_iff.2 ⟨hnul.1, hne, by omega⟩

/-- The parent of a path with names at its end has all names but the last, and it can be asked about
if it is not empty. -/
theorem exists_parent_names {start : List Component} {names : List String}
    (hpath : components path = start ++ (names ++ [name]).map .name)
    (hrefusal : refusal? path = none) :
    ∃ parent, Path.parent? path = some parent ∧ components parent = start ++ names.map .name ∧
      (∀ front n, names = front ++ [n] → Path.EndsIn parent n) ∧
      (parent ≠ "" → refusal? parent = none) := by
  rw [List.map_append, ← List.append_assoc] at hpath
  obtain ⟨parent, hparent⟩ := Path.exists_parent hpath
  have hcomponents : components parent = start ++ names.map .name := by
    rw [Path.components_parent hparent, hpath]
    exact List.dropLast_concat
  refine ⟨parent, hparent, hcomponents, ?_, fun hne => refusal?_of_parent hparent hne hrefusal⟩
  rintro front n rfl
  rw [List.map_append, ← List.append_assoc] at hcomponents
  exact Path.segments_parent hparent hcomponents

theorem exists_ancestorsUpTo (fuel : Nat) (path : String) :
    ∃ rest, Path.ancestorsUpTo fuel path = path :: rest := by
  cases fuel with
  | zero => exact ⟨[], rfl⟩
  | succ fuel =>
    rw [Path.ancestorsUpTo]
    split
    · exact ⟨[], rfl⟩
    · exact ⟨_, rfl⟩

/-- What the last name on a way makes of what the names before it have made. -/
theorem Paves.makeDirectory {names : List String} (h : Paves t root names t')
    (haims : t'.Aims path (root ++ (names ++ [name])))
    (hfile : ∀ content, t'.node? (root ++ (names ++ [name])) ≠ some (.file content)) :
    (∃ made, t'.makeDirectory path = .ok made ∧ Paves t root (names ++ [name]) made) ∨
      t'.makeDirectory path = .error .alreadyExists ∧ Paves t root (names ++ [name]) t' := by
  rw [haims.makeDirectory_eq]
  cases hnode : t'.node? (root ++ (names ++ [name])) with
  | none => exact .inl ⟨_, if_pos rfl, h.put hnode⟩
  | some node =>
    cases node with
    | file content => exact absurd hnode (hfile content)
    | directory => exact .inr ⟨if_neg (by simp), h.concat hnode⟩

theorem isDirectory_of_paved {start : List Component} {names : List String}
    (hroot : t.enter t.workingDir start = .ok root) (hshort : AllShort names)
    (hpath : components path = start ++ names.map .name) (hrefusal : refusal? path = none)
    (h : t.Paved root names) : t.isDirectory path = true := by
  refine isDirectory_iff.2 ⟨hrefusal, root ++ names, ?_⟩
  rw [hpath, enter_append hroot, enter_names hshort h]

/-- Once the names before the last are paved, a path aims at its last name. -/
theorem aims_of_paved {start : List Component} {names : List String}
    (hroot : t.enter t.workingDir start = .ok root) (hshort : AllShort (names ++ [name]))
    (hpath : components path = start ++ (names ++ [name]).map .name)
    (hends : Path.EndsIn path name) (hrefusal : refusal? path = none) (h : t.Paved root names) :
    t.Aims path (root ++ (names ++ [name])) := by
  have hshort' : AllShort names := fun n hn => hshort n (List.mem_append_left _ hn)
  refine ⟨hrefusal, name, root ++ names, hends, hshort name (by simp), ?_, by simp⟩
  rw [hpath, List.map_append, ← List.append_assoc, List.map_singleton, List.dropLast_concat,
    enter_append hroot, enter_names hshort' h]

/-- **All that is missing is made**, if no file is in the way. -/
theorem createChain_names {start : List Component} {names : List String} {fuel : Nat}
    (hroot : t.enter t.workingDir start = .ok root) (hshort : AllShort names)
    (hopen : t.Open root names) (hpath : components path = start ++ names.map .name)
    (hrefusal : refusal? path = none)
    (hends : ∀ front name, names = front ++ [name] → Path.EndsIn path name)
    (hfuel : names.length ≤ fuel) :
    ∃ t', t.createChain (Path.ancestorsUpTo fuel path) = (t', .ok ()) ∧ Paves t root names t' := by
  induction names using List.reverseRecOn generalizing path fuel with
  | nil =>
    obtain ⟨rest, hrest⟩ := exists_ancestorsUpTo fuel path
    have hpaved : t.Paved root [] := by
      intro q hq
      rw [List.prefix_nil.1 hq, List.append_nil]
      exact (enter_ok hroot).2
    have hdirectory := isDirectory_of_paved hroot hshort hpath hrefusal hpaved
    exact ⟨t, by rw [hrest, createChain_of_isDirectory hdirectory], .refl hpaved⟩
  | append_singleton names name ih =>
    have hname : Path.EndsIn path name := hends names name rfl
    have hfront : (components path).dropLast = start ++ names.map .name := by
      rw [hpath, List.map_append, ← List.append_assoc]
      exact List.dropLast_concat
    obtain ⟨parent, hparent, hcomponents, hparentEnds, hparentRefusal⟩ :=
      exists_parent_names hpath hrefusal
    obtain ⟨fuel, rfl⟩ : ∃ n, fuel = n + 1 := by
      rw [List.length_append, List.length_singleton] at hfuel
      exact ⟨fuel - 1, by omega⟩
    have hshort' : AllShort names := fun n hn => hshort n (List.mem_append_left _ hn)
    have hopen' : t.Open root names := fun q hq => hopen q (hq.trans (List.prefix_append _ _))
    have hne : path ≠ "" := by
      rintro rfl
      cases hrefusal
    simp only [Path.ancestorsUpTo, hparent]
    rw [createChain, if_neg hne]
    cases henter : t.enter root (names.map .name) with
    | ok place =>
      have hpaved := paved_of_enter henter
      rcases (Paves.refl hpaved).makeDirectory
        (aims_of_paved hroot hshort hpath hname hrefusal hpaved) (hopen _ (List.prefix_refl _))
        with ⟨made, hmake, hpaves⟩ | ⟨hmake, hpaves⟩
      · exact ⟨made, by simp only [hmake], hpaves⟩
      · have hdirectory := isDirectory_of_paved hroot hshort hpath hrefusal hpaves.paved
        exact ⟨t, by simp only [hmake, hdirectory, if_true], hpaves⟩
    | error e =>
      obtain rfl := enter_names_error hshort' hopen' henter
      have hmake : t.makeDirectory path = .error .notFound := by
        obtain ⟨ahead, hsegments, hcomponent⟩ := hname
        exact makeDirectory_of_enter_error hrefusal hsegments hcomponent
          (by rw [hfront, enter_append hroot, henter])
      -- without names before this one, nothing would be missing
      have hsome : parent ≠ "" := by
        rintro rfl
        obtain ⟨-, hnil⟩ := List.append_eq_nil_iff.1 hcomponents.symm
        rw [hnil, enter, directoryAt_of_node? (enter_ok hroot).2] at henter
        cases henter
      obtain ⟨g, hg, hpaves⟩ := ih hshort' hopen' hcomponents (hparentRefusal hsome) hparentEnds
        (by simpa using hfuel)
      have hstart := hpaves.enter hroot
      have hfile : ∀ content, g.node? (root ++ (names ++ [name])) ≠ some (.file content) := by
        rw [hpaves.elsewhere _ fun q hq => append_concat_ne hq]
        exact hopen _ (List.prefix_refl _)
      have haims := aims_of_paved hstart hshort hpath hname hrefusal hpaves.paved
      rcases hpaves.makeDirectory haims hfile with ⟨made, hmade, hpaves'⟩ | ⟨hmade, hpaves'⟩
      · exact ⟨made, by simp only [hmake, hg, hmade], hpaves'⟩
      · have hdirectory := isDirectory_of_paved hstart hshort hpath hrefusal hpaves'.paved
        exact ⟨g, by simp only [hmake, hg, hmade, hdirectory, if_true], hpaves'⟩

/-! ### A file below a directory -/

theorem length_le_segments {start : List Component} {names : List String}
    (hpath : components path = start ++ names.map .name) :
    names.length ≤ (segments path).length + 1 := by
  have hlength := congrArg List.length hpath
  have hfilter := List.length_filterMap_le component? (segments path)
  have hfront : (Path.split path).1.front.length ≤ 1 := by
    cases (Path.split path).1 <;> decide
  rw [components_eq_segments, List.length_append, List.length_append, List.length_map] at hlength
  omega

/-- **A file can be stored below a directory** under a path that names it, if no file is in the way
of a directory and no directory is where the file goes: all directories on the way are made, and the
file is written. -/
theorem store_names {start : List Component} {dirs : List String} {content : Bytes}
    (hroot : t.enter t.workingDir start = .ok root) (hstart : start ≠ [])
    (hshort : AllShort (dirs ++ [name])) (hopen : t.Open root dirs)
    (hpath : components path = start ++ (dirs ++ [name]).map .name)
    (hends : Path.EndsIn path name) (hrefusal : refusal? path = none)
    (hnode : t.node? (root ++ (dirs ++ [name])) ≠ some .directory) :
    ∃ parent t', Path.parent? path = some parent ∧ t.createAll parent = (t', .ok ()) ∧
      Paves t root dirs t' ∧
      t'.writeFile path content = .ok (t'.put (root ++ (dirs ++ [name])) (.file content)) := by
  have hshort' : AllShort dirs := fun n hn => hshort n (List.mem_append_left _ hn)
  obtain ⟨parent, hparent, hcomponents, hparentEnds, hparentRefusal⟩ :=
    exists_parent_names hpath hrefusal
  have hsome : parent ≠ "" := by
    rintro rfl
    exact hstart (List.append_eq_nil_iff.1 hcomponents.symm).1
  obtain ⟨t', hcreate, hpaves⟩ := createChain_names hroot hshort' hopen hcomponents
    (hparentRefusal hsome) hparentEnds (length_le_segments hcomponents)
  refine ⟨parent, t', hparent, hcreate, hpaves, writeFile_eq_ok_iff.2
    ⟨_, aims_of_paved (hpaves.enter hroot) hshort hpath hends hrefusal hpaves.paved, ?_, rfl⟩⟩
  rw [hpaves.elsewhere _ fun q hq => append_concat_ne hq]
  exact hnode

end AssetPack.FileTree
