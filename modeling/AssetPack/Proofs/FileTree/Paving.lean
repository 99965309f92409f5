import AssetPack.Proofs.FileTree.Creation

/-!
# Making directories, component after component

`FileTree.createAll` works from the end of a path: it tries the whole path, goes to the parent if
something is missing, and comes back. What comes of it is simpler than the way there. It is what one
gets by following the components from the front and making a directory wherever a name leads to
nothing, up to the first obstacle. That is `FileTree.pave`, and `FileTree.createAll_matches` says
that the two agree, on the tree they leave and on whether they succeed, also if they stop halfway.

Unlike `createAll`, `pave` does not look at texts, and it can be cut anywhere: to pave `cs ++ ds` is
to pave `cs` and to go on with `ds`. What it has paved it finds paved the next time.

## Main definitions

* `FileTree.pave`: follow components and make what is missing.

## Main results

* `FileTree.pave_append`, `FileTree.pave_again`
* `FileTree.createAll_matches`: making all directories of a path is paving its components.
-/

namespace AssetPack.FileTree

open AssetPack.Path (Component components component? segments)

variable {t t' : FileTree} {path : String} {here place : Place} {cs ds : List Component}

/-- The tree with a directory at a place where nothing was. -/
def furnish (t : FileTree) (place : Place) : FileTree :=
  if t.node? place = none then t.put place .directory else t

/-- Follow components, making a directory wherever a name leads to nothing, and say where this ends,
if it is a directory. It stops at a file, at a name that is too long, and where a step up leads to
nothing. -/
def pave (t : FileTree) (here : Place) : List Component → FileTree × Option Place
  | [] => (t, if t.node? here = some .directory then some here else none)
  | .root :: rest => t.pave [] rest
  | .here :: rest => t.pave here rest
  | .up :: rest =>
    if t.node? here = some .directory then t.pave here.dropLast rest else (t, none)
  | .name text :: rest =>
    if t.node? here = some .directory ∧ text.utf8ByteSize ≤ longestName then
      (t.furnish (here ++ [text])).pave (here ++ [text]) rest
    else (t, none)

/-! ### Paving -/

theorem node?_furnish (t : FileTree) (hplace : place ≠ []) (q : Place) :
    (t.furnish place).node? q =
      if q = place then some ((t.node? place).getD .directory) else t.node? q := by
  rw [furnish]
  by_cases hnone : t.node? place = none
  · rw [if_pos hnone, node?_put t hplace, hnone]
    rfl
  · obtain ⟨node, hnode⟩ := Option.ne_none_iff_exists'.1 hnone
    rw [if_neg hnone, hnode]
    by_cases hq : q = place
    · rw [if_pos hq, hq, hnode]
      rfl
    · rw [if_neg hq]

theorem furnish_of_node? (h : t.node? place ≠ none) : t.furnish place = t := if_neg h

theorem alters_furnish (written : Place → Prop) (t : FileTree) (hplace : place ≠ []) :
    Alters written t (t.furnish place) := by
  rw [furnish]
  split
  · next hnone => exact .put_directory hplace hnone
  · exact .refl written t

/-- Paving only adds directories. -/
theorem alters_pave (written : Place → Prop) (t : FileTree) (here : Place) (cs : List Component) :
    Alters written t (t.pave here cs).1 := by
  induction cs generalizing t here with
  | nil => exact .refl written t
  | cons c rest ih =>
    cases c with
    | root => exact ih t []
    | here => exact ih t here
    | up =>
      rw [pave]
      split
      · exact ih t here.dropLast
      · exact .refl written t
    | name text =>
      rw [pave]
      split
      · exact (alters_furnish written t (List.concat_ne_nil text here)).trans (ih _ _)
      · exact .refl written t

theorem node?_of_enter (hroot : .root ∉ cs) (h : t.enter here cs = .ok place) :
    t.node? here = some .directory := by
  induction cs with
  | nil => exact (directoryAt_ok h).2
  | cons c rest ih =>
    obtain ⟨hne, hrest⟩ := List.ne_and_not_mem_of_not_mem_cons hroot
    cases c with
    | root => exact absurd rfl hne
    | here => exact ih hrest h
    | up =>
      rw [enter] at h
      split at h
      · cases h
      · next there hat => exact (directoryAt_ok hat).2
    | name text =>
      rw [enter] at h
      split at h
      · cases h
      · next there hat => exact (directoryAt_ok hat).2

theorem enter_of_directoryAt_error {e : Fault} (hroot : .root ∉ cs)
    (h : t.directoryAt here = .error e) : t.enter here cs = .error e := by
  induction cs with
  | nil => exact h
  | cons c rest ih =>
    obtain ⟨hne, hrest⟩ := List.ne_and_not_mem_of_not_mem_cons hroot
    cases c with
    | root => exact absurd rfl hne
    | here => exact ih hrest
    | up => rw [enter, h]
    | name text => rw [enter, h]

/-- Nothing is paved from where no directory is. -/
theorem pave_of_not_directory (hroot : .root ∉ cs) (h : t.node? here ≠ some .directory) :
    t.pave here cs = (t, none) := by
  induction cs with
  | nil => rw [pave, if_neg h]
  | cons c rest ih =>
    obtain ⟨hne, hrest⟩ := List.ne_and_not_mem_of_not_mem_cons hroot
    cases c with
    | root => exact absurd rfl hne
    | here => exact ih hrest
    | up => rw [pave, if_neg h]
    | name text => rw [pave, if_neg fun hboth => h hboth.1]

/-- What can be entered is paved already. -/
theorem pave_of_enter (hroot : .root ∉ cs.tail) (h : t.enter here cs = .ok place) :
    t.pave here cs = (t, some place) := by
  induction cs generalizing here with
  | nil =>
    obtain ⟨rfl, hnode⟩ := directoryAt_ok h
    rw [pave, if_pos hnode]
  | cons c rest ih =>
    have htail : .root ∉ rest.tail := fun hmem => hroot (List.mem_of_mem_tail hmem)
    cases c with
    | root => exact ih htail h
    | here => exact ih htail h
    | up =>
      rw [enter] at h
      split at h
      · cases h
      · next there hat => rw [pave, if_pos (directoryAt_ok hat).2, ih htail h]
    | name text =>
      rw [enter] at h
      split at h
      · cases h
      · next there hat =>
        split at h
        · cases h
        · next hshort =>
          have hnext := node?_of_enter hroot h
          rw [pave, if_pos ⟨(directoryAt_ok hat).2, Nat.le_of_not_lt hshort⟩,
            furnish_of_node? (by rw [hnext]; exact Option.some_ne_none _), ih htail h]

/-- What cannot be entered for another reason than that something is missing cannot be paved. -/
theorem pave_of_enter_error {e : Fault} (hroot : .root ∉ cs.tail)
    (h : t.enter here cs = .error e) (he : e ≠ .notFound) : t.pave here cs = (t, none) := by
  induction cs generalizing here with
  | nil =>
    refine pave_of_not_directory List.not_mem_nil fun hnode => ?_
    rw [enter, directoryAt_of_node? hnode] at h
    cases h
  | cons c rest ih =>
    have htail : .root ∉ rest.tail := fun hmem => hroot (List.mem_of_mem_tail hmem)
    cases c with
    | root => exact ih htail h
    | here => exact ih htail h
    | up =>
      rw [pave]
      split
      · next hnode =>
        rw [enter, directoryAt_of_node? hnode] at h
        exact ih htail h
      · rfl
    | name text =>
      rw [pave]
      split
      · next hboth =>
        rw [enter, directoryAt_of_node? hboth.1] at h
        simp only [if_neg (Nat.not_lt.2 hboth.2)] at h
        have hrest : .root ∉ rest := hroot
        have hnext : t.node? (here ++ [text]) ≠ none := by
          intro hnone
          rw [enter_of_directoryAt_error hrest (by rw [directoryAt, hnone])] at h
          exact he (Except.error.inj h).symm
        rw [furnish_of_node? hnext]
        exact ih htail h
      · rfl

/-- What has been paved can be entered. -/
theorem enter_of_pave (h : t.pave here cs = (t', some place)) : t'.enter here cs = .ok place := by
  have halters := alters_pave (fun _ => False) t here cs
  rw [h] at halters
  induction cs generalizing t here with
  | nil =>
    rw [pave] at h
    split at h
    · next hnode =>
      cases h
      exact directoryAt_of_node? hnode
    · cases h
  | cons c rest ih =>
    cases c with
    | root => exact ih h halters
    | here => exact ih h halters
    | up =>
      rw [pave] at h
      split at h
      · next hnode =>
        rw [enter, directoryAt_of_node? (halters.directory hnode)]
        exact ih h halters
      · cases h
    | name text =>
      rw [pave] at h
      split at h
      · next hboth =>
        have hrest := alters_pave (fun _ => False) (t.furnish (here ++ [text]))
          (here ++ [text]) rest
        rw [h] at hrest
        rw [enter, directoryAt_of_node? (halters.directory hboth.1)]
        simp only [if_neg (Nat.not_lt.2 hboth.2)]
        exact ih h hrest
      · cases h

/-- **Paving goes on where it came to.** -/
theorem pave_append (h : t.pave here cs = (t', some place)) (ds : List Component) :
    t.pave here (cs ++ ds) = t'.pave place ds := by
  induction cs generalizing t here with
  | nil =>
    rw [pave] at h
    split at h
    · cases h
      rfl
    · cases h
  | cons c rest ih =>
    cases c with
    | root => exact ih h
    | here => exact ih h
    | up =>
      rw [pave] at h
      split at h
      · next hnode =>
        rw [List.cons_append, pave, if_pos hnode]
        exact ih h
      · cases h
    | name text =>
      rw [pave] at h
      split at h
      · next hboth =>
        rw [List.cons_append, pave, if_pos hboth]
        exact ih h
      · cases h

/-- Where paving has stopped it does not go on. -/
theorem pave_append_of_none (hroot : .root ∉ ds) (h : t.pave here cs = (t', none)) :
    t.pave here (cs ++ ds) = (t', none) := by
  induction cs generalizing t here with
  | nil =>
    rw [pave] at h
    split at h
    · cases h
    · next hnode =>
      cases h
      exact pave_of_not_directory hroot hnode
  | cons c rest ih =>
    cases c with
    | root => exact ih h
    | here => exact ih h
    | up =>
      rw [pave] at h
      rw [List.cons_append, pave]
      split at h
      · next hnode =>
        rw [if_pos hnode]
        exact ih h
      · next hnode => rw [if_neg hnode, h]
    | name text =>
      rw [pave] at h
      rw [List.cons_append, pave]
      split at h
      · next hboth =>
        rw [if_pos hboth]
        exact ih h
      · next hboth => rw [if_neg hboth, h]

/-- **Paving again changes nothing** and comes to the same end. -/
theorem pave_again {reached : Option Place} (h : t.pave here cs = (t', reached)) :
    t'.pave here cs = (t', reached) := by
  induction cs generalizing t here with
  | nil =>
    cases h
    rfl
  | cons c rest ih =>
    have halters := alters_pave (fun _ => False) t here (c :: rest)
    rw [h] at halters
    cases c with
    | root => exact ih h
    | here => exact ih h
    | up =>
      rw [pave] at h
      split at h
      · next hnode =>
        rw [pave, if_pos (halters.directory hnode)]
        exact ih h
      · next hnode =>
        cases h
        rw [pave, if_neg hnode]
    | name text =>
      rw [pave] at h
      split at h
      · next hboth =>
        have hrest := alters_pave (fun _ => False) (t.furnish (here ++ [text]))
          (here ++ [text]) rest
        rw [h] at hrest
        have hmade : t'.node? (here ++ [text]) ≠ none := by
          refine hrest.node?_ne_none ?_
          rw [node?_furnish t (List.concat_ne_nil text here), if_pos rfl]
          exact Option.some_ne_none _
        rw [pave, if_pos ⟨halters.directory hboth.1, hboth.2⟩, furnish_of_node? hmade]
        exact ih h
      · next hboth =>
        cases h
        rw [pave, if_neg hboth]

/-! ### Making all directories -/

theorem component?_ne_root (segment : String) : component? segment ≠ some .root := by
  intro h
  rw [component?] at h
  split at h
  · cases h
  · split at h <;> cases h

theorem root_not_mem_tail (path : String) : .root ∉ (components path).tail := by
  have hbody : Component.root ∉ (Path.split path).2.filterMap component? := by
    intro hmem
    obtain ⟨segment, -, hsegment⟩ := List.mem_filterMap.1 hmem
    exact component?_ne_root segment hsegment
  rw [Path.components_eq]
  cases (Path.split path).1 with
  | root => exact hbody
  | here => exact hbody
  | none => exact fun hmem => hbody (List.mem_of_mem_tail hmem)

theorem root_not_mem_last {last : String} {c : Component} (h : component? last = some c) :
    .root ∉ [c] := by
  intro hmem
  rw [← List.mem_singleton.1 hmem] at h
  exact component?_ne_root last h

theorem root_not_mem_tail_dropLast (path : String) : .root ∉ (components path).dropLast.tail := by
  rw [List.tail_dropLast]
  exact fun hmem => root_not_mem_tail path (List.dropLast_subset _ hmem)

/-- Where paving changes nothing, it comes to an end if and only if a directory is there. -/
theorem isDirectory_eq_isSome (hrefusal : refusal? path = none)
    (h : (t.pave t.workingDir (components path)).1 = t) :
    t.isDirectory path = (t.pave t.workingDir (components path)).2.isSome := by
  rw [Bool.eq_iff_iff, isDirectory_iff, Option.isSome_iff_exists]
  constructor
  · rintro ⟨-, place, henter⟩
    exact ⟨place, by rw [pave_of_enter (root_not_mem_tail path) henter]⟩
  · rintro ⟨place, hplace⟩
    exact ⟨hrefusal, place, enter_of_pave (Prod.ext h hplace)⟩

/-- **What the last component of a path makes**, once the rest can be entered, is what paving makes
of it. -/
theorem makeDirectory_last {ahead : List String} {last : String} {c : Component}
    (hrefusal : refusal? path = none) (hsegments : segments path = ahead ++ [last])
    (hlast : component? last = some c)
    (henter : t.enter t.workingDir (components path).dropLast = .ok here) :
    (∃ made place, t.makeDirectory path = .ok made ∧ t.pave here [c] = (made, some place)) ∨
      ∃ e, t.makeDirectory path = .error e ∧ e ≠ .notFound ∧ (t.pave here [c]).1 = t := by
  have hhere := (enter_ok henter).2
  have hlocate := t.locate_last hrefusal hsegments hlast
  rw [henter, Except.map] at hlocate
  rw [component?] at hlast
  split at hlast
  · cases hlast
  · next htrivial =>
    split at hlast
    · next hup =>
      subst hup
      cases hlast
      refine .inr ⟨.alreadyExists, by simp [makeDirectory, hlocate, Slot.place], by decide, ?_⟩
      rw [pave, if_pos hhere, pave]
    · next hup =>
      cases hlast
      have hdots : ¬ (last = "." ∨ last = "..") := by
        rintro (rfl | rfl)
        · exact htrivial rfl
        · exact hup rfl
      by_cases hlong : longestName < last.utf8ByteSize
      · refine .inr ⟨.nameTooLong, ?_, by decide, ?_⟩
        · simp [makeDirectory, hlocate, Slot.place, hdots, hlong]
        · rw [pave, if_neg fun hboth => Nat.not_le.2 hlong hboth.2]
      · have hplace : Slot.place ⟨here, some last, false⟩ .alreadyExists = .ok (here ++ [last]) :=
          Slot.place_eq_ok_iff.2 ⟨last, rfl, hdots, Nat.le_of_not_lt hlong, rfl⟩
        rw [pave, if_pos ⟨hhere, Nat.le_of_not_lt hlong⟩, pave]
        cases hnode : t.node? (here ++ [last]) with
        | none =>
          have hne : here ++ [last] ≠ [] := List.concat_ne_nil last here
          refine .inl ⟨t.put (here ++ [last]) .directory, here ++ [last], ?_, ?_⟩
          · simp only [makeDirectory, hlocate, hplace, hnode]
          · rw [furnish, if_pos hnode, node?_put t hne, if_pos rfl, if_pos rfl]
        | some node =>
          refine .inr ⟨.alreadyExists, ?_, by decide, ?_⟩
          · simp only [makeDirectory, hlocate, hplace, hnode]
          · rw [furnish_of_node? (by rw [hnode]; exact Option.some_ne_none _)]

/-- Making the directories of a path has come to the same as paving its components: to the same
tree, and to an end or not. -/
def Matches (made : FileTree × Except Fault Unit) (paved : FileTree × Option Place) : Prop :=
  made.1 = paved.1 ∧ made.2.isOk = paved.2.isSome

/-- The directory that a path ends in is made, or it is there. -/
def makeOrFind (t : FileTree) (path : String) : FileTree × Except Fault Unit :=
  match t.makeDirectory path with
  | .ok made => (made, .ok ())
  | .error e => (t, if t.isDirectory path then .ok () else .error e)

/-- A chain of parents is followed up only where something is missing. -/
theorem createChain_cons (t : FileTree) (hne : path ≠ "") (parents : List String) :
    t.createChain (path :: parents) =
      if t.makeDirectory path = .error .notFound then
        match t.createChain parents with
        | (grown, .error e) => (grown, .error e)
        | (grown, .ok ()) => grown.makeOrFind path
      else t.makeOrFind path := by
  rw [createChain, if_neg hne]
  cases hmake : t.makeDirectory path with
  | ok made => simp [makeOrFind, hmake]
  | error e =>
    by_cases he : e = .notFound
    · subst he
      rcases t.createChain parents with ⟨grown, made⟩
      cases made with
      | error e => rfl
      | ok _ => rfl
    · rw [if_neg fun heq => he (Except.error.inj heq), makeOrFind, hmake]
      cases e with
      | notFound => exact absurd rfl he
      | _ => rfl

theorem matches_of_isDirectory (h : t.isDirectory path = true) (parents : List String) :
    Matches (t.createChain (path :: parents)) (t.pave t.workingDir (components path)) := by
  obtain ⟨-, place, henter⟩ := isDirectory_iff.1 h
  rw [createChain_of_isDirectory h, pave_of_enter (root_not_mem_tail path) henter]
  exact ⟨rfl, rfl⟩

theorem matches_of_makeDirectory_error {e : Fault} (hrefusal : refusal? path = none)
    (hmake : t.makeDirectory path = .error e)
    (hpave : (t.pave t.workingDir (components path)).1 = t) :
    Matches (t.makeOrFind path) (t.pave t.workingDir (components path)) := by
  rw [makeOrFind, hmake]
  refine ⟨hpave.symm, ?_⟩
  rw [isDirectory_eq_isSome hrefusal hpave]
  cases (t.pave t.workingDir (components path)).2 with
  | none => rfl
  | some place => rfl

theorem makeOrFind_last {ahead : List String} {last : String} {c : Component}
    (hrefusal : refusal? path = none) (hsegments : segments path = ahead ++ [last])
    (hlast : component? last = some c)
    (henter : t.enter t.workingDir (components path).dropLast = .ok here) :
    Matches (t.makeOrFind path) (t.pave t.workingDir (components path)) := by
  have hpave : t.pave t.workingDir (components path) = t.pave here [c] := by
    rw [Path.components_last hsegments hlast]
    exact pave_append (pave_of_enter (root_not_mem_tail_dropLast path) henter) [c]
  rcases makeDirectory_last hrefusal hsegments hlast henter with
    ⟨made, place, hmake, hpaved⟩ | ⟨e, hmake, -, hpaved⟩
  · rw [makeOrFind, hmake, hpave, hpaved]
    exact ⟨rfl, rfl⟩
  · rw [← hpave] at hpaved
    exact matches_of_makeDirectory_error hrefusal hmake hpaved

/-- An empty path asks for nothing. -/
theorem createChain_empty (t : FileTree) (fuel : Nat) :
    t.createChain (Path.ancestorsUpTo fuel "") = (t, .ok ()) := by
  obtain ⟨rest, hrest⟩ := exists_ancestorsUpTo fuel ""
  rw [hrest, createChain, if_pos rfl]

/-- A path with an empty parent gets no further than the parent. -/
theorem matches_of_empty_parent {e : Fault} {fuel : Nat} (hrefusal : refusal? path = none)
    (hmake : t.makeDirectory path = .error e)
    (hpave : (t.pave t.workingDir (components path)).1 = t) :
    Matches (t.createChain (path :: Path.ancestorsUpTo fuel ""))
      (t.pave t.workingDir (components path)) := by
  have hne : path ≠ "" := (refusal?_eq_none_iff.1 hrefusal).2.1
  have hmatch := matches_of_makeDirectory_error hrefusal hmake hpave
  rw [createChain_cons t hne, createChain_empty]
  split
  · exact hmatch
  · exact hmatch

/-- Where the parent had to be made first, paving has gone the same way. -/
theorem matches_of_missing {ahead : List String} {last parent : String} {c : Component}
    {parents : List String} (hrefusal : refusal? path = none)
    (hsegments : segments path = ahead ++ [last]) (hlast : component? last = some c)
    (hparent : components parent = (components path).dropLast)
    (hmake : t.makeDirectory path = .error .notFound)
    (h : Matches (t.createChain parents) (t.pave t.workingDir (components parent))) :
    Matches (t.createChain (path :: parents)) (t.pave t.workingDir (components path)) := by
  have hne : path ≠ "" := (refusal?_eq_none_iff.1 hrefusal).2.1
  have hcomponents := Path.components_last hsegments hlast
  rw [createChain_cons t hne, if_pos hmake]
  rw [hparent] at h
  rcases hpave : t.pave t.workingDir (components path).dropLast with ⟨paved, reached⟩
  rcases hchain : t.createChain parents with ⟨grown, made⟩
  rw [hpave, hchain] at h
  obtain ⟨hsame, hok⟩ := h
  dsimp only at hsame hok
  subst hsame
  cases reached with
  | none =>
    rw [hcomponents, pave_append_of_none (root_not_mem_last hlast) hpave]
    cases made with
    | error e => exact ⟨rfl, rfl⟩
    | ok _ => cases hok
  | some here =>
    have hdir : grown.workingDir = t.workingDir := by
      have halters := alters_pave (fun _ => False) t t.workingDir (components path).dropLast
      rw [hpave] at halters
      exact halters.workingDir
    -- what has been paved so far is paved again by the whole path, which then goes on
    have hagain : t.pave t.workingDir (components path) =
        grown.pave grown.workingDir (components path) := by
      rw [hcomponents, pave_append hpave, hdir, pave_append (pave_again hpave)]
    have henter := enter_of_pave hpave
    rw [← hdir] at henter
    cases made with
    | error e => cases hok
    | ok _ =>
      rw [hagain]
      exact makeOrFind_last hrefusal hsegments hlast henter

/-- One link of a chain of parents, if the rest of the chain is paving. -/
theorem createChain_cons_matches {ahead : List String} {last parent : String} {c : Component}
    {fuel : Nat} (hrefusal : refusal? path = none) (hsegments : segments path = ahead ++ [last])
    (hlast : component? last = some c) (hparent : Path.parent? path = some parent)
    (h : parent ≠ "" → Matches (t.createChain (Path.ancestorsUpTo fuel parent))
      (t.pave t.workingDir (components parent))) :
    Matches (t.createChain (path :: Path.ancestorsUpTo fuel parent))
      (t.pave t.workingDir (components path)) := by
  have hne : path ≠ "" := (refusal?_eq_none_iff.1 hrefusal).2.1
  have hcomponents := Path.components_last hsegments hlast
  have hfront := Path.components_parent hparent
  cases henter : t.enter t.workingDir (components path).dropLast with
  | ok here =>
    have hfound : t.makeDirectory path ≠ .error .notFound := by
      rcases makeDirectory_last hrefusal hsegments hlast henter with
        ⟨made, place, hmake, -⟩ | ⟨e, hmake, he, -⟩
      · rw [hmake]
        exact nofun
      · rw [hmake]
        exact fun heq => he (Except.error.inj heq)
    rw [createChain_cons t hne, if_neg hfound]
    exact makeOrFind_last hrefusal hsegments hlast henter
  | error e =>
    have hmake := makeDirectory_of_enter_error hrefusal hsegments hlast henter
    have hstop : t.pave t.workingDir (components path).dropLast = (t, none) →
        (t.pave t.workingDir (components path)).1 = t := by
      intro hpave
      rw [hcomponents, pave_append_of_none (root_not_mem_last hlast) hpave]
    by_cases he : e = .notFound
    · subst he
      by_cases hempty : parent = ""
      · -- without components in front, the working directory itself is missing
        subst hempty
        have hnil : (components path).dropLast = [] := hfront.symm
        rw [hnil] at henter hstop
        refine matches_of_empty_parent hrefusal hmake (hstop ?_)
        refine pave_of_not_directory List.not_mem_nil fun hnode => ?_
        rw [enter, directoryAt_of_node? hnode] at henter
        cases henter
      · exact matches_of_missing hrefusal hsegments hlast hfront hmake (h hempty)
    · have hfound : t.makeDirectory path ≠ .error .notFound := by
        rw [hmake]
        exact fun heq => he (Except.error.inj heq)
      rw [createChain_cons t hne, if_neg hfound]
      refine matches_of_makeDirectory_error hrefusal hmake (hstop ?_)
      exact pave_of_enter_error (root_not_mem_tail_dropLast path) henter he

theorem components_ne_nil_of_tidy (h : Path.Tidy path) : components path ≠ [] := by
  rcases h with rfl | rfl | ⟨ahead, last, hsegments, hlast⟩
  · decide
  · decide
  · obtain ⟨c, hc⟩ := Path.exists_component? hlast
    rw [Path.components_last hsegments hc]
    exact List.concat_ne_nil c _

/-- Making the directories of a path from its end is paving it from its front. The induction is on
the number of parents. -/
theorem createChain_matches {fuel : Nat} (hrefusal : refusal? path = none)
    (htidy : Path.Tidy path) (hfuel : (components path).length ≤ fuel) :
    Matches (t.createChain (Path.ancestorsUpTo fuel path))
      (t.pave t.workingDir (components path)) := by
  induction fuel generalizing path with
  | zero =>
    exact absurd (List.length_eq_zero_iff.1 (Nat.le_zero.1 hfuel)) (components_ne_nil_of_tidy htidy)
  | succ fuel ih =>
    rw [Path.ancestorsUpTo]
    rcases htidy with rfl | rfl | ⟨ahead, last, hsegments, hlast⟩
    · have hroot : t.isDirectory "/" = true := by
        refine isDirectory_iff.2 ⟨hrefusal, [], ?_⟩
        rw [show components "/" = [.root] by decide]
        exact directoryAt_of_node? (t := t) (if_pos rfl)
      split <;> exact matches_of_isDirectory hroot _
    · rw [show Path.parent? "." = some "" by decide]
      cases hmake : t.makeDirectory "." with
      | ok made =>
        obtain ⟨-, -, front, name, hend⟩ := makeDirectory_ok hmake
        exact absurd hend (Path.Anchor.front_ne_concat .here front name)
      | error e =>
        refine matches_of_empty_parent hrefusal hmake ?_
        rw [show components "." = [.here] by decide]
        rfl
    · obtain ⟨c, hc⟩ := Path.exists_component? hlast
      have hparent := Path.parent?_of_trimEnd (Path.split_concat hsegments hlast)
        (Path.trimEnd_concat hlast _)
      simp only [hparent]
      refine createChain_cons_matches hrefusal hsegments hc hparent fun hne => ih ?_ ?_ ?_
      · exact refusal?_of_parent hparent hne hrefusal
      · exact (Path.tidy_parent hparent).resolve_left hne
      · rw [Path.components_parent hparent, List.length_dropLast]
        omega

/-- **Making all directories of a path is paving its components**, if the path is a parent that can
be asked about. -/
theorem createAll_matches {target : String} (hparent : Path.parent? target = some path)
    (hrefusal : refusal? path = none) (t : FileTree) :
    Matches (t.createAll path) (t.pave t.workingDir (components path)) := by
  have hne : path ≠ "" := (refusal?_eq_none_iff.1 hrefusal).2.1
  refine createChain_matches hrefusal ((Path.tidy_parent hparent).resolve_left hne) ?_
  have hfilter := List.length_filterMap_le component? (segments path)
  have hfront : (Path.split path).1.front.length ≤ 1 := by
    cases (Path.split path).1 <;> decide
  rw [components_eq_segments, List.length_append]
  omega

/-- No directory is made under a path that cannot be asked about. -/
theorem createAll_of_refusal {fault : Fault} (hne : path ≠ "")
    (hrefusal : refusal? path = some fault) (t : FileTree) :
    ∃ e, t.createAll path = (t, .error e) := by
  have hlocate : t.locate path = .error fault := by rw [locate, hrefusal]
  have hmake : t.makeDirectory path = .error fault := by simp only [makeDirectory, hlocate]
  have hmissing : fault ≠ .notFound := by
    rintro rfl
    rw [refusal?, if_neg hne] at hrefusal
    split at hrefusal
    · cases hrefusal
    · split at hrefusal <;> cases hrefusal
  have hdirectory : t.isDirectory path = false := by simp [isDirectory, resolve, hrefusal]
  obtain ⟨rest, hrest⟩ := exists_ancestorsUpTo ((segments path).length + 1) path
  refine ⟨fault, ?_⟩
  rw [createAll, Path.ancestors, hrest, createChain_cons t hne,
    if_neg (by rw [hmake]; exact fun heq => hmissing (Except.error.inj heq)), makeOrFind, hmake,
    hdirectory]
  rfl

end AssetPack.FileTree
