import AssetPack.Proofs.FileTree

/-!
# When the operations on a file tree succeed

`FileTree.walk` goes along the segments of a path, and the operations put further conditions on the
last segment and on slashes behind it. All of this comes down to two notions that see only
components: a path can be *entered* if its components lead from directory to directory, and it
*aims* at a place if it ends in a name and the rest can be entered. Files are written and read where
a path aims, and a directory is there where a path can be entered.

## Main definitions

* `FileTree.enter`: follow components, from directory to directory.
* `FileTree.Aims`: a path names an entry of a directory that is there.

## Main results

* `FileTree.walk_dot`: walking and then standing still is entering.
* `FileTree.isDirectory_iff`: what is a directory can be entered.
* `FileTree.writeFile_eq_ok_iff`: a file can be written where a path aims, and nowhere else.
* `FileTree.Aims.makeDirectory_eq`, `FileTree.Aims.readFile_eq`
-/

namespace AssetPack

open AssetPack.Path (Component components component? segments)

/-- The last segment of a path is a name. -/
def Path.EndsIn (path name : String) : Prop :=
  ∃ front, segments path = front ++ [name] ∧ component? name = some (.name name)

/-- A last segment that means something is the last component. -/
theorem Path.components_last {path last : String} {front : List String} {c : Component}
    (hsegments : segments path = front ++ [last]) (hlast : component? last = some c) :
    components path = (components path).dropLast ++ [c] := by
  rw [FileTree.components_eq_segments, hsegments, List.filterMap_append,
    List.filterMap_cons_some hlast, List.filterMap_nil, ← List.append_assoc, List.dropLast_concat]

/-- The components in front of the name that a path ends in. -/
theorem Path.EndsIn.components_eq {path name : String} (h : Path.EndsIn path name) :
    components path = (components path).dropLast ++ [.name name] := by
  obtain ⟨front, hsegments, hname⟩ := h
  exact Path.components_last hsegments hname

theorem Path.component?_eq_name_iff {segment : String} :
    component? segment = some (.name segment) ↔
      segment ≠ "" ∧ ¬ (segment = "." ∨ segment = "..") := by
  rw [component?]
  by_cases htrivial : Path.isTrivial segment = true
  · have hcases : segment = "" ∨ segment = "." := by simpa [Path.isTrivial] using htrivial
    rw [if_pos htrivial]
    rcases hcases with rfl | rfl <;> simp
  · have hne : segment ≠ "" ∧ segment ≠ "." := by simpa [Path.isTrivial] using htrivial
    rw [if_neg htrivial]
    by_cases hup : segment = ".."
    · simp [hup]
    · simp [hup, hne]

theorem Path.not_isTrivial_of_name {name : String} (h : component? name = some (.name name)) :
    Path.isTrivial name = false := by
  obtain ⟨hempty, hdots⟩ := Path.component?_eq_name_iff.1 h
  simp [Path.isTrivial, hempty, (not_or.1 hdots).1]

theorem Path.component?_append {name : String} (h : component? name = some (.name name))
    (suffix : String) : component? (name ++ suffix) = some (.name (name ++ suffix)) := by
  obtain ⟨hempty, hdots⟩ := Path.component?_eq_name_iff.1 h
  refine Path.component?_eq_name_iff.2 ⟨by simp [hempty], fun heq => hdots ?_⟩
  have hchars : name.toList <+: ['.', '.'] := by
    rcases heq with heq | heq
    · exact ⟨suffix.toList ++ ['.'], by rw [← List.append_assoc, ← String.toList_append, heq]; rfl⟩
    · exact ⟨suffix.toList, by rw [← String.toList_append, heq]; rfl⟩
  rcases List.prefix_cons_iff.1 hchars with hnil | ⟨rest, hname, hrest⟩
  · exact absurd (String.toList_eq_nil_iff.1 hnil) hempty
  · rcases List.prefix_cons_iff.1 hrest with rfl | ⟨rest, rfl, hnil⟩
    · exact .inl (String.toList_inj.1 hname)
    · rw [List.prefix_nil.1 hnil] at hname
      exact .inr (String.toList_inj.1 hname)

/-- What is put behind a path is put behind its last segment. -/
theorem Path.segments_append {path last suffix : String} {front : List String}
    (h : segments path = front ++ [last]) (hslash : '/' ∉ suffix.toList) :
    segments (path ++ suffix) = front ++ [last ++ suffix] := by
  rw [← Path.ofSegments_segments path, h, ← Path.ofSegments_append_last]
  refine Path.segments_ofSegments (by simp) fun s hs => ?_
  rcases List.mem_append.1 hs with hs | hs
  · exact Path.slash_not_mem_of_mem_segments (h ▸ List.mem_append_left _ hs)
  · have hlast : '/' ∉ last.toList :=
      Path.slash_not_mem_of_mem_segments (h ▸ List.mem_append_right _ (by simp))
    rw [List.mem_singleton.1 hs]
    simp [hlast, hslash]

/-- **What is put behind a path** is put behind the name that it ends in. -/
theorem Path.EndsIn.components_append {path name suffix : String} (h : Path.EndsIn path name)
    (hslash : '/' ∉ suffix.toList) :
    components (path ++ suffix) = (components path).dropLast ++ [.name (name ++ suffix)] := by
  obtain ⟨front, hsegments, hname⟩ := h
  have hname' := Path.component?_append hname suffix
  rw [Path.components_concat (Path.segments_append hsegments hslash)
      (Path.not_isTrivial_of_name hname') hname',
    Path.components_concat hsegments (Path.not_isTrivial_of_name hname) hname, List.dropLast_concat]

/-- Different texts behind a path make different paths. -/
theorem Path.EndsIn.eq_of_components_append {path name suffix suffix' : String}
    (h : Path.EndsIn path name) (hslash : '/' ∉ suffix.toList) (hslash' : '/' ∉ suffix'.toList)
    (heq : components (path ++ suffix) = components (path ++ suffix')) : suffix = suffix' := by
  rw [h.components_append hslash, h.components_append hslash'] at heq
  have hname : name ++ suffix = name ++ suffix' := by simpa using heq
  exact String.append_right_inj name |>.1 hname

namespace FileTree

variable {t t' : FileTree} {path name : String} {here place : Place} {content : Bytes}

/-! ### Entering -/

/-- A place, if a directory is there. -/
def directoryAt (t : FileTree) (here : Place) : Except Fault Place :=
  match t.node? here with
  | none => .error .notFound
  | some (.file _) => .error .notDirectory
  | some .directory => .ok here

/-- Follow components, from directory to directory. -/
def enter (t : FileTree) : Place → List Component → Except Fault Place
  | here, [] => t.directoryAt here
  | _, .root :: rest => t.enter [] rest
  | here, .here :: rest => t.enter here rest
  | here, .up :: rest =>
    match t.directoryAt here with
    | .error e => .error e
    | .ok _ => t.enter here.dropLast rest
  | here, .name text :: rest =>
    match t.directoryAt here with
    | .error e => .error e
    | .ok _ =>
      if longestName < text.utf8ByteSize then .error .nameTooLong
      else t.enter (here ++ [text]) rest

theorem directoryAt_ok (h : t.directoryAt here = .ok place) :
    place = here ∧ t.node? here = some .directory := by
  rw [directoryAt] at h
  split at h
  · cases h
  · cases h
  · next hnode =>
    cases h
    exact ⟨rfl, hnode⟩

theorem directoryAt_of_node? (h : t.node? here = some .directory) :
    t.directoryAt here = .ok here := by
  rw [directoryAt, h]

theorem enter_of_not_directory (here : Place) {e : Fault} (h : t.directoryAt here = .error e)
    {segments : List String} : t.enter here (segments.filterMap component?) = .error e := by
  induction segments with
  | nil => exact h
  | cons segment rest ih =>
    cases hsegment : component? segment with
    | none => rw [List.filterMap_cons_none hsegment, ih]
    | some c =>
      rw [List.filterMap_cons_some hsegment]
      rw [component?] at hsegment
      split at hsegment
      · cases hsegment
      · split at hsegment
        · cases hsegment
          rw [enter, h]
        · cases hsegment
          rw [enter, h]

/-- **Walking and then standing still is entering.** -/
theorem walk_dot (t : FileTree) (here : Place) (body : List String) :
    t.walk here (body ++ ["."]) = t.enter here (body.filterMap component?) := by
  induction body generalizing here with
  | nil =>
    show t.walk here ["."] = t.directoryAt here
    rw [walk, follow, directoryAt]
    cases t.node? here with
    | none => rfl
    | some node => cases node <;> rfl
  | cons segment rest ih =>
    rw [List.cons_append, walk, follow]
    cases hnode : t.node? here with
    | none =>
      have hat : t.directoryAt here = .error .notFound := by rw [directoryAt, hnode]
      rw [enter_of_not_directory here hat]
    | some node =>
      cases node with
      | file _ =>
        have hat : t.directoryAt here = .error .notDirectory := by rw [directoryAt, hnode]
        rw [enter_of_not_directory here hat]
      | directory =>
        have hat := directoryAt_of_node? hnode
        by_cases htrivial : Path.isTrivial segment = true
        · rw [List.filterMap_cons_none (Path.component?_eq_none htrivial), ← ih]
          simp only [if_pos htrivial]
        · by_cases hup : segment = ".."
          · have hc : component? segment = some .up := by
              rw [component?, if_neg htrivial, if_pos hup]
            rw [List.filterMap_cons_some hc, enter, hat, ← ih]
            simp only [if_neg htrivial, if_pos hup]
          · have hc : component? segment = some (.name segment) := by
              rw [component?, if_neg htrivial, if_neg hup]
            rw [List.filterMap_cons_some hc, enter, hat]
            simp only [if_neg htrivial, if_neg hup]
            by_cases hlong : longestName < segment.utf8ByteSize
            · rw [if_pos hlong, if_pos hlong]
            · rw [if_neg hlong, if_neg hlong, ← ih]
              -- what the next segment finds missing is what this one finds missing
              cases hnext : t.node? (here ++ [segment]) with
              | some next => rfl
              | none =>
                have hmissing : t.directoryAt (here ++ [segment]) = .error .notFound := by
                  rw [directoryAt, hnext]
                rw [ih, enter_of_not_directory _ hmissing]

theorem enter_ok {cs : List Component} (h : t.enter here cs = .ok place) :
    place = cs.foldl Component.advance here ∧ t.node? place = some .directory := by
  induction cs generalizing here with
  | nil =>
    obtain ⟨rfl, hnode⟩ := directoryAt_ok h
    exact ⟨rfl, hnode⟩
  | cons c rest ih =>
    cases c with
    | root => exact ih h
    | here => exact ih h
    | up =>
      rw [enter] at h
      split at h
      · cases h
      · exact ih h
    | name text =>
      rw [enter] at h
      split at h
      · cases h
      · split at h
        · cases h
        · exact ih h

/-- Entering goes on where it came to. -/
theorem enter_append {cs : List Component} (h : t.enter here cs = .ok place)
    (ds : List Component) : t.enter here (cs ++ ds) = t.enter place ds := by
  induction cs generalizing here with
  | nil =>
    obtain ⟨rfl, -⟩ := directoryAt_ok h
    rfl
  | cons c rest ih =>
    cases c with
    | root => exact ih h
    | here => exact ih h
    | up =>
      rw [List.cons_append, enter]
      rw [enter] at h
      split at h
      · cases h
      · exact ih h
    | name text =>
      rw [List.cons_append, enter]
      rw [enter] at h
      split at h
      · cases h
      · split at h
        · cases h
        · next hshort =>
          rw [if_neg hshort]
          exact ih h

theorem enter_components (t : FileTree) (path : String) :
    t.enter t.workingDir (components path) =
      t.enter (t.origin path) ((segments path).filterMap component?) := by
  rw [components_eq_segments, ← t.arrive_front]
  cases (Path.split path).1 with
  | root => rfl
  | here => rfl
  | none => rfl

/-! ### Directories -/

/-- The paths that a tree can be asked about. -/
theorem refusal?_eq_none_iff :
    refusal? path = none ↔
      Char.ofNat 0 ∉ path.toList ∧ path ≠ "" ∧ path.utf8ByteSize ≤ longestPath := by
  rw [refusal?]
  split
  · next hnul => simp [List.contains_iff_mem.1 hnul]
  · next hnul =>
    rw [List.contains_iff_mem] at hnul
    split
    · next hempty => simp [hempty]
    · next hempty => simp [hnul, hempty]

theorem walk_append {front back : List String} {there : Place} :
    t.walk here (front ++ back) = .ok there ↔
      ∃ mid, t.walk here front = .ok mid ∧ t.walk mid back = .ok there := by
  induction front generalizing here with
  | nil => simp [walk]
  | cons segment rest ih =>
    rw [List.cons_append, walk, walk]
    cases t.follow here segment with
    | error e => simp
    | ok next => exact ih

theorem walk_standing {there : Place} :
    t.walk here ["."] = .ok there ↔ there = here ∧ t.node? here = some .directory := by
  rw [← List.nil_append ["."], walk_dot]
  constructor
  · exact directoryAt_ok
  · rintro ⟨rfl, hnode⟩
    exact directoryAt_of_node? hnode

/-- **What is a directory can be entered**, and the other way round. -/
theorem isDirectory_iff :
    t.isDirectory path = true ↔
      refusal? path = none ∧ ∃ place, t.enter t.workingDir (components path) = .ok place := by
  rw [isDirectory, resolve, enter_components, ← walk_dot]
  cases refusal? path with
  | some fault => simp
  | none =>
    simp only [true_and, walk_append, walk_standing]
    cases t.walk (t.origin path) (segments path) with
    | error e => simp
    | ok there => simp

/-! ### Aims -/

/-- A path aims at a place if it ends in a name that can exist, and the place has this name in the
directory that the rest leads to. -/
def Aims (t : FileTree) (path : String) (place : Place) : Prop :=
  refusal? path = none ∧ ∃ name parent, Path.EndsIn path name ∧
    name.utf8ByteSize ≤ longestName ∧
    t.enter t.workingDir (components path).dropLast = .ok parent ∧ place = parent ++ [name]

theorem locate_eq_ok_iff {slot : Slot} :
    t.locate path = .ok slot ↔ refusal? path = none ∧
      t.walk (t.origin path) ((dropSlashes (segments path)).dropLast ++ ["."]) = .ok slot.parent ∧
      slot.last = (dropSlashes (segments path)).getLast? ∧
      slot.slash = decide ((dropSlashes (segments path)).length < (segments path).length) := by
  rw [locate]
  cases refusal? path with
  | some fault => simp
  | none =>
    dsimp only
    cases t.walk (t.origin path) ((dropSlashes (segments path)).dropLast ++ ["."]) with
    | error e => simp
    | ok parent =>
      obtain ⟨p, last, slash⟩ := slot
      simp only [Except.ok.injEq, Slot.mk.injEq, true_and]
      constructor
      · rintro ⟨rfl, rfl, rfl⟩
        exact ⟨rfl, rfl, rfl⟩
      · rintro ⟨rfl, rfl, rfl⟩
        exact ⟨rfl, rfl, rfl⟩

theorem Slot.place_eq_ok_iff {slot : Slot} {dots : Fault} :
    slot.place dots = .ok place ↔ ∃ name, slot.last = some name ∧
      ¬ (name = "." ∨ name = "..") ∧ name.utf8ByteSize ≤ longestName ∧
      place = slot.parent ++ [name] := by
  constructor
  · intro h
    rw [Slot.place] at h
    split at h
    · cases h
    · next name hlast =>
      split at h
      · cases h
      · next hdots =>
        split at h
        · cases h
        · next hshort =>
          cases h
          exact ⟨name, hlast, hdots, Nat.le_of_not_lt hshort, rfl⟩
  · rintro ⟨name, hlast, hdots, hshort, rfl⟩
    simp only [Slot.place, hlast, if_neg hdots, if_neg (Nat.not_lt.2 hshort)]

theorem dropSlashes_eq_self_iff {body : List String} :
    dropSlashes body = body ↔ ¬ (dropSlashes body).length < body.length := by
  constructor
  · intro h
    rw [h]
    exact Nat.lt_irrefl _
  · intro h
    exact (List.rdropWhile_prefix (· == "") body).eq_of_length_le (Nat.le_of_not_lt h)

theorem dropSlashes_concat {front : List String} (h : name ≠ "") :
    dropSlashes (front ++ [name]) = front ++ [name] :=
  List.rdropWhile_concat_neg _ _ _ (by simpa using h)

/-- The components in front of the last one are those of the segments in front of it. -/
theorem enter_dropLast (t : FileTree) {front : List String} {c : Component}
    (hsegments : segments path = front ++ [name]) (hname : component? name = some c) :
    t.enter t.workingDir (components path).dropLast =
      t.walk (t.origin path) (front ++ ["."]) := by
  rw [components_eq_segments, hsegments, List.filterMap_append, List.filterMap_cons_some hname,
    List.filterMap_nil, ← List.append_assoc, List.dropLast_concat, walk_dot, ← t.arrive_front]
  cases (Path.split path).1 with
  | root => rfl
  | here => rfl
  | none => rfl

/-- **A path aims** where it has a slot that can be filled and no slash behind it. -/
theorem aims_iff (dots : Fault) :
    t.Aims path place ↔ ∃ slot, t.locate path = .ok slot ∧ slot.place dots = .ok place ∧
      slot.slash = false := by
  constructor
  · rintro ⟨hrefusal, name, parent, ⟨front, hsegments, hname⟩, hshort, henter, rfl⟩
    obtain ⟨hempty, hdots⟩ := Path.component?_eq_name_iff.1 hname
    have hbody : dropSlashes (segments path) = front ++ [name] := by
      rw [hsegments, dropSlashes_concat hempty]
    rw [enter_dropLast t hsegments hname] at henter
    refine ⟨⟨parent, some name, false⟩, locate_eq_ok_iff.2 ⟨hrefusal, ?_, ?_, ?_⟩,
      Slot.place_eq_ok_iff.2 ⟨name, rfl, hdots, hshort, rfl⟩, rfl⟩
    · rw [hbody, List.dropLast_concat]
      exact henter
    · rw [hbody, List.getLast?_concat]
    · rw [hbody, hsegments]
      simp
  · rintro ⟨slot, hlocate, hplace, hslash⟩
    obtain ⟨hrefusal, hwalk, hlast, hlength⟩ := locate_eq_ok_iff.1 hlocate
    obtain ⟨name, hname, hdots, hshort, rfl⟩ := Slot.place_eq_ok_iff.1 hplace
    have hwhole : dropSlashes (segments path) = segments path :=
      dropSlashes_eq_self_iff.2 (of_decide_eq_false (hlength.symm.trans hslash))
    rw [hlast] at hname
    have hcomponent := Path.component?_eq_name_iff.2 ⟨getLast?_dropSlashes_ne hname, hdots⟩
    rw [hwhole] at hname hwalk
    obtain ⟨front, hsegments⟩ := List.getLast?_eq_some_iff.1 hname
    rw [hsegments, List.dropLast_concat] at hwalk
    exact ⟨hrefusal, name, slot.parent, ⟨front, hsegments, hcomponent⟩, hshort,
      (enter_dropLast t hsegments hcomponent).trans hwalk, rfl⟩

theorem Aims.eq_destination (h : t.Aims path place) : place = t.destination path := by
  obtain ⟨-, name, parent, hends, -, henter, rfl⟩ := h
  obtain ⟨rfl, -⟩ := enter_ok henter
  rw [destination, hends.components_eq, arrive_append, List.dropLast_concat]
  rfl

theorem Aims.ne_nil (h : t.Aims path place) : place ≠ [] := by
  obtain ⟨-, name, parent, -, -, -, rfl⟩ := h
  exact List.concat_ne_nil name parent

/-- **A file can be written where a path aims**, unless a directory is there. -/
theorem writeFile_eq_ok_iff :
    t.writeFile path content = .ok t' ↔ ∃ place, t.Aims path place ∧
      t.node? place ≠ some .directory ∧ t' = t.put place (.file content) := by
  constructor
  · intro h
    rw [writeFile] at h
    split at h
    · cases h
    · next slot hlocate =>
      split at h
      · cases h
      · next place hplace =>
        split at h
        · cases h
        · next hslash =>
          have haims := (aims_iff .isDirectory).2 ⟨slot, hlocate, hplace, by simpa using hslash⟩
          split at h
          · cases h
          · next hnode =>
            cases h
            exact ⟨place, haims, hnode, rfl⟩
  · rintro ⟨place, haims, hnode, rfl⟩
    obtain ⟨slot, hlocate, hplace, hslash⟩ := (aims_iff .isDirectory).1 haims
    simp only [writeFile, hlocate, hplace, hslash, Bool.false_eq_true, if_false]

theorem Aims.makeDirectory_eq (h : t.Aims path place) :
    t.makeDirectory path =
      if t.node? place = none then .ok (t.put place .directory) else .error .alreadyExists := by
  obtain ⟨slot, hlocate, hplace, -⟩ := (aims_iff .alreadyExists).1 h
  simp only [makeDirectory, hlocate, hplace]
  cases t.node? place with
  | none => rfl
  | some node => rfl

/-- A path that aims at a file reads it. -/
theorem Aims.readFile_eq (h : t.Aims path place) (hnode : t.node? place = some (.file content)) :
    t.readFile path = .ok content := by
  obtain ⟨hrefusal, name, parent, ⟨front, hsegments, hname⟩, hshort, henter, rfl⟩ := h
  obtain ⟨hempty, hdots⟩ := Path.component?_eq_name_iff.1 hname
  obtain ⟨hdot, hup⟩ := not_or.1 hdots
  rw [enter_dropLast t hsegments hname, walk_append] at henter
  obtain ⟨mid, hwalk, hstand⟩ := henter
  obtain ⟨rfl, hdirectory⟩ := walk_standing.1 hstand
  have hfollow : t.follow parent name = .ok (parent ++ [name]) := by
    have htrivial : ¬ Path.isTrivial name = true := by simp [Path.isTrivial, hempty, hdot]
    simp only [follow, hdirectory, if_neg htrivial, if_neg hup, if_neg (Nat.not_lt.2 hshort), hnode]
  have hresolve : t.resolve path = .ok (parent ++ [name]) := by
    rw [resolve, hrefusal, hsegments]
    refine walk_append.2 ⟨parent, hwalk, ?_⟩
    rw [walk, hfollow]
    rfl
  simp only [readFile, hresolve, hnode]

end FileTree

end AssetPack
