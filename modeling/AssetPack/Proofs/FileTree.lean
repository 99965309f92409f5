import AssetPack.FileTree
import AssetPack.Proofs.Path

/-!
# Where the operations on a file tree reach

There are no links in a file tree, so where a path leads can be read off its components: start at
the working directory, go to the root, up, or down to a name. That is `FileTree.destination`, and it
is defined whether or not anything is there. Resolving a path only adds the question whether every
directory on the way exists, and an operation that succeeds has its effect at the destination and
nowhere else.

## Main results

* `FileTree.makeDirectory_ok`, `FileTree.writeFile_ok`: all that a successful operation does.
* `FileTree.node?_of_passes`: if a path leads anywhere, every place it names on the way exists.
* `FileTree.Confined`: two trees differ at or below the destination of a path only, directories that
  were missing on the way to it apart.
* `FileTree.confined_createAll`, `FileTree.confined_writeFile`
-/

namespace AssetPack

/-- The place that a component leads to from a place. -/
def Path.Component.advance (here : Place) : Path.Component → Place
  | .root => []
  | .here => here
  | .up => here.dropLast
  | .name text => here ++ [text]

namespace FileTree

open AssetPack.Path (Component Anchor components component? segments)

variable {t t' : FileTree} {path : String}

/-! ### Destinations -/

/-- The place that components lead to. -/
def arrive (t : FileTree) (cs : List Component) : Place := cs.foldl Component.advance t.workingDir

/-- The place that a path leads to, whether or not something is there. -/
def destination (t : FileTree) (path : String) : Place := t.arrive (components path)

/-- A place on the way of a path is one that a name in the path stands for. -/
def Passes (t : FileTree) (path : String) (place : Place) : Prop :=
  ∃ front name, front ++ [.name name] <+: components path ∧ place = t.arrive (front ++ [.name name])

/-- Where a path leads depends on where relative paths start, and not on what is there. -/
theorem destination_congr {u : FileTree} (h : u.workingDir = t.workingDir) (path : String) :
    u.destination path = t.destination path := by
  rw [destination, destination, arrive, arrive, h]

theorem arrive_append (t : FileTree) (front back : List Component) :
    t.arrive (front ++ back) = back.foldl Component.advance (t.arrive front) := by
  rw [arrive, List.foldl_append, arrive]

theorem arrive_names (t : FileTree) (front : List Component) (names : List String) :
    t.arrive (front ++ names.map Component.name) = t.arrive front ++ names := by
  rw [arrive_append]
  induction names generalizing front with
  | nil => simp
  | cons name names ih =>
    have hstep := ih (front ++ [.name name])
    rw [arrive_append] at hstep
    rw [List.map_cons, List.foldl_cons]
    simpa [Component.advance] using hstep

theorem arrive_front (t : FileTree) (path : String) :
    t.arrive (Path.split path).1.front = t.origin path := by
  rw [origin]
  by_cases habsolute : Path.isAbsolute path = true
  · rw [if_pos habsolute, (Path.isAbsolute_iff path).1 habsolute]
    rfl
  · have hroot := mt (Path.isAbsolute_iff path).2 habsolute
    rw [if_neg habsolute]
    cases hanchor : (Path.split path).1 with
    | root => exact absurd hanchor hroot
    | here => rfl
    | none => rfl

theorem components_eq_segments (path : String) :
    components path = (Path.split path).1.front ++ (segments path).filterMap component? := by
  rw [Path.components_eq, Path.filterMap_segments]

/-! ### Walking -/

/-- What a segment can do: nothing, or what its component says. A name must be there. -/
theorem follow_ok {here next : Place} {segment : String} (h : t.follow here segment = .ok next) :
    (component? segment = none ∧ next = here) ∨
    ∃ c, component? segment = some c ∧ next = c.advance here ∧
      ∀ name, c = .name name → t.node? next ≠ none := by
  rw [follow] at h
  split at h
  · cases h
  · cases h
  · split at h
    · next htrivial =>
      cases h
      exact .inl ⟨Path.component?_eq_none htrivial, rfl⟩
    · next htrivial =>
      split at h
      · next hup =>
        cases h
        exact .inr ⟨.up, by rw [component?, if_neg htrivial, if_pos hup], rfl, by simp⟩
      · next hup =>
        split at h
        · cases h
        · split at h
          · cases h
          · next node hnode =>
            cases h
            exact .inr ⟨.name segment, by rw [component?, if_neg htrivial, if_neg hup], rfl,
              by simp [hnode]⟩

theorem walk_ok {here there : Place} {body : List String} (h : t.walk here body = .ok there) :
    there = (body.filterMap component?).foldl Component.advance here := by
  induction body generalizing here with
  | nil =>
    cases h
    rfl
  | cons segment rest ih =>
    rw [walk] at h
    split at h
    · cases h
    · next next hfollow =>
      rcases follow_ok hfollow with ⟨hnone, rfl⟩ | ⟨c, hsome, rfl, -⟩
      · rw [List.filterMap_cons_none hnone, ih h]
      · rw [List.filterMap_cons_some hsome, List.foldl_cons, ih h]

theorem node?_of_walk {here there : Place} {body : List String}
    (h : t.walk here body = .ok there) {front : List Component} {name : String}
    (hfront : front ++ [.name name] <+: body.filterMap component?) :
    t.node? ((front ++ [Component.name name]).foldl Component.advance here) ≠ none := by
  induction body generalizing here front with
  | nil => simp at hfront
  | cons segment rest ih =>
    rw [walk] at h
    split at h
    · cases h
    · next next hfollow =>
      rcases follow_ok hfollow with ⟨hnone, rfl⟩ | ⟨c, hsome, rfl, hnode⟩
      · rw [List.filterMap_cons_none hnone] at hfront
        exact ih h hfront
      · rw [List.filterMap_cons_some hsome] at hfront
        match front with
        | [] =>
          obtain ⟨rfl, -⟩ := List.cons_prefix_cons.1 hfront
          exact hnode name rfl
        | d :: front =>
          obtain ⟨rfl, htail⟩ := List.cons_prefix_cons.1 hfront
          exact ih h htail

/-- The start of a path is no name, so what leads to a name has the start in front. -/
theorem prefix_front {anchor : Anchor} {cs front : List Component} {name : String}
    (h : front ++ [.name name] <+: anchor.front ++ cs) :
    ∃ back, front = anchor.front ++ back ∧ back ++ [.name name] <+: cs := by
  cases anchor with
  | none => exact ⟨front, rfl, h⟩
  | root =>
    match front with
    | [] => cases (List.cons_prefix_cons.1 h).1
    | c :: front =>
      obtain ⟨rfl, htail⟩ := List.cons_prefix_cons.1 h
      exact ⟨front, rfl, htail⟩
  | here =>
    match front with
    | [] => cases (List.cons_prefix_cons.1 h).1
    | c :: front =>
      obtain ⟨rfl, htail⟩ := List.cons_prefix_cons.1 h
      exact ⟨front, rfl, htail⟩

/-- **If a path leads anywhere, every place it names on the way exists.** -/
theorem node?_of_passes {there place : Place} (h : t.resolve path = .ok there)
    (hpasses : t.Passes path place) : t.node? place ≠ none := by
  obtain ⟨front, name, hfront, rfl⟩ := hpasses
  rw [components_eq_segments] at hfront
  obtain ⟨back, rfl, hback⟩ := prefix_front hfront
  rw [resolve] at h
  split at h
  · cases h
  · rw [List.append_assoc, arrive_append, arrive_front]
    exact node?_of_walk h hback

/-- Where a path leads is its destination. -/
theorem destination_of_resolve {place : Place} (h : t.resolve path = .ok place) :
    t.destination path = place := by
  rw [resolve] at h
  split at h
  · cases h
  · rw [walk_ok h, destination, components_eq_segments, arrive_append, arrive_front]

/-! ### What succeeds -/

theorem locate_ok {slot : Slot} (h : t.locate path = .ok slot) :
    t.walk (t.origin path) ((dropSlashes (segments path)).dropLast ++ ["."]) = .ok slot.parent ∧
      slot.last = (dropSlashes (segments path)).getLast? := by
  rw [locate] at h
  split at h
  · cases h
  · dsimp only at h
    split at h
    · cases h
    · next parent hwalk =>
      cases h
      exact ⟨hwalk, rfl⟩

theorem Slot.place_ok {slot : Slot} {dots : Fault} {place : Place}
    (h : slot.place dots = .ok place) :
    ∃ name, slot.last = some name ∧ ¬ (name = "." ∨ name = "..") ∧
      place = slot.parent ++ [name] := by
  rw [Slot.place] at h
  split at h
  · cases h
  · next name hlast =>
    split at h
    · cases h
    · next hdots =>
      split at h
      · cases h
      · cases h
        exact ⟨name, hlast, hdots, rfl⟩

theorem filterMap_dropSlashes (body : List String) :
    (dropSlashes body).filterMap component? = body.filterMap component? :=
  Path.filterMap_rdropWhile (fun s h => by rw [Path.isTrivial, h]; rfl) body

theorem getLast?_dropSlashes_ne {body : List String} {name : String}
    (h : (dropSlashes body).getLast? = some name) : name ≠ "" := by
  have hne : dropSlashes body ≠ [] := by
    intro hnil
    rw [hnil] at h
    cases h
  rw [List.getLast?_eq_some_getLast hne, Option.some.injEq] at h
  rw [← h]
  exact fun heq => List.rdropWhile_last_not (· == "") body hne (beq_iff_eq.2 heq)

/-- **What can be put in a slot goes to the destination of the path**, which ends in a name. -/
theorem place_of_locate {slot : Slot} {dots : Fault} {place : Place}
    (hlocate : t.locate path = .ok slot) (hplace : slot.place dots = .ok place) :
    place = t.destination path ∧ ∃ front name, components path = front ++ [.name name] := by
  obtain ⟨hwalk, hlast⟩ := locate_ok hlocate
  obtain ⟨name, hname, hdots, rfl⟩ := Slot.place_ok hplace
  rw [hlast] at hname
  have hempty := getLast?_dropSlashes_ne hname
  obtain ⟨front, hbody⟩ := List.getLast?_eq_some_iff.1 hname
  have hcomponent : component? name = some (.name name) := by
    rw [not_or] at hdots
    rw [component?, if_neg (by simp [Path.isTrivial, hempty, hdots.1]), if_neg hdots.2]
  have hcomponents : components path =
      ((Path.split path).1.front ++ front.filterMap component?) ++ [.name name] := by
    rw [components_eq_segments, ← filterMap_dropSlashes, hbody, List.filterMap_append,
      List.filterMap_cons_some hcomponent, List.filterMap_nil, List.append_assoc]
  have hparent :
      slot.parent = t.arrive ((Path.split path).1.front ++ front.filterMap component?) := by
    have hdot : ["."].filterMap component? = [] := rfl
    rw [hbody, List.dropLast_concat] at hwalk
    rw [walk_ok hwalk, arrive_append, arrive_front, List.filterMap_append, hdot, List.append_nil]
  refine ⟨?_, _, name, hcomponents⟩
  rw [destination, hcomponents, arrive_append, hparent]
  rfl

/-- A path that ends in a name does not lead to the root. -/
theorem destination_ne_nil {front : List Component} {name : String}
    (h : components path = front ++ [.name name]) : t.destination path ≠ [] := by
  rw [destination, h, arrive_append]
  simp [Component.advance]

/-- All that making a directory can do. -/
theorem makeDirectory_ok (h : t.makeDirectory path = .ok t') :
    t' = t.put (t.destination path) .directory ∧ t.node? (t.destination path) = none ∧
      ∃ front name, components path = front ++ [.name name] := by
  rw [makeDirectory] at h
  split at h
  · cases h
  · next slot hlocate =>
    split at h
    · cases h
    · next place hplace =>
      obtain ⟨rfl, hend⟩ := place_of_locate hlocate hplace
      split at h
      · cases h
      · next hnone =>
        cases h
        exact ⟨rfl, hnone, hend⟩

/-- All that writing a file can do. -/
theorem writeFile_ok {content : Bytes} (h : t.writeFile path content = .ok t') :
    t' = t.put (t.destination path) (.file content) ∧
      t.node? (t.destination path) ≠ some .directory ∧
      ∃ front name, components path = front ++ [.name name] := by
  rw [writeFile] at h
  split at h
  · cases h
  · next slot hlocate =>
    split at h
    · cases h
    · next place hplace =>
      obtain ⟨rfl, hend⟩ := place_of_locate hlocate hplace
      split at h
      · cases h
      · split at h
        · cases h
        · next hnode =>
          cases h
          exact ⟨rfl, hnode, hend⟩

/-! ### Confinement -/

/-- What an operation that is confined to `output` may change: what is at the destination of
`output` or below it, and missing directories on the way there, which it may make. -/
structure Confined (output : String) (before after : FileTree) : Prop where
  workingDir : after.workingDir = before.workingDir
  outside : ∀ place, ¬ before.destination output <+: place →
    after.node? place = before.node? place ∨
      before.Passes output place ∧ before.node? place = none ∧
        after.node? place = some .directory

variable {output : String}

theorem Confined.refl (output : String) (t : FileTree) : Confined output t t :=
  ⟨rfl, fun _ _ => .inl rfl⟩

theorem Confined.destination_eq (h : Confined output t t') (path : String) :
    t'.destination path = t.destination path :=
  destination_congr h.workingDir path

theorem Confined.trans {t'' : FileTree} (h : Confined output t t') (h' : Confined output t' t'') :
    Confined output t t'' := by
  refine ⟨h'.workingDir.trans h.workingDir, fun place hplace => ?_⟩
  have hplace' : ¬ t'.destination output <+: place := by rwa [h.destination_eq]
  rcases h.outside place hplace with hsame | ⟨hpasses, hnone, hmade⟩
  · rcases h'.outside place hplace' with hsame' | ⟨⟨front, name, hfront, heq⟩, hnone, hmade⟩
    · exact .inl (hsame'.trans hsame)
    · refine .inr ⟨⟨front, name, hfront, ?_⟩, hsame ▸ hnone, hmade⟩
      rw [heq, arrive, arrive, h.workingDir]
  · -- made on the way by the first, so it is there for the second
    rcases h'.outside place hplace' with hsame' | ⟨-, hnone', -⟩
    · exact .inr ⟨hpasses, hnone, hsame'.trans hmade⟩
    · rw [hmade] at hnone'
      cases hnone'

/-- If the output directory is there, nothing outside it changes. -/
theorem Confined.node?_eq {root place : Place} (h : Confined output t t')
    (hroot : t.resolve output = .ok root) (hplace : ¬ root <+: place) :
    t'.node? place = t.node? place := by
  rw [← destination_of_resolve hroot] at hplace
  rcases h.outside place hplace with hsame | ⟨hpasses, hnone, -⟩
  · exact hsame
  · exact absurd hnone (node?_of_passes hroot hpasses)

theorem Confined.put_below {place : Place} (h : t.destination output <+: place) (hne : place ≠ [])
    (node : Node) : Confined output t (t.put place node) := by
  refine ⟨rfl, fun other hother => .inl ?_⟩
  rw [node?_put t hne, if_neg]
  rintro rfl
  exact hother h

theorem Confined.put_passed {place : Place} (h : t.Passes output place) (hne : place ≠ [])
    (hnone : t.node? place = none) : Confined output t (t.put place .directory) := by
  refine ⟨rfl, fun other _ => ?_⟩
  rw [node?_put t hne]
  by_cases heq : other = place
  · subst heq
    exact .inr ⟨h, hnone, if_pos rfl⟩
  · exact .inl (if_neg heq)

/-- A path that goes on from `output` by names only stays below it. -/
theorem destination_below {names : List String}
    (h : components path = components output ++ names.map .name) (t : FileTree) :
    t.destination output <+: t.destination path := by
  rw [destination, destination, h, arrive_names]
  exact List.prefix_append _ _

theorem confined_writeFile {names : List String} {content : Bytes}
    (hpath : components path = components output ++ names.map .name)
    (h : t.writeFile path content = .ok t') : Confined output t t' := by
  obtain ⟨rfl, -, _, _, hend⟩ := writeFile_ok h
  exact .put_below (destination_below hpath t) (destination_ne_nil hend) _

/-- A directory is made below `output` or on the way to it. -/
theorem confined_makeDirectory {names : List String}
    (hpath : components path <+: components output ++ names.map .name)
    (h : t.makeDirectory path = .ok t') : Confined output t t' := by
  obtain ⟨rfl, hnone, front, name, hend⟩ := makeDirectory_ok h
  rcases List.prefix_or_prefix_of_prefix hpath (List.prefix_append _ _) with hway | ⟨back, hback⟩
  · refine .put_passed ⟨front, name, hend ▸ hway, ?_⟩ (destination_ne_nil hend) hnone
    rw [destination, hend]
  · obtain ⟨names', -, rfl⟩ : ∃ names', names' <+: names ∧ back = names'.map Component.name := by
      rw [← hback] at hpath
      exact List.prefix_map_iff.1 ((List.prefix_append_right_inj _).1 hpath)
    exact .put_below (destination_below hback.symm t) (destination_ne_nil hend) _

/-- One link of a chain of parents: what its parents make is confined, then so is what it makes. -/
theorem confined_createChain_cons {names : List String} {parents : List String}
    (hpath : components path <+: components output ++ names.map .name)
    (hparents : Confined output t (t.createChain parents).1) :
    Confined output t (t.createChain (path :: parents)).1 := by
  rw [createChain]
  split
  · exact .refl output t
  · split
    · next made hmade => exact confined_makeDirectory hpath hmade
    · split
      · next grown _ hgrown =>
        rw [hgrown] at hparents
        exact hparents
      · next grown hgrown =>
        rw [hgrown] at hparents
        split
        · next made hmade => exact hparents.trans (confined_makeDirectory hpath hmade)
        · exact hparents
    · exact .refl output t

theorem confined_createChain {names : List String} (fuel : Nat) (t : FileTree)
    (hpath : components path <+: components output ++ names.map .name) :
    Confined output t (t.createChain (Path.ancestorsUpTo fuel path)).1 := by
  induction fuel generalizing path with
  | zero => exact confined_createChain_cons hpath (.refl output t)
  | succ fuel ih =>
    rw [Path.ancestorsUpTo]
    split
    · exact confined_createChain_cons hpath (.refl output t)
    · next parent hparent =>
      refine confined_createChain_cons hpath (ih ?_)
      rw [Path.components_parent hparent]
      exact (List.dropLast_prefix _).trans hpath

theorem confined_createAll {names : List String} (t : FileTree)
    (hpath : components path <+: components output ++ names.map .name) :
    Confined output t (t.createAll path).1 :=
  confined_createChain _ t hpath

end FileTree

end AssetPack
