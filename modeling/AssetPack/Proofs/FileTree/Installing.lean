import AssetPack.Proofs.FileTree.Paving

/-!
# Installing nodes

Below a directory that is there, making directories and writing files are the same thing: a node is
to come to a place. It can if nothing is there, or if something of its kind is there, and if it
cannot then what was to come after it is not tried. That is `FileTree.install`, and it counts how
far it comes.

The point of this form is that two installations can be laid side by side. Whether a node fits
depends only on the *kind* of what is at its place, and kinds never change once they are there.
`FileTree.install_beside` says that the same nodes come equally far in two trees, and leave the same
behind them, as long as the trees have the same kinds where it matters. Installing again and
installing in another order are both cases of it.

## Main definitions

* `FileTree.install`: bring nodes to their places until one does not fit.
* `FileTree.Overwrites`: nodes were replaced by nodes of their kind, and nothing else happened.

## Main results

* `FileTree.install_beside`: installing the same nodes in two trees.
* `FileTree.install_comm`: the order of two installations does not matter if they agree.
* `FileTree.Overwrites.eq`: a tree that looks the same after overwriting is the same.
* `FileTree.pave_names`, `FileTree.storeAll_eq_install`: what is done below a directory is that.
-/

namespace AssetPack

open AssetPack.Path (Component components component? segments)

/-- Whether a node is a directory. -/
def Node.isDirectory : Node → Bool
  | directory => true
  | file _ => false

namespace FileTree

/-- A node that is to get a name in a directory. -/
structure Item where
  /-- The place of the directory. -/
  parent : Place
  /-- The name in the directory. -/
  name : String
  /-- What is to be there. -/
  node : Node
  deriving DecidableEq, Repr

/-- Where an item is to be. -/
def Item.place (item : Item) : Place := item.parent ++ [item.name]

theorem Item.place_ne_nil (item : Item) : item.place ≠ [] := List.concat_ne_nil _ _

/-- The kind of what is at a place: whether it is a directory. -/
def kind? (t : FileTree) (place : Place) : Option Bool := (t.node? place).map Node.isDirectory

/-- Nothing is in the way of an item: there is nothing at its place, or something of its kind. -/
def Fits (t : FileTree) (item : Item) : Prop :=
  t.kind? item.place = none ∨ t.kind? item.place = some item.node.isDirectory

instance (t : FileTree) (item : Item) : Decidable (t.Fits item) :=
  inferInstanceAs (Decidable (_ ∨ _))

/-- Bring items to their places, one after the other, until one does not fit; and count them. -/
def install (t : FileTree) : List Item → FileTree × Nat
  | [] => (t, 0)
  | item :: rest =>
    if t.Fits item then
      (((t.put item.place item.node).install rest).1,
        ((t.put item.place item.node).install rest).2 + 1)
    else (t, 0)

variable {t u t' u' : FileTree} {path name : String} {here place : Place} {item : Item}
  {items : List Item}

/-! ### Kinds -/

theorem kind?_eq_none : t.kind? place = none ↔ t.node? place = none := Option.map_eq_none_iff

theorem kind?_of_node? {node : Node} (h : t.node? place = some node) :
    t.kind? place = some node.isDirectory := by
  rw [kind?, h, Option.map_some]

theorem kind?_eq_true : t.kind? place = some true ↔ t.node? place = some .directory := by
  rw [kind?]
  cases t.node? place with
  | none => simp
  | some node => cases node <;> simp [Node.isDirectory]

theorem kind?_put (t : FileTree) (hplace : place ≠ []) (node : Node) (q : Place) :
    (t.put place node).kind? q = if q = place then some node.isDirectory else t.kind? q := by
  rw [kind?, node?_put t hplace]
  split
  · rfl
  · rfl

/-- **Kinds stay.** -/
theorem Alters.kind? {written : Place → Prop} {b : Bool} (h : Alters written t t')
    (hkind : t.kind? place = some b) : t'.kind? place = some b := by
  rcases h.node? place with hsame | ⟨hnone, -⟩ | ⟨-, hnot, content, hfile⟩
  · rwa [FileTree.kind?, hsame]
  · rw [FileTree.kind?, hnone] at hkind
    cases hkind
  · rw [kind?_of_node? hfile]
    cases b with
    | false => rfl
    | true => exact absurd (kind?_eq_true.1 hkind) hnot

/-- A node may be put where nothing of another kind is. -/
theorem alters_put {node : Node} (hplace : place ≠ [])
    (h : t.kind? place = none ∨ t.kind? place = some node.isDirectory) :
    Alters (fun _ => True) t (t.put place node) := by
  cases node with
  | directory =>
    rcases h with hnone | hkind
    · exact .put_directory hplace (kind?_eq_none.1 hnone)
    · refine ⟨rfl, fun q => .inl ?_⟩
      rw [node?_put t hplace]
      split
      · next heq => rw [heq, kind?_eq_true.1 hkind]
      · rfl
  | file content =>
    refine .put_file hplace (fun hdirectory => ?_) trivial
    rw [kind?_of_node? hdirectory] at h
    rcases h with h | h <;> cases h

theorem Fits.alters (h : t.Fits item) : Alters (fun _ => True) t (t.put item.place item.node) :=
  alters_put item.place_ne_nil h

/-- Installing takes nothing away. -/
theorem alters_install (t : FileTree) (items : List Item) :
    Alters (fun _ => True) t (t.install items).1 := by
  induction items generalizing t with
  | nil => exact .refl _ t
  | cons item rest ih =>
    rw [install]
    split
    · next hfits => exact hfits.alters.trans (ih _)
    · exact .refl _ t

theorem install_le (t : FileTree) (items : List Item) : (t.install items).2 ≤ items.length := by
  induction items generalizing t with
  | nil => exact Nat.le_refl 0
  | cons item rest ih =>
    rw [install]
    split
    · exact Nat.succ_le_succ (ih _)
    · exact Nat.zero_le _

theorem install_of_fits (h : t.Fits item) (rest : List Item) :
    t.install (item :: rest) = (((t.put item.place item.node).install rest).1,
      ((t.put item.place item.node).install rest).2 + 1) :=
  if_pos h

theorem install_of_not_fits (h : ¬ t.Fits item) (rest : List Item) :
    t.install (item :: rest) = (t, 0) :=
  if_neg h

/-- An item that has been put is there in the end, or another of its kind. -/
theorem kind?_install_put (t : FileTree) (item : Item) (rest : List Item) :
    ((t.put item.place item.node).install rest).1.kind? item.place =
      some item.node.isDirectory := by
  refine (alters_install _ rest).kind? ?_
  rw [kind?_put t item.place_ne_nil, if_pos rfl]

/-! ### Side by side -/

/-- At the places of items that the first tree has something at once they are installed in it, the
second tree has the kind that the first has then, or that it had before. -/
def Beside (items : List Item) (t u : FileTree) : Prop :=
  ∀ item ∈ items, (t.install items).1.kind? item.place ≠ none →
    u.kind? item.place = (t.install items).1.kind? item.place ∨
      u.kind? item.place = t.kind? item.place

theorem Beside.fits_iff {rest : List Item} (h : Beside (item :: rest) t u) :
    u.Fits item ↔ t.Fits item := by
  have hitem := h item List.mem_cons_self
  by_cases hfits : t.Fits item
  · rw [install_of_fits hfits, kind?_install_put] at hitem
    refine iff_of_true ?_ hfits
    rcases hitem (Option.some_ne_none _) with hend | hstart
    · exact .inr hend
    · rwa [Fits, hstart]
  · have hsome : t.kind? item.place ≠ none := fun hnone => hfits (.inl hnone)
    rw [install_of_not_fits hfits, or_self] at hitem
    rw [Fits, hitem hsome, Fits]

theorem Beside.put {rest : List Item} (h : Beside (item :: rest) t u) (hfits : t.Fits item) :
    Beside rest (t.put item.place item.node) (u.put item.place item.node) := by
  intro other hother hsome
  rw [kind?_put u item.place_ne_nil, kind?_put t item.place_ne_nil]
  split
  · exact .inr rfl
  · have hmem := h other (List.mem_cons_of_mem _ hother)
    rw [install_of_fits hfits] at hmem
    exact hmem hsome

/-- **The same items come equally far in two trees**, and leave the same at every place or nothing
new. The induction is on the items, and each is put in both trees or in none. -/
theorem install_beside (h : Beside items t u) :
    (u.install items).2 = (t.install items).2 ∧ ∀ q,
      (∃ item ∈ items, item.place = q ∧ (t.install items).1.node? q = some item.node ∧
        (u.install items).1.node? q = some item.node) ∨
      (t.install items).1.node? q = t.node? q ∧ (u.install items).1.node? q = u.node? q := by
  induction items generalizing t u with
  | nil => exact ⟨rfl, fun q => .inr ⟨rfl, rfl⟩⟩
  | cons item rest ih =>
    have hne := item.place_ne_nil
    by_cases hfits : t.Fits item
    · obtain ⟨hcount, hplaces⟩ := ih (h.put hfits)
      rw [install_of_fits hfits, install_of_fits (h.fits_iff.2 hfits)]
      refine ⟨by rw [hcount], fun q => ?_⟩
      rcases hplaces q with ⟨other, hother, hq⟩ | ⟨hq, hq'⟩
      · exact .inl ⟨other, List.mem_cons_of_mem _ hother, hq⟩
      · rw [node?_put t hne] at hq
        rw [node?_put u hne] at hq'
        by_cases heq : q = item.place
        · rw [if_pos heq] at hq hq'
          exact .inl ⟨item, List.mem_cons_self, heq.symm, hq, hq'⟩
        · rw [if_neg heq] at hq hq'
          exact .inr ⟨hq, hq'⟩
    · rw [install_of_not_fits hfits, install_of_not_fits (mt h.fits_iff.1 hfits)]
      exact ⟨rfl, fun q => .inr ⟨rfl, rfl⟩⟩

/-- What installing leaves at a place is one of the items, or what was there. -/
theorem node?_install (t : FileTree) (items : List Item) (q : Place) :
    (∃ item ∈ items, item.place = q ∧ (t.install items).1.node? q = some item.node) ∨
      (t.install items).1.node? q = t.node? q := by
  have hself : Beside items t t := fun _ _ _ => .inr rfl
  rcases (install_beside hself).2 q with ⟨item, hitem, hq, hnode, -⟩ | ⟨hq, -⟩
  · exact .inl ⟨item, hitem, hq, hnode⟩
  · exact .inr hq

/-- Trees that look the same are the same to an installation. -/
theorem install_congr (h : ∀ q, u.node? q = t.node? q) (items : List Item) :
    (u.install items).2 = (t.install items).2 ∧
      ∀ q, (u.install items).1.node? q = (t.install items).1.node? q := by
  have hbeside : Beside items t u := fun item _ _ => .inr (by rw [kind?, h, kind?])
  obtain ⟨hcount, hplaces⟩ := install_beside hbeside
  refine ⟨hcount, fun q => ?_⟩
  rcases hplaces q with ⟨item, -, -, hnode, hnode'⟩ | ⟨hq, hq'⟩
  · rw [hnode, hnode']
  · rw [hq, hq', h]

/-! ### In another order -/

/-- Where two lists have the same place, they have the same node for it. -/
def Agree (as bs : List Item) : Prop :=
  ∀ a ∈ as, ∀ b ∈ bs, a.place = b.place → a.node = b.node

theorem Agree.symm {as bs : List Item} (h : Agree as bs) : Agree bs as :=
  fun b hb a ha hplace => (h a ha b hb hplace.symm).symm

/-- Items that agree with others make no difference to them, as far as kinds go. -/
theorem Agree.beside {as bs : List Item} (h : Agree as bs) (t : FileTree) :
    Beside as t (t.install bs).1 := by
  intro a _ hsome
  rcases t.node?_install bs a.place with ⟨b, hb, hplace, hnode⟩ | hsame
  · rcases t.node?_install as a.place with ⟨c, hc, hplace', hnode'⟩ | hsame'
    · refine .inl ?_
      rw [kind?_of_node? hnode, kind?_of_node? hnode', h c hc b hb (hplace'.trans hplace.symm)]
    · obtain ⟨kind, hkind⟩ := Option.ne_none_iff_exists'.1 hsome
      have hbefore : t.kind? a.place = some kind := by rwa [kind?, ← hsame']
      exact .inr (((alters_install t bs).kind? hbefore).trans hbefore.symm)
  · exact .inr (by rw [kind?, hsame, kind?])

/-- **The order of two installations does not matter** if they agree. -/
theorem install_comm {as bs : List Item} (h : Agree as bs) (t : FileTree) :
    ((t.install as).1.install bs).2 = (t.install bs).2 ∧
      ((t.install bs).1.install as).2 = (t.install as).2 ∧
      ∀ q, ((t.install as).1.install bs).1.node? q = ((t.install bs).1.install as).1.node? q := by
  obtain ⟨hcount, hplaces⟩ := install_beside (h.beside t)
  obtain ⟨hcount', hplaces'⟩ := install_beside (h.symm.beside t)
  refine ⟨hcount', hcount, fun q => ?_⟩
  rcases hplaces q with ⟨a, ha, hplace, hfirst, hsecond⟩ | ⟨hfirst, hsecond⟩
  · rcases hplaces' q with ⟨b, hb, hplace', -, hsecond'⟩ | ⟨-, hsecond'⟩
    · rw [hsecond, hsecond', h a ha b hb (hplace.trans hplace'.symm)]
    · rw [hsecond, hsecond', hfirst]
  · rcases hplaces' q with ⟨b, hb, hplace', hfirst', hsecond'⟩ | ⟨hfirst', hsecond'⟩
    · rw [hsecond, hsecond', hfirst']
    · rw [hsecond, hsecond', hfirst, hfirst']

/-! ### Over what is there -/

/-- One tree comes from another by putting nodes where nodes of their kind are. -/
inductive Overwrites : FileTree → FileTree → Prop where
  | refl (t : FileTree) : Overwrites t t
  | put {t u : FileTree} {place : Place} {node : Node} (hplace : place ≠ [])
    (hkind : t.kind? place = some node.isDirectory) (rest : Overwrites (t.put place node) u) :
    Overwrites t u

namespace Overwrites

theorem trans {v : FileTree} (h : Overwrites t u) (h' : Overwrites u v) : Overwrites t v := by
  induction h with
  | refl t => exact h'
  | put hplace hkind _ ih => exact .put hplace hkind (ih h')

theorem alters (h : Overwrites t u) : Alters (fun _ => True) t u := by
  induction h with
  | refl t => exact .refl _ t
  | put hplace hkind _ ih => exact (alters_put hplace (.inr hkind)).trans ih

end Overwrites

/-- One list of nodes comes from another by putting nodes at given places that are in it. -/
inductive Replaces (places : Place → Prop) : List (Place × Node) → List (Place × Node) → Prop where
  | refl (nodes : List (Place × Node)) : Replaces places nodes nodes
  | put {nodes nodes' : List (Place × Node)} {place : Place} {node : Node} (hplace : places place)
    (hmem : nodes.lookup place ≠ none) (rest : Replaces places (putIn place node nodes) nodes') :
    Replaces places nodes nodes'

namespace Replaces

variable {places : Place → Prop} {nodes nodes' : List (Place × Node)}

theorem lookup_eq (h : Replaces places nodes nodes') {q : Place} (hq : ¬ places q) :
    nodes'.lookup q = nodes.lookup q := by
  induction h with
  | refl nodes => rfl
  | put hplace _ _ ih =>
    rw [ih, lookup_putIn, if_neg]
    rintro rfl
    exact hq hplace

theorem eq_nil (h : Replaces places [] nodes') : nodes' = [] := by
  cases h with
  | refl _ => rfl
  | put _ hmem _ => exact absurd rfl hmem

/-- Only the first node at a place is ever replaced. -/
theorem cons {p : Place} {n : Node} (h : Replaces places ((p, n) :: nodes) nodes') :
    ∃ n' rest, nodes' = (p, n') :: rest ∧
      Replaces (fun place => places place ∧ place ≠ p) nodes rest := by
  generalize hall : (p, n) :: nodes = all at h
  induction h generalizing n nodes with
  | refl _ => exact ⟨n, nodes, hall.symm, .refl nodes⟩
  | @put _ _ place node hplace hmem _ ih =>
    subst hall
    by_cases heq : p = place
    · subst heq
      exact ih (show (p, node) :: nodes = putIn p node ((p, n) :: nodes) by
        rw [putIn, if_pos rfl])
    · obtain ⟨n', rest, hrest, hreplaces⟩ :=
        ih (show (p, n) :: putIn place node nodes = putIn place node ((p, n) :: nodes) by
          rw [putIn, if_neg heq])
      refine ⟨n', rest, hrest, .put ⟨hplace, Ne.symm heq⟩ ?_ hreplaces⟩
      have hne : (place == p) = false := by simpa using Ne.symm heq
      rwa [List.lookup_cons, hne] at hmem

/-- The induction is on the list, and each node is dropped together with its place. -/
theorem eq (h : Replaces places nodes nodes') (hsame : ∀ q, nodes'.lookup q = nodes.lookup q) :
    nodes' = nodes := by
  induction nodes generalizing places nodes' with
  | nil => exact h.eq_nil
  | cons entry rest ih =>
    obtain ⟨p, n⟩ := entry
    obtain ⟨n', rest', rfl, hrest⟩ := h.cons
    obtain rfl : n' = n := by simpa using hsame p
    rw [ih hrest fun q => ?_]
    by_cases hq : q = p
    · exact hrest.lookup_eq fun hboth => hboth.2 hq
    · have hne : (q == p) = false := by simpa using hq
      simpa only [List.lookup_cons, hne] using hsame q

end Replaces

theorem Overwrites.replaces (h : Overwrites t u) : Replaces (· ≠ []) t.nodes u.nodes := by
  induction h with
  | refl t => exact .refl t.nodes
  | @put t u place node hplace hkind _ ih =>
    refine .put hplace ?_ ih
    intro hnone
    rw [kind?, node?, if_neg hplace, hnone] at hkind
    cases hkind

/-- **A tree that looks the same after overwriting is the same.** -/
theorem Overwrites.eq (h : Overwrites t u) (hsame : ∀ q, u.node? q = t.node? q) : u = t := by
  have hnodes : u.nodes = t.nodes := by
    refine h.replaces.eq fun q => ?_
    by_cases hq : q = []
    · exact h.replaces.lookup_eq fun hne => hne hq
    · simpa only [node?, if_neg hq] using hsame q
  obtain ⟨dir, nodes⟩ := t
  obtain ⟨dir', nodes'⟩ := u
  rw [show nodes' = nodes from hnodes, show dir' = dir from h.alters.workingDir]

/-- An installation that leaves all kinds as they are overwrites. -/
theorem overwrites_install (h : ∀ q, (t.install items).1.kind? q = t.kind? q) :
    Overwrites t (t.install items).1 := by
  induction items generalizing t with
  | nil => exact .refl t
  | cons item rest ih =>
    by_cases hfits : t.Fits item
    · rw [install_of_fits hfits] at h ⊢
      have hkind : t.kind? item.place = some item.node.isDirectory := by
        rw [← h]
        exact kind?_install_put t item rest
      refine .put item.place_ne_nil hkind (ih fun q => ?_)
      rw [h, kind?_put t item.place_ne_nil]
      split
      · next heq => rw [heq, hkind]
      · rfl
    · rw [install_of_not_fits hfits]
      exact .refl t

/-- **Installing again**, over all that came of it and more: it comes as far as it came, and only
replaces nodes. At each place it leaves what it left before, or what is there if it left nothing. -/
theorem install_again (h : Alters (fun _ => True) (t.install items).1 u) :
    (u.install items).2 = (t.install items).2 ∧ Overwrites u (u.install items).1 ∧
      ∀ q, (u.install items).1.node? q = (t.install items).1.node? q ∨
        (t.install items).1.node? q = t.node? q ∧ (u.install items).1.node? q = u.node? q := by
  have hkinds : ∀ q, (t.install items).1.kind? q ≠ none →
      u.kind? q = (t.install items).1.kind? q := by
    intro q hsome
    obtain ⟨kind, hkind⟩ := Option.ne_none_iff_exists'.1 hsome
    rw [hkind, h.kind? hkind]
  obtain ⟨hcount, hplaces⟩ := install_beside fun item _ hsome => .inl (hkinds item.place hsome)
  refine ⟨hcount, overwrites_install fun q => ?_, fun q => ?_⟩
  · rcases hplaces q with ⟨item, -, -, hnode, hnode'⟩ | ⟨-, hq⟩
    · rw [hkinds q (by rw [kind?_of_node? hnode]; exact Option.some_ne_none _),
        kind?_of_node? hnode, kind?_of_node? hnode']
    · rw [kind?, hq, kind?]
  · rcases hplaces q with ⟨item, -, -, hnode, hnode'⟩ | hq
    · exact .inl (hnode'.trans hnode.symm)
    · exact .inr hq

/-! ### Directories and files as items -/

theorem put_of_node? {node : Node} (hplace : place ≠ []) (h : t.node? place = some node) :
    t.put place node = t := by
  have hput : Overwrites t (t.put place node) :=
    .put hplace (kind?_of_node? h) (.refl _)
  refine hput.eq fun q => ?_
  rw [node?_put t hplace]
  split
  · next heq => rw [heq, h]
  · rfl

/-- The directories on the way down from a directory, up to a name that is too long. -/
def way (here : Place) : List String → List Item
  | [] => []
  | name :: rest =>
    if name.utf8ByteSize ≤ longestName then ⟨here, name, .directory⟩ :: way (here ++ [name]) rest
    else []

theorem mem_way {names : List String} (h : item ∈ way here names) :
    item.node = .directory ∧ ∃ q, q <+: names ∧ item.place = here ++ q := by
  induction names generalizing here with
  | nil => cases h
  | cons name rest ih =>
    rw [way] at h
    split at h
    · rcases List.mem_cons.1 h with rfl | hrest
      · exact ⟨rfl, [name], List.cons_prefix_cons.2 ⟨rfl, List.nil_prefix⟩, rfl⟩
      · obtain ⟨hnode, q, hq, hplace⟩ := ih hrest
        refine ⟨hnode, name :: q, List.cons_prefix_cons.2 ⟨rfl, hq⟩, ?_⟩
        rw [hplace, List.append_assoc]
        rfl
    · cases h

theorem length_way_le (here : Place) (names : List String) :
    (way here names).length ≤ names.length := by
  induction names generalizing here with
  | nil => exact Nat.le_refl 0
  | cons name rest ih =>
    rw [way]
    split
    · exact Nat.succ_le_succ (ih _)
    · exact Nat.zero_le _

/-- **Paving names is installing directories**, and it comes to an end if all of them are there. -/
theorem pave_names (h : t.node? here = some .directory) (names : List String) :
    t.pave here (names.map .name) = ((t.install (way here names)).1,
      if (t.install (way here names)).2 = names.length then some (here ++ names) else none) := by
  induction names generalizing t here with
  | nil =>
    rw [List.map_nil, pave, if_pos h, List.append_nil]
    rfl
  | cons name rest ih =>
    have hne : here ++ [name] ≠ [] := List.concat_ne_nil name here
    rw [List.map_cons, pave, way]
    by_cases hshort : name.utf8ByteSize ≤ longestName
    · rw [if_pos ⟨h, hshort⟩, if_pos hshort, install]
      by_cases hfits : t.Fits ⟨here, name, .directory⟩
      · have hput : t.furnish (here ++ [name]) = t.put (here ++ [name]) .directory := by
          rcases hfits with hnone | hdirectory
          · exact if_pos (kind?_eq_none.1 hnone)
          · have hnode : t.node? (here ++ [name]) = some .directory := kind?_eq_true.1 hdirectory
            exact (furnish_of_node? (by rw [hnode]; exact Option.some_ne_none _)).trans
              (put_of_node? hne hnode).symm
        have hnode : (t.put (here ++ [name]) .directory).node? (here ++ [name]) =
            some .directory := by rw [node?_put t hne, if_pos rfl]
        rw [if_pos hfits, hput, ih hnode, List.length_cons, List.append_assoc]
        simp only [Item.place, Nat.add_right_cancel_iff, List.cons_append, List.nil_append]
      · -- a file is in the way
        have hsome : t.node? (here ++ [name]) ≠ none := fun hnone =>
          hfits (.inl (kind?_eq_none.2 hnone))
        have hnot : t.node? (here ++ [name]) ≠ some .directory := fun hnode =>
          hfits (.inr (kind?_of_node? hnode))
        have hroot : Component.root ∉ rest.map Component.name := by simp
        rw [if_neg hfits, furnish_of_node? hsome, pave_of_not_directory hroot hnot]
        rfl
    · rw [if_neg fun hboth => hshort hboth.2, if_neg hshort]
      rfl

/-- Write files one after the other until one cannot be written, and count them. -/
def storeAll (t : FileTree) : List (String × Bytes) → FileTree × Nat
  | [] => (t, 0)
  | (path, content) :: rest =>
    match t.writeFile path content with
    | .error _ => (t, 0)
    | .ok written => ((written.storeAll rest).1, (written.storeAll rest).2 + 1)

/-- The name under which a file can be written, as far as the path tells. -/
def slotName? (path : String) : Option String :=
  if refusal? path = none then
    (segments path).getLast?.filter fun name =>
      component? name = some (.name name) ∧ name.utf8ByteSize ≤ longestName
  else none

theorem slotName?_eq_some_iff :
    slotName? path = some name ↔
      refusal? path = none ∧ Path.EndsIn path name ∧ name.utf8ByteSize ≤ longestName := by
  rw [slotName?]
  split
  · next hrefusal =>
    rw [Option.filter_eq_some_iff, List.getLast?_eq_some_iff, decide_eq_true_eq]
    simp only [Path.EndsIn, hrefusal, true_and]
    constructor
    · rintro ⟨⟨front, hfront⟩, hname, hshort⟩
      exact ⟨⟨front, hfront, hname⟩, hshort⟩
    · rintro ⟨⟨front, hfront, hname⟩, hshort⟩
      exact ⟨⟨front, hfront⟩, hname, hshort⟩
  · next hrefusal => simp [hrefusal]

/-- Files in a directory, up to one that cannot be written under its path. -/
def stock (here : Place) : List (String × Bytes) → List Item
  | [] => []
  | (path, content) :: rest =>
    match slotName? path with
    | none => []
    | some name => ⟨here, name, .file content⟩ :: stock here rest

theorem mem_stock {files : List (String × Bytes)} (h : item ∈ stock here files) :
    ∃ path content, (path, content) ∈ files ∧ slotName? path = some item.name ∧
      item = ⟨here, item.name, .file content⟩ := by
  induction files with
  | nil => cases h
  | cons file rest ih =>
    obtain ⟨path, content⟩ := file
    rw [stock] at h
    split at h
    · cases h
    · next name hname =>
      rcases List.mem_cons.1 h with rfl | hrest
      · exact ⟨path, content, List.mem_cons_self, hname, rfl⟩
      · obtain ⟨path', content', hmem, hitem⟩ := ih hrest
        exact ⟨path', content', List.mem_cons_of_mem _ hmem, hitem⟩

/-- The files all lie in the directory that components lead to, as far as they can be written. -/
def AllIn (front : List Component) (files : List (String × Bytes)) : Prop :=
  ∀ file ∈ files, ∀ name, slotName? file.1 = some name → (components file.1).dropLast = front

/-- What cannot be written ends it. -/
theorem storeAll_of_not_ok {content : Bytes} (h : ∀ written, t.writeFile path content ≠ .ok written)
    (files : List (String × Bytes)) : t.storeAll ((path, content) :: files) = (t, 0) := by
  rw [storeAll]
  split
  · rfl
  · next written hok => exact absurd hok (h written)

theorem fits_file_iff {content : Bytes} :
    t.Fits ⟨here, name, .file content⟩ ↔ t.node? (here ++ [name]) ≠ some .directory := by
  rw [Fits, Item.place, kind?]
  cases t.node? (here ++ [name]) with
  | none => simp
  | some node => cases node <;> simp [Node.isDirectory]

/-- **Writing files in a directory is installing them.** -/
theorem storeAll_eq_install {front : List Component} {files : List (String × Bytes)}
    (henter : t.enter t.workingDir front = .ok here) (h : AllIn front files) :
    t.storeAll files = t.install (stock here files) := by
  induction files generalizing t with
  | nil => rfl
  | cons file rest ih =>
    obtain ⟨path, content⟩ := file
    obtain ⟨hfile, hrest⟩ := List.forall_mem_cons.1 h
    rw [stock]
    cases hname : slotName? path with
    | none =>
      refine storeAll_of_not_ok (fun written hok => ?_) rest
      obtain ⟨place, ⟨hrefusal, name, parent, hends, hshort, -, -⟩, -, -⟩ :=
        writeFile_eq_ok_iff.1 hok
      rw [slotName?_eq_some_iff.2 ⟨hrefusal, hends, hshort⟩] at hname
      cases hname
    | some name =>
      obtain ⟨hrefusal, hends, hshort⟩ := slotName?_eq_some_iff.1 hname
      have haims : t.Aims path (here ++ [name]) := by
        refine ⟨hrefusal, name, here, hends, hshort, ?_, rfl⟩
        rw [hfile name hname]
        exact henter
      rw [install]
      by_cases hfits : t.Fits ⟨here, name, .file content⟩
      · have hwrite : t.writeFile path content = .ok (t.put (here ++ [name]) (.file content)) :=
          writeFile_eq_ok_iff.2 ⟨_, haims, fits_file_iff.1 hfits, rfl⟩
        have hstored : (t.put (here ++ [name]) (.file content)).storeAll rest =
            (t.put (here ++ [name]) (.file content)).install (stock here rest) :=
          ih (hfits.alters.enter henter) hrest
        rw [if_pos hfits, storeAll, hwrite]
        simp only [hstored, Item.place]
      · rw [if_neg hfits]
        refine storeAll_of_not_ok (fun written hok => ?_) rest
        obtain ⟨place, haims', hnode, -⟩ := writeFile_eq_ok_iff.1 hok
        rw [haims'.eq_destination, ← haims.eq_destination] at hnode
        exact hfits (fits_file_iff.2 hnode)

/-- No file can be written in a directory that cannot be entered. -/
theorem storeAll_of_enter_error {front : List Component} {files : List (String × Bytes)} {e : Fault}
    (henter : t.enter t.workingDir front = .error e) (h : AllIn front files) :
    t.storeAll files = (t, 0) := by
  cases files with
  | nil => rfl
  | cons file rest =>
    refine storeAll_of_not_ok (fun written hok => ?_) rest
    obtain ⟨place, ⟨hrefusal, name, parent, hends, hshort, hparent, -⟩, -, -⟩ :=
      writeFile_eq_ok_iff.1 hok
    rw [h file List.mem_cons_self name (slotName?_eq_some_iff.2 ⟨hrefusal, hends, hshort⟩),
      henter] at hparent
    cases hparent

theorem install_append (t : FileTree) (front back : List Item) :
    t.install (front ++ back) =
      if (t.install front).2 = front.length then
        (((t.install front).1.install back).1, front.length + ((t.install front).1.install back).2)
      else t.install front := by
  induction front generalizing t with
  | nil => simp [install]
  | cons item rest ih =>
    rw [List.cons_append, install, install]
    split
    · rw [ih]
      simp only [List.length_cons, Nat.add_right_cancel_iff]
      split
      · simp only [Prod.mk.injEq, true_and]
        omega
      · rfl
    · rw [if_neg]
      simp

end FileTree

end AssetPack
