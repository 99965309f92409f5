import AssetPack.Proofs.Extraction.Installation

/-!
# The order of the assets does not matter

Assets that are clear of each other can still share directories. Either of them may make these,
find them made by the other, or be stopped on the way by a file that the tree had before. None of
this depends on which of them comes first. Items of different assets meet at a place only if both
are directories there, so they agree, and installations that agree can be exchanged. From the
exchange of two neighbours it is induction over permutations.

What comes out is the same tree up to the order in which it lists its nodes: the same node at every
place, and the same counters.

## Main definitions

* `Extraction.Clear`: no path of one asset is a path of the other or above one.

## Main results

* `Extraction.account_comm`: two neighbours can be exchanged.
* `Extraction.extractAll_perm`: the order of assets that are clear of each other does not matter.
-/

namespace AssetPack.Extraction

open Container
open FileTree (Agree Item Settled)
open AssetPack.Path (Component components)

variable {job : Job} {reached : Option Place} {x y z : FileTree × ExtractStats} {a b : Entry}

/-- No path of the first asset is a path of the second or that of a directory above one, as far as
components go. An asset of which nothing is to be written is clear of every other. -/
def Clear (job : Job) (a b : Entry) : Prop :=
  isFound job a = true → isFound job b = true →
    ∀ p ∈ outputs job a, ∀ q ∈ outputs job b, ¬ components p <+: components q

instance (job : Job) (a b : Entry) : Decidable (Clear job a b) :=
  inferInstanceAs (Decidable (_ → _ → ∀ p ∈ outputs job a, ∀ q ∈ outputs job b,
    ¬ components p <+: components q))

/-- **Items of assets that are clear of each other agree**: where they meet, both are
directories. -/
theorem Clear.agree {as bs : List Item} {root : Place} (h : Clear job a b) (h' : Clear job b a)
    (has : ∀ item ∈ as, Concerns job a root item) (hbs : ∀ item ∈ bs, Concerns job b root item) :
    Agree as bs := by
  have habove : ∀ {p q : String} {names names' : List String},
      components p = components job.output ++ names.map Component.name →
      components q = components job.output ++ names'.map Component.name → names <+: names' →
      components p <+: components q := by
    intro p q names names' hp hq hnames
    rw [hp, hq, List.prefix_append_right_inj]
    exact hnames.map _
  intro i hi j hj hplace
  obtain ⟨hfound, p, hp, names, hnames, hcase⟩ := has i hi
  obtain ⟨hfound', q, hq, names', hnames', hcase'⟩ := hbs j hj
  have hpq := h hfound hfound' p hp q hq
  have hqp := h' hfound' hfound q hq p hp
  rcases hcase with hat | ⟨hnode, front, hfront, hat⟩
  · rcases hcase' with hat' | ⟨-, front', hfront', hat'⟩
    · rw [hat, hat', List.append_cancel_left_eq] at hplace
      exact absurd (habove hnames hnames' (hplace ▸ List.prefix_refl _)) hpq
    · rw [hat, hat', List.append_cancel_left_eq] at hplace
      exact absurd (habove hnames hnames' (hplace ▸ hfront')) hpq
  · rcases hcase' with hat' | ⟨hnode', -⟩
    · rw [hat, hat', List.append_cancel_left_eq] at hplace
      exact absurd (habove hnames' hnames (hplace ▸ hfront)) hqp
    · rw [hnode, hnode']

/-! ### States that look the same -/

/-- Two states look the same: they have the same nodes and the same counters. -/
structure Alike (x y : FileTree × ExtractStats) : Prop where
  workingDir : y.1.workingDir = x.1.workingDir
  node? : ∀ q, y.1.node? q = x.1.node? q
  stats : y.2 = x.2

theorem Alike.refl (x : FileTree × ExtractStats) : Alike x x := ⟨rfl, fun _ => rfl, rfl⟩

theorem Alike.trans (h : Alike x y) (h' : Alike y z) : Alike x z :=
  ⟨h'.workingDir.trans h.workingDir, fun q => (h'.node? q).trans (h.node? q),
    h'.stats.trans h.stats⟩

theorem Alike.account (h : Alike x y) (hx : Settled (components job.output) reached x.1)
    (hy : Settled (components job.output) reached y.1) (entry : Entry) :
    Alike (account job x entry) (account job y entry) := by
  obtain ⟨items, toll, hinstalls⟩ := exists_items job entry reached
  obtain ⟨hcount, hnode⟩ := FileTree.install_congr h.node? items
  rw [hinstalls.account_eq x hx, hinstalls.account_eq y hy]
  refine ⟨?_, hnode, by rw [h.stats, hcount]⟩
  rw [(FileTree.alters_install y.1 items).workingDir, h.workingDir,
    (FileTree.alters_install x.1 items).workingDir]

theorem Alike.foldl_account (h : Alike x y) (hx : Settled (components job.output) reached x.1)
    (hy : Settled (components job.output) reached y.1) (entries : List Entry) :
    Alike (entries.foldl (Extraction.account job) x)
      (entries.foldl (Extraction.account job) y) := by
  induction entries generalizing x y with
  | nil => exact h
  | cons entry rest ih =>
    rw [List.foldl_cons, List.foldl_cons]
    exact ih (h.account hx hy entry) (settled_account hx entry) (settled_account hy entry)

/-! ### Exchange -/

/-- **Two neighbours can be exchanged.** -/
theorem account_comm (hx : Settled (components job.output) reached x.1) (h : Clear job a b)
    (h' : Clear job b a) :
    Alike (account job (account job x a) b) (account job (account job x b) a) := by
  obtain ⟨as, toll, hinstalls⟩ := exists_items job a reached
  obtain ⟨bs, toll', hinstalls'⟩ := exists_items job b reached
  have hagree : Agree as bs := by
    cases reached with
    | none =>
      rw [hinstalls.idle rfl]
      exact fun item hitem => absurd hitem List.not_mem_nil
    | some root => exact h.agree h' (hinstalls.concerns root rfl) (hinstalls'.concerns root rfl)
  obtain ⟨hcount', hcount, hnode⟩ := FileTree.install_comm hagree x.1
  rw [hinstalls'.account_eq _ (settled_account hx a), hinstalls.account_eq _ (settled_account hx b),
    hinstalls.account_eq x hx, hinstalls'.account_eq x hx]
  refine ⟨?_, fun q => (hnode q).symm, ?_⟩
  · simp only [(FileTree.alters_install _ _).workingDir]
  · simp only [hcount, hcount', ExtractStats.add_right_comm]

theorem foldl_account_perm {entries entries' : List Entry} (hperm : entries.Perm entries')
    (hclear : ∀ a ∈ entries, ∀ b ∈ entries, a ≠ b → Clear job a b)
    (hx : Settled (components job.output) reached x.1) :
    Alike (entries.foldl (account job) x) (entries'.foldl (account job) x) := by
  induction hperm generalizing x with
  | nil => exact .refl x
  | cons entry _ ih =>
    rw [List.foldl_cons, List.foldl_cons]
    exact ih (fun a ha b hb => hclear a (List.mem_cons_of_mem _ ha) b (List.mem_cons_of_mem _ hb))
      (settled_account hx entry)
  | swap a b rest =>
    have hmem : a ∈ b :: a :: rest := List.mem_cons_of_mem _ List.mem_cons_self
    simp only [List.foldl_cons]
    by_cases heq : a = b
    · rw [heq]
      exact .refl _
    · have hcomm := account_comm hx (hclear b List.mem_cons_self a hmem (Ne.symm heq))
        (hclear a hmem b List.mem_cons_self heq)
      exact hcomm.foldl_account (settled_account (settled_account hx b) a)
        (settled_account (settled_account hx a) b) rest
  | trans hfirst _ ih ih' =>
    refine (ih hclear hx).trans (ih' (fun a ha b hb => ?_) hx)
    exact hclear a (hfirst.mem_iff.2 ha) b (hfirst.mem_iff.2 hb)

/-- **The order of assets that are clear of each other does not matter.** In whichever order they
are extracted, the same is at every place in the end, and the same has been counted. -/
theorem extractAll_perm (job : Job) (tree : FileTree) {entries entries' : List Entry}
    (hperm : entries.Perm entries')
    (hclear : ∀ a ∈ entries, ∀ b ∈ entries, a ≠ b → Clear job a b) :
    (∀ place, (extractAll job ⟨tree, {}, []⟩ entries').tree.node? place =
        (extractAll job ⟨tree, {}, []⟩ entries).tree.node? place) ∧
      (extractAll job ⟨tree, {}, []⟩ entries').tree.workingDir =
        (extractAll job ⟨tree, {}, []⟩ entries).tree.workingDir ∧
      (extractAll job ⟨tree, {}, []⟩ entries').stats =
        (extractAll job ⟨tree, {}, []⟩ entries).stats := by
  have halike : Alike (entries.foldl (account job) (tree, {}))
      (entries'.foldl (account job) (tree, {})) := by
    by_cases hbusy : ∃ entry ∈ entries, ¬ Idle job entry
    · have hbusy' : ∃ entry ∈ entries', ¬ Idle job entry := by
        obtain ⟨entry, hentry, hnot⟩ := hbusy
        exact ⟨entry, hperm.mem_iff.1 hentry, hnot⟩
      rw [← foldl_account_settle hbusy, ← foldl_account_settle hbusy']
      exact foldl_account_perm hperm hclear (FileTree.settled_pave tree (components job.output))
    · -- nothing is done to the tree, and sums do not depend on the order
      have hcomm : ∀ a ∈ entries, ∀ b ∈ entries, ∀ x,
          account job (account job x a) b = account job (account job x b) a := by
        intro a ha b hb x
        obtain ⟨toll, htoll⟩ := not_not.1 fun hnot => hbusy ⟨a, ha, hnot⟩
        obtain ⟨toll', htoll'⟩ := not_not.1 fun hnot => hbusy ⟨b, hb, hnot⟩
        rw [htoll, htoll', htoll', htoll]
        simp only [ExtractStats.add_right_comm]
      rw [hperm.foldl_eq' hcomm]
      exact .refl _
  rw [← extractAll_account job ⟨tree, {}, []⟩ entries,
    ← extractAll_account job ⟨tree, {}, []⟩ entries'] at halike
  exact ⟨halike.node?, halike.workingDir, halike.stats⟩

/-- The tree `outAndKeep` with a file in its output directory. -/
def blockedOutput : FileTree := outAndKeep.put ["home", "out", "d"] (.file [])

/-- The assets of `scriptMedium`, one whose directory is that file, and one with a name that is
rejected. -/
def mixedEntries : List Entry :=
  scriptEntries ++ [⟨"res://d/e", 34, 3, []⟩, ⟨"res://../c", 34, 3, []⟩]

theorem extractAll_perm_mixedEntries :
    mixedEntries.Perm mixedEntries.reverse ∧
      (∀ a ∈ mixedEntries, ∀ b ∈ mixedEntries, a ≠ b → Clear scriptJob a b) ∧
      (∀ place,
        (extractAll scriptJob ⟨blockedOutput, {}, []⟩ mixedEntries.reverse).tree.node? place =
          (extractAll scriptJob ⟨blockedOutput, {}, []⟩ mixedEntries).tree.node? place) ∧
      (extractAll scriptJob ⟨blockedOutput, {}, []⟩ mixedEntries.reverse).stats =
        { extracted := 2, decompiled := 1, rejectedPaths := 1, ioFailures := 1 } := by
  have hperm : mixedEntries.Perm mixedEntries.reverse :=
    (List.reverse_perm mixedEntries).symm
  have hclear : ∀ a ∈ mixedEntries, ∀ b ∈ mixedEntries, a ≠ b → Clear scriptJob a b := by
    decide +kernel
  obtain ⟨hnode, -, hstats⟩ := extractAll_perm scriptJob blockedOutput hperm hclear
  exact ⟨hperm, hclear, hnode, hstats.trans (by decide +kernel)⟩

end AssetPack.Extraction
