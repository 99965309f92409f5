import AssetPack.Proofs.Extraction.Installation

/-!
# Extracting again changes nothing

A second extraction of the same assets meets everything that the first one left behind, also what
came after the asset at hand. Still each asset fares as before. What is there is never taken away
and never changes its kind, so whatever stood in the way of an asset stands there again, and
whatever did not is at most a directory or a file that the asset would have made itself. Files that
one asset writes over another go back and forth on the way, and end as they ended.

What carries this through the run is `Extraction.Repeats`, for any tree over all that the first run
left: the counters move as they did, nodes are only replaced by nodes of their kind, and every place
has what the first run left there, unless it left nothing.

## Main results

* `Extraction.foldl_account_again`: a run over what came of it repeats it.
* `Extraction.extractAll_again`: the same tree and the same counters.
-/

namespace AssetPack.Extraction

open Container
open FileTree (Alters Overwrites Settled)
open AssetPack.Path (components)

variable {job : Job} {reached : Option Place} {x y : FileTree × ExtractStats}

/-- Nothing is taken away over a run, and the tree stays settled. -/
theorem alters_foldl_account (h : Settled (components job.output) reached x.1)
    (entries : List Entry) :
    Settled (components job.output) reached (entries.foldl (account job) x).1 ∧
      Alters (fun _ => True) x.1 (entries.foldl (account job) x).1 := by
  induction entries generalizing x with
  | nil => exact ⟨h, .refl _ x.1⟩
  | cons entry rest ih =>
    have halters : Alters (fun _ => True) x.1 (account job x entry).1 := by
      obtain ⟨items, toll, hinstalls⟩ := exists_items job entry reached
      rw [hinstalls.account_eq x h]
      exact FileTree.alters_install x.1 items
    obtain ⟨hsettled, hrest⟩ := ih (settled_account h entry)
    rw [List.foldl_cons]
    exact ⟨hsettled, halters.trans hrest⟩

/-- A run from `x` to `x'` and one from `y` to `y'` have done the same: they counted the same, the
second has replaced nodes only, and at each place it leaves what the first leaves, or what was there
if the first left nothing. -/
structure Repeats (x x' y y' : FileTree × ExtractStats) : Prop where
  stats : y'.2 = x'.2
  overwrites : Overwrites y.1 y'.1
  node? : ∀ q, y'.1.node? q = x'.1.node? q ∨
    x'.1.node? q = x.1.node? q ∧ y'.1.node? q = y.1.node? q

theorem Repeats.trans {x' x'' y' y'' : FileTree × ExtractStats} (h : Repeats x x' y y')
    (h' : Repeats x' x'' y' y'') : Repeats x x'' y y'' := by
  refine ⟨h'.stats, h.overwrites.trans h'.overwrites, fun q => ?_⟩
  rcases h'.node? q with hsame | ⟨hx, hy⟩
  · exact .inl hsame
  · rw [hx, hy]
    exact h.node? q

/-- One asset again, over all that came of it and more. -/
theorem account_again (hx : Settled (components job.output) reached x.1)
    (hy : Settled (components job.output) reached y.1) (hstats : y.2 = x.2) (entry : Entry)
    (h : Alters (fun _ => True) (account job x entry).1 y.1) :
    Repeats x (account job x entry) y (account job y entry) := by
  obtain ⟨items, toll, hinstalls⟩ := exists_items job entry reached
  rw [hinstalls.account_eq x hx] at h ⊢
  rw [hinstalls.account_eq y hy]
  obtain ⟨hcount, hoverwrites, hplaces⟩ := FileTree.install_again h
  exact ⟨by rw [hcount, hstats], hoverwrites, hplaces⟩

/-- **A run over what came of it**, and more, repeats it. -/
theorem foldl_account_again (hx : Settled (components job.output) reached x.1)
    (hy : Settled (components job.output) reached y.1) (hstats : y.2 = x.2) (entries : List Entry)
    (h : Alters (fun _ => True) (entries.foldl (account job) x).1 y.1) :
    Repeats x (entries.foldl (account job) x) y (entries.foldl (account job) y) := by
  induction entries generalizing x y with
  | nil => exact ⟨hstats, .refl y.1, fun q => .inr ⟨rfl, rfl⟩⟩
  | cons entry rest ih =>
    rw [List.foldl_cons] at h ⊢
    rw [List.foldl_cons]
    have hx' := settled_account hx entry
    -- `y` is over all that the first run leaves, so over what its first asset leaves
    have hlater := (alters_foldl_account hx' rest).2
    have hfirst := account_again hx hy hstats entry (hlater.trans h)
    exact hfirst.trans (ih hx' (settled_account hy entry) hfirst.stats
      (h.trans hfirst.overwrites.alters))

theorem foldl_account_of_idle {entries : List Entry} (h : ∀ entry ∈ entries, Idle job entry) :
    (entries.foldl (account job) x).1 = x.1 := by
  induction entries generalizing x with
  | nil => rfl
  | cons entry rest ih =>
    obtain ⟨⟨toll, htoll⟩, hrest⟩ := List.forall_mem_cons.1 h
    rw [List.foldl_cons, ih hrest, htoll]

/-- A run from the tree that it has left comes back to the same state. -/
theorem foldl_account_twice (job : Job) (entries : List Entry) (x : FileTree × ExtractStats) :
    entries.foldl (account job) ((entries.foldl (account job) x).1, x.2) =
      entries.foldl (account job) x := by
  by_cases hbusy : ∃ entry ∈ entries, ¬ Idle job entry
  · rw [← foldl_account_settle hbusy x]
    have hsettled := FileTree.settled_pave x.1 (components job.output)
    obtain ⟨hend, -⟩ := alters_foldl_account (x := settle job x) hsettled entries
    have hrepeats := foldl_account_again (x := settle job x)
      (y := ((entries.foldl (account job) (settle job x)).1, x.2)) hsettled hend rfl entries
      (.refl _ _)
    refine Prod.ext (hrepeats.overwrites.eq fun q => ?_) hrepeats.stats
    rcases hrepeats.node? q with hsame | ⟨-, hsame⟩
    · exact hsame
    · exact hsame
  · have hidle : ∀ entry ∈ entries, Idle job entry := by
      intro entry hentry
      by_contra hnot
      exact hbusy ⟨entry, hentry, hnot⟩
    rw [foldl_account_of_idle hidle]

/-- **Extracting again changes nothing.** A second extraction of the same assets into what the
first one has left leaves the same tree, and counts the same. -/
theorem extractAll_again (job : Job) (tree : FileTree) (entries : List Entry) :
    (extractAll job ⟨(extractAll job ⟨tree, {}, []⟩ entries).tree, {}, []⟩ entries).tree =
        (extractAll job ⟨tree, {}, []⟩ entries).tree ∧
      (extractAll job ⟨(extractAll job ⟨tree, {}, []⟩ entries).tree, {}, []⟩ entries).stats =
        (extractAll job ⟨tree, {}, []⟩ entries).stats := by
  have hfirst := extractAll_account job ⟨tree, {}, []⟩ entries
  have hsecond := extractAll_account job
    ⟨(extractAll job ⟨tree, {}, []⟩ entries).tree, {}, []⟩ entries
  have htwice := foldl_account_twice job entries (tree, {})
  rw [← hfirst, ← hsecond] at htwice
  exact Prod.mk.inj htwice

end AssetPack.Extraction
