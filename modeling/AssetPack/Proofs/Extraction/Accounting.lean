import AssetPack.Proofs.Extraction.Step

/-!
# The counters of an extraction add up

Some counters stand for one event and some for two: an asset outside the container and a script that
cannot be decoded are both format failures, and an asset that cannot be stored counts like a listing
that cannot. So the counters alone do not say how many assets came to nothing. With the fates of the
assets they do, because each asset has exactly one fate.

## Main results

* `Extraction.pairwise_statsAfterEach`: no counter ever goes down.
* `Extraction.extractAll_accounted`: every asset is counted exactly once, and what is counted
  besides is counted for scripts that were copied.
-/

namespace AssetPack

open Container

/-! ### Counters in order -/

/-- No counter is larger. -/
instance : LE ExtractStats where
  le a b := a.extracted ≤ b.extracted ∧ a.decompiled ≤ b.decompiled ∧
    a.formatFailures ≤ b.formatFailures ∧ a.rejectedPaths ≤ b.rejectedPaths ∧
    a.ioFailures ≤ b.ioFailures ∧ a.checksumMismatches ≤ b.checksumMismatches

theorem ExtractStats.le_trans {a b c : ExtractStats} (h : a ≤ b) (h' : b ≤ c) : a ≤ c := by
  obtain ⟨h₁, h₂, h₃, h₄, h₅, h₆⟩ := h
  obtain ⟨h₁', h₂', h₃', h₄', h₅', h₆'⟩ := h'
  exact ⟨h₁.trans h₁', h₂.trans h₂', h₃.trans h₃', h₄.trans h₄', h₅.trans h₅', h₆.trans h₆'⟩

namespace Extraction

variable {job : Job} {t t' : FileTree} {entries : List Entry} {fates : List Fate}

theorem Counted.le {before after : ExtractStats} (h : Counted before fates after) :
    before ≤ after := by
  refine ⟨?_, ?_, ?_, ?_, ?_, h.mismatches_ge⟩
  · rw [h.extracted]
    omega
  · rw [h.decompiled]
    omega
  · rw [h.formatFailures]
    omega
  · rw [h.rejectedPaths]
    omega
  · rw [h.ioFailures]
    omega

theorem length_statsAfterEach (job : Job) (x : Extraction) (entries : List Entry) :
    (statsAfterEach job x entries).length = entries.length := by
  induction entries generalizing x with
  | nil => rfl
  | cons entry rest ih => rw [statsAfterEach, List.length_cons, List.length_cons, ih]

theorem getLastD_statsAfterEach (job : Job) (x : Extraction) (entries : List Entry) :
    (statsAfterEach job x entries).getLastD x.stats = (extractAll job x entries).stats := by
  induction entries generalizing x with
  | nil => rfl
  | cons entry rest ih =>
    rw [statsAfterEach, List.getLastD_cons, ih, extractAll, extractAll, List.foldl_cons]

/-- **No counter ever goes down**, from the start or from any asset to any later one. -/
theorem pairwise_statsAfterEach (job : Job) (x : Extraction) (entries : List Entry) :
    (x.stats :: statsAfterEach job x entries).Pairwise (· ≤ ·) := by
  induction entries generalizing x with
  | nil => exact List.pairwise_singleton _ _
  | cons entry rest ih =>
    obtain ⟨fate, -, hcounted, -⟩ := step_extract job x entry
    have hrest := ih (extract job x entry)
    rw [statsAfterEach]
    refine List.pairwise_cons.2 ⟨fun later hlater => ?_, hrest⟩
    rcases List.mem_cons.1 hlater with heq | hlater
    · rw [heq]
      exact hcounted.le
    · exact ExtractStats.le_trans hcounted.le ((List.pairwise_cons.1 hrest).1 later hlater)

end Extraction

/-! ### Fates in numbers -/

namespace Fate

/-- **Each asset has one fate**: copied, rejected, out of range or not copied. -/
theorem countP_isCopied_add (fates : List Fate) :
    fates.countP isCopied + fates.count rejected + fates.count outOfRange +
      fates.count uncopied = fates.length := by
  induction fates with
  | nil => rfl
  | cons fate rest ih =>
    have hone : (if isCopied fate then 1 else 0) + (if fate == rejected then 1 else 0) +
        (if fate == outOfRange then 1 else 0) + (if fate == uncopied then 1 else 0) = 1 := by
      cases fate with
      | script text => rfl
      | _ => rfl
    simp only [List.countP_cons, List.count_cons, List.length_cons]
    omega

/-- The bytes of an asset are found unless its name is rejected or it is out of range. -/
theorem countP_isFound_add (fates : List Fate) :
    fates.countP isFound + fates.count rejected + fates.count outOfRange = fates.length := by
  induction fates with
  | nil => rfl
  | cons fate rest ih =>
    have hone : (if isFound fate then 1 else 0) + (if fate == rejected then 1 else 0) +
        (if fate == outOfRange then 1 else 0) = 1 := by
      cases fate with
      | script text => rfl
      | _ => rfl
    simp only [List.countP_cons, List.count_cons, List.length_cons]
    omega

theorem isCopied_of_isScript {fate : Fate} (h : fate.isScript = true) : fate.isCopied = true := by
  cases fate with
  | script text => rfl
  | _ => cases h

theorem isScript_of_text {fate : Fate} {text : TextFate} (h : fate.text? = some text) :
    fate.isScript = true := by
  cases fate with
  | script text => rfl
  | _ => cases h

theorem isScript_of_any {fate : Fate} {p : TextFate → Bool} (h : fate.text?.any p = true) :
    fate.isScript = true := by
  obtain ⟨text, htext, -⟩ := (Option.any_eq_true _ _).1 h
  exact isScript_of_text htext

/-- A script is listed or it could not be decoded, but not both. -/
theorem countP_isListed_add (fates : List Fate) :
    fates.countP isListed + fates.countP isUndecoded ≤ fates.countP isScript := by
  induction fates with
  | nil => exact Nat.le_refl 0
  | cons fate rest ih =>
    have hone : (if isListed fate then 1 else 0) + (if isUndecoded fate then 1 else 0) ≤
        (if isScript fate then 1 else 0) := by
      rcases htext : fate.text? with _ | text
      · rw [isListed, isUndecoded, htext]
        exact Nat.zero_le _
      · rw [isListed, isUndecoded, htext, isScript_of_text htext]
        cases text with
        | _ => decide
    simp only [List.countP_cons]
    omega

end Fate

namespace Extraction

variable {job : Job} {entry : Entry} {t t' : FileTree} {entries : List Entry} {fate : Fate}
  {fates : List Fate}

theorem Step.isScript_eq (h : Step job entry t fate t') :
    fate.isScript = (entry.isScript && fate.isCopied) := by
  cases h with
  | copied _ hscript => rw [hscript]; rfl
  | untold _ hscript => rw [hscript]; rfl
  | script _ hscript => rw [hscript]; rfl
  | _ => exact (Bool.and_false entry.isScript).symm

theorem Step.text_eq_none (h : Step job entry t fate t')
    (hdecompile : job.options.decompile = false) : fate.text? = none := by
  cases h with
  | script _ _ htrue => rw [hdecompile] at htrue; cases htrue
  | _ => rfl

/-- The scripts that were copied, counted by their names and by their fates. -/
theorem Run.countP_isScript (h : Run job t entries fates t') :
    (entries.zip fates).countP (fun p => p.1.isScript && p.2.isCopied) =
      fates.countP Fate.isScript := by
  induction h with
  | nil t => rfl
  | cons head _ ih => rw [List.zip_cons_cons, List.countP_cons, List.countP_cons, ih,
      head.isScript_eq]

theorem Run.text_eq_none (h : Run job t entries fates t')
    (hdecompile : job.options.decompile = false) : ∀ fate ∈ fates, fate.text? = none := by
  induction h with
  | nil t => simp
  | cons head _ ih => exact List.forall_mem_cons.2 ⟨head.text_eq_none hdecompile, ih⟩

/-- With decompiling off no text is made, so nothing can become of one. -/
theorem Run.countP_any (h : Run job t entries fates t') (hdecompile : job.options.decompile = false)
    (p : TextFate → Bool) : fates.countP (fun fate => fate.text?.any p) = 0 := by
  refine List.countP_eq_zero.2 fun fate hfate => ?_
  rw [h.text_eq_none hdecompile fate hfate]
  exact Bool.false_ne_true

/-- **The counters add up.** In a run over `n` assets let `f` be how many are out of range, `i` how
many could not be copied, `c` how many are scripts that were copied, `g` how many of these could not
be decoded, and `j` for how many of these something could not be stored. Every asset is copied,
rejected, out of range or not copied, and the other failures are failures of copied scripts. -/
theorem extractAll_accounted (job : Job) (tree : FileTree) (entries : List Entry) :
    ∃ (final : Extraction) (fates : List Fate) (f i g j c : Nat),
      final = extractAll job ⟨tree, {}, []⟩ entries ∧
      Run job tree entries fates final.tree ∧ fates.length = entries.length ∧
      (f = fates.count .outOfRange ∧ i = fates.count .uncopied ∧
        c = (entries.zip fates).countP (fun p => p.1.isScript && p.2.isCopied) ∧
        g = fates.countP Fate.isUndecoded ∧ j = fates.countP Fate.isUnstored) ∧
      final.stats.rejectedPaths = fates.count .rejected ∧
      final.stats.formatFailures = f + g ∧ final.stats.ioFailures = i + j ∧
      final.stats.extracted + final.stats.rejectedPaths + f + i = entries.length ∧
      final.stats.decompiled + g ≤ c ∧ j ≤ c ∧ c ≤ final.stats.extracted ∧
      final.stats.checksumMismatches + final.stats.rejectedPaths + f ≤ entries.length ∧
      (job.options.decompile = false → g = 0 ∧ j = 0 ∧ final.stats.decompiled = 0 ∧
        final.stats.extracted + final.stats.failures = entries.length) ∧
      (statsAfterEach job ⟨tree, {}, []⟩ entries).length = entries.length ∧
      (statsAfterEach job ⟨tree, {}, []⟩ entries).getLastD {} = final.stats ∧
      ({} :: statsAfterEach job ⟨tree, {}, []⟩ entries).Pairwise (· ≤ ·) := by
  obtain ⟨fates, hrun, hcounted, -⟩ := run_extractAll job ⟨tree, {}, []⟩ entries
  have hlast := getLastD_statsAfterEach job ⟨tree, {}, []⟩ entries
  generalize hfinal : extractAll job ⟨tree, {}, []⟩ entries = final at hrun hcounted hlast
  have hlength := hrun.length_eq
  have hcopied := Fate.countP_isCopied_add fates
  have hfound := Fate.countP_isFound_add fates
  have hlisted := Fate.countP_isListed_add fates
  have hunstored : fates.countP Fate.isUnstored ≤ fates.countP Fate.isScript :=
    List.countP_mono_left fun _ _ h => Fate.isScript_of_any h
  have hscripts : fates.countP Fate.isScript ≤ fates.countP Fate.isCopied :=
    List.countP_mono_left fun _ _ h => Fate.isCopied_of_isScript h
  obtain ⟨hextracted, hdecompiled, hformat, hrejected, hio, -, hmismatches⟩ := hcounted
  simp only [Nat.zero_add] at hextracted hdecompiled hformat hrejected hio hmismatches
  refine ⟨final, fates, _, _, _, _, _, rfl, hrun, hlength, ⟨rfl, rfl, rfl, rfl, rfl⟩, hrejected,
    hformat, hio, ?_, ?_, ?_, ?_, ?_, fun hdecompile => ?_, length_statsAfterEach _ _ _, hlast,
    pairwise_statsAfterEach _ ⟨tree, {}, []⟩ _⟩
  · omega
  · rw [hrun.countP_isScript, hdecompiled]
    exact hlisted
  · rw [hrun.countP_isScript]
    exact hunstored
  · rw [hrun.countP_isScript, hextracted]
    exact hscripts
  · omega
  · have hlistedNone : fates.countP Fate.isListed = 0 := hrun.countP_any hdecompile _
    have hundecoded : fates.countP Fate.isUndecoded = 0 := hrun.countP_any hdecompile _
    have hstored : fates.countP Fate.isUnstored = 0 := hrun.countP_any hdecompile _
    refine ⟨hundecoded, hstored, by omega, ?_⟩
    rw [ExtractStats.failures]
    omega

end Extraction

end AssetPack
