import AssetPack.Proofs.Container.RoundTrip
import AssetPack.Proofs.Extraction.Delivery
import AssetPack.Proofs.FileTree.Creation
import Mathlib.Data.List.Forall2

/-!
# Unpacking what was packed

A container is written from a draft, its index is read, and its assets are extracted into an empty
directory. What is then in the directory is what was in the draft: its files with their bytes, the
directories they are in, and nothing else. All counters but the number of assets stay zero.

The draft says which paths there are and that none leads through another. Each asset in turn finds
below the output directory what the assets before it have left (`Unpacked`), so its directories are
there or can be made, and nothing is where its file goes.

A file tree cannot be asked about a path of more than 4095 bytes, however short the names in it are.
So the path of every asset, with that of the output directory in front, must not be longer.
`Extraction.Step.uncopied_of_long` says what happens to an asset with a longer one, and
`Extraction.deepDraft_not_extracted` that a draft can have one.

## Main definitions

* `Laid`: what files make of a directory.
* `Unpacked`: files, and nothing else, are below a directory.

## Main results

* `Unpacked.store`: an asset can be stored where the others are.
* `Extraction.Run.unpacked`: all of them can.
* `Extraction.unpack_encode`: what was packed is unpacked.
-/

namespace AssetPack

open Container
open FileTree (longestPath refusal? AllShort)
open AssetPack.Path (Component components component? segments)

/-! ### Paths of assets -/

namespace Container

theorem IsSegment.component?_eq {s : String} (h : IsSegment s) : component? s = some (.name s) :=
  Path.component?_eq_name_iff.2 ⟨h.nonempty, h.not_dots⟩

namespace Asset.WellNamed

variable {a : Asset}

theorem components_path (h : a.WellNamed) : components a.path = a.names.map .name := by
  have hnames : a.names.filterMap component? = a.names.map .name := by
    rw [← List.filterMap_eq_map]
    exact List.filterMap_congr fun s hs => (h.2 s hs).component?_eq
  obtain ⟨first, rest, hcons⟩ := List.exists_cons_of_ne_nil h.1
  have hfirst : Path.isTrivial first = false :=
    Path.not_isTrivial_of_name (h.2 first (by simp [hcons])).component?_eq
  have hne : a.path ≠ "" := by
    intro hempty
    have hsegments := h.segments_path
    rw [hempty, Path.segments_empty] at hsegments
    exact (h.2 "" (by simp [← hsegments])).nonempty rfl
  have hlead : Path.lead (segments a.path) = (.none, a.names) := by
    rw [h.segments_path, hcons, Path.lead_of_not_isTrivial hfirst]
  rw [Path.components_of_segments hne hlead, hnames]
  rfl

theorem isContained_path (h : a.WellNamed) : Path.isContained a.path = true := by
  rw [Path.isContained, h.components_path]
  simp [h.1]

theorem allShort (h : a.WellNamed) : AllShort a.names := fun s hs => (h.2 s hs).short

/-- The target of an asset ends in its last name. -/
theorem endsIn_join (h : a.WellNamed) (output : String) {dirs : List String} {name : String}
    (hnames : a.names = dirs ++ [name]) : Path.EndsIn (Path.join output a.path) name := by
  obtain ⟨front, hfront⟩ := Path.segments_join output h.isContained_path
  rw [h.segments_path, hnames, ← List.append_assoc] at hfront
  exact ⟨_, hfront, (h.2 name (by simp [hnames])).component?_eq⟩

end Asset.WellNamed

end Container

theorem Path.components_ne_nil {path : String} (h : path ≠ "") : components path ≠ [] := by
  rcases Path.lead_cases (segments path) with ⟨rest, -, hlead⟩ | ⟨rest, -, hlead⟩ | ⟨hlead, hfirst⟩
  · rw [Path.components_of_segments h hlead]
    exact List.cons_ne_nil _ _
  · rw [Path.components_of_segments h hlead]
    exact List.cons_ne_nil _ _
  · obtain ⟨first, rest, hcons⟩ := List.exists_cons_of_ne_nil (Path.segments_ne_nil path)
    obtain ⟨c, hc⟩ := Path.exists_component? (hfirst first (by simp [hcons]))
    rw [Path.components_of_segments h hlead, hcons, List.filterMap_cons_some hc]
    exact List.append_ne_nil_of_right_ne_nil _ (List.cons_ne_nil _ _)

/-- A path below a directory that can be asked about can be asked about, unless it is too long. -/
theorem FileTree.refusal?_join {output path : String} (houtput : refusal? output = none)
    (hpath : Path.isContained path = true) (hnul : Char.ofNat 0 ∉ path.toList)
    (hlong : (Path.join output path).utf8ByteSize ≤ longestPath) :
    refusal? (Path.join output path) = none := by
  have hjoin : (Path.join output path).toList = output.toList ++ path.toList ∨
      (Path.join output path).toList = output.toList ++ '/' :: path.toList := by
    rcases Path.join_cases output hpath with ⟨rfl, heq⟩ | ⟨front, rfl, heq⟩ | ⟨-, heq⟩
    · exact .inl (by simp [heq])
    · exact .inl (by simp [heq])
    · exact .inr (by simp [heq])
  obtain ⟨hchars, -, -⟩ := refusal?_eq_none_iff.1 houtput
  have hclean : Char.ofNat 0 ∉ (Path.join output path).toList := by
    rcases hjoin with heq | heq
    · simp [heq, hchars, hnul]
    · have hslash : Char.ofNat 0 ≠ '/' := by decide
      simp [heq, hchars, hnul, hslash]
  have hne : Path.join output path ≠ "" := by
    intro hempty
    have hcomponents := Path.components_join output hpath
    obtain ⟨names, hnames, hsome⟩ := Path.exists_names_of_isContained hpath
    rw [hempty, hnames] at hcomponents
    have hnil := (List.append_eq_nil_iff.1 hcomponents.symm).2
    exact hsome (List.map_eq_nil_iff.1 hnil)
  exact refusal?_eq_none_iff.2 ⟨hclean, hne, hlong⟩

/-! ### What is in the output directory -/

/-- What files make of a directory: `node` is at the place `q` below it if it is the content of a
file with these names, or the directory itself or one that a file is in. -/
def Laid (assets : List Asset) (q : Place) (node : Node) : Prop :=
  (∃ a ∈ assets, q = a.names ∧ node = .file a.data) ∨
    node = .directory ∧ (q = [] ∨ ∃ a ∈ assets, q <+: a.names ∧ q ≠ a.names)

/-- Files, and nothing else, are below the directory that `output` leads to. -/
structure Unpacked (output : String) (root : Place) (assets : List Asset) (t : FileTree) :
    Prop where
  enters : t.enter t.workingDir (components output) = .ok root
  below : ∀ q node, t.node? (root ++ q) = some node ↔ Laid assets q node

/-- `output` leads to the directory `root`, and nothing is in it. -/
structure FileTree.Vacant (t : FileTree) (output : String) (root : Place) : Prop where
  resolves : t.resolve output = .ok root
  directory : t.node? root = some .directory
  empty : ∀ q, q ≠ [] → t.node? (root ++ q) = none

namespace FileTree.Vacant

variable {t : FileTree} {output : String} {root : Place}

theorem isDirectory_eq (h : t.Vacant output root) : t.isDirectory output = true := by
  simp only [isDirectory, h.resolves, h.directory]
  rfl

theorem refusal?_eq (h : t.Vacant output root) : refusal? output = none :=
  (isDirectory_iff.1 h.isDirectory_eq).1

/-- Nothing is unpacked yet. -/
theorem unpacked (h : t.Vacant output root) : Unpacked output root [] t := by
  obtain ⟨-, place, henter⟩ := isDirectory_iff.1 h.isDirectory_eq
  refine ⟨?_, fun q node => ?_⟩
  · have hplace : place = t.destination output := (enter_ok henter).1
    rw [henter, hplace, destination_of_resolve h.resolves]
  · by_cases hq : q = []
    · subst hq
      rw [List.append_nil, h.directory]
      simp [Laid, eq_comm]
    · rw [h.empty q hq]
      simp [Laid, hq]

end FileTree.Vacant

section Laid

variable {assets : List Asset} {a : Asset} {dirs : List String} {name : String} {q : Place}
  {node : Node}

/-- One file more: at its place there is the file. -/
theorem laid_concat_self (hsep : ∀ b ∈ assets, a.Separate b) (hne : a.names ≠ []) :
    Laid (assets ++ [a]) a.names node ↔ node = .file a.data := by
  constructor
  · rintro (⟨b, hb, hnames, rfl⟩ | ⟨-, hnil | ⟨b, hb, hprefix, hother⟩⟩)
    · rcases List.mem_append.1 hb with hb | hb
      · exact absurd (hnames ▸ List.prefix_refl _) (hsep b hb).1
      · rw [List.mem_singleton.1 hb]
    · exact absurd hnil hne
    · rcases List.mem_append.1 hb with hb | hb
      · exact absurd hprefix (hsep b hb).1
      · rw [List.mem_singleton.1 hb] at hother
        exact absurd rfl hother
  · rintro rfl
    exact .inl ⟨a, by simp, rfl, rfl⟩

/-- On the way to it there are directories. -/
theorem laid_concat_above (hsep : ∀ b ∈ assets, a.Separate b) (hnames : a.names = dirs ++ [name])
    (hq : q <+: dirs) : Laid (assets ++ [a]) q node ↔ node = .directory := by
  have hbelow : q <+: a.names := hnames ▸ hq.trans (List.prefix_append _ _)
  have hshort : q ≠ a.names := by
    rintro rfl
    have hlength := hq.length_le
    rw [hnames, List.length_append, List.length_singleton] at hlength
    omega
  constructor
  · rintro (⟨b, hb, rfl, -⟩ | ⟨rfl, -⟩)
    · rcases List.mem_append.1 hb with hb | hb
      · exact absurd hbelow (hsep b hb).2
      · rw [List.mem_singleton.1 hb] at hshort
        exact absurd rfl hshort
    · rfl
  · rintro rfl
    exact .inr ⟨rfl, .inr ⟨a, by simp, hbelow, hshort⟩⟩

/-- Everywhere else it makes no difference. -/
theorem laid_concat_elsewhere (hnames : a.names = dirs ++ [name]) (hself : q ≠ a.names)
    (habove : ¬ q <+: dirs) : Laid (assets ++ [a]) q node ↔ Laid assets q node := by
  constructor
  · rintro (⟨b, hb, heq, hnode⟩ | ⟨hnode, hnil | ⟨b, hb, hprefix, hother⟩⟩)
    · rcases List.mem_append.1 hb with hb | hb
      · exact .inl ⟨b, hb, heq, hnode⟩
      · rw [List.mem_singleton.1 hb] at heq
        exact absurd heq hself
    · exact .inr ⟨hnode, .inl hnil⟩
    · rcases List.mem_append.1 hb with hb | hb
      · exact .inr ⟨hnode, .inr ⟨b, hb, hprefix, hother⟩⟩
      · rw [List.mem_singleton.1 hb, hnames] at hprefix
        rcases List.prefix_concat_iff.1 hprefix with heq | hdirs
        · exact absurd (heq.trans hnames.symm) hself
        · exact absurd hdirs habove
  · rintro (⟨b, hb, hrest⟩ | ⟨hnode, hnil | ⟨b, hb, hrest⟩⟩)
    · exact .inl ⟨b, List.mem_append_left _ hb, hrest⟩
    · exact .inr ⟨hnode, .inl hnil⟩
    · exact .inr ⟨hnode, .inr ⟨b, List.mem_append_left _ hb, hrest⟩⟩

end Laid

/-- **An asset can be stored where the others are**, and then it is there too. -/
theorem Unpacked.store {output : String} {root : Place} {assets : List Asset} {t : FileTree}
    {a : Asset} (h : Unpacked output root assets t) (ha : a.WellNamed)
    (hsep : ∀ b ∈ assets, a.Separate b) (houtput : refusal? output = none)
    (hlong : (Path.join output a.path).utf8ByteSize ≤ longestPath) :
    ∃ t₁ t₂, t.createParent (Path.join output a.path) = (t₁, .ok ()) ∧
      t₁.writeFile (Path.join output a.path) a.data = .ok t₂ ∧
      Unpacked output root (assets ++ [a]) t₂ := by
  obtain ⟨dirs, name, hnames⟩ : ∃ dirs name, a.names = dirs ++ [name] :=
    ⟨_, _, (List.dropLast_append_getLast ha.1).symm⟩
  have hpath : components (Path.join output a.path) =
      components output ++ (dirs ++ [name]).map .name := by
    rw [Path.components_join output ha.isContained_path, ha.components_path, hnames]
  have hstart : components output ≠ [] := by
    refine Path.components_ne_nil ?_
    rintro rfl
    cases houtput
  have hopen : t.Open root dirs := by
    intro q hq content hfile
    rcases (h.below q _).1 hfile with ⟨b, hb, rfl, -⟩ | ⟨hnode, -⟩
    · exact (hsep b hb).2 (hnames ▸ hq.trans (List.prefix_append _ _))
    · cases hnode
  have hfree : t.node? (root ++ (dirs ++ [name])) ≠ some .directory := by
    intro hdirectory
    rw [← hnames] at hdirectory
    rcases (h.below _ _).1 hdirectory with ⟨b, -, -, hnode⟩ | ⟨-, hnil | ⟨b, hb, hprefix, -⟩⟩
    · cases hnode
    · exact ha.1 hnil
    · exact (hsep b hb).1 hprefix
  obtain ⟨parent, t₁, hparent, hcreate, hpaves, hwrite⟩ := FileTree.store_names h.enters hstart
    (hnames ▸ ha.allShort) hopen hpath (ha.endsIn_join output hnames)
    (FileTree.refusal?_join houtput ha.isContained_path ha.nul_not_mem_path hlong) hfree
  refine ⟨t₁, _, ?_, hwrite, ?_, fun q node => ?_⟩
  · simp only [FileTree.createParent, hparent, hcreate]
  · have halters : FileTree.Alters (fun _ => True) t₁ _ := FileTree.alters_writeFile hwrite trivial
    rw [halters.workingDir]
    exact halters.enter (hpaves.enter h.enters)
  · rw [FileTree.node?_put t₁ (by simp), ← hnames]
    by_cases hself : q = a.names
    · rw [if_pos (by rw [hself]), hself, laid_concat_self hsep ha.1]
      simp [eq_comm]
    · rw [if_neg (fun heq => hself (List.append_cancel_left heq))]
      by_cases habove : q <+: dirs
      · rw [hpaves.paved q habove, laid_concat_above hsep hnames habove]
        simp [eq_comm]
      · have hplace : ∀ p, p <+: dirs → root ++ q ≠ root ++ p := by
          intro p hp heq
          rw [List.append_cancel_left heq] at habove
          exact habove hp
        rw [hpaves.elsewhere _ hplace, laid_concat_elsewhere hnames hself habove]
        exact h.below q node

namespace Extraction

variable {job : Job} {entry : Entry} {t t' : FileTree} {fate : Fate} {fates : List Fate}

/-! ### Assets one after the other -/

/-- Where an asset can be copied, it is copied. -/
theorem Step.copied_of {payload : Bytes} {t₁ t₂ : FileTree} (h : Step job entry t fate t')
    (hdecompile : job.options.decompile = false)
    (hcontained : Path.isContained entry.relativePath = true)
    (hrange : job.medium.range entry.offset (some entry.size) = .ok payload)
    (hparent : t.createParent (job.target entry) = (t₁, .ok ()))
    (hwrite : t₁.writeFile (job.target entry) payload = .ok t₂) :
    fate.isClean = true ∧ t' = t₂ := by
  have hcopies : ∀ {t' : FileTree}, Copies job entry t t' → t' = t₂ := by
    rintro t' ⟨-, payload', t₁', hrange', hparent', hwrite'⟩
    rw [hrange] at hrange'
    cases hrange'
    rw [hparent] at hparent'
    cases hparent'
    rw [hwrite] at hwrite'
    cases hwrite'
    rfl
  cases h with
  | rejected hpath => rw [hcontained] at hpath; cases hpath
  | outOfRange _ herror => rw [hrange] at herror; cases herror
  | homeless _ _ herror => rw [hparent] at herror; cases herror
  | unwritten _ hrange' hparent' herror =>
    rw [hrange] at hrange'
    cases hrange'
    rw [hparent] at hparent'
    cases hparent'
    rw [hwrite] at herror
    cases herror
  | copied hcopy _ => exact ⟨rfl, hcopies hcopy⟩
  | untold hcopy _ _ => exact ⟨rfl, hcopies hcopy⟩
  | script _ _ htrue _ => rw [hdecompile] at htrue; cases htrue

/-- **All assets can be stored one after the other.** -/
theorem Run.unpacked {root : Place} {placement : List (Nat × Asset)} {done : List Asset}
    (hrun : Run job t (placement.map fun p => p.2.entry p.1) fates t')
    (hdecompile : job.options.decompile = false) (houtput : refusal? job.output = none)
    (hnames : ∀ p ∈ placement, p.2.WellNamed)
    (hlong : ∀ p ∈ placement, (Path.join job.output p.2.path).utf8ByteSize ≤ longestPath)
    (hrange : ∀ p ∈ placement, job.medium.range (p.2.entry p.1).offset
      (some (p.2.entry p.1).size) = .ok p.2.data)
    (hsep : (placement.map Prod.snd).Pairwise Asset.Separate)
    (hdone : ∀ p ∈ placement, ∀ b ∈ done, p.2.Separate b)
    (h : Unpacked job.output root done t) :
    Unpacked job.output root (done ++ placement.map Prod.snd) t' ∧
      ∀ f ∈ fates, f.isClean = true := by
  induction placement generalizing done t fates with
  | nil =>
    cases hrun
    exact ⟨by simpa using h, by simp⟩
  | cons p rest ih =>
    cases hrun with
    | @cons _ t₁ _ _ _ fate fates head tail =>
      obtain ⟨hname, hnames⟩ := List.forall_mem_cons.1 hnames
      obtain ⟨hfits, hlong⟩ := List.forall_mem_cons.1 hlong
      obtain ⟨hdata, hrange⟩ := List.forall_mem_cons.1 hrange
      obtain ⟨hfirst, hsep⟩ := List.pairwise_cons.1 hsep
      obtain ⟨hbefore, hdone⟩ := List.forall_mem_cons.1 hdone
      have hpath : (p.2.entry p.1).relativePath = p.2.path := hname.relativePath_entry p.1
      obtain ⟨t₂, t₃, hparent, hwrite, hnext⟩ := h.store hname hbefore houtput hfits
      have htarget : job.target (p.2.entry p.1) = Path.join job.output p.2.path := by
        rw [Job.target, hpath]
      rw [← htarget] at hparent hwrite
      obtain ⟨hclean, rfl⟩ := head.copied_of hdecompile
        (hpath ▸ hname.isContained_path) hdata hparent hwrite
      have hafter : ∀ q ∈ rest, ∀ b ∈ done ++ [p.2], q.2.Separate b := by
        intro q hq b hb
        rcases List.mem_append.1 hb with hb | hb
        · exact hdone q hq b hb
        · rw [List.mem_singleton.1 hb]
          exact (hfirst q.2 (List.mem_map_of_mem hq)).symm
      obtain ⟨hall, hcleans⟩ := ih tail hnames hlong hrange hsep hafter hnext
      refine ⟨?_, List.forall_mem_cons.2 ⟨hclean, hcleans⟩⟩
      rwa [List.append_assoc] at hall

/-- If nothing goes wrong and no text is wanted, the assets are all that is counted. -/
theorem Run.stats_eq {entries : List Entry} {s : ExtractStats} (hrun : Run job t entries fates t')
    (hcounted : Counted {} fates s) (hdecompile : job.options.decompile = false)
    (hclean : ∀ f ∈ fates, f.isClean = true) (hsound : s.checksumMismatches = 0) :
    s = { extracted := entries.length } := by
  have hcount : ∀ g : Fate, g.isClean = false → fates.count g = 0 := by
    intro g hg
    refine List.count_eq_zero.2 fun hmem => ?_
    rw [hclean g hmem] at hg
    cases hg
  have hlisted : fates.countP Fate.isListed = 0 := hrun.countP_any hdecompile _
  have hundecoded : fates.countP Fate.isUndecoded = 0 := hrun.countP_any hdecompile _
  have hunstored : fates.countP Fate.isUnstored = 0 := hrun.countP_any hdecompile _
  obtain ⟨hextracted, hdecompiled, hformat, hrejected, hio, -, -⟩ := hcounted
  rw [Fate.countP_isCopied_of_isClean hclean, hrun.length_eq] at hextracted
  rw [hlisted] at hdecompiled
  rw [hcount .outOfRange rfl, hundecoded] at hformat
  rw [hcount .rejected rfl] at hrejected
  rw [hcount .uncopied rfl, hunstored] at hio
  cases s
  simp_all

/-! ### Whole containers -/

/-- An asset that is found in a container is the one whose digest is in the entry. -/
theorem sound_entry {a : Asset} {offset : Nat} (h : job.medium.range (a.entry offset).offset
    (some (a.entry offset).size) = .ok a.data) : Sound job (a.entry offset) := by
  intro payload hpayload
  rw [h] at hpayload
  cases hpayload
  show (Md5.digest a.data == Md5.digest a.data) = true
  exact beq_self_eq_true _

/-- **What was packed is unpacked.** The index of a draft has an entry for each asset, in order,
with the name and the digest and leading to the data. Extracting the entries into an empty directory
makes the files of the draft and their directories there, nothing else there or anywhere, and counts
the assets and nothing else. -/
theorem unpack_encode {d : Draft} (h : d.WellFormed) :
    ∃ index, (Index.ofBytes d.encode).outcome = .ok index ∧ index.header = d.header ∧
      List.Forall₂ (fun a e => e.name = a.name ∧ e.digest = Md5.digest a.data ∧
        (Medium.mk d.encode).range e.offset (some e.size) = .ok a.data) d.assets index.entries ∧
      ∀ (t : FileTree) (output : String) (root : Place) (options : ExtractOptions),
        t.Vacant output root → options.decompile = false →
        (∀ a ∈ d.assets, (Path.join output a.path).utf8ByteSize ≤ longestPath) →
        ∃ final, extractAll ⟨⟨d.encode⟩, output, options⟩ ⟨t, {}, []⟩ index.entries = final ∧
          final.stats = { extracted := d.assets.length } ∧ final.stats.failures = 0 ∧
          (∀ q node, final.tree.node? (root ++ q) = some node ↔ Laid d.assets q node) ∧
          ∀ place, ¬ root <+: place → final.tree.node? place = t.node? place := by
  have hassets : d.placement.map Prod.snd = d.assets := map_snd_placed _ _
  refine ⟨_, h.ofBytes_encode, rfl, ?_, fun t output root options hvacant hdecompile hlong => ?_⟩
  · rw [← hassets, Draft.entries, List.forall₂_map_left_iff, List.forall₂_map_right_iff,
      List.forall₂_same]
    exact fun p hp => ⟨rfl, rfl, h.range_encode hp⟩
  · obtain ⟨fates, hrun, hcounted, hsound⟩ :=
      run_extractAll ⟨⟨d.encode⟩, output, options⟩ ⟨t, {}, []⟩ d.entries
    obtain ⟨hunpacked, hclean⟩ := hrun.unpacked hdecompile hvacant.refusal?_eq
      (fun p hp => h.names p.2 (mem_of_mem_placed hp))
      (fun p hp => hlong p.2 (mem_of_mem_placed hp)) (fun p hp => h.range_encode hp)
      (hassets ▸ h.separate) (fun _ _ b hb => absurd hb List.not_mem_nil) hvacant.unpacked
    rw [List.nil_append, hassets] at hunpacked
    have hentries : ∀ entry ∈ d.entries, Sound ⟨⟨d.encode⟩, output, options⟩ entry := by
      intro entry hentry
      obtain ⟨p, hp, rfl⟩ := List.mem_map.1 hentry
      exact sound_entry (h.range_encode hp)
    have hlength : d.entries.length = d.assets.length := by
      rw [Draft.entries, List.length_map, Draft.placement, length_placed]
    have hstats := hrun.stats_eq hcounted hdecompile hclean (hsound hentries)
    rw [hlength] at hstats
    refine ⟨_, rfl, hstats, ?_, hunpacked.below, fun place hplace => ?_⟩
    · rw [hstats]
      rfl
    · exact (confined_extractAll _ _ _).node?_eq hvacant.resolves hplace

theorem vacant_outAndKeep : outAndKeep.Vacant "out" ["home", "out"] := by
  refine ⟨by decide +kernel, by decide, fun q hq => ?_⟩
  obtain ⟨first, rest, rfl⟩ := List.exists_cons_of_ne_nil hq
  simp [outAndKeep, FileTree.node?, List.lookup_cons]

/-- Two files below one directory, the second of them empty, and a script. -/
def threeAssets : Draft :=
  ⟨1, 3, 2, 1, List.replicate 64 0,
    [⟨true, ["a", "b"], [1, 2, 3]⟩, ⟨false, ["a", "c", "d"], []⟩, ⟨true, ["e.gdc"], [255]⟩]⟩

theorem unpack_encode_threeAssets :
    ∃ index, (Index.ofBytes threeAssets.encode).outcome = .ok index ∧ threeAssets.WellFormed ∧
      outAndKeep.Vacant "out" ["home", "out"] ∧
      ∃ final, extractAll ⟨⟨threeAssets.encode⟩, "out", ⟨false, false, true⟩⟩ ⟨outAndKeep, {}, []⟩
          index.entries = final ∧
        final.stats = { extracted := 3 } ∧
        final.tree.node? ["home", "out", "a", "b"] = some (.file [1, 2, 3]) ∧
        final.tree.node? ["home", "out", "a", "c"] = some .directory ∧
        final.tree.node? ["home", "keep"] = some (.file [7]) := by
  have hwell : threeAssets.WellFormed :=
    ⟨by decide, by decide, by decide +kernel, by decide +kernel, by decide +kernel, by decide⟩
  have hshort : ∀ a ∈ threeAssets.assets, (Path.join "out" a.path).utf8ByteSize ≤ longestPath := by
    decide +kernel
  obtain ⟨index, hindex, -, -, hunpack⟩ := unpack_encode hwell
  obtain ⟨final, hfinal, hstats, -, hbelow, houtside⟩ :=
    hunpack outAndKeep "out" ["home", "out"] ⟨false, false, true⟩ vacant_outAndKeep rfl hshort
  refine ⟨index, hindex, hwell, vacant_outAndKeep, final, hfinal, hstats, ?_, ?_, ?_⟩
  · exact (hbelow ["a", "b"] _).2 (.inl ⟨_, List.mem_cons_self, rfl, rfl⟩)
  · exact (hbelow ["a", "c"] _).2 (.inr ⟨rfl, .inr (by decide)⟩)
  · rw [houtside ["home", "keep"] (by decide)]
    decide

/-! ### Paths that are too long -/

/-- **An asset with a long path cannot be stored**, wherever it goes. -/
theorem Step.uncopied_of_long {payload : Bytes} (h : Step job entry t fate t')
    (hcontained : Path.isContained entry.relativePath = true)
    (hrange : job.medium.range entry.offset (some entry.size) = .ok payload)
    (hlong : longestPath < (job.target entry).utf8ByteSize) : fate = .uncopied := by
  have hcopies : ∀ {t' : FileTree}, ¬ Copies job entry t t' := by
    rintro t' ⟨-, payload', t₁, -, -, hwrite⟩
    obtain ⟨place, ⟨hrefusal, -⟩, -⟩ := FileTree.writeFile_eq_ok_iff.1 hwrite
    obtain ⟨-, -, hshort⟩ := FileTree.refusal?_eq_none_iff.1 hrefusal
    omega
  cases h with
  | rejected hpath => rw [hcontained] at hpath; cases hpath
  | outOfRange _ herror => rw [hrange] at herror; cases herror
  | homeless _ _ _ => rfl
  | unwritten _ _ _ _ => rfl
  | copied hcopy _ => exact absurd hcopy hcopies
  | untold hcopy _ _ => exact absurd hcopy hcopies
  | script hcopy _ _ _ => exact absurd hcopy hcopies

/-- A name of a given length. -/
def nameOfLength (n : Nat) : String := String.ofList (List.replicate n 'a')

theorem utf8ByteSize_nameOfLength (n : Nat) : (nameOfLength n).utf8ByteSize = n := by
  have hone : (String.utf8EncodeChar 'a').length = 1 := by decide
  rw [← Utf8.length_ofText, nameOfLength, Bytes.ofText, String.toList_ofList, List.length_flatMap,
    List.map_replicate, hone, List.sum_replicate_nat, Nat.mul_one]

theorem isSegment_nameOfLength {n : Nat} (hlow : 0 < n) (hhigh : n ≤ 255) :
    IsSegment (nameOfLength n) := by
  have hmem : 'a' ∈ (nameOfLength n).toList := by simp [nameOfLength, hlow.ne']
  have hall : ∀ c ∈ (nameOfLength n).toList, c = 'a' := by simp [nameOfLength]
  refine ⟨?_, ?_, fun hslash => ?_, fun hnul => ?_, (utf8ByteSize_nameOfLength n).trans_le hhigh⟩
  · intro hempty
    rw [hempty] at hmem
    cases hmem
  · rintro (hdots | hdots)
    · rw [hdots] at hmem
      exact absurd hmem (by decide)
    · rw [hdots] at hmem
      exact absurd hmem (by decide)
  · exact absurd (hall _ hslash) (by decide)
  · exact absurd (hall _ hnul) (by decide)

/-- A file in directories that are one in the other, all with names as long as names can be. -/
def deepAsset : Asset := ⟨true, List.replicate 17 (nameOfLength 255), [104, 105]⟩

/-- A container with that file. -/
def deepDraft : Draft := ⟨1, 3, 2, 1, List.replicate 64 0, [deepAsset]⟩

theorem wellNamed_deepAsset : deepAsset.WellNamed := by
  refine ⟨by simp [deepAsset], fun s hs => ?_⟩
  rw [List.eq_of_mem_replicate hs]
  exact isSegment_nameOfLength (by omega) (Nat.le_refl 255)

theorem utf8ByteSize_deepAsset : deepAsset.path.utf8ByteSize = 4351 := by
  have hnames : deepAsset.names = List.replicate 17 (nameOfLength 255) := rfl
  have hsize := Path.utf8ByteSize_ofSegments wellNamed_deepAsset.1
  rw [← Asset.path, hnames, List.map_replicate, utf8ByteSize_nameOfLength, List.sum_replicate_nat]
    at hsize
  omega

theorem length_name_deepAsset : (Bytes.ofText deepAsset.name).length = 4357 := by
  rw [Utf8.length_ofText, Asset.name, if_pos (show deepAsset.marked = true from rfl),
    String.utf8ByteSize_append, utf8ByteSize_deepAsset]
  rfl

theorem wellFormed_deepDraft : deepDraft.WellFormed := by
  have hplacement : deepDraft.placement = [(deepDraft.dataStart, deepAsset)] := rfl
  have hassets : deepDraft.assets = [deepAsset] := rfl
  have hstart : deepDraft.dataStart = 88 + (deepAsset.row 0).length := by
    rw [Draft.dataStart, hassets, List.map_singleton, List.sum_singleton]
  have hrow := deepAsset.length_row_le 0
  have hname := length_name_deepAsset
  refine ⟨List.length_replicate, by decide, ?_, ?_, ?_, List.pairwise_singleton _ _⟩
  · exact List.forall_mem_singleton.2 wellNamed_deepAsset
  · refine List.forall_mem_singleton.2 ?_
    omega
  · rw [hplacement, List.forall_mem_singleton, hstart]
    exact ⟨by omega, by decide⟩

/-- **Not all that can be packed can be unpacked.** -/
theorem deepDraft_not_extracted :
    deepDraft.WellFormed ∧ outAndKeep.Vacant "out" ["home", "out"] ∧
      ∃ index, (Index.ofBytes deepDraft.encode).outcome = .ok index ∧
        ∃ final, extractAll ⟨⟨deepDraft.encode⟩, "out", ⟨false, false, true⟩⟩ ⟨outAndKeep, {}, []⟩
            index.entries = final ∧
          deepDraft.assets.length = 1 ∧ final.stats.extracted = 0 ∧ final.stats.failures = 1 := by
  refine ⟨wellFormed_deepDraft, vacant_outAndKeep, _, wellFormed_deepDraft.ofBytes_encode, _, rfl,
    rfl, ?_⟩
  have hentries : deepDraft.entries = [deepAsset.entry deepDraft.dataStart] := rfl
  have hrange := wellFormed_deepDraft.range_encode (p := (deepDraft.dataStart, deepAsset))
    List.mem_cons_self
  have hpath := wellNamed_deepAsset.relativePath_entry deepDraft.dataStart
  have hlong : longestPath < (Path.join "out" deepAsset.path).utf8ByteSize := by
    have hjoin := Path.le_utf8ByteSize_join "out" deepAsset.path
    rw [utf8ByteSize_deepAsset] at hjoin
    exact Nat.lt_of_lt_of_le (by decide) hjoin
  rw [hentries]
  obtain ⟨fates, hrun, hcounted, -⟩ :=
    run_extractAll ⟨⟨deepDraft.encode⟩, "out", ⟨false, false, true⟩⟩ ⟨outAndKeep, {}, []⟩
      [deepAsset.entry deepDraft.dataStart]
  cases hrun with
  | @cons _ t₁ _ _ _ fate fates head tail =>
    cases tail
    have hfate : fate = .uncopied :=
      head.uncopied_of_long (hpath ▸ wellNamed_deepAsset.isContained_path) hrange
        (by rwa [Job.target, hpath])
    subst hfate
    rw [ExtractStats.failures, hcounted.extracted, hcounted.formatFailures, hcounted.rejectedPaths,
      hcounted.ioFailures]
    decide

end Extraction

end AssetPack
