import AssetPack.Proofs.Extraction.Accounting
import AssetPack.Proofs.FileTree.Alteration
import AssetPack.Proofs.Range

/-!
# No failure means nothing is lost

The counters of an extraction say how many things went wrong, not which. If they say that nothing
did, the file tree must show it: every asset is at its target with its bytes, and every script has
the listing and the report that were asked for beside it.

An asset may be spoilt after it was written, by another asset with the same target or by a listing
that is written over it. None of that is counted, so the theorem needs that no two assets go to the
same path. It does not need more. Where a directory would be in the way of a file or a file in the
way of a directory, something cannot be stored, and that is counted.

## Main definitions

* `Extraction.Delivered`: an asset has come out as it should.

## Main results

* `Extraction.Step.delivered`: a step without a failure delivers its asset.
* `Extraction.Step.alters`: a step writes to the paths of its asset only.
* `Extraction.extractAll_delivered`: an extraction without failures delivers all assets.
-/

namespace AssetPack

open Container Script
open FileTree (Alters)
open AssetPack.Path (Component components)

/-! ### Paths below the output directory -/

/-- Names follow the components of `output`. -/
def Path.Continues (output path : String) : Prop :=
  ∃ names : List String, components path = components output ++ names.map .name

/-- **Paths that lead to one place below a directory are the same**, as far as components go. -/
theorem FileTree.components_eq_of_destination {t : FileTree} {output p q : String}
    (hp : Path.Continues output p) (hq : Path.Continues output q)
    (h : t.destination p = t.destination q) : components p = components q := by
  obtain ⟨names, hnames⟩ := hp
  obtain ⟨names', hnames'⟩ := hq
  rw [destination, destination, hnames, hnames', arrive_names, arrive_names] at h
  rw [hnames, hnames', List.append_cancel_left h]

namespace Fate

/-- Nothing went wrong. -/
def isClean (f : Fate) : Bool := f matches copied | script none | script (some .listed)

theorem isClean_of_not {f : Fate} (hrejected : f ≠ rejected) (hrange : f ≠ outOfRange)
    (hcopied : f ≠ uncopied) (hdecoded : f.isUndecoded = false) (hstored : f.isUnstored = false) :
    f.isClean = true := by
  cases f with
  | rejected => exact absurd rfl hrejected
  | outOfRange => exact absurd rfl hrange
  | uncopied => exact absurd rfl hcopied
  | copied => rfl
  | script text =>
    cases text with
    | none => rfl
    | some text =>
      cases text with
      | listed => rfl
      | undecoded => cases hdecoded
      | _ => cases hstored

theorem isCopied_of_isClean {f : Fate} (h : f.isClean = true) : f.isCopied = true := by
  cases f with
  | copied => rfl
  | script text => rfl
  | _ => cases h

theorem countP_isCopied_of_isClean {fates : List Fate} (h : ∀ f ∈ fates, f.isClean = true) :
    fates.countP isCopied = fates.length :=
  List.countP_eq_length.2 fun f hf => isCopied_of_isClean (h f hf)

end Fate

namespace Extraction

variable {job : Job} {entry : Entry} {t t' : FileTree} {fate : Fate} {entries : List Entry}
  {fates : List Fate} {content : Bytes}

/-! ### What is to be delivered -/

/-- The paths that belong to an asset: its target, and where its listing and its report go. -/
def outputs (job : Job) (entry : Entry) : List String :=
  [job.target entry, job.target entry ++ "_decompiled", job.target entry ++ "_dump"]

/-- No path belongs to both assets. -/
def Apart (job : Job) (a b : Entry) : Prop :=
  ∀ p ∈ outputs job a, ∀ q ∈ outputs job b, components p ≠ components q

instance (job : Job) (a b : Entry) : Decidable (Apart job a b) :=
  inferInstanceAs (Decidable (∀ p ∈ outputs job a, ∀ q ∈ outputs job b,
    components p ≠ components q))

/-- An asset has come out as it should, where `reads path content` says that a path has a content:
its target has its bytes, and if it is a script then the listing and the report that are asked for
are beside it. -/
structure Delivered (job : Job) (entry : Entry) (reads : String → Bytes → Prop) : Prop where
  inRange : entry.offset.toNat + entry.size.toNat ≤ job.medium.data.length
  bytes : reads (job.target entry)
    ((job.medium.data.drop entry.offset.toNat).take entry.size.toNat)
  text : job.options.decompile = true → entry.isScript = true → ∃ record listing,
    (job.medium.script entry.offset (some entry.size)).1 = .ok record ∧
    record.listing = .ok listing ∧
    reads (job.target entry ++ "_decompiled") (Bytes.ofText listing) ∧
    (job.options.dump = true → ∃ report, Report.text record = .ok report ∧
      reads (job.target entry ++ "_dump") (Bytes.ofText report))

theorem Delivered.mono {reads reads' : String → Bytes → Prop} (h : Delivered job entry reads)
    (himp : ∀ path ∈ outputs job entry, ∀ content, reads path content → reads' path content) :
    Delivered job entry reads' := by
  refine ⟨h.inRange, himp _ (by simp [outputs]) _ h.bytes, fun hdecompile hscript => ?_⟩
  obtain ⟨record, listing, hrecord, hlisting, hlisted, hreported⟩ := h.text hdecompile hscript
  refine ⟨record, listing, hrecord, hlisting, himp _ (by simp [outputs]) _ hlisted, fun hdump => ?_⟩
  obtain ⟨report, hreport, hread⟩ := hreported hdump
  exact ⟨report, hreport, himp _ (by simp [outputs]) _ hread⟩

/-- A path below the output directory leads to a file with a given content. -/
def Keeps (job : Job) (t : FileTree) (path : String) (content : Bytes) : Prop :=
  Path.Continues job.output path ∧ t.Holds path content

/-- An asset owns the places that its paths below the output directory lead to. -/
def Owns (job : Job) (entry : Entry) (t : FileTree) (place : Place) : Prop :=
  ∃ path ∈ outputs job entry, Path.Continues job.output path ∧ place = t.destination path

/-! ### One asset -/

theorem range_eq_ok {m : Medium} {offset size : UInt64} {payload : Bytes}
    (h : m.range offset (some size) = .ok payload) :
    offset.toNat + size.toNat ≤ m.data.length ∧
      payload = (m.data.drop offset.toNat).take size.toNat := by
  have hcuts := Medium.range_eq_ok_iff.mp h
  exact ⟨hcuts.inside.2 size rfl, hcuts.eq⟩

theorem script_of_decode {record : Record} {listing : String}
    (h : (decodeScript job entry).1 = .ok (record, listing)) :
    (job.medium.script entry.offset (some entry.size)).1 = .ok record ∧
      record.listing = .ok listing := by
  rw [decodeScript] at h
  split at h
  · cases h
  · next r ns hscript =>
    split at h
    · cases h
    · next text hlisting =>
      cases h
      rw [hscript]
      exact ⟨rfl, hlisting⟩

theorem continues_target (job : Job) (h : Path.isContained entry.relativePath = true) :
    Path.Continues job.output (job.target entry) := by
  obtain ⟨names, -, hnames⟩ := Entry.components_target job.output h
  exact ⟨names, hnames⟩

/-- The target of a script ends in its name. -/
theorem endsIn_target (job : Job) (hcontained : Path.isContained entry.relativePath = true)
    (hscript : entry.isScript = true) : ∃ name, Path.EndsIn (job.target entry) name := by
  obtain ⟨front, stem, hstem, hjoin, -⟩ := Entry.segments_target job.output hcontained hscript
  exact ⟨_, front, hjoin, Path.component?_extended hstem (by decide)⟩

/-- What is put behind the target of a script stays below the output directory. -/
theorem continues_artifact (job : Job) {suffix : String} (hslash : '/' ∉ suffix.toList)
    (hcontained : Path.isContained entry.relativePath = true) (hscript : entry.isScript = true) :
    Path.Continues job.output (job.target entry ++ suffix) := by
  obtain ⟨name, hends⟩ := endsIn_target job hcontained hscript
  obtain ⟨names, hne, hnames⟩ := Entry.components_target job.output hcontained
  refine ⟨names.dropLast ++ [name ++ suffix], ?_⟩
  rw [hends.components_append hslash, Job.target, hnames,
    List.dropLast_append_of_ne_nil (by simpa using hne), ← List.map_dropLast, List.map_append,
    List.append_assoc]
  rfl

/-- A script whose stem is more than a dot has its listing and its report beside it. -/
theorem artifact_of_stem {suffix : String} (hslash : '/' ∉ suffix.toList)
    (hcontained : Path.isContained entry.relativePath = true) (hscript : entry.isScript = true)
    (hlast : (Path.segments entry.relativePath).getLast? ≠ some "..gdc") :
    Path.withExtension (job.target entry) (Entry.scriptExtension ++ suffix) =
      job.target entry ++ suffix := by
  obtain ⟨front, stem, hstem, hjoin, hend⟩ := Entry.segments_target job.output hcontained hscript
  refine Path.withExtension_append hjoin hstem (fun hone => hlast ?_) (by decide) (by decide) hslash
  rw [hend, hone]
  rfl

/-- Two dots are left of `..gdc`, so what would be beside it is above. -/
theorem artifact_of_dots {extension : String} (hextension : extension ≠ "")
    (hslash : '/' ∉ extension.toList) (hcontained : Path.isContained entry.relativePath = true)
    (hscript : entry.isScript = true)
    (hlast : (Path.segments entry.relativePath).getLast? = some "..gdc") :
    ∃ front, components (Path.withExtension (job.target entry) extension) = front ++ [.up] := by
  obtain ⟨front, stem, hstem, hjoin, hend⟩ := Entry.segments_target job.output hcontained hscript
  have hone : stem = "." := by
    rw [hend, Option.some.injEq] at hlast
    exact String.append_left_inj ("." ++ Entry.scriptExtension) |>.1
      ((String.append_assoc ..).symm.trans (hlast.trans rfl))
  have hcomponents := Path.components_withExtension hjoin hstem (by decide) (by decide) hextension
    hslash
  rw [if_pos hone] at hcomponents
  exact ⟨_, hcomponents⟩

/-- **A path beside a script that ends in a name** is its target with more behind it. -/
theorem artifact_of_name {suffix name : String} {ahead : List Component}
    (hslash : '/' ∉ suffix.toList) (hcontained : Path.isContained entry.relativePath = true)
    (hscript : entry.isScript = true)
    (hend : components (Path.withExtension (job.target entry) (Entry.scriptExtension ++ suffix)) =
      ahead ++ [.name name]) :
    Path.withExtension (job.target entry) (Entry.scriptExtension ++ suffix) =
      job.target entry ++ suffix := by
  refine artifact_of_stem hslash hcontained hscript fun hlast => ?_
  obtain ⟨front, hup⟩ := @artifact_of_dots job entry _
    (show Entry.scriptExtension ++ suffix ≠ "" by simp [Entry.scriptExtension])
    (by simp [Entry.scriptExtension, hslash]) hcontained hscript hlast
  rw [hend] at hup
  cases (List.append_inj' hup rfl).2

/-- **What is written beside a script** is written at its target with more behind it. -/
theorem artifact_of_writeFile {suffix : String} (hslash : '/' ∉ suffix.toList)
    (hcontained : Path.isContained entry.relativePath = true) (hscript : entry.isScript = true)
    (hwrite : t.writeFile (Path.withExtension (job.target entry) (Entry.scriptExtension ++ suffix))
      content = .ok t') :
    Path.withExtension (job.target entry) (Entry.scriptExtension ++ suffix) =
      job.target entry ++ suffix := by
  obtain ⟨-, -, ahead, name, hend⟩ := FileTree.writeFile_ok hwrite
  exact artifact_of_name hslash hcontained hscript hend

theorem listingPath_eq (job : Job) (entry : Entry) : listingPath job entry =
    Path.withExtension (job.target entry) (Entry.scriptExtension ++ "_decompiled") := by
  rw [listingPath, show listingExtension = Entry.scriptExtension ++ "_decompiled" by decide]

theorem reportPath_eq (job : Job) (entry : Entry) : reportPath job entry =
    Path.withExtension (job.target entry) (Entry.scriptExtension ++ "_dump") := by
  rw [reportPath, show reportExtension = Entry.scriptExtension ++ "_dump" by decide]

theorem Keeps.of_writeFile {path : String} (hpath : Path.Continues job.output path)
    (h : t.writeFile path content = .ok t') : Keeps job t' path content :=
  ⟨hpath, FileTree.holds_of_writeFile h⟩

/-- Writing under another path keeps what is there. -/
theorem Keeps.writeFile {path other : String} {content' : Bytes} (h : Keeps job t path content)
    (hother : Path.Continues job.output other) (hne : components path ≠ components other)
    (hwrite : t.writeFile other content' = .ok t') : Keeps job t' path content := by
  have halters : Alters (· = t.destination other) t t' := FileTree.alters_writeFile hwrite rfl
  refine ⟨h.1, halters.holds h.2 fun heq => hne ?_⟩
  exact FileTree.components_eq_of_destination h.1 hother heq

theorem alters_createParent (written : Place → Prop) (t : FileTree) (target : String) :
    Alters written t (t.createParent target).1 := by
  rw [FileTree.createParent]
  split
  · exact .refl written t
  · exact FileTree.alters_createAll written t _

theorem Copies.delivers (h : Copies job entry t t') :
    entry.offset.toNat + entry.size.toNat ≤ job.medium.data.length ∧
      Keeps job t' (job.target entry)
        ((job.medium.data.drop entry.offset.toNat).take entry.size.toNat) := by
  obtain ⟨hcontained, payload, t₁, hrange, -, hwrite⟩ := h
  obtain ⟨hinside, rfl⟩ := range_eq_ok hrange
  exact ⟨hinside, .of_writeFile (continues_target job hcontained) hwrite⟩

/-- Copying an asset writes at its target. -/
theorem Copies.alters {written : Place → Prop} (h : Copies job entry t t')
    (hplace : written (t.destination (job.target entry))) : Alters written t t' := by
  obtain ⟨-, payload, t₁, -, hparent, hwrite⟩ := h
  have hmade := alters_createParent written t (job.target entry)
  rw [hparent] at hmade
  rw [← hmade.destination_eq] at hplace
  exact hmade.trans (FileTree.alters_writeFile hwrite hplace)

/-- Making text from a script writes behind its target. -/
theorem TextStep.alters {text : TextFate} {written : Place → Prop}
    (htext : TextStep job entry t text t')
    (hcontained : Path.isContained entry.relativePath = true) (hscript : entry.isScript = true)
    (hlisting : written (t.destination (job.target entry ++ "_decompiled")))
    (hreport : text = .listed → written (t.destination (job.target entry ++ "_dump"))) :
    Alters written t t' := by
  have hlist : ∀ {content : Bytes} {t' : FileTree},
      t.writeFile (listingPath job entry) content = .ok t' → Alters written t t' := by
    intro content t' hwrite
    rw [listingPath_eq] at hwrite
    rw [← artifact_of_writeFile (by decide) hcontained hscript hwrite] at hlisting
    exact FileTree.alters_writeFile hwrite hlisting
  cases htext with
  | @listed record listing t₁ _ hdecode hlisted hreported =>
    have hfirst := hlist hlisted
    cases hdump : job.options.dump with
    | false =>
      rw [hdump] at hreported
      have htree : t' = t₁ := by simpa using hreported
      rwa [htree]
    | true =>
      rw [hdump] at hreported
      obtain ⟨report, -, hwrite⟩ := hreported
      have hplace := hreport rfl
      rw [reportPath_eq] at hwrite
      rw [← artifact_of_writeFile (by decide) hcontained hscript hwrite,
        ← hfirst.destination_eq] at hplace
      exact hfirst.trans (FileTree.alters_writeFile hwrite hplace)
  | unreported _ hlisted _ _ _ => exact hlist hlisted
  | unlisted _ _ => exact .refl _ t
  | undecoded _ hstore => exact hlist hstore
  | unmarked _ _ => exact .refl _ t

/-- **The bytes of a script stay** when text is made from it, since that is written under other
names. -/
theorem TextStep.keeps {text : TextFate} {bytes : Bytes} (htext : TextStep job entry t text t')
    (hcontained : Path.isContained entry.relativePath = true) (hscript : entry.isScript = true)
    (hbytes : Keeps job t (job.target entry) bytes) : Keeps job t' (job.target entry) bytes := by
  obtain ⟨name, hends⟩ := endsIn_target job hcontained hscript
  have halters : Alters (fun place => ∃ suffix ∈ ["_decompiled", "_dump"],
      place = t.destination (job.target entry ++ suffix)) t t' :=
    htext.alters hcontained hscript ⟨_, by simp, rfl⟩ fun _ => ⟨_, by simp, rfl⟩
  refine ⟨hbytes.1, halters.holds hbytes.2 ?_⟩
  rintro ⟨suffix, hsuffix, heq⟩
  have hplain : '/' ∉ suffix.toList ∧ "" ≠ suffix := by
    rcases List.mem_pair.1 hsuffix with rfl | rfl <;> decide
  have hsame := FileTree.components_eq_of_destination hbytes.1
    (continues_artifact job hplain.1 hcontained hscript) heq
  refine hplain.2 (hends.eq_of_components_append (by simp) hplain.1 ?_)
  rw [String.append_empty, hsame]

/-- The listing of a script is there, and so is its report if one is wanted. -/
theorem TextStep.delivers (htext : TextStep job entry t .listed t')
    (hcontained : Path.isContained entry.relativePath = true) (hscript : entry.isScript = true) :
    ∃ record listing, (job.medium.script entry.offset (some entry.size)).1 = .ok record ∧
      record.listing = .ok listing ∧
      Keeps job t' (job.target entry ++ "_decompiled") (Bytes.ofText listing) ∧
      (job.options.dump = true → ∃ report, Report.text record = .ok report ∧
        Keeps job t' (job.target entry ++ "_dump") (Bytes.ofText report)) := by
  obtain ⟨name, hends⟩ := endsIn_target job hcontained hscript
  cases htext with
  | @listed record listing t₁ _ hdecode hlisting hreport =>
    obtain ⟨hrecord, htext⟩ := script_of_decode hdecode
    rw [listingPath_eq] at hlisting
    rw [artifact_of_writeFile (by decide) hcontained hscript hlisting] at hlisting
    have hlisted := Keeps.of_writeFile (continues_artifact job (by decide) hcontained hscript)
      hlisting
    cases hdump : job.options.dump with
    | false =>
      rw [hdump] at hreport
      have htree : t' = t₁ := by simpa using hreport
      subst htree
      exact ⟨record, listing, hrecord, htext, hlisted, by simp⟩
    | true =>
      rw [hdump] at hreport
      obtain ⟨report, hreport, hwrite⟩ := hreport
      rw [reportPath_eq] at hwrite
      rw [artifact_of_writeFile (by decide) hcontained hscript hwrite] at hwrite
      have hbelow := continues_artifact job (by decide : '/' ∉ "_dump".toList) hcontained hscript
      refine ⟨record, listing, hrecord, htext, hlisted.writeFile hbelow (fun heq => ?_) hwrite,
        fun _ => ⟨report, hreport, Keeps.of_writeFile hbelow hwrite⟩⟩
      exact absurd (hends.eq_of_components_append (by decide) (by decide) heq) (by decide)

/-- **A step without a failure delivers its asset.** -/
theorem Step.delivered (h : Step job entry t fate t') (hclean : fate.isClean = true) :
    Delivered job entry (Keeps job t') := by
  cases h with
  | copied hcopy hscript =>
    obtain ⟨hinside, hbytes⟩ := hcopy.delivers
    refine ⟨hinside, hbytes, fun _ htrue => ?_⟩
    rw [hscript] at htrue
    cases htrue
  | untold hcopy _ hdecompile =>
    obtain ⟨hinside, hbytes⟩ := hcopy.delivers
    refine ⟨hinside, hbytes, fun htrue _ => ?_⟩
    rw [hdecompile] at htrue
    cases htrue
  | @script t₁ t₂ text hcopy hscript _ htext =>
    obtain ⟨hinside, hbytes⟩ := hcopy.delivers
    cases text with
    | listed =>
      exact ⟨hinside, htext.keeps hcopy.1 hscript hbytes,
        fun _ _ => htext.delivers hcopy.1 hscript⟩
    | _ => cases hclean
  | _ => cases hclean

/-- **A step writes at the places of its asset only**, whatever becomes of the asset. -/
theorem Step.alters (h : Step job entry t fate t') : Alters (Owns job entry t) t t' := by
  have hparent : ∀ {t₁ : FileTree} {made : Except Fault Unit},
      t.createParent (job.target entry) = (t₁, made) → Alters (Owns job entry t) t t₁ := by
    intro t₁ made hmade
    have halters := alters_createParent (Owns job entry t) t (job.target entry)
    rwa [hmade] at halters
  have hcopied : ∀ {t₁ : FileTree}, Copies job entry t t₁ → Alters (Owns job entry t) t t₁ :=
    fun hcopy => hcopy.alters ⟨_, List.mem_cons_self, continues_target job hcopy.1, rfl⟩
  cases h with
  | rejected _ => exact .refl _ t
  | outOfRange _ _ => exact .refl _ t
  | homeless _ _ hmade => exact hparent hmade
  | unwritten _ _ hmade _ => exact hparent hmade
  | copied hcopy _ => exact hcopied hcopy
  | untold hcopy _ _ => exact hcopied hcopy
  | @script t₁ _ _ hcopy hscript _ htext =>
    have hplace : ∀ suffix, '/' ∉ suffix.toList → job.target entry ++ suffix ∈ outputs job entry →
        Owns job entry t (t₁.destination (job.target entry ++ suffix)) :=
      fun suffix hslash hmem => ⟨_, hmem, continues_artifact job hslash hcopy.1 hscript,
        (hcopied hcopy).destination_eq _⟩
    exact (hcopied hcopy).trans (htext.alters hcopy.1 hscript
      (hplace _ (by decide) (by simp [outputs])) fun _ => hplace _ (by decide) (by simp [outputs]))

theorem Run.alters (h : Run job t entries fates t') :
    Alters (fun place => ∃ entry ∈ entries, Owns job entry t place) t t' := by
  induction h with
  | nil t => exact .refl _ t
  | @cons t t₁ t₂ entry rest fate fates head tail ih =>
    have hfirst := head.alters
    refine (hfirst.mono fun place hplace => ⟨entry, List.mem_cons_self, hplace⟩).trans
      (ih.mono ?_)
    rintro place ⟨other, hother, path, hpath, hbelow, rfl⟩
    exact ⟨other, List.mem_cons_of_mem _ hother, path, hpath, hbelow, hfirst.destination_eq path⟩

theorem Step.isListed_eq (h : Step job entry t fate t') (hclean : fate.isClean = true) :
    fate.isListed = (job.options.decompile && entry.isScript) := by
  cases h with
  | copied _ hscript => rw [hscript, Bool.and_false]; rfl
  | untold _ _ hdecompile => rw [hdecompile]; rfl
  | @script _ _ text _ hscript hdecompile _ =>
    rw [hscript, hdecompile]
    cases text with
    | listed => rfl
    | _ => cases hclean
  | _ => cases hclean

/-! ### Whole extractions -/

/-- A step of another asset leaves alone what was delivered. -/
theorem Delivered.step {a b : Entry} (h : Delivered job a (Keeps job t)) (hapart : Apart job a b)
    (hstep : Step job b t fate t') : Delivered job a (Keeps job t') := by
  refine h.mono fun path hpath content hkeeps => ⟨hkeeps.1, hstep.alters.holds hkeeps.2 ?_⟩
  rintro ⟨other, hother, hbelow, heq⟩
  exact hapart path hpath other hother
    (FileTree.components_eq_of_destination hkeeps.1 hbelow heq)

theorem Delivered.run (hrun : Run job t entries fates t') (h : Delivered job entry (Keeps job t))
    (hapart : ∀ b ∈ entries, Apart job entry b) : Delivered job entry (Keeps job t') := by
  induction hrun with
  | nil t => exact h
  | cons head tail ih =>
    obtain ⟨hapart, haparts⟩ := List.forall_mem_cons.1 hapart
    exact ih (h.step hapart head) haparts

/-- **A run without a failure delivers all assets.** An asset that comes again is delivered by the
last step that is about it, so only other assets must not touch it. -/
theorem Run.delivered (hrun : Run job t entries fates t') (hclean : ∀ f ∈ fates, f.isClean = true)
    (hapart : ∀ a ∈ entries, ∀ b ∈ entries, a ≠ b → Apart job a b) :
    ∀ entry ∈ entries, Delivered job entry (Keeps job t') := by
  induction hrun with
  | nil t => simp
  | @cons t t₁ t₂ first rest fate fates head tail ih =>
    intro entry hentry
    obtain ⟨hfirst, hrest⟩ := List.forall_mem_cons.1 hclean
    by_cases hagain : entry ∈ rest
    · refine ih hrest (fun a ha b hb => ?_) entry hagain
      exact hapart a (List.mem_cons_of_mem _ ha) b (List.mem_cons_of_mem _ hb)
    · obtain rfl : entry = first := (List.mem_cons.1 hentry).resolve_right hagain
      refine Delivered.run tail (head.delivered hfirst) fun b hb => ?_
      refine hapart entry List.mem_cons_self b (List.mem_cons_of_mem _ hb) ?_
      rintro rfl
      exact hagain hb

theorem Run.countP_isListed (hrun : Run job t entries fates t')
    (hclean : ∀ f ∈ fates, f.isClean = true) :
    fates.countP Fate.isListed = if job.options.decompile then entries.countP Entry.isScript
      else 0 := by
  induction hrun with
  | nil t => simp
  | cons head tail ih =>
    obtain ⟨hfirst, hrest⟩ := List.forall_mem_cons.1 hclean
    rw [List.countP_cons, List.countP_cons, ih hrest, head.isListed_eq hfirst]
    cases job.options.decompile with
    | true => rfl
    | false => rfl

/-- No failure is counted only if nothing went wrong with any asset. -/
theorem Counted.isClean {s : ExtractStats} (h : Counted {} fates s) (hfailures : s.failures = 0) :
    ∀ f ∈ fates, f.isClean = true := by
  intro f hf
  obtain ⟨-, -, hformat, hrejected, hio, -, -⟩ := h
  rw [ExtractStats.failures] at hfailures
  have hcount : fates.count .rejected = 0 ∧ fates.count .outOfRange = 0 ∧
      fates.count .uncopied = 0 ∧ fates.countP Fate.isUndecoded = 0 ∧
      fates.countP Fate.isUnstored = 0 := by
    omega
  obtain ⟨hrejected, hrange, hcopied, hdecoded, hstored⟩ := hcount
  have hne : ∀ {g : Fate}, fates.count g = 0 → f ≠ g := by
    rintro g hg rfl
    exact List.count_eq_zero.1 hg hf
  exact Fate.isClean_of_not (hne hrejected) (hne hrange) (hne hcopied)
    (Bool.eq_false_iff.2 (List.countP_eq_zero.1 hdecoded f hf))
    (Bool.eq_false_iff.2 (List.countP_eq_zero.1 hstored f hf))

/-- **No failure means nothing is lost.** If no two assets share a path and no failure is counted,
then every asset is at its target, with the text that was asked for beside it, and the counters say
how many there are. -/
theorem extractAll_delivered (job : Job) (tree : FileTree) (entries : List Entry)
    (hapart : ∀ a ∈ entries, ∀ b ∈ entries, a ≠ b → Apart job a b)
    (hfailures : (extractAll job ⟨tree, {}, []⟩ entries).stats.failures = 0) :
    (∀ entry ∈ entries, Delivered job entry fun path content =>
      (extractAll job ⟨tree, {}, []⟩ entries).tree.readFile path = .ok content) ∧
    (extractAll job ⟨tree, {}, []⟩ entries).stats.extracted = entries.length ∧
    (extractAll job ⟨tree, {}, []⟩ entries).stats.decompiled =
      if job.options.decompile then entries.countP Entry.isScript else 0 := by
  obtain ⟨fates, hrun, hcounted, -⟩ := run_extractAll job ⟨tree, {}, []⟩ entries
  have hclean := hcounted.isClean hfailures
  refine ⟨fun entry hentry => ?_, ?_, ?_⟩
  · refine (hrun.delivered hclean hapart entry hentry).mono fun path _ content hkeeps => ?_
    exact hkeeps.2.readFile_eq
  · rw [hcounted.extracted, Fate.countP_isCopied_of_isClean hclean, hrun.length_eq, Nat.zero_add]
  · rw [hcounted.decompiled, hrun.countP_isListed hclean, Nat.zero_add]

/-- A container with a script of one identifier, `x`, and three bytes of something else. -/
def scriptMedium : Medium :=
  ⟨[0x47, 0x44, 0x53, 0x43, 13, 0, 0, 0, 1, 0, 0, 0, 0, 0, 0, 0, 0, 0, 0, 0, 1, 0, 0, 0,
    2, 0, 0, 0, 0xCE, 0xB6, 0x81, 0, 0, 0, 1, 2, 3]⟩

/-- The job of extracting it, with listings and reports. -/
def scriptJob : Job := ⟨scriptMedium, "out", ⟨true, true, false⟩⟩

/-- The script and the other asset, whose directory is that of the script. -/
def scriptEntries : List Entry := [⟨"res://a/b.gdc", 0, 34, []⟩, ⟨"res://a/c", 34, 3, []⟩]

theorem extractAll_delivered_scriptEntries :
    (∀ a ∈ scriptEntries, ∀ b ∈ scriptEntries, a ≠ b → Apart scriptJob a b) ∧
      (extractAll scriptJob ⟨outAndKeep, {}, []⟩ scriptEntries).stats.failures = 0 ∧
      (∀ entry ∈ scriptEntries, Delivered scriptJob entry fun path content =>
        (extractAll scriptJob ⟨outAndKeep, {}, []⟩ scriptEntries).tree.readFile path =
          .ok content) ∧
      (extractAll scriptJob ⟨outAndKeep, {}, []⟩ scriptEntries).stats.extracted = 2 ∧
      (extractAll scriptJob ⟨outAndKeep, {}, []⟩ scriptEntries).stats.decompiled = 1 := by
  have hapart : ∀ a ∈ scriptEntries, ∀ b ∈ scriptEntries, a ≠ b → Apart scriptJob a b := by
    decide +kernel
  have hfailures :
      (extractAll scriptJob ⟨outAndKeep, {}, []⟩ scriptEntries).stats.failures = 0 := by
    decide +kernel
  obtain ⟨hdelivered, hextracted, hdecompiled⟩ :=
    extractAll_delivered scriptJob outAndKeep scriptEntries hapart hfailures
  exact ⟨hapart, hfailures, hdelivered, hextracted, hdecompiled.trans (by decide +kernel)⟩

end Extraction

end AssetPack
