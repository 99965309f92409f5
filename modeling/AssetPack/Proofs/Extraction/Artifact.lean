import AssetPack.Proofs.Extraction.Delivery

/-!
# Names of listings and reports

Whether an asset is a script is asked of the entry, with a notion of extension that looks at the
last segment of a name. Where the listing and the report of a script go is asked of paths, which
have a notion of their own: empty segments and dots at the end do not count, two dots are no name,
and another extension is put on in two steps, the old one being taken off first.

The two agree on every path that ends in a name, which is every contained path but those with a
slash or a dot segment at the end. So the listing and the report are put beside the script, under
its name with more behind it. One name is an exception: taking the extension off `..gdc` leaves two
dots, so the path goes up from there and no file can be written to it.

## Main results

* `Container.Entry.extension?_target`: both notions of extension agree.
* `Extraction.artifact_naming`: where the listing and the report of a script go.
-/

namespace AssetPack

open Container
open AssetPack.Path (Component components segments)

/-! ### Paths that end in a name -/

namespace Path

variable {path name suffix : String}

theorem EndsIn.fileName?_eq (h : EndsIn path name) : fileName? path = some name := by
  obtain ⟨front, hsegments, hname⟩ := h
  rw [fileName?_concat hsegments (not_isTrivial_of_name hname), if_neg]
  exact fun hup => (component?_eq_name_iff.1 hname).2 (.inr hup)

/-- More behind a path is more behind its name, in the same directory. -/
theorem EndsIn.beside (h : EndsIn path name) (hslash : '/' ∉ suffix.toList) :
    parent? (path ++ suffix) = parent? path ∧
      fileName? (path ++ suffix) = some (name ++ suffix) := by
  obtain ⟨front, hsegments, hname⟩ := h
  have hname' := component?_append hname suffix
  have hsegments' := segments_append hsegments hslash
  have hparent : ∀ {p last : String}, segments p = front ++ [last] → isTrivial last = false →
      parent? p = some (build (lead front).1 (trimEnd (lead front).2)) := fun hp hlast =>
    parent?_of_trimEnd (split_concat hp hlast) (trimEnd_concat hlast _)
  refine ⟨?_, EndsIn.fileName?_eq ⟨front, hsegments', hname'⟩⟩
  rw [hparent hsegments (not_isTrivial_of_name hname),
    hparent hsegments' (not_isTrivial_of_name hname')]

/-- No file is written to a path that goes up at its end. -/
theorem writeFile_of_up {front : List Component} (h : components path = front ++ [.up])
    (t : FileTree) (content : Bytes) : ∃ fault, t.writeFile path content = .error fault := by
  cases hwrite : t.writeFile path content with
  | error fault => exact ⟨fault, rfl⟩
  | ok t' =>
    obtain ⟨-, -, ahead, name, hend⟩ := FileTree.writeFile_ok hwrite
    rw [h] at hend
    cases (List.append_inj' hend rfl).2

end Path

/-! ### Two notions of extension -/

namespace Container.Entry

variable {e : Entry}

/-- The extension of an entry is that of the last segment as a name. -/
theorem extension?_eq (e : Entry) :
    e.extension? = (Path.splitName (String.ofList (afterLast '/' e.relativePath.toList))).2 := by
  rw [extension?]
  generalize afterLast '/' e.relativePath.toList = chars
  simp only [Path.splitName, String.toList_ofList, beforeLast?, afterLast]
  generalize chars.reverse.takeWhile (· != '.') = behind
  cases chars.reverse.dropWhile (· != '.') with
  | nil => simp only
  | cons dot before =>
    cases before with
    | nil => simp only [List.reverse_nil]
    | cons c before =>
      obtain ⟨first, rest, hcons⟩ := List.exists_cons_of_ne_nil
        (List.reverse_ne_nil_iff.2 (List.cons_ne_nil c before))
      simp only [hcons]

/-- A contained path ends in a name, unless it has a slash or a dot segment at its end. -/
theorem endsIn_of_isContained (h : Path.isContained e.relativePath = true)
    (hslash : ¬ ['/'] <:+ e.relativePath.toList) (hdot : ¬ ['/', '.'] <:+ e.relativePath.toList) :
    Path.EndsIn e.relativePath (String.ofList (afterLast '/' e.relativePath.toList)) := by
  obtain ⟨front, hsegments⟩ := e.exists_segments_eq
  -- a last segment that is the whole path is no name, and one behind a slash is ruled out
  have hne : ∀ last : String, Path.isContained last = false →
      ¬ ('/' :: last.toList) <:+ e.relativePath.toList →
      String.ofList (afterLast '/' e.relativePath.toList) ≠ last := by
    rintro last hlast hsuffix rfl
    rw [String.toList_ofList] at hsuffix
    cases hbefore : beforeLast? '/' e.relativePath.toList with
    | none =>
      rw [afterLast_eq_self hbefore, String.ofList_toList, h] at hlast
      cases hlast
    | some before => exact hsuffix ⟨before, (eq_of_beforeLast? hbefore).symm⟩
  have hup : String.ofList (afterLast '/' e.relativePath.toList) ≠ ".." := by
    intro hup
    obtain ⟨names, hnames, -⟩ := Path.exists_names_of_isContained h
    have hmem : Component.up ∈ names.map Component.name := by
      rw [← hnames, Path.components_eq_of_isContained h, hsegments, hup, List.filterMap_append]
      exact List.mem_append_right _ List.mem_cons_self
    simp at hmem
  refine ⟨front, hsegments, Path.component?_eq_name_iff.2 ⟨hne "" (by decide) hslash, ?_⟩⟩
  exact not_or.2 ⟨hne "." (by decide) hdot, hup⟩

/-- **Both notions of extension agree** on a path that ends in a name. -/
theorem extension?_target (output : String) (h : Path.isContained e.relativePath = true)
    (hslash : ¬ ['/'] <:+ e.relativePath.toList) (hdot : ¬ ['/', '.'] <:+ e.relativePath.toList) :
    e.extension? = Path.extension? (Path.join output e.relativePath) := by
  obtain ⟨front, hsegments, hname⟩ := endsIn_of_isContained h hslash hdot
  obtain ⟨before, hjoin⟩ := Path.segments_join output h
  rw [hsegments, ← List.append_assoc] at hjoin
  rw [Path.extension?, Path.EndsIn.fileName?_eq ⟨_, hjoin, hname⟩, Option.bind_some, extension?_eq]

end Container.Entry

/-! ### Listings and reports -/

namespace Extraction

variable {job : Job} {entry : Entry}

theorem isScript_of_dots (hlast : (segments entry.relativePath).getLast? = some "..gdc") :
    entry.isScript = true := by
  obtain ⟨front, hsegments⟩ := entry.exists_segments_eq
  rw [hsegments, List.getLast?_concat, Option.some.injEq] at hlast
  rw [Entry.isScript, Entry.extension?_eq, hlast]
  rfl

/-- If no listing can be written, making text from a script leaves the tree alone. -/
theorem TextStep.eq_of_unwritable {t t' : FileTree} {text : TextFate}
    (htext : TextStep job entry t text t')
    (h : ∀ content, ∃ fault, t.writeFile (listingPath job entry) content = .error fault) :
    t' = t := by
  have hnever : ∀ {t₁ : FileTree} {content : Bytes},
      t.writeFile (listingPath job entry) content ≠ .ok t₁ := by
    intro t₁ content hwrite
    obtain ⟨fault, hfault⟩ := h content
    rw [hfault] at hwrite
    cases hwrite
  cases htext with
  | listed _ hlisting _ => exact absurd hlisting hnever
  | unreported _ hlisting _ _ _ => exact absurd hlisting hnever
  | unlisted _ _ => rfl
  | undecoded _ hstore => exact absurd hstore hnever
  | unmarked _ _ => rfl

/-- If no listing can ever be written, an asset is extracted as if none were wanted. -/
theorem tree_extract_of_unwritable (job : Job) (x : Extraction) (entry : Entry)
    (h : ∀ (t : FileTree) content, ∃ fault,
      t.writeFile (listingPath job entry) content = .error fault) :
    (extract job x entry).tree =
      (extract { job with options.decompile := false } x entry).tree := by
  have htext : ∀ y : Extraction, (y.decompile job entry (job.target entry)).1.tree = y.tree := by
    intro y
    obtain ⟨z, result, text, hz, hstep, -⟩ := decompile_cases y job entry
    rw [hz]
    exact hstep.eq_of_unwritable (h y.tree)
  rw [extract, extract]
  split
  · rfl
  dsimp only
  cases job.medium.range entry.offset (some entry.size) with
  | error e => rfl
  | ok payload =>
    have hcopy : ∀ target, x.copy { job with options.decompile := false } entry payload target =
        x.copy job entry payload target := fun _ => rfl
    dsimp only
    rw [hcopy]
    rcases x.copy job entry payload (Path.join job.output entry.relativePath) with ⟨y, copied⟩
    cases copied with
    | error reason => rfl
    | ok _ =>
      simp only [Bool.false_and, Bool.false_eq_true, if_false, tree_count]
      split
      · have hsame := htext (y.count fun s => { s with extracted := s.extracted + 1 })
        rw [Job.target] at hsame
        split
        · next hresult =>
          rw [hresult] at hsame
          exact hsame
        · next hresult =>
          rw [hresult] at hsame
          exact hsame
      · rfl

/-- **Where the listing and the report of a script go.** For an asset with a contained path, under
any output directory:

* If it is a script, they go beside it, under its name with `_decompiled` and `_dump` behind it,
  unless its last segment is `..gdc`.
* If its last segment is `..gdc`, it is a script, but both paths go up at their end. Nothing can be
  written to them, so extracting the asset leaves the same tree as if no text were wanted.
* If its path does not end in a slash or in a dot segment, it is a script exactly if the path it
  goes to has the extension of scripts. -/
theorem artifact_naming (job : Job) (entry : Entry)
    (hcontained : Path.isContained entry.relativePath = true) :
    (entry.isScript = true → (segments entry.relativePath).getLast? ≠ some "..gdc" →
      Path.withExtension (job.target entry) listingExtension = job.target entry ++ "_decompiled" ∧
      Path.withExtension (job.target entry) reportExtension = job.target entry ++ "_dump" ∧
      ∃ directory name, ∀ suffix ∈ ["", "_decompiled", "_dump"],
        Path.parent? (job.target entry ++ suffix) = some directory ∧
        Path.fileName? (job.target entry ++ suffix) = some (name ++ suffix)) ∧
    ((segments entry.relativePath).getLast? = some "..gdc" →
      entry.isScript = true ∧
      (∀ extension ∈ [listingExtension, reportExtension],
        (∃ front, components (Path.withExtension (job.target entry) extension) =
          front ++ [.up]) ∧
        ∀ (t : FileTree) content, ∃ fault,
          t.writeFile (Path.withExtension (job.target entry) extension) content = .error fault) ∧
      ∀ x : Extraction, (extract job x entry).tree =
        (extract { job with options.decompile := false } x entry).tree) ∧
    (¬ ['/'] <:+ entry.relativePath.toList → ¬ ['/', '.'] <:+ entry.relativePath.toList →
      (entry.isScript = true ↔ Path.extension? (job.target entry) = some "gdc")) := by
  refine ⟨fun hscript hlast => ⟨?_, ?_, ?_⟩, fun hlast => ?_, fun hslash hdot => ?_⟩
  · exact (listingPath_eq job entry).trans
      (artifact_of_stem (by decide) hcontained hscript hlast)
  · exact (reportPath_eq job entry).trans
      (artifact_of_stem (by decide) hcontained hscript hlast)
  · obtain ⟨name, hends⟩ := endsIn_target job hcontained hscript
    obtain ⟨directory, hparent⟩ := Path.exists_parent hends.components_eq
    refine ⟨directory, name, fun suffix hsuffix => ?_⟩
    have hslash : '/' ∉ suffix.toList := by
      rcases List.mem_cons.1 hsuffix with rfl | hsuffix
      · decide
      · rcases List.mem_pair.1 hsuffix with rfl | rfl <;> decide
    rw [← hparent]
    exact hends.beside hslash
  · have hup : ∀ extension ∈ [listingExtension, reportExtension], ∃ front,
        components (Path.withExtension (job.target entry) extension) = front ++ [.up] := by
      intro extension hextension
      have hscript := isScript_of_dots hlast
      rcases List.mem_pair.1 hextension with rfl | rfl
      · exact artifact_of_dots (by decide) (by decide) hcontained hscript hlast
      · exact artifact_of_dots (by decide) (by decide) hcontained hscript hlast
    have hnever : ∀ extension ∈ [listingExtension, reportExtension], ∀ (t : FileTree) content,
        ∃ fault, t.writeFile (Path.withExtension (job.target entry) extension) content =
          .error fault := by
      intro extension hextension
      obtain ⟨front, hfront⟩ := hup extension hextension
      exact Path.writeFile_of_up hfront
    exact ⟨isScript_of_dots hlast, fun extension hextension => ⟨hup extension hextension,
      hnever extension hextension⟩, fun x => tree_extract_of_unwritable job x entry
        (hnever listingExtension List.mem_cons_self)⟩
  · rw [Entry.isScript, beq_iff_eq, Entry.extension?_target job.output hcontained hslash hdot]
    rfl

/-- An entry of which only the name matters. -/
def titled (name : String) : Entry := ⟨name, 0, 0, []⟩

theorem artifact_naming_dots :
    (Path.isContained (titled "res://a/./b.x.gdc").relativePath = true ∧
      (titled "res://a/./b.x.gdc").isScript = true ∧
      Path.withExtension (scriptJob.target (titled "res://a/./b.x.gdc")) listingExtension =
        scriptJob.target (titled "res://a/./b.x.gdc") ++ "_decompiled") ∧
    (Path.isContained (titled "a//..gdc").relativePath = true ∧
      ∀ x : Extraction, (extract scriptJob x (titled "a//..gdc")).tree =
        (extract { scriptJob with options.decompile := false } x (titled "a//..gdc")).tree) ∧
    Path.isContained (titled ".gdc").relativePath = true ∧
      ((titled ".gdc").isScript = true ↔ Path.extension? (scriptJob.target (titled ".gdc")) =
        some "gdc") := by
  have hplain : Path.isContained (titled "res://a/./b.x.gdc").relativePath = true := by decide
  have hscript : (titled "res://a/./b.x.gdc").isScript = true := by decide
  have hdots : Path.isContained (titled "a//..gdc").relativePath = true := by decide
  have hdot : Path.isContained (titled ".gdc").relativePath = true := by decide
  exact ⟨⟨hplain, hscript, ((artifact_naming scriptJob _ hplain).1 hscript (by decide)).1⟩,
    ⟨hdots, ((artifact_naming scriptJob _ hdots).2.1 (by decide)).2.2⟩,
    hdot, (artifact_naming scriptJob _ hdot).2.2 (by decide) (by decide)⟩

/-- Behind a slash at the end, only paths still see a name with an extension. -/
example : (titled "b.gdc/").isScript = false ∧
    Path.extension? (scriptJob.target (titled "b.gdc/")) = some "gdc" := by decide

end Extraction

end AssetPack
