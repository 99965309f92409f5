import AssetPack.Proofs.Path

/-!
# Which paths are contained

Whether a path is contained is decided by its components, and a component is not a segment: empty
segments and dots drop out, except where the path starts. So a dot is refused in front and ignored
everywhere else, an empty segment makes a path absolute in front and means nothing behind, and only
`..` is refused wherever it stands. The theorem of this module states the rule on the text alone,
and says what an accepted path adds to a directory.

## Main definitions

* `meaningful`: the segments that are neither empty nor a dot.
* `IsPlainName`: a segment that names something in the directory it is taken in.

## Main results

* `segments_eq_iff`: the segments of a text, without a rule for splitting it.
* `isContained_iff`: the rule on the text.
* `contained_paths`: the rule, and the names below the directory that an accepted path is joined to.
-/

namespace AssetPack.Path

/-! ### Segments of a text -/

theorem ofSegments_eq_intercalate (body : List String) :
    ofSegments body = "/".intercalate body := by
  apply String.toList_inj.1
  rw [ofSegments, String.toList_ofList, String.toList_intercalate]
  rfl

/-- **The segments of a text** are the only texts without a slash that give it back when slashes are
put between them. -/
theorem segments_eq_iff {path : String} {body : List String} :
    segments path = body ↔
      body ≠ [] ∧ (∀ s ∈ body, '/' ∉ s.toList) ∧ "/".intercalate body = path := by
  rw [← ofSegments_eq_intercalate]
  constructor
  · rintro rfl
    exact ⟨segments_ne_nil path, fun _ => slash_not_mem_of_mem_segments, ofSegments_segments path⟩
  · rintro ⟨hne, hplain, rfl⟩
    exact segments_ofSegments hne hplain

/-- The segments that are neither empty nor a dot. -/
def meaningful (body : List String) : List String := body.filter fun s => s ≠ "" ∧ s ≠ "."

theorem mem_meaningful {body : List String} {s : String} :
    s ∈ meaningful body ↔ s ∈ body ∧ isTrivial s = false := by
  simp [meaningful, isTrivial]

/-- Where no segment goes up, the components are the names that are left. -/
theorem filterMap_component?_of_no_up {body : List String} (h : ".." ∉ body) :
    body.filterMap component? = (meaningful body).map .name := by
  induction body with
  | nil => rfl
  | cons s body ih =>
    rw [List.mem_cons, not_or] at h
    specialize ih h.2
    by_cases htrivial : isTrivial s = true
    · have hdropped : s = "" ∨ s = "." := by simpa [isTrivial] using htrivial
      rw [List.filterMap_cons_none (component?_eq_none htrivial), ih, meaningful, meaningful,
        List.filter_cons_of_neg (by simpa [or_iff_not_imp_left] using hdropped)]
    · have hkept : s ≠ "" ∧ s ≠ "." := by simpa [isTrivial] using htrivial
      have hname : component? s = some (.name s) := by
        rw [component?, if_neg htrivial, if_neg (Ne.symm h.1)]
      rw [List.filterMap_cons_some hname, ih, meaningful, meaningful,
        List.filter_cons_of_pos (by simpa using hkept), List.map_cons]

/-! ### The rule -/

/-- A path that starts with a segment of its own shows neither a root nor a dot in front. -/
theorem lead_of_head {path : String} (hne : path ≠ "") (hslash : path.toList.head? ≠ some '/')
    (hdot : (segments path).head? ≠ some ".") :
    lead (segments path) = (.none, segments path) ∧
      ∀ first ∈ (segments path).head?, isTrivial first = false := by
  rcases lead_cases (segments path) with ⟨rest, -, hlead⟩ | ⟨rest, heq, -⟩ | hnone
  · have habsolute : isAbsolute path = true := by
      rw [isAbsolute_iff, split_eq_lead hne, hlead]
    exact absurd (beq_iff_eq.1 habsolute) hslash
  · rw [heq] at hdot
    exact absurd rfl hdot
  · exact hnone

/-- **Which paths are contained.** -/
theorem isContained_iff (path : String) :
    isContained path = true ↔
      path ≠ "" ∧ path.toList.head? ≠ some '/' ∧ (segments path).head? ≠ some "." ∧
        ".." ∉ segments path := by
  constructor
  · intro h
    obtain ⟨names, hnames, hne⟩ := exists_names_of_isContained h
    have hpath : path ≠ "" := by
      rintro rfl
      exact hne (List.map_eq_nil_iff.1 hnames.symm)
    refine ⟨hpath, ?_, ?_, ?_⟩
    · have hrelative := not_isAbsolute_of_isContained h
      rw [isAbsolute, beq_eq_false_iff_ne] at hrelative
      exact hrelative
    · intro hdot
      obtain ⟨rest, hrest⟩ := List.head?_eq_some_iff.1 hdot
      have hlead : lead (segments path) = (.here, rest) := by rw [hrest]; rfl
      obtain ⟨name, others, rfl⟩ := List.exists_cons_of_ne_nil hne
      rw [components_of_segments hpath hlead] at hnames
      cases hnames
    · intro hup
      have hmem : Component.up ∈ components path := by
        rw [components_eq_of_isContained h]
        exact List.mem_filterMap.2 ⟨"..", hup, rfl⟩
      rw [hnames] at hmem
      simp at hmem
  · rintro ⟨hne, hslash, hdot, hup⟩
    obtain ⟨hlead, hfirst⟩ := lead_of_head hne hslash hdot
    have hcomponents : components path = (meaningful (segments path)).map .name := by
      rw [components_of_segments hne hlead, filterMap_component?_of_no_up hup]
      rfl
    -- The first segment is kept, so something is left.
    obtain ⟨first, rest, hsegments⟩ := List.exists_cons_of_ne_nil (segments_ne_nil path)
    have hkept : first ∈ meaningful (segments path) :=
      mem_meaningful.2 ⟨by simp [hsegments], hfirst first (by simp [hsegments])⟩
    rw [isContained, hcomponents, Bool.and_eq_true]
    refine ⟨?_, by simp⟩
    simpa using List.ne_nil_of_mem hkept

/-- A segment that names something in the directory it is taken in. -/
structure IsPlainName (s : String) : Prop where
  nonempty : s ≠ ""
  not_here : s ≠ "."
  not_up : s ≠ ".."
  no_slash : '/' ∉ s.toList

theorem meaningful_of_isContained {path : String} (h : isContained path = true) :
    components path = (meaningful (segments path)).map .name ∧
      meaningful (segments path) ≠ [] ∧ ∀ s ∈ meaningful (segments path), IsPlainName s := by
  obtain ⟨-, -, -, hup⟩ := (isContained_iff path).1 h
  have hcomponents : components path = (meaningful (segments path)).map .name := by
    rw [components_eq_of_isContained h, filterMap_component?_of_no_up hup]
  refine ⟨hcomponents, ?_, fun s hs => ?_⟩
  · obtain ⟨names, hnames, hne⟩ := exists_names_of_isContained h
    intro hnil
    rw [hnames, hnil] at hcomponents
    exact hne (List.map_eq_nil_iff.1 hcomponents)
  · obtain ⟨hmem, htrivial⟩ := mem_meaningful.1 hs
    have hkept : s ≠ "" ∧ s ≠ "." := by simpa [isTrivial] using htrivial
    exact ⟨hkept.1, hkept.2, fun heq => hup (heq ▸ hmem), slash_not_mem_of_mem_segments hmem⟩

/-- **Which paths are contained, and where they lead.** A path is contained exactly if it is not
empty, does not start with a slash or with a segment that is a dot, and no segment goes up. Joined
to a directory it adds its meaningful segments to the components of the directory; there is at least
one of them, and all are plain names. -/
theorem contained_paths (path : String) :
    (∀ body, segments path = body ↔
      body ≠ [] ∧ (∀ s ∈ body, '/' ∉ s.toList) ∧ "/".intercalate body = path) ∧
    (isContained path = true ↔
      path ≠ "" ∧ path.toList.head? ≠ some '/' ∧ (segments path).head? ≠ some "." ∧
        ".." ∉ segments path) ∧
    (isContained path = true → ∀ directory,
      components (join directory path) =
          components directory ++ (meaningful (segments path)).map .name ∧
        meaningful (segments path) ≠ [] ∧ ∀ s ∈ meaningful (segments path), IsPlainName s) := by
  refine ⟨fun body => segments_eq_iff, isContained_iff path, fun h directory => ?_⟩
  obtain ⟨hcomponents, hne, hplain⟩ := meaningful_of_isContained h
  exact ⟨by rw [components_join directory h, hcomponents], hne, hplain⟩

theorem contained_paths_dotted :
    isContained "a//./.b/." = true ∧
      components (join "../out/" "a//./.b/.") = [.up, .name "out", .name "a", .name ".b"] ∧
      ∀ s ∈ ["a", ".b"], IsPlainName s := by
  obtain ⟨-, -, hjoin⟩ := contained_paths "a//./.b/."
  have hcontained : isContained "a//./.b/." = true := by decide
  obtain ⟨hcomponents, -, hplain⟩ := hjoin hcontained "../out/"
  exact ⟨hcontained, hcomponents.trans (by decide), hplain⟩

end AssetPack.Path
