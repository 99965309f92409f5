import AssetPack.Path
import Mathlib.Algebra.GroupWithZero.Nat
import Mathlib.Data.List.DropRight

/-!
# What the operations on paths do to components

The operations on paths work on texts and keep what they do not have to change. What they mean is
visible in the components, and there they are simple: the parent drops the last component, joining
appends, and another extension changes the last name. The theorems here say so, for every text, so
that nothing behind this module has to look at slashes and dots again.

## Main results

* `components_parent`: the parent has all components but the last.
* `components_join`: a contained path adds its names to those of the directory.
* `components_withExtension`: another extension replaces the last component. The stem `.` leaves
  `..` in its place.
* `withExtension_append`: an extension that goes on from the old one is put behind the path.

## Implementation note

`split` takes an empty first segment for the root only if another segment follows, since the empty
path is not the root. `lead` is `split` without that check, so it distributes over appending
segments; the two agree on every path but the empty one.
-/

namespace AssetPack.Path

/-! ### Segments -/

theorem segments_ne_nil (path : String) : segments path ≠ [] := by
  simp [segments]

theorem not_mem_of_mem_splitOn {sep : Char} {chars piece : List Char}
    (h : piece ∈ chars.splitOn sep) : sep ∉ piece := by
  induction chars generalizing piece with
  | nil =>
    rw [List.splitOn_nil, List.mem_singleton] at h
    simp [h]
  | cons c rest ih =>
    rw [List.splitOn_cons_eq_if_modifyHead] at h
    obtain ⟨first, others, hpieces⟩ := List.exists_cons_of_ne_nil (List.splitOn_ne_nil sep rest)
    rw [hpieces] at h ih
    split at h
    · rcases List.mem_cons.1 h with rfl | h
      · exact List.not_mem_nil
      · exact ih h
    · next hne =>
      rw [List.modifyHead_cons] at h
      rcases List.mem_cons.1 h with rfl | h
      · have hfirst : sep ∉ first := ih List.mem_cons_self
        have hc : sep ≠ c := fun heq => hne (by simp [heq])
        simp [hc, hfirst]
      · exact ih (List.mem_cons_of_mem _ h)

theorem slash_not_mem_of_mem_segments {path segment : String} (h : segment ∈ segments path) :
    '/' ∉ segment.toList := by
  obtain ⟨piece, hpiece, rfl⟩ := List.mem_map.1 h
  rw [String.toList_ofList]
  exact not_mem_of_mem_splitOn hpiece

theorem ofSegments_segments (path : String) : ofSegments (segments path) = path := by
  simp [ofSegments, segments, Function.comp_def]

theorem segments_ofSegments {body : List String} (hne : body ≠ [])
    (hplain : ∀ s ∈ body, '/' ∉ s.toList) : segments (ofSegments body) = body := by
  have hpieces : ∀ piece ∈ body.map String.toList, '/' ∉ piece := by simpa using hplain
  rw [segments, ofSegments, String.toList_ofList,
    List.splitOn_intercalate '/' hpieces (by simpa using hne)]
  simp [Function.comp_def]

theorem segments_append_slash (front back : String) :
    segments (front ++ "/" ++ back) = segments front ++ segments back := by
  have hchars : (front ++ "/" ++ back).toList = front.toList ++ '/' :: back.toList := by simp
  rw [segments, hchars, List.splitOn_append_cons_self, List.map_append]
  rfl

theorem ofSegments_append_last (front : List String) (last rest : String) :
    ofSegments (front ++ [last ++ rest]) = ofSegments (front ++ [last]) ++ rest := by
  induction front with
  | nil => simp [ofSegments]
  | cons s front ih =>
    have hcons : ∀ last,
        ofSegments (s :: front ++ [last]) = s ++ ("/" ++ ofSegments (front ++ [last])) := by
      intro last
      simp [ofSegments, List.intercalate_cons_of_ne_nil]
    rw [hcons, hcons, ih]
    simp [String.append_assoc]

/-! ### Where a path starts -/

/-- The component that stands for the start of a path. -/
def Anchor.front : Anchor → List Component
  | .root => [.root]
  | .here => [.here]
  | .none => []

/-- The start of a path is no name. -/
theorem Anchor.front_ne_concat (anchor : Anchor) (front : List Component) (name : String) :
    anchor.front ≠ front ++ [.name name] := by
  intro h
  cases anchor with
  | root => simp [Anchor.front, List.singleton_eq_append_iff] at h
  | here => simp [Anchor.front, List.singleton_eq_append_iff] at h
  | none => simp [Anchor.front] at h

theorem components_eq (path : String) :
    components path = (split path).1.front ++ (split path).2.filterMap component? := by
  rcases hsplit : split path with ⟨anchor, body⟩
  rw [components, hsplit]
  cases anchor <;> rfl

/-- The start that segments show and the segments behind it. -/
def lead : List String → Anchor × List String
  | "" :: rest => (.root, rest)
  | "." :: rest => (.here, rest)
  | all => (.none, all)

theorem lead_of_not_isTrivial {first : String} (h : isTrivial first = false)
    (rest : List String) : lead (first :: rest) = (.none, first :: rest) := by
  have hne : first ≠ "" ∧ first ≠ "." := by simpa [isTrivial] using h
  rw [lead]
  · exact fun _ heq => hne.1 (List.cons.inj heq).1
  · exact fun _ heq => hne.2 (List.cons.inj heq).1

theorem lead_cases (segments : List String) :
    (∃ rest, segments = "" :: rest ∧ lead segments = (.root, rest)) ∨
    (∃ rest, segments = "." :: rest ∧ lead segments = (.here, rest)) ∨
    (lead segments = (.none, segments) ∧ ∀ first ∈ segments.head?, isTrivial first = false) := by
  match segments with
  | [] => exact .inr (.inr ⟨rfl, by simp⟩)
  | first :: rest =>
    by_cases hempty : first = ""
    · subst hempty
      exact .inl ⟨rest, rfl, rfl⟩
    · by_cases hdot : first = "."
      · subst hdot
        exact .inr (.inl ⟨rest, rfl, rfl⟩)
      · have htrivial : isTrivial first = false := by simp [isTrivial, hempty, hdot]
        exact .inr (.inr ⟨lead_of_not_isTrivial htrivial rest, by simpa using htrivial⟩)

theorem lead_append {front : List String} (hne : front ≠ []) (back : List String) :
    lead (front ++ back) = ((lead front).1, (lead front).2 ++ back) := by
  obtain ⟨first, rest, rfl⟩ := List.exists_cons_of_ne_nil hne
  rcases lead_cases (first :: rest) with ⟨_, heq, hlead⟩ | ⟨_, heq, hlead⟩ | ⟨hlead, hfirst⟩
  · obtain ⟨rfl, rfl⟩ := List.cons.inj heq
    rfl
  · obtain ⟨rfl, rfl⟩ := List.cons.inj heq
    rfl
  · rw [hlead, List.cons_append, lead_of_not_isTrivial (hfirst first rfl)]

theorem lead_concat {last : String} (hlast : isTrivial last = false) (front : List String) :
    lead (front ++ [last]) = ((lead front).1, (lead front).2 ++ [last]) := by
  match front with
  | [] => exact lead_of_not_isTrivial hlast []
  | first :: rest => exact lead_append (List.cons_ne_nil first rest) [last]

theorem segments_empty : segments "" = [""] := rfl

theorem eq_empty_of_segments {path : String} (h : segments path = [""]) : path = "" := by
  rw [← ofSegments_segments path, h]
  rfl

theorem split_eq_lead {path : String} (hne : path ≠ "") : split path = lead (segments path) := by
  rcases lead_cases (segments path) with ⟨rest, heq, hlead⟩ | ⟨rest, heq, hlead⟩ | ⟨hlead, hfirst⟩
  · obtain ⟨next, others, rfl⟩ : ∃ next others, rest = next :: others := by
      refine List.exists_cons_of_ne_nil fun hnil => hne (eq_empty_of_segments ?_)
      rw [heq, hnil]
    rw [hlead, split, heq]
    rfl
  · rw [hlead, split, heq]
    rfl
  · obtain ⟨first, rest, heq⟩ := List.exists_cons_of_ne_nil (segments_ne_nil path)
    rw [hlead, split]
    rw [heq] at hfirst ⊢
    have hne : first ≠ "" ∧ first ≠ "." := by simpa [isTrivial] using hfirst first rfl
    split
    · next h => exact absurd (List.cons.inj h).1 hne.1
    · next h => exact absurd (List.cons.inj h).1 hne.2
    · rfl

/-- Segments that can stand behind a start without being taken for another one. -/
structure Fits (anchor : Anchor) (body : List String) : Prop where
  plain : ∀ s ∈ body, '/' ∉ s.toList
  head : anchor = .none → ∀ first ∈ body.head?, isTrivial first = false

theorem Fits.mono {anchor : Anchor} {front body : List String} (h : Fits anchor body)
    (hfront : front <+: body) : Fits anchor front := by
  obtain ⟨back, rfl⟩ := hfront
  refine ⟨fun s hs => h.plain s (List.mem_append_left _ hs), fun hnone first hfirst => ?_⟩
  refine h.head hnone first ?_
  rw [List.head?_append, hfirst]
  rfl

theorem fits_lead {segments : List String} (h : ∀ s ∈ segments, '/' ∉ s.toList) :
    Fits (lead segments).1 (lead segments).2 := by
  rcases lead_cases segments with ⟨rest, rfl, hlead⟩ | ⟨rest, rfl, hlead⟩ | ⟨hlead, hfirst⟩
  · rw [hlead]
    exact ⟨fun s hs => h s (List.mem_cons_of_mem _ hs), by simp⟩
  · rw [hlead]
    exact ⟨fun s hs => h s (List.mem_cons_of_mem _ hs), by simp⟩
  · rw [hlead]
    exact ⟨h, fun _ => hfirst⟩

theorem filterMap_segments (path : String) :
    (segments path).filterMap component? = (split path).2.filterMap component? := by
  by_cases hne : path = ""
  · subst hne
    rfl
  · rw [split_eq_lead hne]
    rcases lead_cases (segments path) with ⟨rest, heq, hlead⟩ | ⟨rest, heq, hlead⟩ | ⟨hlead, -⟩
    · rw [hlead, heq]
      rfl
    · rw [hlead, heq]
      rfl
    · rw [hlead]

theorem components_of_segments {path : String} (hne : path ≠ "") {anchor : Anchor}
    {body : List String} (h : lead (segments path) = (anchor, body)) :
    components path = anchor.front ++ body.filterMap component? := by
  rw [components_eq, split_eq_lead hne, h]

theorem ne_empty_of_segments {path : String} {front back : List String} (hfront : front ≠ [])
    (hback : back ≠ []) (h : segments path = front ++ back) : path ≠ "" := by
  rintro rfl
  have hlength := congrArg List.length h
  have hfront := List.length_pos_iff.2 hfront
  have hback := List.length_pos_iff.2 hback
  simp only [segments_empty, List.length_singleton, List.length_append] at hlength
  omega

/-- The segments that stand for the start of a path. -/
def Anchor.segments : Anchor → List String
  | .root => [""]
  | .here => ["."]
  | .none => []

theorem segments_build (anchor : Anchor) {body : List String} (hne : body ≠ [])
    (hplain : ∀ s ∈ body, '/' ∉ s.toList) :
    segments (build anchor body) = anchor.segments ++ body := by
  obtain ⟨first, rest, rfl⟩ := List.exists_cons_of_ne_nil hne
  have hbody := segments_ofSegments hne hplain
  match anchor with
  | .root =>
    show segments ("" ++ "/" ++ ofSegments (first :: rest)) = _
    rw [segments_append_slash, hbody]
    rfl
  | .here =>
    show segments ("." ++ "/" ++ ofSegments (first :: rest)) = _
    rw [segments_append_slash, hbody]
    rfl
  | .none => exact hbody

/-- **Building undoes splitting**, as far as components go. -/
theorem components_build {anchor : Anchor} {body : List String} (h : Fits anchor body) :
    components (build anchor body) = anchor.front ++ body.filterMap component? := by
  match body, h with
  | [], _ => cases anchor <;> rfl
  | first :: rest, h =>
    have hsegments := segments_build anchor (List.cons_ne_nil first rest) h.plain
    match anchor with
    | .root =>
      exact components_of_segments
        (ne_empty_of_segments (List.cons_ne_nil _ _) (List.cons_ne_nil _ _) hsegments)
        (by rw [hsegments]; rfl)
    | .here =>
      exact components_of_segments
        (ne_empty_of_segments (List.cons_ne_nil _ _) (List.cons_ne_nil _ _) hsegments)
        (by rw [hsegments]; rfl)
    | .none =>
      have hfirst : isTrivial first = false := h.head rfl first rfl
      have hbody : segments (ofSegments (first :: rest)) = first :: rest := hsegments
      have hne : ofSegments (first :: rest) ≠ "" := by
        intro hempty
        rw [hempty, segments_empty] at hbody
        rw [← (List.cons.inj hbody).1] at hfirst
        cases hfirst
      refine components_of_segments hne ?_
      rw [hbody, lead_of_not_isTrivial hfirst]

/-! ### The parent -/

theorem trimEnd_eq_rdropWhile (body : List String) : trimEnd body = body.rdropWhile isTrivial := rfl

theorem trimEnd_isPrefix (body : List String) : trimEnd body <+: body := by
  rw [trimEnd_eq_rdropWhile]
  exact List.rdropWhile_prefix _ _

theorem component?_eq_none {segment : String} (h : isTrivial segment = true) :
    component? segment = none := by
  rw [component?, if_pos h]

theorem filterMap_rdropWhile {p : String → Bool} (hp : ∀ s, p s = true → isTrivial s = true)
    (body : List String) :
    (body.rdropWhile p).filterMap component? = body.filterMap component? := by
  have htail : (body.rtakeWhile p).filterMap component? = [] :=
    List.filterMap_eq_nil_iff.2 fun s hs => component?_eq_none (hp s (List.mem_rtakeWhile_imp hs))
  calc (body.rdropWhile p).filterMap component?
      = (body.rdropWhile p ++ body.rtakeWhile p).filterMap component? := by
        rw [List.filterMap_append, htail, List.append_nil]
    _ = body.filterMap component? := by rw [List.rdropWhile_append_rtakeWhile]

theorem filterMap_trimEnd (body : List String) :
    (trimEnd body).filterMap component? = body.filterMap component? :=
  filterMap_rdropWhile (fun _ h => h) body

theorem exists_component? {segment : String} (h : isTrivial segment = false) :
    ∃ c, component? segment = some c := by
  rw [component?, if_neg (by simp [h])]
  split
  · exact ⟨_, rfl⟩
  · exact ⟨_, rfl⟩

/-- Trimmed segments end in one that means something. -/
theorem trimEnd_eq_nil_or (body : List String) :
    trimEnd body = [] ∨ ∃ front last, trimEnd body = front ++ [last] ∧ isTrivial last = false := by
  by_cases hne : trimEnd body = []
  · exact .inl hne
  · refine .inr ⟨_, _, (List.dropLast_append_getLast hne).symm, ?_⟩
    exact Bool.eq_false_iff.2 (List.rdropWhile_last_not isTrivial body hne)

theorem parent?_of_trimEnd {path last : String} {anchor : Anchor} {body front : List String}
    (hsplit : split path = (anchor, body)) (hbody : trimEnd body = front ++ [last]) :
    parent? path = some (build anchor (trimEnd front)) := by
  obtain ⟨first, rest, hcons⟩ := List.exists_cons_of_ne_nil (List.concat_ne_nil last front)
  have hfront : front = (first :: rest).dropLast := by rw [← hcons, List.dropLast_concat]
  rw [parent?, hsplit]
  simp only [hbody, hcons]
  rw [hfront]

theorem eq_empty_of_parent? {path parent : String} {anchor : Anchor} {body : List String}
    (hsplit : split path = (anchor, body)) (hbody : trimEnd body = [])
    (h : parent? path = some parent) : anchor = .here ∧ parent = "" := by
  rw [parent?, hsplit] at h
  simp only [hbody] at h
  cases anchor with
  | here => exact ⟨rfl, (Option.some.inj h).symm⟩
  | root => cases h
  | none => cases h

theorem fits_parent {path last : String} {anchor : Anchor} {body front : List String}
    (hsplit : split path = (anchor, body)) (hbody : trimEnd body = front ++ [last]) :
    Fits anchor (trimEnd front) := by
  have hne : path ≠ "" := by
    rintro rfl
    cases hsplit
    exact absurd hbody (by simp [trimEnd, isTrivial])
  have hplain : ∀ s ∈ segments path, '/' ∉ s.toList := fun s => slash_not_mem_of_mem_segments
  have hwhole := fits_lead hplain
  rw [← split_eq_lead hne, hsplit] at hwhole
  refine hwhole.mono ((trimEnd_isPrefix front).trans ?_)
  exact (List.prefix_append front [last]).trans (hbody ▸ trimEnd_isPrefix body)

/-- **The parent has all components but the last.** -/
theorem components_parent {path parent : String} (h : parent? path = some parent) :
    components parent = (components path).dropLast := by
  rcases hsplit : split path with ⟨anchor, body⟩
  have hpath : components path = anchor.front ++ (trimEnd body).filterMap component? := by
    rw [components_eq path, hsplit, filterMap_trimEnd]
  rcases trimEnd_eq_nil_or body with hnil | ⟨front, last, hbody, hlast⟩
  · -- nothing but a start, and only the explicit one has a parent
    obtain ⟨rfl, rfl⟩ := eq_empty_of_parent? hsplit hnil h
    rw [hpath, hnil]
    rfl
  · obtain ⟨c, hc⟩ := exists_component? hlast
    have hparent : parent = build anchor (trimEnd front) :=
      Option.some.inj (h.symm.trans (parent?_of_trimEnd hsplit hbody))
    rw [hparent, components_build (fits_parent hsplit hbody), filterMap_trimEnd, hpath, hbody,
      List.filterMap_append, List.filterMap_cons_some hc, List.filterMap_nil, ← List.append_assoc,
      List.dropLast_concat]

/-- A path that ends in a name has a parent. -/
theorem exists_parent {path name : String} {front : List Component}
    (h : components path = front ++ [.name name]) : ∃ parent, parent? path = some parent := by
  rcases hsplit : split path with ⟨anchor, body⟩
  rcases trimEnd_eq_nil_or body with hnil | ⟨front', last, hbody, -⟩
  · rw [components_eq, hsplit, ← filterMap_trimEnd, hnil, List.filterMap_nil, List.append_nil] at h
    exact absurd h (anchor.front_ne_concat front name)
  · exact ⟨_, parent?_of_trimEnd hsplit hbody⟩

/-- A path without trivial segments at its end, bare starts apart. -/
def Tidy (path : String) : Prop :=
  path = "/" ∨ path = "." ∨
    ∃ ahead last, segments path = ahead ++ [last] ∧ isTrivial last = false

/-- **A parent has no trivial segments at its end.** -/
theorem tidy_parent {path parent : String} (h : parent? path = some parent) :
    parent = "" ∨ Tidy parent := by
  rcases hsplit : split path with ⟨anchor, body⟩
  rcases trimEnd_eq_nil_or body with hnil | ⟨body', last, hbody, -⟩
  · exact .inl (eq_empty_of_parent? hsplit hnil h).2
  · have hfits := fits_parent hsplit hbody
    have hbuild : parent = build anchor (trimEnd body') :=
      Option.some.inj (h.symm.trans (parent?_of_trimEnd hsplit hbody))
    rcases trimEnd_eq_nil_or body' with hnil | ⟨ahead, last', hbody', hlast⟩
    · rw [hbuild, hnil]
      cases anchor with
      | root => exact .inr (.inl rfl)
      | here => exact .inr (.inr (.inl rfl))
      | none => exact .inl rfl
    · refine .inr (.inr (.inr ⟨anchor.segments ++ ahead, last', ?_, hlast⟩))
      rw [hbuild, segments_build anchor (by simp [hbody']) hfits.plain, hbody', List.append_assoc]

theorem eq_of_component?_eq_name {segment name : String}
    (h : component? segment = some (.name name)) : segment = name := by
  rw [component?] at h
  split at h
  · cases h
  · split at h
    · cases h
    · cases h
      rfl

/-! ### Joining -/

theorem exists_names_of_isContained {path : String} (h : isContained path = true) :
    ∃ names : List String, components path = names.map Component.name ∧ names ≠ [] := by
  rw [isContained, Bool.and_eq_true, List.all_eq_true] at h
  obtain ⟨hne, hall⟩ := h
  have hnames : ∃ names : List String, components path = names.map Component.name := by
    generalize components path = cs at hall
    induction cs with
    | nil => exact ⟨[], rfl⟩
    | cons c cs ih =>
      obtain ⟨names, rfl⟩ := ih fun c hc => hall c (List.mem_cons_of_mem _ hc)
      cases c with
      | name text => exact ⟨text :: names, rfl⟩
      | root => cases hall _ List.mem_cons_self
      | here => cases hall _ List.mem_cons_self
      | up => cases hall _ List.mem_cons_self
  obtain ⟨names, hnames⟩ := hnames
  refine ⟨names, hnames, ?_⟩
  rintro rfl
  simp [hnames] at hne

/-- The first component of a path that shows its start is the start. -/
theorem components_eq_of_isContained {path : String} (h : isContained path = true) :
    components path = (segments path).filterMap component? := by
  obtain ⟨names, hnames, hne⟩ := exists_names_of_isContained h
  obtain ⟨text, others, rfl⟩ := List.exists_cons_of_ne_nil hne
  have hpath : path ≠ "" := by
    rintro rfl
    cases hnames
  rcases lead_cases (segments path) with ⟨rest, -, hlead⟩ | ⟨rest, -, hlead⟩ | ⟨hlead, -⟩
  · rw [components_of_segments hpath hlead] at hnames
    cases hnames
  · rw [components_of_segments hpath hlead] at hnames
    cases hnames
  · rw [components_of_segments hpath hlead]
    rfl

theorem isAbsolute_iff (path : String) : isAbsolute path = true ↔ (split path).1 = .root := by
  obtain ⟨chars, rfl⟩ : ∃ chars, path = String.ofList chars := ⟨path.toList, by simp⟩
  match chars with
  | [] => simp [isAbsolute, split, segments_empty]
  | c :: rest =>
    have hne : String.ofList (c :: rest) ≠ "" := by simp
    obtain ⟨first, others, hpieces⟩ := List.exists_cons_of_ne_nil (List.splitOn_ne_nil '/' rest)
    rw [split_eq_lead hne, segments, String.toList_ofList, List.splitOn_cons_eq_if_modifyHead,
      hpieces]
    by_cases hc : c = '/'
    · simp [isAbsolute, hc, lead]
    · have hfirst : String.ofList (c :: first) ≠ "" := by simp
      simp only [isAbsolute, beq_iff_eq, hc, if_false, List.modifyHead_cons, List.map_cons]
      rcases lead_cases (String.ofList (c :: first) :: others.map String.ofList) with
        ⟨_, heq, -⟩ | ⟨_, -, hlead⟩ | ⟨hlead, -⟩
      · exact absurd (List.cons.inj heq).1 hfirst
      · rw [hlead]
        simp [hc]
      · rw [hlead]
        simp [hc]

theorem not_isAbsolute_of_isContained {path : String} (h : isContained path = true) :
    isAbsolute path = false := by
  obtain ⟨names, hnames, hne⟩ := exists_names_of_isContained h
  obtain ⟨text, others, rfl⟩ := List.exists_cons_of_ne_nil hne
  rw [Bool.eq_false_iff, Ne, isAbsolute_iff]
  intro hroot
  rw [components_eq, hroot] at hnames
  cases hnames

theorem components_append_slash {front : String} {anchor : Anchor} {body : List String}
    (h : lead (segments front) = (anchor, body)) (back : String) :
    components (front ++ "/" ++ back) =
      anchor.front ++ body.filterMap component? ++ (segments back).filterMap component? := by
  have hsegments := segments_append_slash front back
  have hne := ne_empty_of_segments (segments_ne_nil front) (segments_ne_nil back) hsegments
  have hlead : lead (segments (front ++ "/" ++ back)) = (anchor, body ++ segments back) := by
    rw [hsegments, lead_append (segments_ne_nil front), h]
  rw [components_of_segments hne hlead, List.filterMap_append, List.append_assoc]

/-- All that joining can do with a contained path: the slash between may be there already. -/
theorem join_cases (directory : String) {path : String} (h : isContained path = true) :
    (directory = "" ∧ join directory path = path) ∨
    (∃ front, directory = front ++ "/" ∧ join directory path = front ++ "/" ++ path) ∨
    (directory ≠ "" ∧ join directory path = directory ++ "/" ++ path) := by
  rw [join, if_neg (by simp [not_isAbsolute_of_isContained h])]
  split
  · next hlast => exact .inl ⟨by simpa using hlast, rfl⟩
  · next hlast =>
    obtain ⟨chars, hchars⟩ := List.getLast?_eq_some_iff.1 hlast
    have hdirectory : directory = String.ofList chars ++ "/" :=
      String.toList_inj.1 (by simp [hchars])
    exact .inr (.inl ⟨String.ofList chars, hdirectory, by rw [← hdirectory]⟩)
  · next hlast =>
    refine .inr (.inr ⟨?_, rfl⟩)
    rintro rfl
    cases hlast

/-- **A contained path adds its names to those of the directory.** -/
theorem components_join (directory : String) {path : String} (h : isContained path = true) :
    components (join directory path) = components directory ++ components path := by
  rcases join_cases directory h with ⟨rfl, hjoin⟩ | ⟨front, rfl, hjoin⟩ | ⟨hne, hjoin⟩
  · rw [hjoin]
    rfl
  · rcases hlead : lead (segments front) with ⟨anchor, body⟩
    have hdirectory := components_append_slash hlead ""
    rw [String.append_empty, segments_empty, show [""].filterMap component? = [] from rfl,
      List.append_nil] at hdirectory
    rw [hjoin, components_append_slash hlead, hdirectory, components_eq_of_isContained h]
  · rcases hlead : lead (segments directory) with ⟨anchor, body⟩
    rw [hjoin, components_append_slash hlead, components_of_segments hne hlead,
      components_eq_of_isContained h]

theorem segments_join (directory : String) {path : String} (h : isContained path = true) :
    ∃ front, segments (join directory path) = front ++ segments path := by
  rcases join_cases directory h with ⟨-, hjoin⟩ | ⟨front, -, hjoin⟩ | ⟨-, hjoin⟩
  · exact ⟨[], by rw [hjoin]; rfl⟩
  · exact ⟨segments front, by rw [hjoin, segments_append_slash]⟩
  · exact ⟨segments directory, by rw [hjoin, segments_append_slash]⟩

/-! ### Extensions -/

theorem not_isTrivial_extended {stem : String} (hstem : stem ≠ "") (extension : String) :
    isTrivial (stem ++ "." ++ extension) = false := by
  obtain ⟨c, chars, hchars⟩ := List.exists_cons_of_ne_nil (mt String.toList_eq_nil_iff.1 hstem)
  have hne : stem ++ "." ++ extension ≠ "" := by simp [hstem]
  have hdot : stem ++ "." ++ extension ≠ "." := by
    intro heq
    have hlist := congrArg String.toList heq
    simp [hchars] at hlist
  simp [isTrivial, hne, hdot]

theorem extended_eq_dots_iff {stem extension : String} (hstem : stem ≠ "") :
    stem ++ "." ++ extension = ".." ↔ stem = "." ∧ extension = "" := by
  constructor
  · intro heq
    obtain ⟨c, chars, hchars⟩ := List.exists_cons_of_ne_nil (mt String.toList_eq_nil_iff.1 hstem)
    have hlist : c :: (chars ++ ['.'] ++ extension.toList) = ['.', '.'] := by
      simpa [hchars] using congrArg String.toList heq
    obtain ⟨rfl, htail⟩ := List.cons.inj hlist
    cases chars with
    | nil => exact ⟨String.toList_inj.1 hchars, by simpa using htail⟩
    | cons d chars => simp at htail
  · rintro ⟨rfl, rfl⟩
    rfl

theorem splitName_extended {stem extension : String} (hstem : stem ≠ "")
    (hdot : '.' ∉ extension.toList) :
    splitName (stem ++ "." ++ extension) = (stem, some extension) := by
  have hchars : (stem ++ "." ++ extension).toList.reverse =
      extension.toList.reverse ++ '.' :: stem.toList.reverse := by simp
  have hall : ∀ c ∈ extension.toList.reverse, (c != '.') = true := by
    intro c hc
    have hne : c ≠ '.' := fun heq => hdot (heq ▸ List.mem_reverse.1 hc)
    simpa using hne
  obtain ⟨c, chars, hstem⟩ : ∃ c chars, stem.toList.reverse = c :: chars :=
    List.exists_cons_of_ne_nil (by simpa using hstem)
  have hback : stem.toList = (c :: chars).reverse := by rw [← hstem, List.reverse_reverse]
  rw [splitName, hchars, List.takeWhile_append_of_pos hall, List.dropWhile_append_of_pos hall,
    hstem]
  simp [← hback]

theorem split_concat {path last : String} {front : List String}
    (h : segments path = front ++ [last]) (hlast : isTrivial last = false) :
    split path = ((lead front).1, (lead front).2 ++ [last]) := by
  have hne : path ≠ "" := by
    rintro rfl
    have heq := congrArg List.getLast? h
    rw [segments_empty, List.getLast?_concat] at heq
    cases heq
    cases hlast
  rw [split_eq_lead hne, h, lead_concat hlast]

theorem trimEnd_concat {last : String} (hlast : isTrivial last = false) (front : List String) :
    trimEnd (front ++ [last]) = front ++ [last] := by
  rw [trimEnd_eq_rdropWhile, List.rdropWhile_concat_neg _ _ _ (by simp [hlast])]

theorem fileName?_concat {path last : String} {front : List String}
    (h : segments path = front ++ [last]) (hlast : isTrivial last = false) :
    fileName? path = if last = ".." then none else some last := by
  rw [fileName?, split_concat h hlast, trimEnd_concat hlast, List.getLast?_concat]

theorem components_concat {path last : String} {front : List String} {c : Component}
    (h : segments path = front ++ [last]) (hlast : isTrivial last = false)
    (hc : component? last = some c) :
    components path = (lead front).1.front ++ (lead front).2.filterMap component? ++ [c] := by
  rw [components_eq, split_concat h hlast, List.filterMap_append, List.filterMap_cons_some hc,
    List.filterMap_nil, List.append_assoc]

/-- If the last component of a parent is a name, this is its last segment. -/
theorem segments_parent {path parent name : String} {front : List Component}
    (hparent : parent? path = some parent) (h : components parent = front ++ [.name name]) :
    ∃ ahead, segments parent = ahead ++ [name] ∧ component? name = some (.name name) := by
  rcases tidy_parent hparent with rfl | rfl | rfl | ⟨ahead, last, hsegments, hlast⟩
  · exact absurd h (Anchor.front_ne_concat .none front name)
  · exact absurd h (Anchor.front_ne_concat .root front name)
  · exact absurd h (Anchor.front_ne_concat .here front name)
  · obtain ⟨c, hc⟩ := exists_component? hlast
    rw [components_concat hsegments hlast hc] at h
    obtain rfl : c = .name name := by simpa using (List.append_inj' h rfl).2
    obtain rfl := eq_of_component?_eq_name hc
    exact ⟨ahead, hsegments, hc⟩

theorem component?_extended {stem extension : String} (hstem : stem ≠ "")
    (hextension : extension ≠ "") :
    component? (stem ++ "." ++ extension) = some (.name (stem ++ "." ++ extension)) := by
  have hdots : stem ++ "." ++ extension ≠ ".." := fun heq =>
    hextension ((extended_eq_dots_iff hstem).1 heq).2
  rw [component?, if_neg (by simp [not_isTrivial_extended hstem]), if_neg hdots]

theorem withExtension_eq {path stem old : String} {front : List String}
    (h : segments path = front ++ [stem ++ "." ++ old]) (hstem : stem ≠ "") (hold : old ≠ "")
    (hdot : '.' ∉ old.toList) (extension : String) :
    withExtension path extension =
      setExtension (ofSegments (front ++ [stem ++ "." ++ ""])) extension := by
  have hdots : stem ++ "." ++ old ≠ ".." := fun heq => hold ((extended_eq_dots_iff hstem).1 heq).2
  have hname : fileName? path = some (stem ++ "." ++ old) := by
    rw [fileName?_concat h (not_isTrivial_extended hstem old), if_neg hdots]
  have hextension : extension? path = some old := by
    rw [extension?, hname, Option.bind_some, splitName_extended hstem hdot]
  have htext : path.toList = (ofSegments (front ++ [stem ++ "." ++ ""])).toList ++ old.toList := by
    rw [← String.toList_append, ← ofSegments_append_last, String.append_empty, ← h,
      ofSegments_segments]
  rw [withExtension, hextension]
  simp only [htext, List.length_append, Nat.add_sub_cancel, List.take_left, String.ofList_toList]

theorem components_setExtension {path stem extension : String} {front : List String}
    (h : segments path = front ++ [stem ++ "." ++ ""]) (hstem : stem ≠ "")
    (hextension : extension ≠ "") (hslash : '/' ∉ extension.toList) :
    components (setExtension path extension) =
      (lead front).1.front ++ (lead front).2.filterMap component? ++
        [if stem = "." then .up else .name (stem ++ "." ++ extension)] := by
  have htrivial := not_isTrivial_extended hstem ""
  by_cases hone : stem = "."
  · subst hone
    have hname : stem? path = none := by
      rw [stem?, fileName?_concat h htrivial]
      rfl
    rw [setExtension, hname, if_pos rfl]
    exact components_concat h htrivial rfl
  · have hdots : stem ++ "." ++ "" ≠ ".." := fun heq => hone ((extended_eq_dots_iff hstem).1 heq).1
    have hname : stem? path = some stem := by
      rw [stem?, fileName?_concat h htrivial, if_neg hdots, Option.map_some,
        splitName_extended hstem (by simp)]
    have hlast := not_isTrivial_extended hstem extension
    have hfits : Fits (lead front).1 ((lead front).2 ++ [stem ++ "." ++ extension]) := by
      have hplain : ∀ s ∈ front ++ [stem ++ "." ++ ""], '/' ∉ s.toList := fun s hs =>
        slash_not_mem_of_mem_segments (h ▸ hs)
      have hstemPlain := hplain (stem ++ "." ++ "") (by simp)
      have hwhole : ∀ s ∈ front ++ [stem ++ "." ++ extension], '/' ∉ s.toList := by
        intro s hs
        rcases List.mem_append.1 hs with hs | hs
        · exact hplain s (List.mem_append_left _ hs)
        · rw [List.mem_singleton.1 hs]
          simpa [hslash] using hstemPlain
      have hfits := fits_lead hwhole
      rwa [lead_concat hlast] at hfits
    rw [setExtension, hname, split_concat h htrivial, if_neg hone]
    simp only [trimEnd_concat htrivial, List.dropLast_concat]
    rw [components_build hfits, List.filterMap_append, List.filterMap_cons_some
      (component?_extended hstem hextension), List.filterMap_nil, List.append_assoc]

/-- **Another extension replaces the last component**, and if the stem is a dot then the directory
above is all that is left there. -/
theorem components_withExtension {path stem old extension : String} {front : List String}
    (h : segments path = front ++ [stem ++ "." ++ old]) (hstem : stem ≠ "") (hold : old ≠ "")
    (hdot : '.' ∉ old.toList) (hextension : extension ≠ "") (hslash : '/' ∉ extension.toList) :
    components (withExtension path extension) = (components path).dropLast ++
      [if stem = "." then .up else .name (stem ++ "." ++ extension)] := by
  have hcut : segments (ofSegments (front ++ [stem ++ "." ++ ""])) =
      front ++ [stem ++ "." ++ ""] := by
    refine segments_ofSegments (by simp) fun s hs => ?_
    rcases List.mem_append.1 hs with hs | hs
    · exact slash_not_mem_of_mem_segments (h ▸ List.mem_append_left _ hs)
    · have hlast : '/' ∉ (stem ++ "." ++ old).toList :=
        slash_not_mem_of_mem_segments (h ▸ List.mem_append_right _ List.mem_cons_self)
      rw [List.mem_singleton.1 hs]
      simp only [String.toList_append, List.mem_append, not_or] at hlast ⊢
      exact ⟨hlast.1, by simp⟩
  rw [withExtension_eq h hstem hold hdot, components_setExtension hcut hstem hextension hslash,
    components_concat h (not_isTrivial_extended hstem old) (component?_extended hstem hold),
    List.dropLast_concat]

/-! ### Texts -/

theorem ofSegments_cons {body : List String} (hne : body ≠ []) (first : String) :
    ofSegments (first :: body) = first ++ "/" ++ ofSegments body := by
  simp [ofSegments, List.intercalate_cons_of_ne_nil, hne, String.append_assoc]

theorem mem_ofSegments {c : Char} {body : List String} (h : c ∈ (ofSegments body).toList) :
    c = '/' ∨ ∃ s ∈ body, c ∈ s.toList := by
  induction body with
  | nil => simp [ofSegments] at h
  | cons first rest ih =>
    by_cases hne : rest = []
    · subst hne
      exact .inr ⟨first, List.mem_cons_self, by simpa [ofSegments] using h⟩
    · rw [ofSegments_cons hne] at h
      simp only [String.toList_append, List.mem_append] at h
      rcases h with (hfirst | hslash) | hrest
      · exact .inr ⟨first, List.mem_cons_self, hfirst⟩
      · exact .inl (by simpa using hslash)
      · rcases ih hrest with heq | ⟨s, hs, hc⟩
        · exact .inl heq
        · exact .inr ⟨s, List.mem_cons_of_mem _ hs, hc⟩

theorem utf8ByteSize_ofSegments {body : List String} (hne : body ≠ []) :
    (ofSegments body).utf8ByteSize + 1 = (body.map fun s => s.utf8ByteSize + 1).sum := by
  induction body with
  | nil => exact absurd rfl hne
  | cons first rest ih =>
    rw [List.map_cons, List.sum_cons]
    by_cases hrest : rest = []
    · subst hrest
      simp [ofSegments]
    · rw [← ih hrest, ofSegments_cons hrest, String.utf8ByteSize_append, String.utf8ByteSize_append,
        show "/".utf8ByteSize = 1 from rfl]
      omega

/-- A directory in front does not make a path shorter. -/
theorem le_utf8ByteSize_join (directory path : String) :
    path.utf8ByteSize ≤ (join directory path).utf8ByteSize := by
  rw [join]
  split
  · exact Nat.le_refl _
  · split
    · exact Nat.le_refl _
    · rw [String.utf8ByteSize_append]
      omega
    · rw [String.utf8ByteSize_append]
      omega

theorem build_split (path : String) : build (split path).1 (split path).2 = path := by
  rw [split]
  split
  · next next rest hsegments =>
    show "/" ++ ofSegments (next :: rest) = path
    rw [← ofSegments_segments path, hsegments, ofSegments_cons (List.cons_ne_nil _ _)]
    rfl
  · next rest hsegments =>
    rw [← ofSegments_segments path, hsegments]
    match rest with
    | [] => rfl
    | next :: rest =>
      rw [ofSegments_cons (List.cons_ne_nil _ _)]
      rfl
  · exact ofSegments_segments path

/-- **An extension that goes on from the old one** is put behind the path. -/
theorem withExtension_append {path stem old suffix : String} {front : List String}
    (h : segments path = front ++ [stem ++ "." ++ old]) (hstem : stem ≠ "") (hone : stem ≠ ".")
    (hold : old ≠ "") (hdot : '.' ∉ old.toList) (hslash : '/' ∉ suffix.toList) :
    withExtension path (old ++ suffix) = path ++ suffix := by
  have hplain : ∀ s ∈ front ++ [stem ++ "." ++ old], '/' ∉ s.toList := fun s hs =>
    slash_not_mem_of_mem_segments (h ▸ hs)
  have hfront : ∀ s ∈ front, '/' ∉ s.toList := fun s hs => hplain s (List.mem_append_left _ hs)
  have hlast : '/' ∉ stem.toList ∧ '/' ∉ old.toList := by
    simpa using hplain (stem ++ "." ++ old) (by simp)
  have hextended : ∀ rest : String, '/' ∉ rest.toList →
      segments (ofSegments (front ++ [stem ++ "." ++ rest])) = front ++ [stem ++ "." ++ rest] := by
    intro rest hrest
    refine segments_ofSegments (by simp) fun s hs => ?_
    rcases List.mem_append.1 hs with hs | hs
    · exact hfront s hs
    · rw [List.mem_singleton.1 hs]
      simp [hlast.1, hrest]
  have hcut := hextended "" (by simp)
  have hwhole := hextended (old ++ suffix) (by simp [hlast.2, hslash])
  have htrivial := not_isTrivial_extended hstem ""
  have hdots : stem ++ "." ++ "" ≠ ".." := fun heq => hone ((extended_eq_dots_iff hstem).1 heq).1
  have hname : stem? (ofSegments (front ++ [stem ++ "." ++ ""])) = some stem := by
    rw [stem?, fileName?_concat hcut htrivial, if_neg hdots, Option.map_some,
      splitName_extended hstem (by simp)]
  have hbuild := build_split (ofSegments (front ++ [stem ++ "." ++ (old ++ suffix)]))
  rw [split_concat hwhole (not_isTrivial_extended hstem _)] at hbuild
  rw [withExtension_eq h hstem hold hdot, setExtension, hname, split_concat hcut htrivial]
  simp only [trimEnd_concat htrivial, List.dropLast_concat]
  rw [hbuild, ← String.append_assoc, ofSegments_append_last, ← h, ofSegments_segments]

theorem ofSegments_isPrefix {front body : List String} (h : front <+: body) :
    (ofSegments front).toList <+: (ofSegments body).toList := by
  induction front generalizing body with
  | nil => exact List.nil_prefix
  | cons first front ih =>
    obtain ⟨back, rfl⟩ := h
    have hcons : ∀ {rest : List String}, rest ≠ [] →
        (ofSegments (first :: rest)).toList =
          (first ++ "/").toList ++ (ofSegments rest).toList := by
      intro rest hne
      rw [ofSegments_cons hne, String.toList_append]
    match front, back with
    | [], [] => exact List.prefix_refl _
    | [], next :: back =>
      show (ofSegments [first]).toList <+: (ofSegments (first :: next :: back)).toList
      rw [hcons (List.cons_ne_nil _ _), show ofSegments [first] = first by simp [ofSegments],
        String.toList_append, List.append_assoc]
      exact List.prefix_append _ _
    | next :: front, back =>
      show (ofSegments (first :: next :: front)).toList <+:
        (ofSegments (first :: (next :: front ++ back))).toList
      rw [hcons (List.cons_ne_nil _ _), hcons (List.append_ne_nil_of_left_ne_nil
        (List.cons_ne_nil _ _) back)]
      exact (List.prefix_append_right_inj _).2 (ih (List.prefix_append _ _))

theorem build_isPrefix (anchor : Anchor) {front body : List String} (h : front <+: body) :
    (build anchor front).toList <+: (build anchor body).toList := by
  have hsegments := ofSegments_isPrefix h
  have hhere : ∀ first rest, (build .here (first :: rest)).toList =
      ['.'] ++ '/' :: (ofSegments (first :: rest)).toList := by
    intro first rest
    simp [build]
  cases anchor with
  | root =>
    simp only [build, String.toList_append]
    exact (List.prefix_append_right_inj _).2 hsegments
  | none => exact hsegments
  | here =>
    cases front with
    | nil =>
      cases body with
      | nil => exact List.prefix_refl _
      | cons first rest =>
        rw [hhere]
        exact List.prefix_append ['.'] _
    | cons first rest =>
      obtain ⟨back, rfl⟩ := h
      rw [List.cons_append, hhere, hhere]
      exact (List.prefix_append_right_inj _).2 (List.cons_prefix_cons.2 ⟨rfl, hsegments⟩)

/-- The text of the parent is where the text of the path starts. -/
theorem parent_isPrefix {path parent : String} (h : parent? path = some parent) :
    parent.toList <+: path.toList := by
  rcases hsplit : split path with ⟨anchor, body⟩
  rcases trimEnd_eq_nil_or body with hnil | ⟨front, last, hbody, -⟩
  · obtain ⟨-, rfl⟩ := eq_empty_of_parent? hsplit hnil h
    exact List.nil_prefix
  · have hfront : trimEnd front <+: body :=
      (trimEnd_isPrefix front).trans
        ((List.prefix_append front [last]).trans (hbody ▸ trimEnd_isPrefix body))
    have hparent : parent = build anchor (trimEnd front) :=
      Option.some.inj (h.symm.trans (parent?_of_trimEnd hsplit hbody))
    have hpath := build_split path
    rw [hsplit] at hpath
    rw [hparent, ← hpath]
    exact build_isPrefix anchor hfront

end AssetPack.Path
