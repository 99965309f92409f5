import AssetPack.Mapping
import AssetPack.Proofs.Extraction.Delivery

/-!
# Extracting from a mapped container

As long as the file that is mapped has what it had, extracting from it is extracting from its bytes.
The file is *intact* then, and it stays so unless an asset goes to its place, because an extraction
writes nothing but what its assets own.

If an asset does go there, `Mapping.obstacle?` may stop it. What it leaves is said once, by
`Mapping.obstacle_cases`: the directories that the target needs, and the target, with something in
it or not. So this too stays in the output directory.

## Main definitions

* `Mapping.Intact`: the mapped file has what it had.

## Main results

* `Mapping.confined_extractAll`: extracting from a mapped container stays in the output directory.
* `Mapping.extractAll_of_intact`: it is extracting from the bytes of the container, if no asset goes
  to its place.
-/

namespace AssetPack

open Container
open FileTree (Alters Confined)
open AssetPack.Path (components)

theorem FileTree.confined_createParent {output target : String} {names : List String}
    (h : components target = components output ++ names.map .name) (t : FileTree) :
    Confined output t (t.createParent target).1 := by
  rw [createParent]
  split
  · exact .refl output t
  · next parent hparent =>
    have hprefix : components parent <+: components output ++ names.map .name := by
      rw [Path.components_parent hparent, ← h]
      exact List.dropLast_prefix _
    exact confined_createAll t hprefix

namespace Mapping

variable {m : Mapping} {output : String} {options : ExtractOptions} {x : Extraction}
  {entry : Entry} {entries : List Entry} {t t' : FileTree} {last : Attempt} {place : Place}

/-! ### What an obstacle leaves -/

theorem tree_breakOff (m : Mapping) (x : Extraction) (entry : Entry) (target : String)
    (payload : Bytes) :
    (m.breakOff x entry target payload).reached.tree = x.tree ∨
      ∃ content, x.tree.writeFile target content =
        .ok (m.breakOff x entry target payload).reached.tree := by
  rw [breakOff]
  split
  · exact .inl rfl
  · rcases Extraction.store_cases x "write" target
      (payload.take ((m.readable x.tree).length - entry.offset.toNat)) with
      ⟨t, hwrite, hstore⟩ | ⟨fault, -, hstore⟩
    · simp only [hstore]
      exact .inr ⟨_, hwrite⟩
    · simp only [hstore]
      exact .inl rfl

/-- **All that an obstacle can leave.** The bytes of the asset could not be read when its directory
was there, or when its target was emptied, and then something may have been written to it. -/
theorem obstacle_cases {job : Job} (h : m.obstacle? job x entry = some last) :
    Path.isContained entry.relativePath = true ∧ ∃ payload t₁,
      job.medium.range entry.offset (some entry.size) = .ok payload ∧
      x.tree.createParent (job.target entry) = (t₁, .ok ()) ∧
      ((m.reaches t₁ entry = false ∧ last.reached.tree = t₁) ∨
        ∃ t₂, t₁.writeFile (job.target entry) [] = .ok t₂ ∧ m.reaches t₂ entry = false ∧
          (last.reached.tree = t₂ ∨
            ∃ content, t₂.writeFile (job.target entry) content = .ok last.reached.tree)) := by
  rw [obstacle?] at h
  split at h
  · cases h
  · next hcontained =>
    rw [Bool.not_eq_true', Bool.not_eq_false] at hcontained
    dsimp only at h
    rw [← Job.target] at h
    split at h
    · cases h
    · next payload hrange =>
      rcases Extraction.makeParent_cases x (job.target entry) with
        ⟨t₁, hparent, hmake⟩ | ⟨t₁, fault, reason, -, hmake⟩
      · simp only [hmake] at h
        refine ⟨hcontained, payload, t₁, hrange, hparent, ?_⟩
        split at h
        · next hreaches =>
          cases h
          rw [Bool.and_eq_true, Bool.not_eq_true'] at hreaches
          exact .inl ⟨hreaches.2, rfl⟩
        · rcases Extraction.store_cases
            (Extraction.checkDigest { x with tree := t₁ } job entry payload) "create"
            (job.target entry) [] with ⟨t₂, hwrite, hstore⟩ | ⟨fault, -, hstore⟩
          · simp only [hstore] at h
            rw [Extraction.tree_checkDigest] at hwrite
            split at h
            · cases h
            · next hreaches =>
              cases h
              exact .inr ⟨t₂, hwrite, by simpa using hreaches, tree_breakOff m _ entry _ payload⟩
          · simp only [hstore] at h
            cases h
      · simp only [hmake] at h
        cases h

theorem confined_of_obstacle {job : Job} (h : m.obstacle? job x entry = some last) :
    Confined job.output x.tree last.reached.tree := by
  obtain ⟨hcontained, payload, t₁, -, hparent, hrest⟩ := obstacle_cases h
  obtain ⟨names, -, hnames⟩ := Entry.components_target job.output hcontained
  have hmade := FileTree.confined_createParent hnames x.tree
  rw [← Job.target, hparent] at hmade
  rcases hrest with ⟨-, hlast⟩ | ⟨t₂, hempty, -, hlast | ⟨content, hwrite⟩⟩
  · rw [hlast]
    exact hmade
  · rw [hlast]
    exact hmade.trans (FileTree.confined_writeFile hnames hempty)
  · exact hmade.trans ((FileTree.confined_writeFile hnames hempty).trans
      (FileTree.confined_writeFile hnames hwrite))

theorem confined_extract (m : Mapping) (output : String) (options : ExtractOptions)
    (x : Extraction) (entry : Entry) :
    Confined output x.tree (m.extract output options x entry).reached.tree := by
  rw [extract]
  cases hobstacle : m.obstacle? ⟨m.medium x.tree, output, options⟩ x entry with
  | none => exact Extraction.confined_extract ⟨m.medium x.tree, output, options⟩ x entry
  | some last => exact confined_of_obstacle hobstacle

/-- **Extracting from a mapped container stays in the output directory**, also if it is killed. -/
theorem confined_extractAll (m : Mapping) (output : String) (options : ExtractOptions)
    (x : Extraction) (entries : List Entry) :
    Confined output x.tree (m.extractAll output options x entries).reached.tree := by
  induction entries generalizing x with
  | nil => exact .refl output x.tree
  | cons entry rest ih =>
    have hfirst := m.confined_extract output options x entry
    rw [extractAll]
    split
    · exact hfirst
    · exact hfirst.trans (ih _)

/-! ### A file that has what it had -/

/-- The mapped file has what it had, if it is still there. -/
def Intact (m : Mapping) (t : FileTree) : Prop :=
  ∀ place, m.place = some place → t.node? place = some (.file m.data)

theorem window_self (content : Bytes) : window content.length content = content := by
  rw [window, List.take_length, Nat.sub_eq_zero_of_le (Nat.min_le_left _ _), List.replicate_zero,
    List.append_nil]

theorem Intact.readable_eq (h : m.Intact t) : m.readable t = m.data := by
  rw [readable]
  cases hplace : m.place with
  | none => rfl
  | some place =>
    rw [Option.bind_some, h place hplace]
    exact window_self m.data

theorem Intact.medium_eq (h : m.Intact t) : m.medium t = ⟨m.data⟩ := by
  rw [medium, h.readable_eq, List.drop_length, List.append_nil]

theorem Intact.reaches (h : m.Intact t)
    (hinside : entry.offset.toNat + entry.size.toNat ≤ m.data.length) :
    m.reaches t entry = true := by
  rw [Mapping.reaches, h.readable_eq, decide_eq_true hinside, Bool.or_true]

/-- Where an asset goes is not the place of the file. -/
def Spared (m : Mapping) (job : Job) (entry : Entry) (t : FileTree) : Prop :=
  ∀ place, m.place = some place → ¬ Extraction.Owns job entry t place

theorem Intact.alters {written : Place → Prop} (h : m.Intact t) (halters : Alters written t t')
    (hspared : ∀ place, m.place = some place → ¬ written place) : m.Intact t' :=
  fun place hplace => halters.file (h place hplace) (hspared place hplace)

/-- The job of extracting the container as it was when it was mapped. -/
def job (m : Mapping) (output : String) (options : ExtractOptions) : Job :=
  ⟨⟨m.data⟩, output, options⟩

/-- **Nothing is in the way of reading a file that stays as it was.** -/
theorem obstacle?_eq_none (h : m.Intact x.tree)
    (hspared : m.Spared (m.job output options) entry x.tree) :
    m.obstacle? (m.job output options) x entry = none := by
  cases hobstacle : m.obstacle? (m.job output options) x entry with
  | none => rfl
  | some last =>
    exfalso
    obtain ⟨hcontained, payload, t₁, hrange, hparent, hrest⟩ := obstacle_cases hobstacle
    have hinside := (Extraction.range_eq_ok hrange).1
    have hmade := Extraction.alters_createParent (fun _ => False) x.tree
      ((m.job output options).target entry)
    rw [hparent] at hmade
    have hintact : m.Intact t₁ := h.alters hmade fun _ _ => id
    rcases hrest with ⟨hfails, -⟩ | ⟨t₂, hempty, hfails, -⟩
    · rw [hintact.reaches hinside] at hfails
      cases hfails
    · have hemptied : Alters (· = x.tree.destination ((m.job output options).target entry)) t₁ t₂ :=
        FileTree.alters_writeFile hempty (hmade.destination_eq _)
      have hintact' : m.Intact t₂ := by
        refine hintact.alters hemptied ?_
        intro place hplace heq
        exact hspared place hplace
          ⟨_, List.mem_cons_self, Extraction.continues_target _ hcontained, heq⟩
      rw [hintact'.reaches hinside] at hfails
      cases hfails

theorem extract_of_intact (h : m.Intact x.tree)
    (hspared : m.Spared (m.job output options) entry x.tree) :
    m.extract output options x entry =
      ⟨Extraction.extract (m.job output options) x entry, false⟩ := by
  rw [extract, h.medium_eq, ← job, obstacle?_eq_none h hspared, Option.getD_none]

/-- **Extracting from a mapped container is extracting from its bytes**, if no asset goes to its
place. -/
theorem extractAll_of_intact (h : m.Intact x.tree)
    (hspared : ∀ entry ∈ entries, m.Spared (m.job output options) entry x.tree) :
    m.extractAll output options x entries =
      ⟨Extraction.extractAll (m.job output options) x entries, false⟩ := by
  induction entries generalizing x with
  | nil => rfl
  | cons entry rest ih =>
    obtain ⟨hentry, hrest⟩ := List.forall_mem_cons.1 hspared
    obtain ⟨fate, hstep, -⟩ := Extraction.step_extract (m.job output options) x entry
    have halters := hstep.alters
    have hafter : ∀ other ∈ rest, m.Spared (m.job output options) other
        (Extraction.extract (m.job output options) x entry).tree := by
      intro other hother place hplace
      rintro ⟨path, hpath, hbelow, heq⟩
      rw [halters.destination_eq] at heq
      exact hrest other hother place hplace ⟨path, hpath, hbelow, heq⟩
    rw [extractAll, extract_of_intact h hentry, if_neg Bool.false_ne_true,
      ih (h.alters halters hentry) hafter, Extraction.extractAll, Extraction.extractAll,
      List.foldl_cons]

end Mapping

end AssetPack
