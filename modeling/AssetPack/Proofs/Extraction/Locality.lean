import AssetPack.Proofs.Extraction.Installation
import AssetPack.Proofs.Placement

/-!
# What an asset comes to depends on its own bytes

Two things could make the extraction of an asset depend on more than the tree and the bytes of the
asset: what was counted and noted before it, and what else is in the container.

Counters and notices only pile up, and nothing looks at the pile. So an extraction can be taken off
what was there before and put behind it again (`Extraction.after`), and what an asset adds to them
is a matter of the asset.

The container is looked at in two places, for the bytes to copy and for the script to decode, and
both times the range of the asset is cut from it first. The decoder gets a cursor over that range
and can see nothing else, whatever lengths it reads there.

## Main results

* `Extraction.extract_after`: what went before does not matter.
* `Extraction.extract_own_bytes`: the rest of the container does not matter either.
-/

namespace AssetPack

open Container Script

namespace Extraction

/-! ### What went before -/

/-- The extraction with counters and notices of an earlier one in front of its own. -/
def after (x : Extraction) (stats : ExtractStats) (notices : List Notice) : Extraction :=
  ⟨x.tree, stats + x.stats, notices ++ x.notices⟩

variable {job : Job} {entry : Entry} {stats : ExtractStats} {notices : List Notice}

theorem eq_after (tree : FileTree) (stats : ExtractStats) (notices : List Notice) :
    (⟨tree, stats, notices⟩ : Extraction) = (⟨tree, {}, []⟩ : Extraction).after stats notices := by
  rw [after, List.append_nil]
  rfl

theorem tree_after (x : Extraction) : (x.after stats notices).tree = x.tree := rfl

theorem note_after (x : Extraction) (n : Notice) :
    (x.after stats notices).note n = (x.note n).after stats notices := by
  simp only [note, after, List.append_assoc]

theorem noteAll_after (x : Extraction) (ns : List Notice) :
    (x.after stats notices).noteAll ns = (x.noteAll ns).after stats notices := by
  simp only [noteAll, after, List.append_assoc]

theorem count_after (x : Extraction) {f : ExtractStats → ExtractStats}
    (hf : ∀ s, f (stats + s) = stats + f s) :
    (x.after stats notices).count f = (x.count f).after stats notices := by
  simp only [count, after, hf]

/-- A step with a result, taken behind an earlier extraction. -/
def stepAfter {α : Type} (step : Extraction × α) (stats : ExtractStats) (notices : List Notice) :
    Extraction × α :=
  (step.1.after stats notices, step.2)

theorem store_after (x : Extraction) (action path : String) (content : Bytes) :
    (x.after stats notices).store action path content =
      stepAfter (x.store action path content) stats notices := by
  rw [store, store, tree_after]
  cases x.tree.writeFile path content with
  | ok tree => rfl
  | error fault => rfl

theorem makeParent_after (x : Extraction) (target : String) :
    (x.after stats notices).makeParent target = stepAfter (x.makeParent target) stats notices := by
  rw [makeParent, makeParent]
  cases Path.parent? target with
  | none => rfl
  | some parent =>
    dsimp only
    rw [tree_after]
    rcases x.tree.createAll parent with ⟨tree, made⟩
    cases made with
    | ok _ => rfl
    | error fault => rfl

theorem checkDigest_after (x : Extraction) (payload : Bytes) :
    (x.after stats notices).checkDigest job entry payload =
      (x.checkDigest job entry payload).after stats notices := by
  rw [checkDigest, checkDigest]
  split
  · rw [note_after, count_after]
    exact fun _ => rfl
  · rfl

theorem copy_after (x : Extraction) (payload : Bytes) (target : String) :
    (x.after stats notices).copy job entry payload target =
      stepAfter (x.copy job entry payload target) stats notices := by
  rw [copy, copy, makeParent_after]
  rcases x.makeParent target with ⟨y, made⟩
  cases made with
  | error reason => rfl
  | ok _ =>
    simp only [stepAfter, checkDigest_after, store_after]
    rcases (y.checkDigest job entry payload).store "create" target payload with ⟨z, stored⟩
    cases stored with
    | error reason => rfl
    | ok _ => simp only [note_after]

theorem writeReport_after (x : Extraction) (record : Record) (target : String) :
    (x.after stats notices).writeReport job entry record target =
      stepAfter (x.writeReport job entry record target) stats notices := by
  rw [writeReport, writeReport]
  split
  · dsimp only
    rw [noteAll_after]
    cases Report.text record with
    | error e => simp only [note_after]; rfl
    | ok report => exact store_after _ _ _ _
  · rfl

theorem decompile_after (x : Extraction) (target : String) :
    (x.after stats notices).decompile job entry target =
      stepAfter (x.decompile job entry target) stats notices := by
  rw [decompile, decompile]
  rcases decodeScript job entry with ⟨decoded, ns⟩
  dsimp only
  rw [noteAll_after]
  cases decoded with
  | error e =>
    simp only [note_after]
    rw [count_after, store_after]
    exact fun _ => rfl
  | ok pair =>
    obtain ⟨record, listing⟩ := pair
    dsimp only
    have hnoted : (if record.encodedLength ≠ entry.size.toNat then
          ((x.noteAll ns).after stats notices).note
            (.lengthDiffers entry.name record.encodedLength entry.size)
        else (x.noteAll ns).after stats notices) =
        (if record.encodedLength ≠ entry.size.toNat then
          (x.noteAll ns).note (.lengthDiffers entry.name record.encodedLength entry.size)
        else x.noteAll ns).after stats notices := by
      split
      · rw [note_after]
      · rfl
    rw [hnoted, store_after]
    generalize (if record.encodedLength ≠ entry.size.toNat then
      (x.noteAll ns).note (.lengthDiffers entry.name record.encodedLength entry.size)
      else x.noteAll ns).store "write" (Path.withExtension target listingExtension)
        (Bytes.ofText listing) = step
    obtain ⟨y, stored⟩ := step
    cases stored with
    | error reason => rfl
    | ok _ =>
      simp only [stepAfter]
      rw [count_after, writeReport_after]
      · rfl
      · exact fun _ => rfl

theorem storeFailed_after (x : Extraction) (reason : String) :
    (x.after stats notices).storeFailed entry reason =
      (x.storeFailed entry reason).after stats notices := by
  rw [storeFailed, storeFailed, note_after, count_after]
  exact fun _ => rfl

/-- **What went before an asset does not matter** to what the asset adds. -/
theorem extract_after (job : Job) (x : Extraction) (entry : Entry) (stats : ExtractStats)
    (notices : List Notice) :
    extract job (x.after stats notices) entry = (extract job x entry).after stats notices := by
  rw [extract, extract]
  split
  · rw [note_after, count_after]
    exact fun _ => rfl
  · dsimp only
    cases job.medium.range entry.offset (some entry.size) with
    | error e =>
      dsimp only
      rw [note_after, count_after]
      exact fun _ => rfl
    | ok payload =>
      dsimp only
      rw [copy_after]
      rcases x.copy job entry payload (Path.join job.output entry.relativePath) with ⟨y, copied⟩
      cases copied with
      | error reason => exact storeFailed_after y reason
      | ok _ =>
        have hcount : (y.after stats notices).count (fun s =>
            { s with extracted := s.extracted + 1 }) =
            (y.count fun s => { s with extracted := s.extracted + 1 }).after stats notices :=
          count_after y fun _ => rfl
        simp only [stepAfter, hcount]
        split
        · rw [decompile_after]
          rcases (y.count fun s => { s with extracted := s.extracted + 1 }).decompile job entry
            (Path.join job.output entry.relativePath) with ⟨z, made⟩
          cases made with
          | error reason => exact storeFailed_after z reason
          | ok _ => rfl
        · rfl

end Extraction

/-! ### The rest of the container -/

namespace Medium

/-- Two media both have a range, and the same bytes in it. -/
structure Share (m m' : Medium) (offset size : UInt64) : Prop where
  /-- The range is inside the first medium. -/
  inside : offset.toNat + size.toNat ≤ m.data.length
  /-- The range is inside the second medium. -/
  inside' : offset.toNat + size.toNat ≤ m'.data.length
  /-- The bytes in the range are the same. -/
  bytes : (m'.data.drop offset.toNat).take size.toNat = (m.data.drop offset.toNat).take size.toNat

variable {m m' : Medium} {offset size : UInt64}

theorem Share.range_eq (h : Share m m' offset size) :
    m'.range offset (some size) = m.range offset (some size) := by
  rw [range_of_le h.inside, range_of_le h.inside', h.bytes]

theorem Share.script_eq (h : Share m m' offset size) :
    m'.script offset (some size) = m.script offset (some size) := by
  rw [script, script, cursor, cursor, h.range_eq]

end Medium

namespace Extraction

variable {m m' : Medium} {entry : Entry}

theorem decodeScript_of_share (h : m.Share m' entry.offset entry.size) (output : String)
    (options : ExtractOptions) :
    decodeScript ⟨m', output, options⟩ entry = decodeScript ⟨m, output, options⟩ entry := by
  rw [decodeScript, decodeScript, h.script_eq]

theorem decompile_of_share (h : m.Share m' entry.offset entry.size) (output : String)
    (options : ExtractOptions) (x : Extraction) (target : String) :
    x.decompile ⟨m', output, options⟩ entry target =
      x.decompile ⟨m, output, options⟩ entry target := by
  have hreport : ∀ (y : Extraction) (record : Record),
      y.writeReport ⟨m', output, options⟩ entry record target =
        y.writeReport ⟨m, output, options⟩ entry record target := fun _ _ => rfl
  simp only [decompile, decodeScript_of_share h, hreport]

theorem extract_of_share (h : m.Share m' entry.offset entry.size) (output : String)
    (options : ExtractOptions) (x : Extraction) :
    extract ⟨m', output, options⟩ x entry = extract ⟨m, output, options⟩ x entry := by
  have hcopy : ∀ payload target, x.copy ⟨m', output, options⟩ entry payload target =
      x.copy ⟨m, output, options⟩ entry payload target := fun _ _ => rfl
  simp only [extract, h.range_eq, hcopy, decompile_of_share h]

/-- **An asset comes to the same in every container that holds its bytes.** Where two containers
have the same bytes in the range of an asset, they may differ elsewhere and in length. From the same
tree the asset leads to the same tree, moves the counters by the same numbers and gives the same
notices, whatever was counted and noted before. In particular the script that is decoded, or the
error that the placeholder tells of, is the same. -/
theorem extract_own_bytes (entry : Entry) (output : String) (options : ExtractOptions)
    (h : m.Share m' entry.offset entry.size) (x y : Extraction) (htree : y.tree = x.tree) :
    (extract ⟨m', output, options⟩ y entry).tree = (extract ⟨m, output, options⟩ x entry).tree ∧
    (∃ change, (extract ⟨m, output, options⟩ x entry).stats = x.stats + change ∧
      (extract ⟨m', output, options⟩ y entry).stats = y.stats + change) ∧
    (∃ ns, (extract ⟨m, output, options⟩ x entry).notices = x.notices ++ ns ∧
      (extract ⟨m', output, options⟩ y entry).notices = y.notices ++ ns) ∧
    decodeScript ⟨m', output, options⟩ entry = decodeScript ⟨m, output, options⟩ entry := by
  obtain ⟨tree, stats, notices⟩ := x
  obtain ⟨tree', stats', notices'⟩ := y
  obtain rfl : tree' = tree := htree
  rw [extract_of_share h, eq_after tree' stats, eq_after tree' stats', extract_after, extract_after]
  generalize extract ⟨m, output, options⟩ ⟨tree', {}, []⟩ entry = z
  refine ⟨rfl, ⟨z.stats, rfl, rfl⟩, ⟨z.notices, ?_, ?_⟩, decodeScript_of_share h output options⟩
  · simp only [after, List.append_nil]
  · simp only [after, List.append_nil]

/-- The container `scriptMedium`, broken off within its script. -/
def cutMedium : Medium := ⟨scriptMedium.data.take 30⟩

/-- A script that claims the part of the container that is left. -/
def cutEntry : Entry := ⟨"res://a/b.gdc", 0, 30, []⟩

theorem extract_own_bytes_cutScript :
    scriptMedium.Share cutMedium cutEntry.offset cutEntry.size ∧
      (extract ⟨cutMedium, "out", ⟨true, true, false⟩⟩ ⟨outAndKeep, { extracted := 5 }, []⟩
          cutEntry).tree =
        (extract scriptJob ⟨outAndKeep, {}, []⟩ cutEntry).tree ∧
      (∃ change, (extract scriptJob ⟨outAndKeep, {}, []⟩ cutEntry).stats = {} + change ∧
        (extract ⟨cutMedium, "out", ⟨true, true, false⟩⟩ ⟨outAndKeep, { extracted := 5 }, []⟩
          cutEntry).stats = { extracted := 5 } + change) ∧
      (extract scriptJob ⟨outAndKeep, {}, []⟩ cutEntry).stats =
        { extracted := 1, formatFailures := 1 } := by
  have hshare : scriptMedium.Share cutMedium cutEntry.offset cutEntry.size :=
    ⟨by decide, by decide, by decide⟩
  obtain ⟨htree, hstats, -⟩ := extract_own_bytes cutEntry "out" ⟨true, true, false⟩ hshare
    ⟨outAndKeep, {}, []⟩ ⟨outAndKeep, { extracted := 5 }, []⟩ rfl
  exact ⟨hshare, htree, hstats, by decide +kernel⟩

end Extraction

end AssetPack
