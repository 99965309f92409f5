import AssetPack.Proofs.Conduct
import AssetPack.Proofs.Extraction.Step

/-!
# The log tells what the counters count

An extraction gives notices and moves counters at the same places, but by separate steps, and some
assets do both twice: a script that cannot be decoded is a warning and a format failure, and if its
placeholder cannot be stored either, it is also an error and an I/O failure. The invariant
`Extraction.Agrees` says that errors in the log are rejected names and I/O failures, and that
warnings are format failures and digests that differ. Every step keeps it.

Two sorts of warnings have no counter. One is given by the decoder of script headers, for a bytecode
version that is not the known one, and it is left out of the count; what else a decoder notes is no
warning at all (`Script.Record.orderly_decode`). The other tells of a report that could not be made.
It is never given: the report of a script fails only if its listing does, and a script gets that far
only with a listing.

## Main definitions

* `Extraction.Agrees`: log and counters agree.
* `Extraction.Matches`: a change of the counters that belongs to a notice.

## Main results

* `Extraction.Agrees.extract`: an asset keeps log and counters in agreement.
* `Extraction.extractAll_log`: so do all assets.
-/

namespace AssetPack

open Container Script

/-! ### Reading a script makes remarks only -/

theorem Script.Record.isRemark_of_mem_listingNotices {r : Record} {n : Notice}
    (h : n ∈ r.listingNotices) : n.isRemark = true := by
  unfold listingNotices Listing.notices at h
  split at h
  · rw [List.mem_singleton.mp h]
    rfl
  · cases h

theorem Medium.isRemark_of_mem_script {m : Medium} {offset : UInt64} {length : Option UInt64}
    {n : Notice} (h : n ∈ (m.script offset length).2) : n.isRemark = true := by
  rw [script] at h
  split at h
  · cases h
  · next c _ => exact (Record.orderly_decode c).remarks n h

namespace Extraction

variable {job : Job} {entry : Entry} {x : Extraction}

theorem isRemark_of_mem_decodeScript {n : Notice} (h : n ∈ (decodeScript job entry).2) :
    n.isRemark = true := by
  have hread : ∀ n ∈ (job.medium.script entry.offset (some entry.size)).2, n.isRemark = true :=
    fun n hn => Medium.isRemark_of_mem_script hn
  rw [decodeScript] at h
  generalize job.medium.script entry.offset (some entry.size) = read at hread h
  obtain ⟨outcome, ns⟩ := read
  cases outcome with
  | error e => exact hread n h
  | ok record =>
    dsimp only at h
    split at h
    · exact hread n h
    · rcases List.mem_append.mp h with h | h
      · exact hread n h
      · exact Record.isRemark_of_mem_listingNotices h

/-! ### Agreement -/

/-- The log and the counters say the same, and no report has failed. -/
structure Agrees (x : Extraction) : Prop where
  errors : x.notices.countP Notice.isError = x.stats.rejectedPaths + x.stats.ioFailures
  warnings : x.notices.countP Notice.isComplaint =
    x.stats.formatFailures + x.stats.checksumMismatches
  reports : ∀ asset e, Notice.reportFailed asset e ∉ x.notices

/-- A change of the counters that belongs to a notice. -/
structure Matches (n : Notice) (f : ExtractStats → ExtractStats) : Prop where
  errors : ∀ s, (f s).rejectedPaths + (f s).ioFailures =
    s.rejectedPaths + s.ioFailures + n.isError.toNat
  warnings : ∀ s, (f s).formatFailures + (f s).checksumMismatches =
    s.formatFailures + s.checksumMismatches + n.isComplaint.toNat
  report : ∀ asset e, Notice.reportFailed asset e ≠ n

namespace Agrees

theorem start (tree : FileTree) : Agrees ⟨tree, {}, []⟩ := ⟨rfl, rfl, fun _ _ => List.not_mem_nil⟩

/-- The tree does not matter. -/
theorem withTree (h : x.Agrees) (t : FileTree) : Agrees { x with tree := t } :=
  ⟨h.errors, h.warnings, h.reports⟩

/-- A notice together with the counter that belongs to it. -/
theorem note_count {n : Notice} {f : ExtractStats → ExtractStats} (h : x.Agrees)
    (hf : Matches n f) : ((x.note n).count f).Agrees := by
  have hone : ∀ p : Notice → Bool, (x.notices ++ [n]).countP p =
      x.notices.countP p + (p n).toNat := by
    intro p
    rw [List.countP_append, List.countP_singleton]
    cases p n with
    | true => rfl
    | false => rfl
  refine ⟨?_, ?_, fun asset e hmem => ?_⟩
  · calc (x.notices ++ [n]).countP Notice.isError
        = x.stats.rejectedPaths + x.stats.ioFailures + n.isError.toNat := by rw [hone, h.errors]
      _ = (f x.stats).rejectedPaths + (f x.stats).ioFailures := (hf.errors x.stats).symm
  · calc (x.notices ++ [n]).countP Notice.isComplaint
        = x.stats.formatFailures + x.stats.checksumMismatches + n.isComplaint.toNat := by
          rw [hone, h.warnings]
      _ = (f x.stats).formatFailures + (f x.stats).checksumMismatches :=
          (hf.warnings x.stats).symm
  · rcases List.mem_append.mp hmem with hmem | hmem
    · exact h.reports asset e hmem
    · exact hf.report asset e (List.mem_singleton.mp hmem)

/-- Remarks belong to no counter. -/
theorem noteAll (h : x.Agrees) {ns : List Notice} (hns : ∀ n ∈ ns, n.isRemark = true) :
    (x.noteAll ns).Agrees := by
  have hquiet : ∀ n ∈ ns, n.isError = false ∧ n.isComplaint = false := by
    intro n hn
    have hremark := hns n hn
    rw [Notice.isRemark, Bool.and_eq_true, Bool.not_eq_true', Bool.not_eq_true'] at hremark
    exact hremark
  have hkept : ∀ p : Notice → Bool, (∀ n ∈ ns, p n = false) →
      (x.notices ++ ns).countP p = x.notices.countP p := by
    intro p hp
    have hnone : ns.countP p = 0 :=
      List.countP_eq_zero.mpr fun n hn => Bool.eq_false_iff.mp (hp n hn)
    rw [List.countP_append, hnone, Nat.add_zero]
  refine ⟨(hkept _ fun n hn => (hquiet n hn).1).trans h.errors,
    (hkept _ fun n hn => (hquiet n hn).2).trans h.warnings, fun asset e hmem => ?_⟩
  rcases List.mem_append.mp hmem with hmem | hmem
  · exact h.reports asset e hmem
  · exact Bool.noConfusion (hns _ hmem)

theorem note (h : x.Agrees) {n : Notice} (hn : n.isRemark = true) : (x.note n).Agrees :=
  h.noteAll fun m hm => by rw [List.mem_singleton.mp hm]; exact hn

/-! ### Storing -/

theorem store (h : x.Agrees) (action path : String) (content : Bytes) :
    (x.store action path content).1.Agrees := by
  rcases store_cases x action path content with ⟨t, -, hstore⟩ | ⟨fault, -, hstore⟩
  · rw [hstore]
    exact h.withTree t
  · rw [hstore]
    exact h

theorem makeParent (h : x.Agrees) (target : String) : (x.makeParent target).1.Agrees := by
  rcases makeParent_cases x target with ⟨t, -, hmake⟩ | ⟨t, fault, reason, -, hmake⟩
  · rw [hmake]
    exact h.withTree t
  · rw [hmake]
    exact h.withTree t

theorem checkDigest (h : x.Agrees) (job : Job) (entry : Entry) (payload : Bytes) :
    (x.checkDigest job entry payload).Agrees := by
  rw [Extraction.checkDigest]
  split
  · exact h.note_count ⟨fun _ => rfl, fun _ => rfl, fun _ _ h => by cases h⟩
  · exact h

theorem copy (h : x.Agrees) (job : Job) (entry : Entry) (payload : Bytes) (target : String) :
    (x.copy job entry payload target).1.Agrees := by
  have hmade := h.makeParent target
  rw [Extraction.copy]
  generalize x.makeParent target = made at hmade ⊢
  obtain ⟨y, result⟩ := made
  cases result with
  | error reason => exact hmade
  | ok _ =>
    have hstored := (hmade.checkDigest job entry payload).store "create" target payload
    dsimp only at hstored ⊢
    generalize (y.checkDigest job entry payload).store "create" target payload = stored at hstored ⊢
    obtain ⟨z, result⟩ := stored
    cases result with
    | error reason => exact hstored
    | ok _ => exact hstored.note rfl

/-! ### Text -/

/-- A report that can be made is written or not, but not complained about. -/
theorem writeReport (h : x.Agrees) {record : Record} {report : String}
    (hreport : Report.text record = .ok report) (job : Job) (entry : Entry) (target : String) :
    (x.writeReport job entry record target).1.Agrees := by
  rw [Extraction.writeReport]
  split
  · rw [hreport]
    exact (h.noteAll fun _ => Record.isRemark_of_mem_listingNotices).store ..
  · exact h

theorem decompile (h : x.Agrees) (job : Job) (entry : Entry) (target : String) :
    (x.decompile job entry target).1.Agrees := by
  have hnoted : (x.noteAll (decodeScript job entry).2).Agrees :=
    h.noteAll fun _ => isRemark_of_mem_decodeScript
  rw [Extraction.decompile]
  rcases hscript : decodeScript job entry with ⟨decoded, ns⟩
  rw [hscript] at hnoted
  cases decoded with
  | error e =>
    have hfailed : Matches (.undecodable entry.name e) fun s =>
        { s with formatFailures := s.formatFailures + 1 } :=
      ⟨fun _ => rfl, fun _ => Nat.add_right_comm .., fun _ _ h => by cases h⟩
    exact (hnoted.note_count hfailed).store ..
  | ok pair =>
    obtain ⟨record, listing⟩ := pair
    obtain ⟨report, hreport⟩ := report_of_decode (congrArg Prod.fst hscript)
    dsimp only
    generalize hmeasured : (if record.encodedLength ≠ entry.size.toNat then
      (x.noteAll ns).note (.lengthDiffers entry.name record.encodedLength entry.size)
      else x.noteAll ns) = y
    have hy : y.Agrees := by
      rw [← hmeasured]
      split
      · exact hnoted.note rfl
      · exact hnoted
    have hstored := hy.store "write" (Path.withExtension target listingExtension)
      (Bytes.ofText listing)
    generalize y.store "write" (Path.withExtension target listingExtension)
      (Bytes.ofText listing) = stored at hstored ⊢
    obtain ⟨z, result⟩ := stored
    cases result with
    | error reason => exact hstored
    | ok _ =>
      have hlisted : (z.count fun s => { s with decompiled := s.decompiled + 1 }).Agrees :=
        ⟨hstored.errors, hstored.warnings, hstored.reports⟩
      exact hlisted.writeReport hreport ..

/-! ### Assets -/

theorem storeFailed (h : x.Agrees) (entry : Entry) (reason : String) :
    (x.storeFailed entry reason).Agrees :=
  h.note_count ⟨fun _ => rfl, fun _ => rfl, fun _ _ h => by cases h⟩

/-- **An asset keeps log and counters in agreement.** -/
theorem extract (h : x.Agrees) (job : Job) (entry : Entry) :
    (extract job x entry).Agrees := by
  rw [Extraction.extract]
  split
  · exact h.note_count ⟨fun _ => Nat.add_right_comm .., fun _ => rfl, fun _ _ h => by cases h⟩
  · dsimp only
    generalize Path.join job.output entry.relativePath = target
    cases job.medium.range entry.offset (some entry.size) with
    | error e =>
      exact h.note_count ⟨fun _ => rfl, fun _ => Nat.add_right_comm .., fun _ _ h => by cases h⟩
    | ok payload =>
      have hcopied := h.copy job entry payload target
      dsimp only
      generalize x.copy job entry payload target = copied at hcopied ⊢
      obtain ⟨y, result⟩ := copied
      cases result with
      | error reason => exact hcopied.storeFailed entry reason
      | ok _ =>
        have hextracted : (y.count fun s => { s with extracted := s.extracted + 1 }).Agrees :=
          ⟨hcopied.errors, hcopied.warnings, hcopied.reports⟩
        dsimp only
        generalize (y.count fun s => { s with extracted := s.extracted + 1 }) = z at hextracted ⊢
        split
        · have htext := hextracted.decompile job entry target
          generalize z.decompile job entry target = made at htext ⊢
          obtain ⟨w, result⟩ := made
          cases result with
          | error reason => exact htext.storeFailed entry reason
          | ok _ => exact htext
        · exact hextracted

theorem extractAll (h : x.Agrees) (job : Job) (entries : List Entry) :
    (extractAll job x entries).Agrees := by
  induction entries generalizing x with
  | nil => exact h
  | cons entry rest ih =>
    -- Without this step `extract` itself would be unfolded to compare the two runs.
    rw [Extraction.extractAll, List.foldl_cons]
    exact ih (h.extract job entry)

end Agrees

/-- **The log tells what the counters count.** Over an extraction of any assets there are as many
errors as rejected names and I/O failures, and as many warnings, other than those about a bytecode
version, as format failures and digests that differ. That a report failed is never said. -/
theorem extractAll_log (job : Job) (tree : FileTree) (entries : List Entry) :
    let final := extractAll job ⟨tree, {}, []⟩ entries
    final.notices.countP (fun n => n.level == .error) =
        final.stats.rejectedPaths + final.stats.ioFailures ∧
      final.notices.countP (fun n => n.level == .warn && !n.isVersionWarning) =
        final.stats.formatFailures + final.stats.checksumMismatches ∧
      ∀ asset e, Notice.reportFailed asset e ∉ final.notices := by
  intro final
  have hagrees : final.Agrees := (Agrees.start tree).extractAll job entries
  exact ⟨hagrees.errors, hagrees.warnings, hagrees.reports⟩

end Extraction

end AssetPack
