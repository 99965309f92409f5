import AssetPack.Extraction
import AssetPack.Proofs.Containment
import Mathlib.Data.List.Count

/-!
# What extracting one asset can do

`Extraction.extract` goes through three functions, each of which passes on a tree, counters and
notices. This module says once what comes out, without the notices: an asset has one of nine
*fates*, `Extraction.Step` says for each fate under which conditions it arises and which tree it
leaves, and `Extraction.Counted` says which counters it moves. Statements about whole extractions
follow from `Extraction.step_extract` by induction over the assets, and no longer look at the code.

The fates are the four ends of an asset that is not made into text (its name is rejected, its bytes
are not there, it cannot be stored, it is copied) and the five ends of a script that is.

## Main definitions

* `Fate`, `TextFate`: what became of an asset, and of the text of a script.
* `Extraction.Step`: the tree that an asset with a given fate leaves.
* `Extraction.Counted`: the counters that assets with given fates leave.
* `Extraction.Run`: steps in a row.

## Main results

* `Extraction.step_extract`: extracting an asset is a step.
* `Extraction.run_extractAll`: extracting assets is a run.
-/

namespace AssetPack

open Container Script

/-- What became of the text of a script that was copied. -/
inductive TextFate where
  /-- All that was wanted is written. -/
  | listed
  /-- The listing is written, but the report could not be stored. -/
  | unreported
  /-- The listing could not be stored. -/
  | unlisted
  /-- The script could not be decoded, and a placeholder says so. -/
  | undecoded
  /-- The script could not be decoded, and the placeholder could not be stored. -/
  | unmarked
  deriving DecidableEq, Repr

/-- What became of an asset. -/
inductive Fate where
  /-- The name would leave the output directory. -/
  | rejected
  /-- The bytes are not all in the container. -/
  | outOfRange
  /-- The bytes could not be stored. -/
  | uncopied
  /-- The bytes are stored, and the asset is no script. -/
  | copied
  /-- The bytes of a script are stored; `text` is what became of its text, if one was wanted. -/
  | script (text : Option TextFate)
  deriving DecidableEq, Repr

namespace TextFate

/-- The listing is written. -/
def isListed (f : TextFate) : Bool := f matches listed | unreported

/-- The script could not be decoded. -/
def isUndecoded (f : TextFate) : Bool := f matches undecoded | unmarked

/-- Something that was made from the script could not be stored. -/
def isUnstored (f : TextFate) : Bool := f matches unreported | unlisted | unmarked

end TextFate

namespace Fate

/-- The bytes of the asset were found in the container. -/
def isFound (f : Fate) : Bool := !(f matches rejected | outOfRange)

/-- The bytes of the asset are stored. -/
def isCopied (f : Fate) : Bool := f matches copied | script _

/-- The asset is a script whose bytes are stored. -/
def isScript (f : Fate) : Bool := f matches script _

/-- What became of the text that was wanted. -/
def text? : Fate → Option TextFate
  | script text => text
  | _ => none

/-- The listing is written. -/
def isListed (f : Fate) : Bool := f.text?.any TextFate.isListed

/-- The script could not be decoded. -/
def isUndecoded (f : Fate) : Bool := f.text?.any TextFate.isUndecoded

/-- Something that was made from the script could not be stored. -/
def isUnstored (f : Fate) : Bool := f.text?.any TextFate.isUnstored

end Fate

/-- Where an asset goes. -/
def Job.target (job : Job) (entry : Entry) : String := Path.join job.output entry.relativePath

/-- Make the directory that a target lies in. -/
def FileTree.createParent (t : FileTree) (target : String) : FileTree × Except Fault Unit :=
  match Path.parent? target with
  | none => (t, .ok ())
  | some parent => t.createAll parent

namespace Extraction

/-- Where the listing of a script goes. -/
def listingPath (job : Job) (entry : Entry) : String :=
  Path.withExtension (job.target entry) listingExtension

/-- Where the report of a script goes. -/
def reportPath (job : Job) (entry : Entry) : String :=
  Path.withExtension (job.target entry) reportExtension

/-! ### Steps -/

/-- The tree that making text from a script leaves, for each fate of the text. -/
inductive TextStep (job : Job) (entry : Entry) (t : FileTree) : TextFate → FileTree → Prop where
  | listed {record : Record} {listing : String} {t₁ t₂ : FileTree}
    (hdecode : (decodeScript job entry).1 = .ok (record, listing))
    (hlisting : t.writeFile (listingPath job entry) (Bytes.ofText listing) = .ok t₁)
    (hreport : if job.options.dump then ∃ report, Report.text record = .ok report ∧
      t₁.writeFile (reportPath job entry) (Bytes.ofText report) = .ok t₂ else t₂ = t₁) :
    TextStep job entry t .listed t₂
  | unreported {record : Record} {listing report : String} {t₁ : FileTree} {fault : Fault}
    (hdecode : (decodeScript job entry).1 = .ok (record, listing))
    (hlisting : t.writeFile (listingPath job entry) (Bytes.ofText listing) = .ok t₁)
    (hdump : job.options.dump = true) (hreport : Report.text record = .ok report)
    (hstore : t₁.writeFile (reportPath job entry) (Bytes.ofText report) = .error fault) :
    TextStep job entry t .unreported t₁
  | unlisted {record : Record} {listing : String} {fault : Fault}
    (hdecode : (decodeScript job entry).1 = .ok (record, listing))
    (hlisting : t.writeFile (listingPath job entry) (Bytes.ofText listing) = .error fault) :
    TextStep job entry t .unlisted t
  | undecoded {e : ScriptError} {t₁ : FileTree} (hdecode : (decodeScript job entry).1 = .error e)
    (hstore : t.writeFile (listingPath job entry) (Bytes.ofText (placeholder entry e)) = .ok t₁) :
    TextStep job entry t .undecoded t₁
  | unmarked {e : ScriptError} {fault : Fault} (hdecode : (decodeScript job entry).1 = .error e)
    (hstore : t.writeFile (listingPath job entry) (Bytes.ofText (placeholder entry e)) =
      .error fault) :
    TextStep job entry t .unmarked t

/-- The bytes of an asset are found and stored at its target. -/
def Copies (job : Job) (entry : Entry) (t t' : FileTree) : Prop :=
  Path.isContained entry.relativePath = true ∧ ∃ payload t₁,
    job.medium.range entry.offset (some entry.size) = .ok payload ∧
    t.createParent (job.target entry) = (t₁, .ok ()) ∧
    t₁.writeFile (job.target entry) payload = .ok t'

/-- The tree that extracting an asset leaves, for each fate of the asset. -/
inductive Step (job : Job) (entry : Entry) (t : FileTree) : Fate → FileTree → Prop where
  | rejected (hpath : Path.isContained entry.relativePath = false) :
    Step job entry t .rejected t
  | outOfRange {e : Bounds} (hpath : Path.isContained entry.relativePath = true)
    (hrange : job.medium.range entry.offset (some entry.size) = .error e) :
    Step job entry t .outOfRange t
  | homeless {payload : Bytes} {t₁ : FileTree} {fault : Fault}
    (hpath : Path.isContained entry.relativePath = true)
    (hrange : job.medium.range entry.offset (some entry.size) = .ok payload)
    (hparent : t.createParent (job.target entry) = (t₁, .error fault)) :
    Step job entry t .uncopied t₁
  | unwritten {payload : Bytes} {t₁ : FileTree} {fault : Fault}
    (hpath : Path.isContained entry.relativePath = true)
    (hrange : job.medium.range entry.offset (some entry.size) = .ok payload)
    (hparent : t.createParent (job.target entry) = (t₁, .ok ()))
    (hwrite : t₁.writeFile (job.target entry) payload = .error fault) :
    Step job entry t .uncopied t₁
  | copied {t₁ : FileTree} (hcopy : Copies job entry t t₁) (hscript : entry.isScript = false) :
    Step job entry t .copied t₁
  | untold {t₁ : FileTree} (hcopy : Copies job entry t t₁) (hscript : entry.isScript = true)
    (hdecompile : job.options.decompile = false) :
    Step job entry t (.script none) t₁
  | script {t₁ t₂ : FileTree} {text : TextFate} (hcopy : Copies job entry t t₁)
    (hscript : entry.isScript = true) (hdecompile : job.options.decompile = true)
    (htext : TextStep job entry t₁ text t₂) :
    Step job entry t (.script (some text)) t₂

/-- The counters that assets with given fates leave. How many digests differ is not told by the
fates, but it takes the bytes of an asset to tell. -/
structure Counted (before : ExtractStats) (fates : List Fate) (after : ExtractStats) : Prop where
  extracted : after.extracted = before.extracted + fates.countP Fate.isCopied
  decompiled : after.decompiled = before.decompiled + fates.countP Fate.isListed
  formatFailures : after.formatFailures =
    before.formatFailures + fates.count .outOfRange + fates.countP Fate.isUndecoded
  rejectedPaths : after.rejectedPaths = before.rejectedPaths + fates.count .rejected
  ioFailures : after.ioFailures =
    before.ioFailures + fates.count .uncopied + fates.countP Fate.isUnstored
  mismatches_ge : before.checksumMismatches ≤ after.checksumMismatches
  mismatches_le : after.checksumMismatches ≤
    before.checksumMismatches + fates.countP Fate.isFound

/-! ### Storing -/

variable {job : Job} {entry : Entry}

theorem store_cases (x : Extraction) (action path : String) (content : Bytes) :
    (∃ t, x.tree.writeFile path content = .ok t ∧
      x.store action path content = ({ x with tree := t }, .ok ())) ∨
    ∃ fault, x.tree.writeFile path content = .error fault ∧
      x.store action path content = (x, .error (storeReason action path fault)) := by
  rw [store]
  cases hwrite : x.tree.writeFile path content with
  | ok t => exact .inl ⟨t, rfl, rfl⟩
  | error fault => exact .inr ⟨fault, rfl, rfl⟩

theorem makeParent_cases (x : Extraction) (target : String) :
    (∃ t, x.tree.createParent target = (t, .ok ()) ∧
      x.makeParent target = ({ x with tree := t }, .ok ())) ∨
    ∃ t fault reason, x.tree.createParent target = (t, .error fault) ∧
      x.makeParent target = ({ x with tree := t }, .error reason) := by
  rw [makeParent, FileTree.createParent]
  cases Path.parent? target with
  | none => exact .inl ⟨x.tree, rfl, rfl⟩
  | some parent =>
    rcases hcreate : x.tree.createAll parent with ⟨t, made⟩
    cases made with
    | ok _ => exact .inl ⟨t, hcreate, by simp only [hcreate]⟩
    | error fault =>
      exact .inr ⟨t, fault, storeReason "create" parent fault, hcreate, by simp only [hcreate]⟩

/-- Nothing is counted but the digest of a payload, if it differs. -/
def Doubted (entry : Entry) (payload : Bytes) (before after : ExtractStats) : Prop :=
  ∃ m ≤ 1, (entry.verify payload = true → m = 0) ∧
    after = { before with checksumMismatches := before.checksumMismatches + m }

theorem Doubted.refl (entry : Entry) (payload : Bytes) (s : ExtractStats) :
    Doubted entry payload s s :=
  ⟨0, Nat.zero_le 1, fun _ => rfl, rfl⟩

theorem doubted_checkDigest (x : Extraction) (job : Job) (entry : Entry) (payload : Bytes) :
    Doubted entry payload x.stats (x.checkDigest job entry payload).stats := by
  rw [checkDigest]
  split
  · next hdiffers =>
    refine ⟨1, Nat.le_refl 1, fun hverify => ?_, rfl⟩
    rw [hverify, Bool.not_true, Bool.and_false] at hdiffers
    cases hdiffers
  · exact .refl entry payload x.stats

theorem copy_cases (x : Extraction) (job : Job) (entry : Entry) (payload : Bytes) :
    ∃ y result, x.copy job entry payload (job.target entry) = (y, result) ∧
      Doubted entry payload x.stats y.stats ∧
      ((∃ reason fault, result = .error reason ∧
          x.tree.createParent (job.target entry) = (y.tree, .error fault)) ∨
        (∃ reason fault, result = .error reason ∧
          x.tree.createParent (job.target entry) = (y.tree, .ok ()) ∧
          y.tree.writeFile (job.target entry) payload = .error fault) ∨
        ∃ t, result = .ok () ∧ x.tree.createParent (job.target entry) = (t, .ok ()) ∧
          t.writeFile (job.target entry) payload = .ok y.tree) := by
  rw [copy]
  rcases makeParent_cases x (job.target entry) with
    ⟨t, hparent, hmake⟩ | ⟨t, fault, reason, hparent, hmake⟩
  · have hdoubt := doubted_checkDigest { x with tree := t } job entry payload
    simp only [hmake]
    rcases store_cases (checkDigest { x with tree := t } job entry payload) "create"
      (job.target entry) payload with ⟨t', hwrite, hstore⟩ | ⟨fault, hwrite, hstore⟩
    · rw [tree_checkDigest] at hwrite
      simp only [hstore]
      exact ⟨_, _, rfl, hdoubt, .inr (.inr ⟨t, rfl, hparent, hwrite⟩)⟩
    · rw [tree_checkDigest] at hwrite
      simp only [hstore]
      refine ⟨_, _, rfl, hdoubt, .inr (.inl ⟨_, fault, rfl, ?_, ?_⟩)⟩
      · rw [tree_checkDigest, hparent]
      · rw [tree_checkDigest, hwrite]
  · simp only [hmake]
    exact ⟨_, _, rfl, .refl entry payload x.stats, .inl ⟨reason, fault, rfl, hparent⟩⟩

/-! ### Text -/

theorem report_of_decode {record : Record} {listing : String}
    (h : (decodeScript job entry).1 = .ok (record, listing)) :
    ∃ report, Report.text record = .ok report := by
  rw [decodeScript] at h
  split at h
  · cases h
  · next r ns hscript =>
    split at h
    · cases h
    · next text hlisting =>
      cases h
      exact ⟨_, by rw [Report.text, hlisting]; rfl⟩

theorem writeReport_cases (x : Extraction) (job : Job) (entry : Entry) {record : Record}
    {report : String} (hreport : Report.text record = .ok report) :
    ∃ y result, x.writeReport job entry record (job.target entry) = (y, result) ∧
      y.stats = x.stats ∧
      ((result = .ok () ∧ if job.options.dump then ∃ report, Report.text record = .ok report ∧
          x.tree.writeFile (reportPath job entry) (Bytes.ofText report) = .ok y.tree
        else y.tree = x.tree) ∨
      ∃ reason fault, result = .error reason ∧ y.tree = x.tree ∧ job.options.dump = true ∧
        x.tree.writeFile (reportPath job entry) (Bytes.ofText report) = .error fault) := by
  rw [writeReport]
  by_cases hdump : job.options.dump = true
  · simp only [if_pos hdump, hreport]
    rcases store_cases (x.noteAll record.listingNotices) "write" (reportPath job entry)
      (Bytes.ofText report) with ⟨t, hwrite, hstore⟩ | ⟨fault, hwrite, hstore⟩
    · exact ⟨_, _, hstore, rfl, .inl ⟨rfl, report, rfl, hwrite⟩⟩
    · exact ⟨_, _, hstore, rfl, .inr ⟨_, fault, rfl, rfl, hdump, hwrite⟩⟩
  · simp only [if_neg hdump]
    exact ⟨x, .ok (), rfl, rfl, .inl ⟨rfl, rfl⟩⟩

/-- The counters after text was made, or was to be made, from a script. -/
def counted (s : ExtractStats) (text : TextFate) : ExtractStats :=
  { s with
    decompiled := s.decompiled + text.isListed.toNat
    formatFailures := s.formatFailures + text.isUndecoded.toNat }

/-- Before a decoded script is written, notices are all that changes. -/
theorem decompile_of_ok (x : Extraction) {record : Record} {listing : String}
    (hdecode : (decodeScript job entry).1 = .ok (record, listing)) :
    ∃ y : Extraction, y.tree = x.tree ∧ y.stats = x.stats ∧
      ∀ z result, y.store "write" (listingPath job entry) (Bytes.ofText listing) = (z, result) →
        x.decompile job entry (job.target entry) =
          match result with
          | .error reason => (z, .error reason)
          | .ok () => (z.count fun s => { s with decompiled := s.decompiled + 1 }).writeReport job
              entry record (job.target entry) := by
  rcases hscript : decodeScript job entry with ⟨decoded, ns⟩
  rw [hscript] at hdecode
  subst hdecode
  rw [decompile, hscript, listingPath]
  dsimp only
  generalize hnoted : (if record.encodedLength ≠ entry.size.toNat then
    (x.noteAll ns).note (.lengthDiffers entry.name record.encodedLength entry.size)
    else x.noteAll ns) = y
  have hy : y.tree = x.tree ∧ y.stats = x.stats := by
    rw [← hnoted]
    split
    · exact ⟨rfl, rfl⟩
    · exact ⟨rfl, rfl⟩
  refine ⟨y, hy.1, hy.2, fun z result hstore => ?_⟩
  rw [hstore]
  cases result with
  | error reason => rfl
  | ok _ => rfl

theorem decompile_of_error (x : Extraction) {e : ScriptError}
    (hdecode : (decodeScript job entry).1 = .error e) :
    ∃ y : Extraction, y.tree = x.tree ∧ y.stats = counted x.stats .undecoded ∧
      x.decompile job entry (job.target entry) =
        y.store "write" (listingPath job entry) (Bytes.ofText (placeholder entry e)) := by
  rcases hscript : decodeScript job entry with ⟨decoded, ns⟩
  rw [hscript] at hdecode
  subst hdecode
  rw [decompile, hscript, listingPath]
  dsimp only
  refine ⟨((x.noteAll ns).note (.undecodable entry.name e)).count fun s =>
    { s with formatFailures := s.formatFailures + 1 }, ?_⟩
  exact ⟨rfl, rfl, rfl⟩

theorem decompile_cases (x : Extraction) (job : Job) (entry : Entry) :
    ∃ y result text, x.decompile job entry (job.target entry) = (y, result) ∧
      TextStep job entry x.tree text y.tree ∧ y.stats = counted x.stats text ∧
      (result = .ok () ∧ text.isUnstored = false ∨
        ∃ reason, result = .error reason ∧ text.isUnstored = true) := by
  cases hdecode : (decodeScript job entry).1 with
  | error e =>
    obtain ⟨y, htree, hstats, hdecompile⟩ := decompile_of_error x hdecode
    rw [hdecompile]
    rcases store_cases y "write" (listingPath job entry) (Bytes.ofText (placeholder entry e)) with
      ⟨t, hwrite, hstore⟩ | ⟨fault, hwrite, hstore⟩
    · rw [htree] at hwrite
      exact ⟨_, _, .undecoded, hstore, .undecoded hdecode hwrite, hstats, .inl ⟨rfl, rfl⟩⟩
    · rw [htree] at hwrite
      refine ⟨_, _, .unmarked, hstore, ?_, hstats, .inr ⟨_, rfl, rfl⟩⟩
      rw [htree]
      exact .unmarked hdecode hwrite
  | ok pair =>
    obtain ⟨record, listing⟩ := pair
    obtain ⟨report, hreport⟩ := report_of_decode hdecode
    obtain ⟨y, htree, hstats, hdecompile⟩ := decompile_of_ok x hdecode
    rcases store_cases y "write" (listingPath job entry) (Bytes.ofText listing) with
      ⟨t, hwrite, hstore⟩ | ⟨fault, hwrite, hstore⟩
    · rw [htree] at hwrite
      rw [hdecompile _ _ hstore]
      obtain ⟨z, result, hz, hzstats, hend⟩ := writeReport_cases
        (count { y with tree := t } fun s => { s with decompiled := s.decompiled + 1 }) job entry
        hreport
      have hcounted : z.stats = counted x.stats .listed := by
        rw [hzstats, ← hstats]
        rfl
      rcases hend with ⟨rfl, hdone⟩ | ⟨reason, fault, rfl, hztree, hdump, hfault⟩
      · exact ⟨z, _, .listed, hz, .listed hdecode hwrite hdone, hcounted, .inl ⟨rfl, rfl⟩⟩
      · refine ⟨z, _, .unreported, hz, ?_, hcounted, .inr ⟨reason, rfl, rfl⟩⟩
        rw [hztree]
        exact .unreported hdecode hwrite hdump hreport hfault
    · rw [htree] at hwrite
      rw [hdecompile _ _ hstore]
      refine ⟨y, _, .unlisted, rfl, ?_, hstats, .inr ⟨_, rfl, rfl⟩⟩
      rw [htree]
      exact .unlisted hdecode hwrite

/-! ### Assets -/

/-- The digest that is stored for an asset is that of its bytes, if they are there. -/
def Sound (job : Job) (entry : Entry) : Prop :=
  ∀ payload, job.medium.range entry.offset (some entry.size) = .ok payload →
    entry.verify payload = true

/-- The counters after one asset, of which `m` digests differ. -/
theorem counted_singleton {before after : ExtractStats} (fate : Fate) {m : Nat}
    (hm : m ≤ fate.isFound.toNat) (hsound : Sound job entry → m = 0)
    (h : after = ⟨before.extracted + fate.isCopied.toNat,
      before.decompiled + fate.isListed.toNat,
      before.formatFailures + (fate == .outOfRange).toNat + fate.isUndecoded.toNat,
      before.rejectedPaths + (fate == .rejected).toNat,
      before.ioFailures + (fate == .uncopied).toNat + fate.isUnstored.toNat,
      before.checksumMismatches + m⟩) :
    Counted before [fate] after ∧
      (Sound job entry → after.checksumMismatches = before.checksumMismatches) := by
  have hone : ∀ p : Fate → Bool, (p fate).toNat = [fate].countP p := by
    intro p
    rw [List.countP_singleton]
    cases p fate with
    | true => rfl
    | false => rfl
  have hcount : ∀ f : Fate, (fate == f).toNat = [fate].count f := fun f => hone (· == f)
  simp only [hone, hcount] at h hm
  subst h
  refine ⟨⟨rfl, rfl, rfl, rfl, rfl, Nat.le_add_right _ _, Nat.add_le_add_left hm _⟩, fun hall => ?_⟩
  rw [hsound hall]
  rfl

/-- **Extracting an asset is a step**, and a digest differs only if the stored one is wrong. -/
theorem step_extract (job : Job) (x : Extraction) (entry : Entry) :
    ∃ fate, Step job entry x.tree fate (extract job x entry).tree ∧
      Counted x.stats [fate] (extract job x entry).stats ∧
      (Sound job entry → (extract job x entry).stats.checksumMismatches =
        x.stats.checksumMismatches) := by
  rw [extract]
  cases hpath : Path.isContained entry.relativePath with
  | false =>
    exact ⟨.rejected, .rejected hpath,
      counted_singleton .rejected (Nat.zero_le _) (fun _ => rfl) rfl⟩
  | true =>
    simp only [Bool.not_true, Bool.false_eq_true, if_false]
    cases hrange : job.medium.range entry.offset (some entry.size) with
    | error e =>
      exact ⟨.outOfRange, .outOfRange hpath hrange,
        counted_singleton .outOfRange (Nat.zero_le _) (fun _ => rfl) rfl⟩
    | ok payload =>
      obtain ⟨y, result, hcopy, ⟨m, hm, hverify, hdoubt⟩, hend⟩ := copy_cases x job entry payload
      have hsound : Sound job entry → m = 0 := fun hall => hverify (hall payload hrange)
      have huncopied := counted_singleton .uncopied hm hsound
        (show { y.stats with ioFailures := y.stats.ioFailures + 1 } = _ by rw [hdoubt]; rfl)
      rw [Job.target] at hcopy
      simp only [hcopy]
      rcases hend with ⟨reason, fault, rfl, hparent⟩ | ⟨reason, fault, rfl, hparent, hwrite⟩ |
        ⟨t, rfl, hparent, hwrite⟩
      · exact ⟨.uncopied, .homeless hpath hrange hparent, huncopied⟩
      · exact ⟨.uncopied, .unwritten hpath hrange hparent hwrite, huncopied⟩
      · have hcopies : Copies job entry x.tree y.tree :=
          ⟨hpath, payload, t, hrange, hparent, hwrite⟩
        cases hscript : entry.isScript with
        | false =>
          simp only [Bool.and_false, Bool.false_eq_true, if_false]
          exact ⟨.copied, .copied hcopies hscript,
            counted_singleton .copied hm hsound (by rw [count, hdoubt]; rfl)⟩
        | true =>
          cases hdecompile : job.options.decompile with
          | false =>
            simp only [Bool.and_true, Bool.false_eq_true, if_false]
            exact ⟨.script none, .untold hcopies hscript hdecompile,
              counted_singleton (.script none) hm hsound (by rw [count, hdoubt]; rfl)⟩
          | true =>
            obtain ⟨z, result, text, hz, htext, hstats, hresult⟩ :=
              decompile_cases (y.count fun s => { s with extracted := s.extracted + 1 }) job entry
            have hfate : Step job entry x.tree (.script (some text)) z.tree :=
              .script hcopies hscript hdecompile htext
            have hcounted : ∀ stats, stats = { z.stats with
                ioFailures := z.stats.ioFailures + text.isUnstored.toNat } →
                Counted x.stats [.script (some text)] stats ∧ (Sound job entry →
                  stats.checksumMismatches = x.stats.checksumMismatches) := by
              rintro stats rfl
              refine counted_singleton (.script (some text)) hm hsound ?_
              rw [hstats, count, hdoubt]
              rfl
            rw [Job.target] at hz
            simp only [Bool.and_true, if_true, hz]
            rcases hresult with ⟨rfl, hstored⟩ | ⟨reason, rfl, hstored⟩
            · exact ⟨_, hfate, hcounted _ (by rw [hstored]; rfl)⟩
            · exact ⟨_, hfate, hcounted _ (by rw [hstored]; rfl)⟩

/-! ### Runs -/

/-- Steps in a row. -/
inductive Run (job : Job) : FileTree → List Entry → List Fate → FileTree → Prop where
  | nil (t : FileTree) : Run job t [] [] t
  | cons {t t₁ t₂ : FileTree} {entry : Entry} {rest : List Entry} {fate : Fate}
    {fates : List Fate} (head : Step job entry t fate t₁) (tail : Run job t₁ rest fates t₂) :
    Run job t (entry :: rest) (fate :: fates) t₂

theorem Counted.refl (s : ExtractStats) : Counted s [] s :=
  ⟨rfl, rfl, rfl, rfl, rfl, Nat.le_refl _, Nat.le_refl _⟩

theorem Counted.append {s₁ s₂ s₃ : ExtractStats} {front back : List Fate}
    (h : Counted s₁ front s₂) (h' : Counted s₂ back s₃) : Counted s₁ (front ++ back) s₃ := by
  refine ⟨?_, ?_, ?_, ?_, ?_, h.mismatches_ge.trans h'.mismatches_ge, ?_⟩
  · rw [h'.extracted, h.extracted, List.countP_append, Nat.add_assoc]
  · rw [h'.decompiled, h.decompiled, List.countP_append, Nat.add_assoc]
  · rw [h'.formatFailures, h.formatFailures, List.count_append, List.countP_append]
    omega
  · rw [h'.rejectedPaths, h.rejectedPaths, List.count_append, Nat.add_assoc]
  · rw [h'.ioFailures, h.ioFailures, List.count_append, List.countP_append]
    omega
  · have hfront := h.mismatches_le
    have hback := h'.mismatches_le
    rw [List.countP_append]
    omega

/-- **Extracting assets is a run**, one step for each, and no digest differs if all are right. -/
theorem run_extractAll (job : Job) (x : Extraction) (entries : List Entry) :
    ∃ fates, Run job x.tree entries fates (extractAll job x entries).tree ∧
      Counted x.stats fates (extractAll job x entries).stats ∧
      ((∀ entry ∈ entries, Sound job entry) →
        (extractAll job x entries).stats.checksumMismatches = x.stats.checksumMismatches) := by
  induction entries generalizing x with
  | nil => exact ⟨[], .nil x.tree, .refl x.stats, fun _ => rfl⟩
  | cons entry rest ih =>
    obtain ⟨fate, hstep, hcounted, hsound⟩ := step_extract job x entry
    obtain ⟨fates, hrun, hcounted', hsound'⟩ := ih (extract job x entry)
    rw [extractAll, List.foldl_cons, ← extractAll]
    refine ⟨fate :: fates, .cons hstep hrun, hcounted.append hcounted', fun hall => ?_⟩
    obtain ⟨hfirst, hrest⟩ := List.forall_mem_cons.1 hall
    rw [hsound' hrest, hsound hfirst]

theorem Run.length_eq {t t' : FileTree} {entries : List Entry} {fates : List Fate}
    (h : Run job t entries fates t') : fates.length = entries.length := by
  induction h with
  | nil t => rfl
  | cons _ _ ih => rw [List.length_cons, List.length_cons, ih]

end Extraction

end AssetPack
