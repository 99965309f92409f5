import AssetPack.Proofs.Extraction.Delivery
import AssetPack.Proofs.FileTree.Installing

/-!
# An asset is a list of items to install

Extracting an asset makes a directory and writes up to three files, one after the other, and what is
counted depends on how far this comes. The texts of the paths matter only once. When the output
directory has been entered, or has turned out to be out of reach, an asset is a fixed list of items,
and extracting it is installing them (`Extraction.exists_items`). How the counters move depends on
the number of items that were installed and on nothing else.

Before that, the first asset that gets as far as the file tree makes the output directory. The
others would have made the same, so the tree may as well have had it from the beginning
(`Extraction.foldl_account_settle`).

## Main definitions

* `FileTree.deposit`: make the directory of a target and write files.
* `Extraction.account`: extracting an asset, without the notices.
* `FileTree.Settled`: paving the way to the output directory changes nothing any more.

## Main results

* `Extraction.extractAll_account`: an extraction goes through the accounts of its assets.
* `Extraction.exists_items`: in a settled tree an asset is installed.
-/

namespace AssetPack

open Container Script
open FileTree (Alters Item)
open AssetPack.Path (Component components)

/-! ### Directories first, then files -/

namespace FileTree

variable {t : FileTree} {target parent : String} {files : List (String × Bytes)}

/-- Make the directory of a target and write files, one after the other until one cannot be written.
Nothing is counted if the directory could not be made, else the files that were written. -/
def deposit (t : FileTree) (target : String) (files : List (String × Bytes)) :
    FileTree × Option Nat :=
  match t.createParent target with
  | (made, .error _) => (made, none)
  | (made, .ok ()) => ((made.storeAll files).1, some (made.storeAll files).2)

theorem deposit_of_refusal {fault : Fault} (hparent : Path.parent? target = some parent)
    (hne : parent ≠ "") (hrefusal : refusal? parent = some fault) (t : FileTree)
    (files : List (String × Bytes)) : t.deposit target files = (t, none) := by
  obtain ⟨e, hcreate⟩ := createAll_of_refusal hne hrefusal t
  simp only [deposit, createParent, hparent, hcreate]

/-- A path that can be made a directory, or that asks for nothing. -/
def Makeable (path : String) : Prop := path = "" ∨ refusal? path = none

/-- **Depositing is paving and then writing.** Where the parent is empty, nothing is paved and it is
not asked whether there is a directory. -/
theorem deposit_eq (hparent : Path.parent? target = some parent) (hmakeable : Makeable parent)
    (t : FileTree) (files : List (String × Bytes)) :
    t.deposit target files =
      if parent = "" ∨ (t.pave t.workingDir (components parent)).2 ≠ none then
        (((t.pave t.workingDir (components parent)).1.storeAll files).1,
          some ((t.pave t.workingDir (components parent)).1.storeAll files).2)
      else ((t.pave t.workingDir (components parent)).1, none) := by
  rw [deposit, createParent, hparent]
  rcases hmakeable with rfl | hrefusal
  · have hcreate : t.createAll "" = (t, .ok ()) := createChain_empty t _
    have hpave : (t.pave t.workingDir (components "")).1 = t := rfl
    simp only [hcreate, hpave, true_or, if_true]
  · have hne : parent ≠ "" := (refusal?_eq_none_iff.1 hrefusal).2.1
    obtain ⟨hsame, hok⟩ := createAll_matches hparent hrefusal t
    rcases hcreate : t.createAll parent with ⟨made, result⟩
    rcases hpave : t.pave t.workingDir (components parent) with ⟨paved, reached⟩
    rw [hcreate, hpave] at hsame hok
    obtain rfl : made = paved := hsame
    cases result with
    | ok _ =>
      have hsome : reached ≠ none := Option.isSome_iff_ne_none.1 hok.symm
      simp only [hcreate]
      rw [if_pos (.inr hsome)]
    | error e =>
      have hnone : reached = none :=
        Option.isNone_iff_eq_none.1 (Option.isSome_eq_false_iff.1 hok.symm)
      simp only [hcreate]
      rw [if_neg (by simp [hne, hnone])]

/-- Components that have been paved once make no difference the second time. -/
theorem pave_append_paved {here : Place} (t : FileTree) (cs : List Component)
    {ds : List Component} (hroot : .root ∉ ds) :
    (t.pave here cs).1.pave here (cs ++ ds) = t.pave here (cs ++ ds) := by
  rcases hpave : t.pave here cs with ⟨paved, reached⟩
  have hagain := pave_again hpave
  cases reached with
  | none => rw [pave_append_of_none hroot hpave, pave_append_of_none hroot hagain]
  | some place => rw [pave_append hpave, pave_append hagain]

/-- A deposit does not notice whether the front of its way has been paved. -/
theorem deposit_pave {start : List Component} {dirs : List String}
    (hparent : Path.parent? target = some parent) (hmakeable : Makeable parent)
    (hcomponents : components parent = start ++ dirs.map .name) (t : FileTree)
    (files : List (String × Bytes)) :
    (t.pave t.workingDir start).1.deposit target files = t.deposit target files := by
  have hdir := (alters_pave (fun _ => False) t t.workingDir start).workingDir
  rw [deposit_eq hparent hmakeable, deposit_eq hparent hmakeable, hdir, hcomponents,
    pave_append_paved t start (by simp)]

/-- Paving the way changes nothing: it leads to a directory that is there, or it comes to no end. -/
def Settled (way : List Component) (reached : Option Place) (t : FileTree) : Prop :=
  t.pave t.workingDir way = (t, reached)

theorem settled_pave (t : FileTree) (cs : List Component) :
    Settled cs (t.pave t.workingDir cs).2 (t.pave t.workingDir cs).1 := by
  rw [Settled, (alters_pave (fun _ => False) t t.workingDir cs).workingDir]
  exact pave_again rfl

/-- A settled tree stays settled: what is installed below the directory does not close the way. -/
theorem Settled.install {cs : List Component} {reached : Option Place} {items : List Item}
    (h : Settled cs reached t) (hroot : .root ∉ cs.tail) (hitems : reached = none → items = []) :
    Settled cs reached (t.install items).1 := by
  cases reached with
  | none =>
    rw [hitems rfl]
    exact h
  | some root =>
    have halters := alters_install t items
    refine pave_of_enter hroot ?_
    rw [halters.workingDir]
    exact halters.enter (enter_of_pave h)

/-- The items that a deposit below `root` installs: the directories on the way and then the files,
which come to nothing if a directory has too long a name. -/
def parcel (root : Place) (dirs : List String) (files : List (String × Bytes)) : List Item :=
  way root dirs ++ if (way root dirs).length = dirs.length then stock (root ++ dirs) files else []

theorem mem_parcel {root : Place} {dirs : List String} {item : Item}
    (h : item ∈ parcel root dirs files) :
    item ∈ way root dirs ∨ item ∈ stock (root ++ dirs) files := by
  rcases List.mem_append.1 h with hway | hstock
  · exact .inl hway
  · split at hstock
    · exact .inr hstock
    · cases hstock

/-- **In a settled tree a deposit is installed**, if the directory is there. -/
theorem deposit_of_settled {start : List Component} {dirs : List String} {root : Place}
    (hparent : Path.parent? target = some parent) (hmakeable : Makeable parent)
    (hcomponents : components parent = start ++ dirs.map .name)
    (hfiles : AllIn (components parent) files) (h : Settled start (some root) t) :
    t.deposit target files = ((t.install (parcel root dirs files)).1,
      if dirs.length ≤ (t.install (parcel root dirs files)).2 then
        some ((t.install (parcel root dirs files)).2 - dirs.length) else none) := by
  have hnode := (enter_ok (enter_of_pave h)).2
  have hpave : t.pave t.workingDir (components parent) = t.pave root (dirs.map .name) := by
    rw [hcomponents, pave_append h]
  have hle := t.install_le (way root dirs)
  have hway := length_way_le root dirs
  rw [deposit_eq hparent hmakeable]
  by_cases hall : (t.install (way root dirs)).2 = dirs.length
  · -- all directories are there, and the files are next
    have hlength : (way root dirs).length = dirs.length := by omega
    have hdone := pave_names hnode dirs
    rw [if_pos hall, ← hpave] at hdone
    have henter := enter_of_pave hdone
    rw [← (alters_install t (way root dirs)).workingDir] at henter
    rw [hdone, if_pos (.inr (Option.some_ne_none _)), parcel, install_append,
      if_pos (hall.trans hlength.symm), if_pos hlength, storeAll_eq_install henter hfiles]
    simp only [hlength, Nat.le_add_right, if_true, Nat.add_sub_cancel_left]
  · have hstopped := pave_names hnode dirs
    rw [if_neg hall, ← hpave] at hstopped
    have hne : parent ≠ "" := by
      rintro rfl
      have hnil : dirs = [] := by
        simpa using (List.append_eq_nil_iff.1 hcomponents.symm).2
      rw [hnil] at hall
      exact hall rfl
    have hparcel : t.install (parcel root dirs files) = t.install (way root dirs) := by
      rw [parcel]
      by_cases hlength : (way root dirs).length = dirs.length
      · rw [install_append, if_neg (by rwa [hlength])]
      · rw [if_neg hlength, List.append_nil]
    have hless : ¬ dirs.length ≤ (t.install (way root dirs)).2 := by omega
    rw [hstopped, if_neg (by simp [hne]), hparcel, if_neg hless]

/-- In a settled tree without the directory a deposit does nothing. -/
theorem deposit_of_unreached {start : List Component} {dirs : List String}
    (hparent : Path.parent? target = some parent) (hmakeable : Makeable parent)
    (hcomponents : components parent = start ++ dirs.map .name)
    (hfiles : AllIn (components parent) files) (h : Settled start none t) :
    t.deposit target files = (t, if parent = "" then some 0 else none) := by
  have hpave : t.pave t.workingDir (components parent) = (t, none) := by
    rw [hcomponents]
    exact pave_append_of_none (by simp) h
  rw [deposit_eq hparent hmakeable, hpave]
  by_cases hempty : parent = ""
  · cases henter : t.enter t.workingDir (components parent) with
    | ok place =>
      rw [pave_of_enter (root_not_mem_tail parent) henter] at hpave
      cases hpave
    | error e =>
      rw [if_pos (.inl hempty), if_pos hempty, storeAll_of_enter_error henter hfiles]
  · rw [if_neg (by simp [hempty]), if_neg hempty]

end FileTree

/-! ### Counters -/

attribute [ext] ExtractStats

instance : Add ExtractStats :=
  ⟨fun a b => ⟨a.extracted + b.extracted, a.decompiled + b.decompiled,
    a.formatFailures + b.formatFailures, a.rejectedPaths + b.rejectedPaths,
    a.ioFailures + b.ioFailures, a.checksumMismatches + b.checksumMismatches⟩⟩

theorem ExtractStats.add_right_comm (a b c : ExtractStats) : a + b + c = a + c + b := by
  ext <;> exact Nat.add_right_comm _ _ _

namespace Extraction

variable {job : Job} {entry : Entry} {payload : Bytes} {t t' : FileTree}

/-- What is to be written beside a script: its listing and its report, or the placeholder. -/
def texts (job : Job) (entry : Entry) : List (String × Bytes) :=
  match (decodeScript job entry).1 with
  | .error e => [(listingPath job entry, Bytes.ofText (placeholder entry e))]
  | .ok (record, listing) =>
    let report :=
      if job.options.dump then
        match Report.text record with
        | .error _ => []
        | .ok report => [(reportPath job entry, Bytes.ofText report)]
      else []
    (listingPath job entry, Bytes.ofText listing) :: report

theorem path_of_mem_texts {path : String} {content : Bytes}
    (h : (path, content) ∈ texts job entry) :
    path = listingPath job entry ∨ path = reportPath job entry := by
  rw [texts] at h
  split at h
  · exact .inl (Prod.mk.inj (List.mem_singleton.1 h)).1
  · rcases List.mem_cons.1 h with heq | hmem
    · exact .inl (Prod.mk.inj heq).1
    · split at hmem
      · split at hmem
        · cases hmem
        · exact .inr (Prod.mk.inj (List.mem_singleton.1 hmem)).1
      · cases hmem

/-- Whether text is to be made from an asset. -/
def wantsText (job : Job) (entry : Entry) : Bool := job.options.decompile && entry.isScript

/-- What is to be written for an asset. -/
def files (job : Job) (entry : Entry) (payload : Bytes) : List (String × Bytes) :=
  (job.target entry, payload) :: if wantsText job entry then texts job entry else []

/-- Whether the script of an asset can be decoded. -/
def isDecoded (job : Job) (entry : Entry) : Bool := (decodeScript job entry).1.isOk

/-- What is counted for an asset of which so many files were written, if its directory was made. -/
def charge (job : Job) (entry : Entry) (payload : Bytes) : Option Nat → ExtractStats
  | none => { ioFailures := 1 }
  | some written =>
    { extracted := (decide (0 < written)).toNat
      decompiled := (wantsText job entry && isDecoded job entry && decide (1 < written)).toNat
      formatFailures :=
        (wantsText job entry && !isDecoded job entry && decide (0 < written)).toNat
      ioFailures := (decide (written < (files job entry payload).length)).toNat
      checksumMismatches := (job.options.verify && !entry.verify payload).toNat }

theorem charge_zero (job : Job) (entry : Entry) (payload : Bytes) :
    charge job entry payload (some 0) =
      { ioFailures := 1
        checksumMismatches := (job.options.verify && !entry.verify payload).toNat } := by
  simp [charge, files]

theorem charge_succ (job : Job) (entry : Entry) (payload : Bytes) (n : Nat) :
    charge job entry payload (some (n + 1)) =
      { extracted := 1
        decompiled := (wantsText job entry && isDecoded job entry && decide (0 < n)).toNat
        formatFailures := (wantsText job entry && !isDecoded job entry).toNat
        ioFailures := (decide (n <
          (if wantsText job entry then texts job entry else []).length)).toNat
        checksumMismatches := (job.options.verify && !entry.verify payload).toNat } := by
  simp [charge, files]

/-- Making text from a script is writing its texts, and how many were written tells its fate. -/
theorem TextStep.storeAll_eq {text : TextFate} (h : TextStep job entry t text t') :
    ∃ n, t.storeAll (texts job entry) = (t', n) ∧
      (isDecoded job entry && decide (0 < n)) = text.isListed ∧
      (!isDecoded job entry) = text.isUndecoded ∧
      decide (n < (texts job entry).length) = text.isUnstored := by
  cases h with
  | @listed record listing t₁ _ hdecode hlisting hreport =>
    have hdecoded : isDecoded job entry = true := by rw [isDecoded, hdecode]; rfl
    cases hdump : job.options.dump with
    | false =>
      rw [hdump] at hreport
      obtain rfl : t' = t₁ := by simpa using hreport
      refine ⟨1, ?_, by rw [hdecoded]; rfl, by rw [hdecoded]; rfl, ?_⟩
      · simp [texts, hdecode, hdump, FileTree.storeAll, hlisting]
      · simp [texts, hdecode, hdump, TextFate.isUnstored]
    | true =>
      rw [hdump] at hreport
      obtain ⟨report, htext, hwrite⟩ := hreport
      refine ⟨2, ?_, by rw [hdecoded]; rfl, by rw [hdecoded]; rfl, ?_⟩
      · simp [texts, hdecode, hdump, htext, FileTree.storeAll, hlisting, hwrite]
      · simp [texts, hdecode, hdump, htext, TextFate.isUnstored]
  | unreported hdecode hlisting hdump htext hstore =>
    have hdecoded : isDecoded job entry = true := by rw [isDecoded, hdecode]; rfl
    refine ⟨1, ?_, by rw [hdecoded]; rfl, by rw [hdecoded]; rfl, ?_⟩
    · simp [texts, hdecode, hdump, htext, FileTree.storeAll, hlisting, hstore]
    · simp [texts, hdecode, hdump, htext, TextFate.isUnstored]
  | unlisted hdecode hlisting =>
    have hdecoded : isDecoded job entry = true := by rw [isDecoded, hdecode]; rfl
    refine ⟨0, ?_, by rw [hdecoded]; rfl, by rw [hdecoded]; rfl, ?_⟩
    · simp [texts, hdecode, FileTree.storeAll, hlisting]
    · simp [texts, hdecode, TextFate.isUnstored]
  | undecoded hdecode hstore =>
    have hdecoded : isDecoded job entry = false := by rw [isDecoded, hdecode]; rfl
    refine ⟨1, ?_, by rw [hdecoded]; rfl, by rw [hdecoded]; rfl, ?_⟩
    · simp [texts, hdecode, FileTree.storeAll, hstore]
    · simp [texts, hdecode, TextFate.isUnstored]
  | unmarked hdecode hstore =>
    have hdecoded : isDecoded job entry = false := by rw [isDecoded, hdecode]; rfl
    refine ⟨0, ?_, by rw [hdecoded]; rfl, by rw [hdecoded]; rfl, ?_⟩
    · simp [texts, hdecode, FileTree.storeAll, hstore]
    · simp [texts, hdecode, TextFate.isUnstored]

theorem stats_checkDigest (x : Extraction) (job : Job) (entry : Entry) (payload : Bytes) :
    (x.checkDigest job entry payload).stats = { x.stats with
      checksumMismatches := x.stats.checksumMismatches +
        (job.options.verify && !entry.verify payload).toNat } := by
  rw [checkDigest]
  cases job.options.verify && !entry.verify payload with
  | false => rfl
  | true => rfl

/-- What is done once the bytes of an asset are stored: its texts are written, if they are wanted,
and the number of those that were written tells what is counted. -/
theorem text_eq (x : Extraction) (job : Job) (entry : Entry) {y : Extraction}
    (hy : y = if job.options.decompile && entry.isScript then
        match x.decompile job entry (job.target entry) with
        | (x, .error reason) => x.storeFailed entry reason
        | (x, .ok ()) => x
      else x) :
    ∃ n, x.tree.storeAll (if wantsText job entry then texts job entry else []) = (y.tree, n) ∧
      y.stats = x.stats +
        { decompiled := (wantsText job entry && isDecoded job entry && decide (0 < n)).toNat
          formatFailures := (wantsText job entry && !isDecoded job entry).toNat
          ioFailures := (decide (n <
            (if wantsText job entry then texts job entry else []).length)).toNat } := by
  cases hwants : wantsText job entry with
  | false =>
    rw [wantsText] at hwants
    rw [hwants] at hy
    subst hy
    exact ⟨0, rfl, rfl⟩
  | true =>
    obtain ⟨z, result, text, hdecompile, htext, hstats, hresult⟩ := decompile_cases x job entry
    obtain ⟨n, hstore, hlisted, hundecoded, hunstored⟩ := htext.storeAll_eq
    have hz : y.tree = z.tree ∧ y.stats = { z.stats with
        ioFailures := z.stats.ioFailures + text.isUnstored.toNat } := by
      rw [wantsText] at hwants
      rw [hwants, hdecompile] at hy
      rcases hresult with ⟨rfl, hnot⟩ | ⟨reason, rfl, hyes⟩
      · rw [hnot, hy]
        exact ⟨rfl, rfl⟩
      · rw [hyes, hy]
        exact ⟨rfl, rfl⟩
    refine ⟨n, by rw [if_pos rfl, hstore, hz.1], ?_⟩
    simp only [Bool.true_and, if_true, hlisted, hundecoded, hunstored]
    rw [hz.2, hstats]
    rfl

/-- **What extracting an asset does to the tree and the counters**, if its bytes are there. -/
theorem extract_eq_deposit (hpath : Path.isContained entry.relativePath = true)
    (hrange : job.medium.range entry.offset (some entry.size) = .ok payload) (x : Extraction) :
    (extract job x entry).tree =
        (x.tree.deposit (job.target entry) (files job entry payload)).1 ∧
      (extract job x entry).stats = x.stats + charge job entry payload
        (x.tree.deposit (job.target entry) (files job entry payload)).2 := by
  have htarget : Path.join job.output entry.relativePath = job.target entry := rfl
  rw [extract, hpath]
  simp only [Bool.not_true, Bool.false_eq_true, if_false, hrange, htarget]
  rw [copy, FileTree.deposit]
  rcases makeParent_cases x (job.target entry) with
    ⟨made, hparent, hmake⟩ | ⟨made, fault, reason, hparent, hmake⟩
  · have hstats := stats_checkDigest { x with tree := made } job entry payload
    simp only [hmake, hparent]
    rcases store_cases (checkDigest { x with tree := made } job entry payload) "create"
      (job.target entry) payload with ⟨t, hwrite, hstore⟩ | ⟨fault, hwrite, hstore⟩
    · rw [tree_checkDigest] at hwrite
      obtain ⟨n, htexts, hcounted⟩ := text_eq
        (count (note { checkDigest { x with tree := made } job entry payload with tree := t }
          (.copied entry.name (job.target entry) entry.size)) fun s =>
            { s with extracted := s.extracted + 1 }) job entry rfl
      have hstored : made.storeAll (files job entry payload) =
          ((t.storeAll (if wantsText job entry then texts job entry else [])).1, n + 1) := by
        rw [files, FileTree.storeAll, hwrite]
        exact Prod.ext rfl (congrArg (·.2 + 1) htexts)
      simp only [hstore, hstored]
      refine ⟨(congrArg Prod.fst htexts).symm, hcounted.trans ?_⟩
      rw [charge_succ, count, note]
      dsimp only
      rw [hstats]
      rfl
    · rw [tree_checkDigest] at hwrite
      have hstored : made.storeAll (files job entry payload) = (made, 0) := by
        simp [files, FileTree.storeAll, hwrite]
      simp only [hstore, hstored]
      refine ⟨tree_checkDigest _ _ _ _, ?_⟩
      rw [charge_zero, storeFailed, count, note]
      dsimp only
      rw [hstats]
      rfl
  · simp only [hmake, hparent]
    exact ⟨rfl, rfl⟩

/-! ### Accounts -/

/-- Extracting an asset, as far as the tree and the counters are concerned. -/
def account (job : Job) (state : FileTree × ExtractStats) (entry : Entry) :
    FileTree × ExtractStats :=
  if Path.isContained entry.relativePath then
    match job.medium.range entry.offset (some entry.size) with
    | .error _ => (state.1, state.2 + { formatFailures := 1 })
    | .ok payload =>
      let done := state.1.deposit (job.target entry) (files job entry payload)
      (done.1, state.2 + charge job entry payload done.2)
  else (state.1, state.2 + { rejectedPaths := 1 })

theorem extract_account (job : Job) (x : Extraction) (entry : Entry) :
    ((extract job x entry).tree, (extract job x entry).stats) =
      account job (x.tree, x.stats) entry := by
  rw [account]
  cases hpath : Path.isContained entry.relativePath with
  | false =>
    rw [extract, hpath]
    rfl
  | true =>
    cases hrange : job.medium.range entry.offset (some entry.size) with
    | error e =>
      rw [extract, hpath]
      simp only [Bool.not_true, Bool.false_eq_true, if_false, if_true, hrange]
      rfl
    | ok payload =>
      obtain ⟨htree, hstats⟩ := extract_eq_deposit hpath hrange x
      rw [htree, hstats]
      rfl

/-- **An extraction goes through the accounts of its assets.** -/
theorem extractAll_account (job : Job) (x : Extraction) (entries : List Entry) :
    ((extractAll job x entries).tree, (extractAll job x entries).stats) =
      entries.foldl (account job) (x.tree, x.stats) := by
  induction entries generalizing x with
  | nil => rfl
  | cons entry rest ih =>
    rw [extractAll, List.foldl_cons, ← extractAll, ih, extract_account, List.foldl_cons]

/-- An asset with nothing to do to the tree, whatever the tree is. -/
def Idle (job : Job) (entry : Entry) : Prop :=
  ∃ toll, ∀ x, account job x entry = (x.1, x.2 + toll)

/-- An asset with bytes, whose directory can be asked for. -/
structure Errand (job : Job) (entry : Entry) (payload : Bytes) (parent : String)
    (dirs : List String) : Prop where
  contained : Path.isContained entry.relativePath = true
  range : job.medium.range entry.offset (some entry.size) = .ok payload
  parent? : Path.parent? (job.target entry) = some parent
  makeable : FileTree.Makeable parent
  components_eq : components parent = components job.output ++ dirs.map .name

theorem idle_or_errand (job : Job) (entry : Entry) :
    Idle job entry ∨ ∃ payload parent dirs, Errand job entry payload parent dirs := by
  cases hpath : Path.isContained entry.relativePath with
  | false => exact .inl ⟨_, fun x => by rw [account, hpath]; rfl⟩
  | true =>
    cases hrange : job.medium.range entry.offset (some entry.size) with
    | error e => exact .inl ⟨_, fun x => by rw [account, hpath, hrange]; rfl⟩
    | ok payload =>
      obtain ⟨names, hne, hnames⟩ := Entry.components_target job.output hpath
      obtain ⟨dirs, last, rfl⟩ := (List.eq_nil_or_concat' names).resolve_left hne
      rw [List.map_append, ← List.append_assoc, ← Job.target] at hnames
      obtain ⟨parent, hparent⟩ := Path.exists_parent hnames
      have hcomponents : components parent = components job.output ++ dirs.map .name := by
        rw [Path.components_parent hparent, hnames]
        exact List.dropLast_concat
      by_cases hempty : parent = ""
      · exact .inr ⟨payload, parent, dirs, hpath, hrange, hparent, .inl hempty, hcomponents⟩
      · cases hrefusal : FileTree.refusal? parent with
        | none =>
          exact .inr ⟨payload, parent, dirs, hpath, hrange, hparent, .inr hrefusal, hcomponents⟩
        | some fault =>
          refine .inl ⟨charge job entry payload none, fun x => ?_⟩
          rw [account, hpath, hrange]
          simp only [if_true, FileTree.deposit_of_refusal hparent hempty hrefusal]

namespace Errand

variable {parent : String} {dirs : List String}

theorem account_eq (h : Errand job entry payload parent dirs) (x : FileTree × ExtractStats) :
    account job x entry = ((x.1.deposit (job.target entry) (files job entry payload)).1,
      x.2 + charge job entry payload
        (x.1.deposit (job.target entry) (files job entry payload)).2) := by
  rw [account, if_pos h.contained, h.range]

/-- A path beside a script under which a file can be written belongs to the script, and lies in the
directory of its target. -/
theorem of_artifact (h : Errand job entry payload parent dirs) (hscript : entry.isScript = true)
    {path name suffix : String} (hslash : '/' ∉ suffix.toList)
    (hsuffix : job.target entry ++ suffix ∈ outputs job entry)
    (hpath : path = Path.withExtension (job.target entry) (Entry.scriptExtension ++ suffix))
    (hends : Path.EndsIn path name) :
    path ∈ outputs job entry ∧ components path = components parent ++ [.name name] := by
  have hname := hends.components_eq
  rw [hpath] at hname
  have htext := artifact_of_name hslash h.contained hscript hname
  rw [htext] at hpath
  obtain ⟨last, hlast⟩ := endsIn_target job h.contained hscript
  have hcomponents := hlast.components_append hslash
  rw [← hpath] at hcomponents hsuffix
  refine ⟨hsuffix, ?_⟩
  rw [hends.components_eq, hcomponents, List.dropLast_concat, Path.components_parent h.parent?]

/-- **What can be written for an asset** belongs to it, and lies in the directory of its target. -/
theorem of_mem_files (h : Errand job entry payload parent dirs) {path name : String}
    {content : Bytes} (hmem : (path, content) ∈ files job entry payload)
    (hname : FileTree.slotName? path = some name) :
    path ∈ outputs job entry ∧ components path = components parent ++ [.name name] := by
  obtain ⟨-, hends, -⟩ := FileTree.slotName?_eq_some_iff.1 hname
  rw [files] at hmem
  rcases List.mem_cons.1 hmem with heq | hmem
  · obtain ⟨rfl, -⟩ := Prod.mk.inj heq
    refine ⟨List.mem_cons_self, ?_⟩
    rw [Path.components_parent h.parent?]
    exact hends.components_eq
  · split at hmem
    · next hwants =>
      have hscript : entry.isScript = true := (Bool.and_eq_true_iff.1 hwants).2
      rcases path_of_mem_texts hmem with hpath | hpath
      · rw [listingPath_eq] at hpath
        exact h.of_artifact hscript (by decide) (by simp [outputs]) hpath hends
      · rw [reportPath_eq] at hpath
        exact h.of_artifact hscript (by decide) (by simp [outputs]) hpath hends
    · cases hmem

theorem allIn_files (h : Errand job entry payload parent dirs) :
    FileTree.AllIn (components parent) (files job entry payload) := by
  rintro ⟨path, content⟩ hmem name hname
  rw [(h.of_mem_files hmem hname).2, List.dropLast_concat]

end Errand

/-! ### Items -/

/-- The bytes of an asset are to be written: its name is not rejected, and they are there. -/
def isFound (job : Job) (entry : Entry) : Bool :=
  Path.isContained entry.relativePath && (job.medium.range entry.offset (some entry.size)).isOk

/-- An item that has to do with an asset, where `root` is the place of the output directory: it is
at the place of a path of the asset, or it is a directory on the way there. -/
def Concerns (job : Job) (entry : Entry) (root : Place) (item : Item) : Prop :=
  isFound job entry = true ∧ ∃ path ∈ outputs job entry, ∃ names : List String,
    components path = components job.output ++ names.map .name ∧
      (item.place = root ++ names ∨
        item.node = .directory ∧ ∃ q, q <+: names ∧ item.place = root ++ q)

/-- In a tree that is settled, extracting an asset is installing items, and `toll` is what is
counted for the number of those that were installed. -/
structure Installs (job : Job) (reached : Option Place) (entry : Entry) (items : List Item)
    (toll : Nat → ExtractStats) : Prop where
  idle : reached = none → items = []
  concerns : ∀ root, reached = some root → ∀ item ∈ items, Concerns job entry root item
  account_eq : ∀ x, FileTree.Settled (components job.output) reached x.1 →
    account job x entry = ((x.1.install items).1, x.2 + toll (x.1.install items).2)

theorem Idle.installs (h : Idle job entry) (reached : Option Place) :
    ∃ toll, Installs job reached entry [] toll := by
  obtain ⟨toll, htoll⟩ := h
  exact ⟨fun _ => toll, fun _ => rfl, fun _ _ => by simp, fun x _ => htoll x⟩

theorem Errand.concerns {parent : String} {dirs : List String} {root : Place} {item : Item}
    (h : Errand job entry payload parent dirs)
    (hitem : item ∈ FileTree.parcel root dirs (files job entry payload)) :
    Concerns job entry root item := by
  have hfound : isFound job entry = true := by rw [isFound, h.contained, h.range]; rfl
  refine ⟨hfound, ?_⟩
  rcases FileTree.mem_parcel hitem with hway | hstock
  · obtain ⟨hnode, q, hq, hplace⟩ := FileTree.mem_way hway
    obtain ⟨names, hne, hnames⟩ := Entry.components_target job.output h.contained
    have hdirs : dirs = names.dropLast := by
      have hparent := Path.components_parent h.parent?
      rw [Job.target, hnames, h.components_eq, List.dropLast_append_of_ne_nil (by simpa using hne),
        ← List.map_dropLast] at hparent
      exact List.map_injective_iff.2 (fun a b => Component.name.inj)
        (List.append_cancel_left hparent)
    refine ⟨_, List.mem_cons_self, names, hnames, .inr ⟨hnode, q, hq.trans ?_, hplace⟩⟩
    rw [hdirs]
    exact List.dropLast_prefix names
  · obtain ⟨path, content, hmem, hname, heq⟩ := FileTree.mem_stock hstock
    obtain ⟨hpath, hcomponents⟩ := h.of_mem_files hmem hname
    refine ⟨path, hpath, dirs ++ [item.name], ?_, .inl ?_⟩
    · rw [hcomponents, h.components_eq, List.map_append, List.append_assoc]
      rfl
    · rw [heq, Item.place, List.append_assoc]

/-- **In a settled tree an asset is installed.** -/
theorem exists_items (job : Job) (entry : Entry) (reached : Option Place) :
    ∃ items toll, Installs job reached entry items toll := by
  rcases idle_or_errand job entry with hidle | ⟨payload, parent, dirs, herrand⟩
  · obtain ⟨toll, htoll⟩ := hidle.installs reached
    exact ⟨[], toll, htoll⟩
  · cases reached with
    | none =>
      refine ⟨[], fun _ => charge job entry payload (if parent = "" then some 0 else none),
        fun _ => rfl, fun _ _ => by simp, fun x hsettled => ?_⟩
      rw [herrand.account_eq, FileTree.deposit_of_unreached herrand.parent? herrand.makeable
        herrand.components_eq herrand.allIn_files hsettled]
      rfl
    | some root =>
      refine ⟨FileTree.parcel root dirs (files job entry payload), fun n =>
        charge job entry payload (if dirs.length ≤ n then some (n - dirs.length) else none),
        nofun, ?_, fun x hsettled => ?_⟩
      · intro place hplace item hitem
        rw [← Option.some.inj hplace]
        exact herrand.concerns hitem
      · rw [herrand.account_eq, FileTree.deposit_of_settled herrand.parent? herrand.makeable
          herrand.components_eq herrand.allIn_files hsettled]

theorem settled_account {reached : Option Place} {x : FileTree × ExtractStats}
    (h : FileTree.Settled (components job.output) reached x.1) (entry : Entry) :
    FileTree.Settled (components job.output) reached (account job x entry).1 := by
  obtain ⟨items, toll, hinstalls⟩ := exists_items job entry reached
  rw [hinstalls.account_eq x h]
  exact h.install (FileTree.root_not_mem_tail job.output) hinstalls.idle

/-! ### The first asset makes the output directory -/

/-- The tree of a state with the output directory in it, as far as it can be made. -/
def settle (job : Job) (x : FileTree × ExtractStats) : FileTree × ExtractStats :=
  ((x.1.pave x.1.workingDir (components job.output)).1, x.2)

theorem account_settle (h : ¬ Idle job entry) (x : FileTree × ExtractStats) :
    account job (settle job x) entry = account job x entry := by
  obtain ⟨payload, parent, dirs, herrand⟩ := (idle_or_errand job entry).resolve_left h
  rw [herrand.account_eq, herrand.account_eq, settle, FileTree.deposit_pave herrand.parent?
    herrand.makeable herrand.components_eq]

/-- **The output directory may as well be there from the beginning**, if there is an asset that asks
for it. -/
theorem foldl_account_settle {entries : List Entry} (h : ∃ entry ∈ entries, ¬ Idle job entry)
    (x : FileTree × ExtractStats) :
    entries.foldl (account job) (settle job x) = entries.foldl (account job) x := by
  induction entries generalizing x with
  | nil => simp at h
  | cons entry rest ih =>
    rw [List.foldl_cons, List.foldl_cons]
    by_cases hidle : Idle job entry
    · have hrest : ∃ entry ∈ rest, ¬ Idle job entry := by
        obtain ⟨other, hother, hbusy⟩ := h
        rcases List.mem_cons.1 hother with rfl | hmem
        · exact absurd hidle hbusy
        · exact ⟨other, hmem, hbusy⟩
      obtain ⟨toll, htoll⟩ := hidle
      rw [htoll, htoll]
      exact ih hrest (x.1, x.2 + toll)
    · rw [account_settle hidle]

end Extraction

end AssetPack
