import AssetPack.Container.Index
import AssetPack.FileTree
import AssetPack.Medium
import AssetPack.Script.Report

/-!
# Extraction

Assets are extracted one by one into an output directory. Extracting an asset never fails as a
whole: what goes wrong is noted and counted, and the next asset is taken up.

An asset goes through these steps, each of which may end it:

* its path must stay inside the output directory;
* its bytes must be in the container;
* its directory is made and its bytes are written, with a look at the digest in between;
* a compiled script is decoded, and its listing and report are written beside it.

A script that cannot be decoded leaves a placeholder where its listing would have been.
-/

namespace AssetPack

open Container Script

/-- What to do besides copying. -/
structure ExtractOptions where
  /-- Write the listing of each compiled script. -/
  decompile : Bool
  /-- Write the report of each compiled script too. -/
  dump : Bool
  /-- Compare digests. -/
  verify : Bool
  deriving DecidableEq, Repr

/-- How an extraction went. -/
structure ExtractStats where
  /-- Assets copied. -/
  extracted : Nat := 0
  /-- Scripts whose listing was written. -/
  decompiled : Nat := 0
  /-- Assets outside the container, and scripts that could not be decoded. -/
  formatFailures : Nat := 0
  /-- Names that would leave the output directory. -/
  rejectedPaths : Nat := 0
  /-- Files that could not be stored. -/
  ioFailures : Nat := 0
  /-- Assets with another digest than stored. -/
  checksumMismatches : Nat := 0
  deriving DecidableEq, Repr

/-- All failures that lost something. -/
def ExtractStats.failures (s : ExtractStats) : Nat :=
  s.formatFailures + s.rejectedPaths + s.ioFailures

/-- What stays the same over an extraction. -/
structure Job where
  /-- The container. -/
  medium : Medium
  /-- The output directory. -/
  output : String
  /-- What to do besides copying. -/
  options : ExtractOptions
  deriving DecidableEq, Repr

/-- How far an extraction has come. -/
structure Extraction where
  /-- The file tree now. -/
  tree : FileTree
  /-- The counters now. -/
  stats : ExtractStats := {}
  /-- The notices so far, oldest first. -/
  notices : List Notice := []
  deriving DecidableEq, Repr

namespace Extraction

/-- The extraction with one more notice. -/
def note (x : Extraction) (n : Notice) : Extraction := { x with notices := x.notices ++ [n] }

/-- The extraction with more notices. -/
def noteAll (x : Extraction) (ns : List Notice) : Extraction :=
  { x with notices := x.notices ++ ns }

/-- The extraction with changed counters. -/
def count (x : Extraction) (f : ExtractStats → ExtractStats) : Extraction :=
  { x with stats := f x.stats }

/-- Why something could not be stored. -/
def storeReason (action path : String) (fault : Fault) : String :=
  s!"failed to {action} {path}: {fault.message}"

/-- Write a file, or say why it could not be written. -/
def store (x : Extraction) (action path : String) (content : Bytes) :
    Extraction × Except String Unit :=
  match x.tree.writeFile path content with
  | .ok tree => ({ x with tree := tree }, .ok ())
  | .error fault => (x, .error (storeReason action path fault))

/-- Make the directory that a target lies in. -/
def makeParent (x : Extraction) (target : String) : Extraction × Except String Unit :=
  match Path.parent? target with
  | none => (x, .ok ())
  | some parent =>
    match x.tree.createAll parent with
    | (tree, .ok ()) => ({ x with tree := tree }, .ok ())
    | (tree, .error fault) => ({ x with tree := tree }, .error (storeReason "create" parent fault))

/-- Count and note a digest that differs, if digests are compared. -/
def checkDigest (x : Extraction) (job : Job) (entry : Entry) (payload : Bytes) : Extraction :=
  if job.options.verify && !entry.verify payload then
    (x.note (.checksumMismatch entry.name)).count fun s =>
      { s with checksumMismatches := s.checksumMismatches + 1 }
  else x

/-- Copy the bytes of an asset to its target. -/
def copy (x : Extraction) (job : Job) (entry : Entry) (payload : Bytes) (target : String) :
    Extraction × Except String Unit :=
  match x.makeParent target with
  | (x, .error reason) => (x, .error reason)
  | (x, .ok ()) =>
    match (x.checkDigest job entry payload).store "create" target payload with
    | (x, .error reason) => (x, .error reason)
    | (x, .ok ()) => (x.note (.copied entry.name target entry.size), .ok ())

/-- What is written instead of a listing that could not be made. -/
def placeholder (entry : Entry) (error : ScriptError) : String :=
  s!"# could not decompile {entry.name}\n" ++
    s!"# offset 0x{Numeral.hex entry.offset.toNat}, size {entry.size.toNat}\n" ++
    s!"# {error.message}\n"

/-- The script of an asset and its listing, with the notices of making them. -/
def decodeScript (job : Job) (entry : Entry) :
    Except ScriptError (Record × String) × List Notice :=
  match job.medium.script entry.offset (some entry.size) with
  | (.error e, ns) => (.error e, ns)
  | (.ok record, ns) =>
    match record.listing with
    | .error e => (.error (.listing e), ns)
    | .ok listing => (.ok (record, listing), ns ++ record.listingNotices)

/-- The extension of listings. -/
def listingExtension : String := "gdc_decompiled"

/-- The extension of reports. -/
def reportExtension : String := "gdc_dump"

/-- Write the report of a script, if reports are wanted. -/
def writeReport (x : Extraction) (job : Job) (entry : Entry) (record : Record) (target : String) :
    Extraction × Except String Unit :=
  if job.options.dump then
    let x := x.noteAll record.listingNotices
    match Report.text record with
    | .error e => (x.note (.reportFailed entry.name e), .ok ())
    | .ok report =>
      x.store "write" (Path.withExtension target reportExtension) (Bytes.ofText report)
  else (x, .ok ())

/-- Write what is made from a compiled script. Only a file that cannot be stored is an error. -/
def decompile (x : Extraction) (job : Job) (entry : Entry) (target : String) :
    Extraction × Except String Unit :=
  let listingPath := Path.withExtension target listingExtension
  let (decoded, ns) := decodeScript job entry
  let x := x.noteAll ns
  match decoded with
  | .error e =>
    let x := (x.note (.undecodable entry.name e)).count fun s =>
      { s with formatFailures := s.formatFailures + 1 }
    x.store "write" listingPath (Bytes.ofText (placeholder entry e))
  | .ok (record, listing) =>
    let x :=
      if record.encodedLength ≠ entry.size.toNat then
        x.note (.lengthDiffers entry.name record.encodedLength entry.size)
      else x
    match x.store "write" listingPath (Bytes.ofText listing) with
    | (x, .error reason) => (x, .error reason)
    | (x, .ok ()) =>
      let x := x.count fun s => { s with decompiled := s.decompiled + 1 }
      x.writeReport job entry record target

/-- Count and note something that could not be stored. -/
def storeFailed (x : Extraction) (entry : Entry) (reason : String) : Extraction :=
  (x.note (.storeFailed entry.name reason)).count fun s => { s with ioFailures := s.ioFailures + 1 }

/-- Extract one asset. -/
def extract (job : Job) (x : Extraction) (entry : Entry) : Extraction :=
  if !Path.isContained entry.relativePath then
    (x.note (.escapingName entry.name)).count fun s =>
      { s with rejectedPaths := s.rejectedPaths + 1 }
  else
    let target := Path.join job.output entry.relativePath
    match job.medium.range entry.offset (some entry.size) with
    | .error e =>
      (x.note (.outOfRange entry.name e)).count fun s =>
        { s with formatFailures := s.formatFailures + 1 }
    | .ok payload =>
      match x.copy job entry payload target with
      | (x, .error reason) => x.storeFailed entry reason
      | (x, .ok ()) =>
        let x := x.count fun s => { s with extracted := s.extracted + 1 }
        if job.options.decompile && entry.isScript then
          match x.decompile job entry target with
          | (x, .error reason) => x.storeFailed entry reason
          | (x, .ok ()) => x
        else x

/-- Extract assets one after the other. -/
def extractAll (job : Job) (x : Extraction) (entries : List Entry) : Extraction :=
  entries.foldl (extract job) x

/-- The counters after each of the assets. -/
def statsAfterEach (job : Job) : Extraction → List Entry → List ExtractStats
  | _, [] => []
  | x, entry :: rest =>
    let next := extract job x entry
    next.stats :: statsAfterEach job next rest

end Extraction

end AssetPack
