import AssetPack.Extraction

/-!
# A container that is mapped

A run opens its container by mapping it, so the bytes of an asset are looked up in the file when
the asset is taken up, and not before. As long as nobody writes to the file these are the bytes that
it was opened with, and this is what `Extraction` goes by. But an asset can have the container
itself as its target. The target is emptied before the bytes are read, and then they are gone.

What can be read of a mapped file depends on what is in the file at the moment. It reaches to the
end of the last page of the file, zeros filling the page, and not beyond the length that was mapped.
A process that reads behind it is killed. The system itself, when it is asked to write such bytes to
a file, writes those that it can read and refuses the others.

A file that was removed stays mapped as it was.

## Main definitions

* `Mapping.readable`: what can be read of a mapped file.
* `Mapping.obstacle?`: what becomes of an asset whose bytes cannot be read.
* `Mapping.extractAll`: extract assets from a container that is mapped.
-/

namespace AssetPack

open Container

/-- How many bytes are mapped together. -/
def pageSize : Nat := 4096

/-- How many bytes are collected before the system is asked to write them. An asset of as many bytes
or more is not collected, but written as it is. -/
def bufferSize : Nat := 8192

/-- A file that is mapped. -/
structure Mapping where
  /-- What was in the file when it was mapped. -/
  data : Bytes
  /-- Where the file is, unless it was removed. -/
  place : Option Place
  deriving DecidableEq, Repr

/-- An extraction from a mapped container. -/
structure Attempt where
  /-- How far it has come. -/
  reached : Extraction
  /-- Whether it was killed there. -/
  killed : Bool
  deriving DecidableEq, Repr

namespace Mapping

/-- What can be read of a mapping of `length` bytes while the file has a given content: the content,
and zeros to the end of its last page. -/
def window (length : Nat) (content : Bytes) : Bytes :=
  let pages := (content.length + (pageSize - 1)) / pageSize
  content.take length ++ List.replicate (min length (pages * pageSize) - content.length) 0

/-- What can be read of a mapped file. -/
def readable (m : Mapping) (tree : FileTree) : Bytes :=
  match m.place.bind tree.node? with
  | some (.file content) => window m.data.length content
  | _ => m.data

/-- The container as it can be read. What cannot be read counts for its length only. -/
def medium (m : Mapping) (tree : FileTree) : Medium :=
  ⟨m.readable tree ++ m.data.drop (m.readable tree).length⟩

/-- Whether the bytes of an asset can be read. -/
def reaches (m : Mapping) (tree : FileTree) (entry : Entry) : Bool :=
  entry.size == 0 || entry.offset.toNat + entry.size.toNat ≤ (m.readable tree).length

/-- Write bytes to a target that has been emptied, where they cannot all be read. To collect them is
to read them. If they are written as they are, those that can be read are written. -/
def breakOff (m : Mapping) (x : Extraction) (entry : Entry) (target : String) (payload : Bytes) :
    Attempt :=
  if payload.length < bufferSize then ⟨x, true⟩
  else
    let written := payload.take ((m.readable x.tree).length - entry.offset.toNat)
    let x := (x.store "write" target written).1
    ⟨x.storeFailed entry (Extraction.storeReason "write" target .badAddress), false⟩

/-- What becomes of an asset whose bytes cannot be read when they are needed: when their digest is
compared, or when they are copied to a target that has been emptied for them. -/
def obstacle? (m : Mapping) (job : Job) (x : Extraction) (entry : Entry) : Option Attempt :=
  if !Path.isContained entry.relativePath then none
  else
    let target := Path.join job.output entry.relativePath
    match job.medium.range entry.offset (some entry.size) with
    | .error _ => none
    | .ok payload =>
      match x.makeParent target with
      | (_, .error _) => none
      | (x, .ok ()) =>
        if job.options.verify && !m.reaches x.tree entry then some ⟨x, true⟩
        else
          match (x.checkDigest job entry payload).store "create" target [] with
          | (_, .error _) => none
          | (x, .ok ()) =>
            if m.reaches x.tree entry then none else some (m.breakOff x entry target payload)

/-- Extract one asset. If its bytes can be read when they are needed, it is extracted as from a
container that nobody writes to. -/
def extract (m : Mapping) (output : String) (options : ExtractOptions) (x : Extraction)
    (entry : Entry) : Attempt :=
  let job : Job := ⟨m.medium x.tree, output, options⟩
  (m.obstacle? job x entry).getD ⟨Extraction.extract job x entry, false⟩

/-- Extract assets one after the other, unless one of them kills the run. -/
def extractAll (m : Mapping) (output : String) (options : ExtractOptions) (x : Extraction) :
    List Entry → Attempt
  | [] => ⟨x, false⟩
  | entry :: rest =>
    let last := m.extract output options x entry
    if last.killed then last else m.extractAll output options last.reached rest

end Mapping

end AssetPack
