import AssetPack.CommandLine
import AssetPack.Console
import AssetPack.Mapping

/-!
# A whole run

A run reads a command line, opens the container, reads its index, prepares the output directory and
extracts every asset. It fails before the first asset or not at all: the output directory is not
touched until the index has been read, and what goes wrong with an asset is only counted.

The container is part of the file tree that the run changes. It may be below the output directory,
where it is removed with the old directory, or kept and then written to. A run that empties it
before it has read an asset from it is killed.
-/

namespace AssetPack

open Container

/-- How a run ends. -/
inductive Ending where
  /-- All assets were taken up. -/
  | completed
  /-- Help or version was shown. -/
  | shown
  /-- The command line was wrong. -/
  | usageError
  /-- The run failed: what could not be done, and why. -/
  | failed (message : String) (causes : List String)
  /-- The run was killed when it read a part of the container that was no longer there. -/
  | killed
  deriving DecidableEq, Repr

/-- The exit status of a run. For a run that was killed it is what a shell takes for it, 128 and the
number of the signal. -/
def Ending.status : Ending → Nat
  | completed => 0
  | shown => 0
  | usageError => 2
  | failed .. => 1
  | killed => 135

/-- What a run leaves. -/
structure RunResult where
  /-- How it ended. -/
  ending : Ending
  /-- The file tree afterwards. -/
  tree : FileTree
  /-- The notices shown, oldest first. -/
  notices : List Notice
  deriving DecidableEq, Repr

/-- The records that a run shows. -/
def RunResult.log (r : RunResult) : List (Level × String) := r.notices.map Console.record

namespace Run

/-- What a request asks an extraction to do. -/
def extractOptions (request : CommandLine.Request) : ExtractOptions :=
  ⟨!request.noDecompile, request.dump, request.verify⟩

/-- The output directory of a request. -/
def outputDirectory (request : CommandLine.Request) : String :=
  request.output.getD (Path.beside request.input)

/-- A failure to do something with a path. -/
def pathFailure (action path : String) (fault : Fault) : Ending :=
  .failed s!"failed to {action} {path}" [fault.message]

/-- What preparing an output directory leaves: the tree, the notices, and an ending if it failed. -/
structure Prepared where
  /-- The tree afterwards. -/
  tree : FileTree
  /-- The notices. -/
  notices : List Notice
  /-- The failure, if there was one. -/
  failure : Option Ending
  deriving DecidableEq, Repr

/-- Make the output directory. -/
def createOutput (tree : FileTree) (directory : String) (notices : List Notice) : Prepared :=
  match tree.createAll directory with
  | (tree, .ok ()) => ⟨tree, notices, none⟩
  | (tree, .error fault) => ⟨tree, notices, some (pathFailure "create" directory fault)⟩

/-- Remove an output directory that is there, unless it is to be kept, and make it. -/
def prepare (tree : FileTree) (directory : String) (keepExisting : Bool) : Prepared :=
  if tree.pathExists directory && !keepExisting then
    match tree.removeAll directory with
    | (tree, .error fault) =>
      ⟨tree, [.removing directory], some (pathFailure "remove" directory fault)⟩
    | (tree, .ok ()) => createOutput tree directory [.removing directory]
  else createOutput tree directory []

/-- What the header of a container says. -/
def summary (header : Header) : Notice :=
  .packSummary header.formatVersion header.engineVersion header.fileCount

/-- The last notice of a run that completes. -/
def farewell (stats : ExtractStats) (output : String) : Notice :=
  .finished stats.extracted output stats.decompiled stats.failures

/-- The container of a run, mapped when it was opened. Once the output directory is prepared it is
where it was, or it was removed with the old output directory. -/
def mapping (request : CommandLine.Request) (data : Bytes) (opened prepared : FileTree) : Mapping :=
  match opened.resolve request.input with
  | .error _ => ⟨data, none⟩
  | .ok place => ⟨data, if prepared.node? place = some (.file data) then some place else none⟩

/-- Extract all assets of an index into a prepared directory. -/
def extractIndex (request : CommandLine.Request) (mapping : Mapping) (index : Index)
    (tree : FileTree) (notices : List Notice) : RunResult :=
  let output := outputDirectory request
  let last := mapping.extractAll output (extractOptions request) ⟨tree, {}, notices⟩ index.entries
  let x := last.reached
  if last.killed then ⟨.killed, x.tree, x.notices⟩
  else ⟨.completed, x.tree, x.notices ++ [farewell x.stats output]⟩

/-- Carry out a request, with all notices. -/
def perform (request : CommandLine.Request) (tree : FileTree) : RunResult :=
  match tree.readFile request.input with
  | .error fault => ⟨pathFailure "open" request.input fault, tree, []⟩
  | .ok data =>
    let opened := [Notice.opened request.input data.length]
    let read := Index.ofBytes data
    match read.outcome with
    | .error e =>
      ⟨.failed s!"failed to read pack index of {request.input}" [e.message], tree,
        opened ++ read.notices⟩
    | .ok index =>
      let notices := opened ++ read.notices ++ [summary index.header]
      let prepared := prepare tree (outputDirectory request) request.keepExisting
      match prepared.failure with
      | some ending => ⟨ending, prepared.tree, notices ++ prepared.notices⟩
      | none =>
        extractIndex request (mapping request data tree prepared.tree) index prepared.tree
          (notices ++ prepared.notices)

/-- The least severe level that a request wants to see. -/
def threshold (request : CommandLine.Request) : Level := if request.verbose then .debug else .info

end Run

/-- Run a command line on a file tree. -/
def run (words : List String) (tree : FileTree) : RunResult :=
  match CommandLine.parse words with
  | .error .help => ⟨.shown, tree, []⟩
  | .error .version => ⟨.shown, tree, []⟩
  | .error _ => ⟨.usageError, tree, []⟩
  | .ok request =>
    let result := Run.perform request tree
    { result with
      notices := result.notices.filter fun n => n.level.shownAt (Run.threshold request) }

end AssetPack
