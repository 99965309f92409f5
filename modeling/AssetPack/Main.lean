import AssetPack.Run

/-!
# The program

`run` is a function from a command line and a file tree to a file tree, an ending and notices. This
module puts it to work: it loads the part of the file system that a request can touch, runs, stores
what changed, and shows the notices.
-/

namespace AssetPack.Program

/-- The absolute path of a place. -/
def pathOf (place : Place) : String := "/" ++ Path.ofSegments place

/-- What the file system has at a place. -/
def inspect (place : Place) : IO (Option Node) := do
  try
    let path ← IO.FS.realPath (pathOf place)
    if ← path.isDir then
      return some .directory
    else
      return some (.file (← IO.FS.readBinFile path).toList)
  catch _ => return none

/-- All that the file system has at a place and below. -/
partial def loadBelow (place : Place) : IO (List (Place × Node)) := do
  match ← inspect place with
  | none => return []
  | some (.file content) => return [(place, .file content)]
  | some .directory =>
    let path ← IO.FS.realPath (pathOf place)
    let mut nodes := [(place, Node.directory)]
    for entry in ← path.readDir do
      nodes := nodes ++ (← loadBelow (place ++ [entry.fileName]))
    return nodes

/-- All that the file system has on the way along segments, and the place they lead to. -/
def loadAlong (here : Place) : List String → IO (List (Place × Node) × Place)
  | [] => return ([], here)
  | segment :: rest => do
    let next :=
      if Path.isTrivial segment then here
      else if segment = ".." then here.dropLast
      else here ++ [segment]
    match ← inspect next with
    | none => return ([], next)
    | some node =>
      let (nodes, stop) ← loadAlong next rest
      return ((next, node) :: nodes, stop)

/-- The file tree that a request can see: the container, the output directory, and the way there. -/
def load (workingDir : Place) (request : CommandLine.Request) : IO FileTree := do
  let empty : FileTree := ⟨workingDir, []⟩
  let output := Run.outputDirectory request
  let (home, _) ← loadAlong [] workingDir
  let (input, _) ← loadAlong (empty.origin request.input) (Path.segments request.input)
  let (way, stop) ← loadAlong (empty.origin output) (Path.segments output)
  let below ← loadBelow stop
  let nodes := (home ++ input ++ way ++ below).filter fun entry => !entry.1.isEmpty
  return nodes.foldl (fun tree entry => tree.put entry.1 entry.2) empty

/-- Make the file system agree with the tree after a run, given the tree before it. -/
def storeChanges (before after : FileTree) : IO Unit := do
  let gone := before.nodes.filter fun entry => after.node? entry.1 != some entry.2
  for (place, node) in gone.mergeSort fun a b => b.1.length ≤ a.1.length do
    match node with
    | .directory => IO.FS.removeDirAll (pathOf place)
    | .file _ => IO.FS.removeFile (pathOf place)
  let fresh := after.nodes.filter fun entry => before.node? entry.1 != some entry.2
  for (place, node) in fresh.mergeSort fun a b => a.1.length ≤ b.1.length do
    match node with
    | .directory => IO.FS.createDirAll (pathOf place)
    | .file content => IO.FS.writeBinFile (pathOf place) ⟨content.toArray⟩

/-- How the program is called. -/
def usage : String :=
  "Usage: assetpack [--output <DIR>] [--dump] [--verify] [--keep-existing] [--no-decompile] " ++
    "[--verbose] <INPUT>"

/-- Show how a run ended. -/
def report (ending : Ending) : IO Unit := do
  match ending with
  | .completed => pure ()
  | .killed => pure ()
  | .shown => IO.println usage
  | .usageError => IO.eprintln usage
  | .failed message causes => IO.eprintln (": ".intercalate (("Error: " ++ message) :: causes))

end AssetPack.Program

open AssetPack AssetPack.Program in
/-- Run a command line on the file system. -/
def main (words : List String) : IO UInt32 := do
  let workingDir := (Path.segments (← IO.currentDir).toString).filter fun s => !Path.isTrivial s
  let before ← match CommandLine.parse words with
    | .ok request => load workingDir request
    | .error _ => pure ⟨workingDir, []⟩
  let result := run words before
  storeChanges before result.tree
  for (level, text) in result.log do
    IO.eprintln s!"[{level.name}] {text}"
  report result.ending
  return UInt32.ofNat result.ending.status
