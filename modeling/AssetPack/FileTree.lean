import AssetPack.Bytes
import AssetPack.Path

/-!
# File trees

A file tree says what is where: directories and files, each at a *place*, which is the list of names
from the root down. Paths are texts and have to be resolved first, from the root or from the working
directory, one segment after the other through existing directories.

The operations are the ones an extraction needs, and they fail as a file system does: a missing
directory on the way, a file where a directory is needed, a directory where a file is needed, a name
that is too long. None of them follows links, since there are none.

## Main definitions

* `FileTree.node?`: what is at a place. It is the view through which everything else is stated.
* `FileTree.resolve`: the place that a path leads to.
* `FileTree.makeDirectory`, `FileTree.createAll`, `FileTree.writeFile`, `FileTree.removeAll`.
-/

namespace AssetPack

/-- The names from the root down to something. -/
abbrev Place := List String

/-- What is at a place. -/
inductive Node where
  | directory
  | file (content : Bytes)
  deriving DecidableEq, Repr

/-- Why an operation on a file tree fails. -/
inductive Fault where
  | notFound
  | notDirectory
  | isDirectory
  | alreadyExists
  | nameTooLong
  | notEmpty
  /-- The path cannot be used this way, as `.` cannot be removed. -/
  | invalid
  /-- A directory has no content to map. -/
  | noDevice
  /-- The bytes to be written are in memory that cannot be read. -/
  | badAddress
  /-- A name has a NUL in it, which no file system is asked about. -/
  | nulInName
  deriving DecidableEq, Repr

/-- The fault in words. What the file system reports goes with its number. -/
def Fault.message : Fault → String
  | notFound => "No such file or directory (os error 2)"
  | notDirectory => "Not a directory (os error 20)"
  | isDirectory => "Is a directory (os error 21)"
  | alreadyExists => "File exists (os error 17)"
  | nameTooLong => "File name too long (os error 36)"
  | notEmpty => "Directory not empty (os error 39)"
  | invalid => "Invalid argument (os error 22)"
  | noDevice => "No such device (os error 19)"
  | badAddress => "Bad address (os error 14)"
  | nulInName => "file name contained an unexpected NUL byte"

/-- Directories and files, and where relative paths start. -/
structure FileTree where
  /-- The place that relative paths start from. -/
  workingDir : Place
  /-- What is where, the root apart. -/
  nodes : List (Place × Node)
  deriving DecidableEq, Repr

namespace FileTree

/-! ### The view -/

/-- What is at a place. The root is always a directory. -/
def node? (t : FileTree) (place : Place) : Option Node :=
  if place = [] then some .directory else t.nodes.lookup place

/-- Put a node at a place in a list of nodes. -/
def putIn (place : Place) (node : Node) : List (Place × Node) → List (Place × Node)
  | [] => [(place, node)]
  | (p, n) :: rest => if p = place then (place, node) :: rest else (p, n) :: putIn place node rest

/-- Put a node at a place. -/
def put (t : FileTree) (place : Place) (node : Node) : FileTree :=
  { t with nodes := putIn place node t.nodes }

/-- Whether a place is strictly below another. -/
def isBelow (above place : Place) : Bool := above.isPrefixOf place && place != above

/-- The tree without what is strictly below a place. -/
def clearBelow (t : FileTree) (place : Place) : FileTree :=
  { t with nodes := t.nodes.filter fun entry => !isBelow place entry.1 }

/-- The tree without what is at a place. -/
def remove (t : FileTree) (place : Place) : FileTree :=
  { t with nodes := t.nodes.filter fun entry => entry.1 != place }

theorem lookup_putIn (place : Place) (node : Node) (nodes : List (Place × Node)) (q : Place) :
    (putIn place node nodes).lookup q = if q = place then some node else nodes.lookup q := by
  induction nodes with
  | nil =>
    by_cases h : q = place
    · simp [putIn, h]
    · have hne : (q == place) = false := by simpa using h
      simp [putIn, List.lookup_cons, h, hne]
  | cons entry rest ih =>
    obtain ⟨p, n⟩ := entry
    by_cases hq : q = p
    · subst hq
      by_cases hp : q = place <;> simp [putIn, hp]
    · have hne : (q == p) = false := by simpa using hq
      by_cases hp : p = place
      · have hqp : ¬ q = place := fun h => hq (h.trans hp.symm)
        have hne' : (q == place) = false := by simpa using hqp
        simp [putIn, List.lookup_cons, hp, hqp, hne']
      · simp [putIn, List.lookup_cons, hp, hne, ih]

/-- **Look up after put.** -/
theorem node?_put (t : FileTree) {place : Place} (hplace : place ≠ []) (node : Node) (q : Place) :
    (t.put place node).node? q = if q = place then some node else t.node? q := by
  by_cases hq : q = []
  · subst hq
    simp [node?, Ne.symm hplace]
  · simp [node?, put, hq, lookup_putIn]

/-! ### Resolution -/

/-- The longest name of a file or directory, in bytes. -/
def longestName : Nat := 255

/-- The longest path that can be asked about, in bytes. -/
def longestPath : Nat := 4095

/-- Follow one segment from a place. -/
def follow (t : FileTree) (here : Place) (segment : String) : Except Fault Place :=
  match t.node? here with
  | none => .error .notFound
  | some (.file _) => .error .notDirectory
  | some .directory =>
    if Path.isTrivial segment then .ok here
    else if segment = ".." then .ok here.dropLast
    else if longestName < segment.utf8ByteSize then .error .nameTooLong
    else match t.node? (here ++ [segment]) with
      | none => .error .notFound
      | some _ => .ok (here ++ [segment])

/-- Follow segments one after the other. -/
def walk (t : FileTree) : Place → List String → Except Fault Place
  | here, [] => .ok here
  | here, segment :: rest =>
    match t.follow here segment with
    | .error e => .error e
    | .ok next => t.walk next rest

/-- Where a path starts. -/
def origin (t : FileTree) (path : String) : Place :=
  if Path.isAbsolute path then [] else t.workingDir

/-- Why a path cannot be asked about at all, if so. -/
def refusal? (path : String) : Option Fault :=
  if path.toList.contains (Char.ofNat 0) then some .nulInName
  else if path = "" then some .notFound
  else if longestPath < path.utf8ByteSize then some .nameTooLong
  else none

/-- The place that a path leads to. Something is there. -/
def resolve (t : FileTree) (path : String) : Except Fault Place :=
  match refusal? path with
  | some fault => .error fault
  | none => t.walk (t.origin path) (Path.segments path)

/-- Where something is to be made or removed: the directory, the last segment, and whether slashes
follow it. -/
structure Slot where
  /-- The directory, which exists. -/
  parent : Place
  /-- The last segment that is not empty, or nothing for the root. -/
  last : Option String
  /-- Whether the path ends in a slash. -/
  slash : Bool
  deriving DecidableEq, Repr

/-- Segments without the empty ones at their end. -/
def dropSlashes (segments : List String) : List String :=
  (segments.reverse.dropWhile (· == "")).reverse

/-- The slot that a path leads to. -/
def locate (t : FileTree) (path : String) : Except Fault Slot :=
  match refusal? path with
  | some fault => .error fault
  | none =>
    let segments := Path.segments path
    let body := dropSlashes segments
    match t.walk (t.origin path) (body.dropLast ++ ["."]) with
    | .error e => .error e
    | .ok parent => .ok ⟨parent, body.getLast?, body.length < segments.length⟩

/-- The place of a slot whose last segment is a name that can exist. -/
def Slot.place (s : Slot) (dots : Fault) : Except Fault Place :=
  match s.last with
  | none => .error dots
  | some name =>
    if name = "." ∨ name = ".." then .error dots
    else if longestName < name.utf8ByteSize then .error .nameTooLong
    else .ok (s.parent ++ [name])

/-! ### Questions -/

/-- Whether a path leads anywhere. -/
def pathExists (t : FileTree) (path : String) : Bool :=
  match t.resolve path with
  | .ok _ => true
  | .error _ => false

/-- Whether a path leads to a directory. -/
def isDirectory (t : FileTree) (path : String) : Bool :=
  match t.resolve path with
  | .ok place => t.node? place == some .directory
  | .error _ => false

/-- The content of the file that a path leads to. -/
def readFile (t : FileTree) (path : String) : Except Fault Bytes :=
  match t.resolve path with
  | .error e => .error e
  | .ok place =>
    match t.node? place with
    | some (.file content) => .ok content
    | some .directory => .error .noDevice
    | none => .error .notFound

/-! ### Changes -/

/-- Make one directory. -/
def makeDirectory (t : FileTree) (path : String) : Except Fault FileTree :=
  match t.locate path with
  | .error e => .error e
  | .ok slot =>
    match slot.place .alreadyExists with
    | .error e => .error e
    | .ok place =>
      match t.node? place with
      | some _ => .error .alreadyExists
      | none => .ok (t.put place .directory)

/-- Make the first of a list of paths a directory, where each path is the parent of the one before.
A directory that is there already will do. What was made before a failure stays. -/
def createChain (t : FileTree) : List String → FileTree × Except Fault Unit
  | [] => (t, .error .notFound)
  | path :: parents =>
    if path = "" then (t, .ok ())
    else match t.makeDirectory path with
      | .ok made => (made, .ok ())
      | .error .notFound =>
        match t.createChain parents with
        | (grown, .error e) => (grown, .error e)
        | (grown, .ok ()) =>
          match grown.makeDirectory path with
          | .ok made => (made, .ok ())
          | .error e => (grown, if grown.isDirectory path then .ok () else .error e)
      | .error e => (t, if t.isDirectory path then .ok () else .error e)

/-- Make a directory and all that is missing on the way. -/
def createAll (t : FileTree) (path : String) : FileTree × Except Fault Unit :=
  t.createChain (Path.ancestors path)

/-- Write a file, in the place of one that is there already. -/
def writeFile (t : FileTree) (path : String) (content : Bytes) : Except Fault FileTree :=
  match t.locate path with
  | .error e => .error e
  | .ok slot =>
    match slot.place .isDirectory with
    | .error e => .error e
    | .ok place =>
      if slot.slash then .error .isDirectory
      else match t.node? place with
        | some .directory => .error .isDirectory
        | _ => .ok (t.put place (.file content))

/-- Remove an empty directory. -/
def removeDirectory (t : FileTree) (path : String) : Except Fault FileTree :=
  match t.locate path with
  | .error e => .error e
  | .ok slot =>
    if slot.last = some ".." then .error .notEmpty
    else match slot.place .invalid with
      | .error e => .error e
      | .ok place =>
        match t.node? place with
        | none => .error .notFound
        | some _ => .ok (t.remove place)

/-- Remove a directory and all that is in it. The content goes first, so it is gone even if the
directory itself cannot be removed. -/
def removeAll (t : FileTree) (path : String) : FileTree × Except Fault Unit :=
  match t.resolve path with
  | .error e => (t, .error e)
  | .ok place =>
    match t.node? place with
    | some .directory =>
      let cleared := t.clearBelow place
      match cleared.removeDirectory path with
      | .ok gone => (gone, .ok ())
      | .error .notFound => (cleared, .ok ())
      | .error e => (cleared, .error e)
    | _ => (t, .error .notDirectory)

/-! ### Listing -/

/-- All that is below a place, with paths relative to it, in the order of the paths. -/
def contents (t : FileTree) (place : Place) : List (String × Node) :=
  let below := t.nodes.filter fun entry => isBelow place entry.1
  let named := below.map fun entry => (Path.ofSegments (entry.1.drop place.length), entry.2)
  named.mergeSort fun a b => !decide (b.1 < a.1)

end FileTree

end AssetPack
