/-!
# Paths

A path is a text whose segments are separated by slashes. Its *components* are what the segments
mean: empty segments and dots mean nothing, except that a path may start at the root (a slash in
front) or say explicitly that it starts here (a dot in front).

Every operation keeps the text it does not have to change. The parent of `a//b/./c` is `a//b`, and
joining never normalises.

## Main definitions

* `Path.segments`, `Path.components`
* `Path.parent?`, `Path.fileName?`, `Path.stem?`, `Path.extension?`
* `Path.join`, `Path.withExtension`
* `Path.isContained`: whether a path consists of plain names only.
-/

namespace AssetPack.Path

/-! ### Segments and components -/

/-- The texts between the slashes. -/
def segments (path : String) : List String := (path.toList.splitOn '/').map String.ofList

/-- Segments with slashes between them. -/
def ofSegments (segments : List String) : String :=
  String.ofList (List.intercalate ['/'] (segments.map String.toList))

/-- Whether a segment means nothing where it stands. -/
def isTrivial (segment : String) : Bool := segment == "" || segment == "."

/-- Whether a path starts at the root. -/
def isAbsolute (path : String) : Bool := path.toList.head? == some '/'

/-- What a segment means. -/
inductive Component where
  /-- The root, in front only. -/
  | root
  /-- The directory itself, in front only. -/
  | here
  /-- One directory up. -/
  | up
  /-- A name. -/
  | name (text : String)
  deriving DecidableEq, Repr

/-- The meaning of a segment that is not in front. -/
def component? (segment : String) : Option Component :=
  if isTrivial segment then none
  else if segment = ".." then some .up
  else some (.name segment)

/-- Where a path starts. -/
inductive Anchor where
  /-- At the root. -/
  | root
  /-- Here, and the path says so. -/
  | here
  /-- Here. -/
  | none
  deriving DecidableEq, Repr

/-- The start of a path and the segments behind it. -/
def split (path : String) : Anchor × List String :=
  match segments path with
  | "" :: next :: rest => (.root, next :: rest)
  | "." :: rest => (.here, rest)
  | all => (.none, all)

/-- The path with a given start and given segments behind it. -/
def build : Anchor → List String → String
  | .root, body => "/" ++ ofSegments body
  | .here, [] => "."
  | .here, body => "./" ++ ofSegments body
  | .none, body => ofSegments body

/-- The components of a path. -/
def components (path : String) : List Component :=
  let (anchor, body) := split path
  let front : List Component :=
    match anchor with
    | .root => [.root]
    | .here => [.here]
    | .none => []
  front ++ body.filterMap component?

/-- Whether a path names something below the directory it is taken in: at least one component, and
all of them plain names. -/
def isContained (path : String) : Bool :=
  !(components path).isEmpty && (components path).all fun
    | .name _ => true
    | _ => false

/-! ### Parent and file name -/

/-- Segments without the trivial ones at their end. -/
def trimEnd (body : List String) : List String := (body.reverse.dropWhile isTrivial).reverse

/-- The path without its last component. -/
def parent? (path : String) : Option String :=
  let (anchor, body) := split path
  match trimEnd body, anchor with
  | [], .here => some ""
  | [], _ => none
  | body, _ => some (build anchor (trimEnd body.dropLast))

/-- The path, its parent, the parent of that and so on, `fuel` steps at most. -/
def ancestorsUpTo : Nat → String → List String
  | 0, path => [path]
  | fuel + 1, path =>
    match parent? path with
    | none => [path]
    | some parent => path :: ancestorsUpTo fuel parent

/-- The path, its parent, the parent of that and so on. Each step drops a segment. -/
def ancestors (path : String) : List String := ancestorsUpTo ((segments path).length + 1) path

/-- The last component, if it is a name. -/
def fileName? (path : String) : Option String :=
  match (trimEnd (split path).2).getLast? with
  | none => none
  | some last => if last = ".." then none else some last

/-- A file name at its last dot: what is before it and what is behind it. A name without a dot, or
with its only dot in front, is all stem. -/
def splitName (name : String) : String × Option String :=
  let behind := name.toList.reverse.takeWhile (· != '.')
  match name.toList.reverse.dropWhile (· != '.') with
  | [] => (name, none)
  | [_] => (name, none)
  | _ :: before => (String.ofList before.reverse, some (String.ofList behind.reverse))

/-- The file name without its extension. -/
def stem? (path : String) : Option String := (fileName? path).map fun name => (splitName name).1

/-- The extension of the file name. -/
def extension? (path : String) : Option String :=
  (fileName? path).bind fun name => (splitName name).2

/-! ### New paths from old -/

/-- A path taken in a directory. An absolute path stays itself. -/
def join (directory path : String) : String :=
  if isAbsolute path then path
  else match directory.toList.getLast? with
    | none => path
    | some '/' => directory ++ path
    | some _ => directory ++ "/" ++ path

/-- Put an extension behind the stem of the file name and drop what came after the stem. A path
without a file name stays as it is. -/
def setExtension (path extension : String) : String :=
  let (anchor, body) := split path
  match stem? path with
  | none => path
  | some stem => build anchor ((trimEnd body).dropLast ++ [stem ++ "." ++ extension])

/-- The path with another extension. The old extension goes first, so a file name that is only dots
without it, such as `..gdc`, leaves no file name to extend. -/
def withExtension (path extension : String) : String :=
  match extension? path with
  | none => setExtension path extension
  | some old =>
    setExtension (String.ofList (path.toList.take (path.toList.length - old.toList.length)))
      extension

/-- The directory beside a container that takes its assets: the stem of the container with
`_unpacked` behind it. -/
def beside (container : String) : String :=
  join ((parent? container).getD ".") ((stem? container).getD "pack" ++ "_unpacked")

end AssetPack.Path
