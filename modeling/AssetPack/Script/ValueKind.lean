/-!
# Kinds of values

The closed set of value kinds that a constant pool can hold, numbered in a fixed order. The kind
alone says how the payload of a constant is laid out (`ValueKind.layout`), up to one flag: a *wide*
number takes eight bytes instead of four.

A constant is introduced by a tag word, the kind's number with bit 16 set for a wide one.
-/

namespace AssetPack.Script

/-- The kind of a value. -/
inductive ValueKind where
  | nil
  | bool
  | int
  | real
  | string
  | vector2
  | rect2
  | vector3
  | transform2D
  | plane
  | quat
  | aabb
  | basis
  | transform
  | color
  | nodePath
  | rid
  | object
  | dictionary
  | array
  | poolByteArray
  | poolIntArray
  | poolRealArray
  | poolStringArray
  | poolVector2Array
  | poolVector3Array
  | poolColorArray
  deriving DecidableEq, Repr

/-- How the payload of a constant is laid out. -/
inductive Layout where
  /-- Always this many bytes. -/
  | fixed (size : Nat)
  /-- Four bytes, or eight if wide. -/
  | number
  /-- A length word and that many bytes, padded to a multiple of four. -/
  | string
  /-- Three words and as many padded strings as the first two count. -/
  | nodePath
  /-- A count word and that many elements. -/
  | pool (elementSize : Nat)
  /-- Never stored in a form that can be read. -/
  | unsupported
  deriving DecidableEq, Repr

namespace ValueKind

/-- All kinds in the order of their numbers. -/
def all : List ValueKind :=
  [nil, bool, int, real, string, vector2, rect2, vector3, transform2D, plane, quat, aabb, basis,
    transform, color, nodePath, rid, object, dictionary, array, poolByteArray, poolIntArray,
    poolRealArray, poolStringArray, poolVector2Array, poolVector3Array, poolColorArray]

/-- The kind with a given number. -/
def ofNumber? (n : Nat) : Option ValueKind := all[n]?

/-- The number of a kind. -/
def number : ValueKind → Nat
  | nil => 0
  | bool => 1
  | int => 2
  | real => 3
  | string => 4
  | vector2 => 5
  | rect2 => 6
  | vector3 => 7
  | transform2D => 8
  | plane => 9
  | quat => 10
  | aabb => 11
  | basis => 12
  | transform => 13
  | color => 14
  | nodePath => 15
  | rid => 16
  | object => 17
  | dictionary => 18
  | array => 19
  | poolByteArray => 20
  | poolIntArray => 21
  | poolRealArray => 22
  | poolStringArray => 23
  | poolVector2Array => 24
  | poolVector3Array => 25
  | poolColorArray => 26

@[simp] theorem ofNumber?_number (kind : ValueKind) : ofNumber? kind.number = some kind := by
  cases kind <;> rfl

/-- The name of a kind in reports. -/
def name : ValueKind → String
  | nil => "Nil"
  | bool => "Bool"
  | int => "Int"
  | real => "Real"
  | string => "String"
  | vector2 => "Vector2"
  | rect2 => "Rect2"
  | vector3 => "Vector3"
  | transform2D => "Transform2D"
  | plane => "Plane"
  | quat => "Quat"
  | aabb => "Aabb"
  | basis => "Basis"
  | transform => "Transform"
  | color => "Color"
  | nodePath => "NodePath"
  | rid => "Rid"
  | object => "Object"
  | dictionary => "Dictionary"
  | array => "Array"
  | poolByteArray => "PoolByteArray"
  | poolIntArray => "PoolIntArray"
  | poolRealArray => "PoolRealArray"
  | poolStringArray => "PoolStringArray"
  | poolVector2Array => "PoolVector2Array"
  | poolVector3Array => "PoolVector3Array"
  | poolColorArray => "PoolColorArray"

/-- The name of the type in source text. The nil value has no type to name. -/
def sourceName? : ValueKind → Option String
  | nil => none
  | bool => some "bool"
  | int => some "int"
  | real => some "float"
  | aabb => some "AABB"
  | rid => some "RID"
  | kind => some kind.name

/-- The layout of the payload of a kind. -/
def layout : ValueKind → Layout
  | nil => .fixed 0
  | bool => .fixed 4
  | int => .number
  | real => .number
  | string => .string
  | vector2 => .fixed 8
  | rect2 => .fixed 16
  | vector3 => .fixed 12
  | transform2D => .fixed 24
  | plane => .fixed 16
  | quat => .fixed 16
  | aabb => .fixed 24
  | basis => .fixed 36
  | transform => .fixed 48
  | color => .fixed 4
  | nodePath => .nodePath
  | rid => .fixed 0
  | object => .fixed 8
  | dictionary => .unsupported
  | array => .unsupported
  | poolByteArray => .pool 1
  | poolIntArray => .pool 4
  | poolRealArray => .pool 4
  | poolStringArray => .unsupported
  | poolVector2Array => .pool 8
  | poolVector3Array => .pool 12
  | poolColorArray => .pool 4

/-- The bit of a tag word that marks a wide number. -/
def wideFlag : UInt32 := 0x10000

/-- The tag word of a kind. -/
def tag (kind : ValueKind) (wide : Bool) : UInt32 :=
  UInt32.ofNat kind.number ||| (if wide then wideFlag else 0)

/-- The kind and the wide flag of a tag word, or the number that no kind has. -/
def ofTag (word : UInt32) : Except UInt32 (ValueKind × Bool) :=
  let number := word &&& ~~~wideFlag
  match ofNumber? number.toNat with
  | some kind => .ok (kind, word &&& wideFlag != 0)
  | none => .error number

end ValueKind

end AssetPack.Script
