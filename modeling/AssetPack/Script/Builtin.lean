import AssetPack.Script.ValueKind

/-!
# Builtin functions and types

Tokens name builtins by number. Functions are numbered by their place in `Builtin.functions`, types
by the number of their value kind.
-/

namespace AssetPack.Script.Builtin

/-- The builtin functions in the order of their numbers. -/
def functions : List String :=
  ["sin", "cos", "tan", "sinh", "cosh", "tanh", "asin", "acos", "atan", "atan2", "sqrt", "fmod",
    "fposmod", "posmod", "floor", "ceil", "round", "abs", "sign", "pow", "log", "exp", "is_nan",
    "is_inf", "is_equal_approx", "is_zero_approx", "ease", "decimals", "step_decimals",
    "stepify", "lerp", "lerp_angle", "inverse_lerp", "range_lerp", "smoothstep", "move_toward",
    "dectime", "randomize", "randi", "randf", "rand_range", "seed", "rand_seed", "deg2rad",
    "rad2deg", "linear2db", "db2linear", "polar2cartesian", "cartesian2polar", "wrapi", "wrapf",
    "max", "min", "clamp", "nearest_po2", "weakref", "funcref", "convert", "typeof",
    "type_exists", "char", "ord", "str", "print", "printt", "prints", "printerr", "printraw",
    "print_debug", "push_error", "push_warning", "var2str", "str2var", "var2bytes", "bytes2var",
    "range", "load", "inst2dict", "dict2inst", "validate_json", "parse_json", "to_json", "hash",
    "Color8", "ColorN", "print_stack", "get_stack", "instance_from_id", "len",
    "is_instance_valid", "deep_equal"]

/-- How many builtin types there are, the unnamed nil type included. -/
def typeCount : Nat := ValueKind.all.length

/-- The name of a builtin function. -/
def functionName? (index : Nat) : Option String := functions[index]?

/-- The name of a builtin type in source text. -/
def typeName? (index : Nat) : Option String :=
  (ValueKind.ofNumber? index).bind ValueKind.sourceName?

end AssetPack.Script.Builtin
