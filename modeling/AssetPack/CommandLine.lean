/-!
# The command line

The words behind the program name are read from left to right. A word is an option, a cluster of
one-letter options, the value that the option before it waits for, or an operand; behind a lone `--`
everything is an operand. There is one operand, the container.

The value of an option or operand is checked only when the next option is taken or the line ends. So
a word that is no option at all is reported before a bad value to its left, while help is not.

The reading stops at the first thing that ends it, and help and version are among these.
-/

namespace AssetPack.CommandLine

/-- A switch that is on or off. -/
inductive Flag where
  | dump
  | verify
  | keepExisting
  | noDecompile
  | verbose
  deriving DecidableEq, Repr

/-- What an option does. -/
inductive Action where
  | flag (flag : Flag)
  | output
  | help
  | version
  deriving DecidableEq, Repr

/-- The options with a long name. -/
def longOptions : List (String × Action) :=
  [("output", .output), ("dump", .flag .dump), ("verify", .flag .verify),
    ("keep-existing", .flag .keepExisting), ("no-decompile", .flag .noDecompile),
    ("verbose", .flag .verbose), ("help", .help), ("version", .version)]

/-- The options with a letter. -/
def shortOptions : List (Char × Action) :=
  [('o', .output), ('v', .flag .verbose), ('h', .help), ('V', .version)]

/-- What a command line asks for. -/
structure Request where
  /-- The container. -/
  input : String
  /-- The output directory, if one is named. -/
  output : Option String
  /-- Write reports. -/
  dump : Bool
  /-- Compare digests. -/
  verify : Bool
  /-- Leave an existing output directory. -/
  keepExisting : Bool
  /-- Only copy. -/
  noDecompile : Bool
  /-- Say more. -/
  verbose : Bool
  deriving DecidableEq, Repr

/-- Why a command line is not carried out. -/
inductive Stop where
  /-- No such option, or one operand too many. -/
  | unknownArgument
  /-- The container is missing. -/
  | missingArgument
  /-- An option without its value, or an empty value. -/
  | invalidValue
  /-- An option given twice. -/
  | repeated
  /-- A value for an option that takes none. -/
  | unwantedValue
  /-- Help was asked for. -/
  | help
  /-- The version was asked for. -/
  | version
  deriving DecidableEq, Repr

/-- A value that has been seen and not been checked. -/
inductive Pending where
  /-- The operand. -/
  | input (value : String)
  /-- The output option, and its value if it came already. -/
  | output (value : Option String)
  deriving DecidableEq, Repr

/-- How far a command line has been read. -/
structure State where
  /-- The checked operand. -/
  input : Option String := none
  /-- The checked output directory. -/
  output : Option String := none
  /-- The switches that are on. -/
  flags : List Flag := []
  /-- What has not been checked. -/
  pending : Option Pending := none
  /-- Whether an operand was seen. -/
  sawOperand : Bool := false
  /-- Whether only operands can follow. -/
  operandsOnly : Bool := false
  deriving DecidableEq, Repr

namespace State

/-- Take the value of the output option. -/
def setOutput (s : State) (value : String) : Except Stop State :=
  if s.output.isSome then .error .repeated
  else if value = "" then .error .invalidValue
  else .ok { s with output := some value }

/-- Check what is pending. -/
def settle (s : State) : Except Stop State :=
  let rest := { s with pending := none }
  match s.pending with
  | none => .ok rest
  | some (.input value) =>
    if value = "" then .error .invalidValue else .ok { rest with input := some value }
  | some (.output none) => .error .invalidValue
  | some (.output (some value)) => rest.setOutput value

/-- Carry out an option that has no value attached. -/
def act (s : State) (action : Action) : Except Stop State :=
  match s.settle with
  | .error e => .error e
  | .ok s =>
    match action with
    | .help => .error .help
    | .version => .error .version
    | .output => .ok { s with pending := some (.output none) }
    | .flag flag =>
      if s.flags.contains flag then .error .repeated else .ok { s with flags := flag :: s.flags }

/-- Carry out the output option with a value attached. -/
def actOutput (s : State) (value : String) : Except Stop State :=
  match s.settle with
  | .error e => .error e
  | .ok s => s.setOutput value

/-- A word that starts with two dashes, without them. -/
def long (s : State) (word : List Char) : Except Stop State :=
  let name := word.takeWhile (· != '=')
  match longOptions.lookup (String.ofList name), word.drop name.length with
  | none, _ => .error .unknownArgument
  | some action, [] => s.act action
  | some .output, _ :: value => s.actOutput (String.ofList value)
  | some _, _ :: _ => .error .unwantedValue

/-- A cluster of letters. The output option takes the rest of the cluster as its value, with or
without a sign of equality in front. -/
def short (s : State) : List Char → Except Stop State
  | [] => .ok s
  | letter :: rest =>
    match shortOptions.lookup letter, rest with
    | none, _ => .error .unknownArgument
    | some .output, [] => s.act .output
    | some .output, '=' :: value => s.actOutput (String.ofList value)
    | some .output, value => s.actOutput (String.ofList value)
    | some action, _ =>
      match s.act action with
      | .error e => .error e
      | .ok s => s.short rest

/-- An operand. -/
def operand (s : State) (word : String) : Except Stop State :=
  if s.sawOperand then .error .unknownArgument
  else match s.settle with
    | .error e => .error e
    | .ok s => .ok { s with pending := some (.input word), sawOperand := true }

/-- A word that is no option: the value that is waited for, or an operand. -/
def plain (s : State) (word : String) : Except Stop State :=
  match s.pending with
  | some (.output none) => .ok { s with pending := some (.output (some word)) }
  | _ => s.operand word

/-- Any word. -/
def word (s : State) (word : String) : Except Stop State :=
  if s.operandsOnly then s.operand word
  else match word.toList with
    | ['-', '-'] => .ok { s with operandsOnly := true }
    | '-' :: '-' :: rest => s.long rest
    | '-' :: letter :: rest => s.short (letter :: rest)
    | _ => s.plain word

/-- What has been asked for when the line ends. -/
def finish (s : State) : Except Stop Request :=
  match s.settle with
  | .error e => .error e
  | .ok s =>
    match s.input with
    | none => .error .missingArgument
    | some input =>
      .ok ⟨input, s.output, s.flags.contains .dump, s.flags.contains .verify,
        s.flags.contains .keepExisting, s.flags.contains .noDecompile, s.flags.contains .verbose⟩

end State

/-- Read words from a state. -/
def parseFrom (s : State) : List String → Except Stop Request
  | [] => s.finish
  | word :: rest =>
    match s.word word with
    | .error e => .error e
    | .ok s => parseFrom s rest

/-- Read a command line, the program name left out. -/
def parse (words : List String) : Except Stop Request := parseFrom {} words

end AssetPack.CommandLine
