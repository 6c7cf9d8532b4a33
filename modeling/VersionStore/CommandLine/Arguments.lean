namespace VersionStore.CommandLine

/-!
# Arguments

A command takes flags, options with a value, and values in places of their own.
An option's value stands behind an equals sign or in the next argument, which may
then not look like an option itself. Behind `--` every argument is a value.
Nothing may be given twice. Arguments are looked at in order, and the first that is
not accepted decides how the command line is refused.
-/

/-- Why a command line is not run. -/
inductive Refusal where
  /-- Help was asked for. -/
  | help
  /-- The version was asked for. -/
  | version
  /-- The command line does not fit. -/
  | usage
  deriving DecidableEq, Repr

/-- What a value has to be. -/
inductive ValueKind where
  | text
  /-- A text that is not empty. -/
  | path
  /-- A whole number of sixty-four bits without a sign. -/
  | natural
  /-- A whole number of sixty-four bits. -/
  | integer
  deriving DecidableEq, Repr

/-- A flag: its name, and the letter that stands for it. -/
structure Flag where
  name : String
  letter : Option Char := none
  deriving DecidableEq, Repr

/-- What a command takes. -/
structure Shape where
  flags : List Flag := []
  options : List (String × ValueKind) := []
  /-- Values in places, in order. -/
  places : List ValueKind := []
  /-- How many of the places have to be filled. -/
  required : Nat := 0
  hasVersion : Bool := false
  deriving DecidableEq, Repr

/-- What was given. -/
structure Given where
  flags : List String := []
  options : List (String × String) := []
  places : List String := []
  deriving DecidableEq, Repr

/-- A result that may be a refusal. -/
abbrev Accepted (α : Type) : Type :=
  Except Refusal α

/-! ## Values -/

/-- Read a number without a sign. -/
def digits? (chars : List Char) : Option Nat :=
  if chars.isEmpty || !chars.all Char.isDigit then none
  else some (chars.foldl (fun (value : Nat) c => value * 10 + (c.toNat - 48)) 0)

/-- Read a number with or without a sign. -/
def integer? (text : String) : Option Int :=
  match text.toList with
  | '+' :: rest => (digits? rest).map Int.ofNat
  | '-' :: rest => (digits? rest).map fun value => -Int.ofNat value
  | chars => (digits? chars).map Int.ofNat

/-- Read a number without a sign, but for a plus. -/
def natural? (text : String) : Option Nat :=
  match text.toList with
  | '+' :: rest => digits? rest
  | chars => digits? chars

namespace ValueKind

/-- True for the values of a kind. -/
def accepts (kind : ValueKind) (value : String) : Bool :=
  match kind with
  | text => true
  | path => !value.isEmpty
  | natural =>
      match natural? value with
      | some number => number < Nat.pow 2 64
      | none => false
  | integer =>
      match integer? value with
      | some number => -(Int.pow 2 63) ≤ number && number < Int.pow 2 63
      | none => false

end ValueKind

/-! ## Reading arguments -/

namespace Given

/-- Add a flag that was not given yet. -/
def addFlag (given : Given) (name : String) : Accepted Given :=
  if given.flags.contains name then .error .usage
  else .ok { given with flags := given.flags ++ [name] }

/-- Add an option that was not given yet. -/
def addOption (given : Given) (kind : ValueKind) (name value : String) : Accepted Given :=
  if (given.options.lookup name).isSome || !kind.accepts value then .error .usage
  else .ok { given with options := given.options ++ [(name, value)] }

/-- Fill the next place. -/
def addPlace (given : Given) (shape : Shape) (value : String) : Accepted Given :=
  match shape.places[given.places.length]? with
  | some kind =>
      if kind.accepts value then .ok { given with places := given.places ++ [value] }
      else .error .usage
  | none => .error .usage

/-- Fill the next places. -/
def addPlaces (given : Given) (shape : Shape) : List String → Accepted Given
  | [] => .ok given
  | value :: rest => do (← given.addPlace shape value).addPlaces shape rest

/-- Add the flags that letters stand for. -/
def addLetters (given : Given) (shape : Shape) : List Char → Accepted Given
  | [] => .ok given
  | letter :: rest =>
      if letter = 'h' then .error .help
      else if letter = 'V' && shape.hasVersion then .error .version
      else
        match shape.flags.find? fun flag => flag.letter == some letter with
        | some flag => do (← given.addFlag flag.name).addLetters shape rest
        | none => .error .usage

end Given

/-- What an argument is by its look. -/
inductive Look where
  | value
  /-- `--` alone. -/
  | valuesOnly
  | letters (letters : List Char)
  | named (name : String) (value : Option String)
  deriving DecidableEq, Repr

/-- Split a text at its first equals sign. -/
def splitAtEquals (chars : List Char) : String × Option String :=
  let name := String.ofList (chars.takeWhile (· != '='))
  match chars.dropWhile (· != '=') with
  | [] => (name, none)
  | _ :: value => (name, some (String.ofList value))

/-- What an argument is by its look. -/
def lookOf (argument : String) : Look :=
  match argument.toList with
  | ['-', '-'] => .valuesOnly
  | '-' :: '-' :: rest =>
      let (name, value) := splitAtEquals rest
      .named name value
  | ['-'] => .value
  | '-' :: letters => .letters letters
  | _ => .value

/-- Read arguments in order; `pending` is the option whose value comes next. With
`stopAtPlace` the first value in a place ends the reading; the arguments from there
on are handed over. -/
def readArguments
    (shape : Shape)
    (stopAtPlace : Bool)
    (pending : Option (String × ValueKind))
    (given : Given) :
    List String → Accepted (Given × List String)
  | [] => if pending.isSome then .error .usage else .ok (given, [])
  | argument :: rest =>
      match pending, lookOf argument with
      | some (name, kind), .value => do
          readArguments shape stopAtPlace none (← given.addOption kind name argument) rest
      | some _, _ => .error .usage
      | none, .value =>
          if stopAtPlace then .ok (given, argument :: rest)
          else do
            readArguments shape stopAtPlace none (← given.addPlace shape argument) rest
      | none, .valuesOnly => do return (← given.addPlaces shape rest, [])
      | none, .letters letters => do
          readArguments shape stopAtPlace none (← given.addLetters shape letters) rest
      | none, .named name value? =>
          if shape.flags.any (·.name == name) then
            if value?.isSome then .error .usage
            else do readArguments shape stopAtPlace none (← given.addFlag name) rest
          else
            match shape.options.lookup name, value? with
            | some kind, some value => do
                readArguments shape stopAtPlace none (← given.addOption kind name value) rest
            | some kind, none => readArguments shape stopAtPlace (some (name, kind)) given rest
            | none, some _ => .error .usage
            | none, none =>
                if name = "help" then .error .help
                else if name = "version" && shape.hasVersion then .error .version
                else .error .usage

/-- Read all arguments of a command. -/
def readAll (shape : Shape) (arguments : List String) : Accepted Given := do
  let (given, _) ← readArguments shape false none {} arguments
  if given.places.length < shape.required then throw .usage
  return given

end VersionStore.CommandLine
