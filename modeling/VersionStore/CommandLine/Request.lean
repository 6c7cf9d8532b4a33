import VersionStore.Command.Setup
import VersionStore.CommandLine.Arguments

namespace VersionStore.CommandLine

/-!
# Requests

What a command line asks for: a command with its values, and the options that say
which store is meant. Those options may stand before the command or behind it, and
the ones behind it win.
-/

/-- A command with its values. -/
inductive Request where
  | init
  | list (path : String)
  | stat (path : String)
  | cat (path : String)
  | put (path : String) (file : Option String) (append : Bool)
  | makeDirectory (path : String)
  | remove (path : String)
  | move (source target : String)
  | copy (source target : String)
  | history (root relative : String) (directories asValues : Bool)
  | recover (root relative target : String) (version : Nat)
  | prune (root relative : String) (all : Bool)
  | cleanup (all : Bool) (days : Option Int)
  | verify (path : String)
  deriving DecidableEq, Repr

/-- A request with its options. -/
structure Invocation where
  options : Command.Options
  request : Request
  deriving DecidableEq, Repr

/-! ## Shapes -/

/-- The shape of what stands before the command. -/
def mainShape : Shape where
  flags := [{ name := "no-history" }]
  options := [("db", .path), ("config", .path)]
  hasVersion := true

/-- A shape that also takes the options which say what store is meant. -/
def shapeWith
    (places : List ValueKind)
    (required : Nat)
    (flags : List Flag)
    (options : List (String × ValueKind)) :
    Shape where
  flags := mainShape.flags ++ flags
  options := mainShape.options ++ options
  places := places
  required := required

/-- A value in a place. -/
def Given.place (given : Given) (position : Nat) (default : String) : String :=
  given.places.getD position default

/-- True when a flag was given. -/
def Given.has (given : Given) (name : String) : Bool :=
  given.flags.contains name

/-- The shape of a command, and the request that given values make. -/
def commandNamed? : String → Option (Shape × (Given → Request))
  | "init" => some (shapeWith [] 0 [] [], fun _ => .init)
  | "ls" => some (shapeWith [.text] 0 [] [], fun given => .list (given.place 0 "/"))
  | "stat" => some (shapeWith [.text] 1 [] [], fun given => .stat (given.place 0 ""))
  | "cat" => some (shapeWith [.text] 1 [] [], fun given => .cat (given.place 0 ""))
  | "put" =>
      some (shapeWith [.text, .path] 1 [{ name := "append", letter := some 'a' }] [],
        fun given => .put (given.place 0 "") given.places[1]? (given.has "append"))
  | "mkdir" => some (shapeWith [.text] 1 [] [], fun given => .makeDirectory (given.place 0 ""))
  | "rm" => some (shapeWith [.text] 1 [] [], fun given => .remove (given.place 0 ""))
  | "mv" =>
      some (shapeWith [.text, .text] 2 [] [],
        fun given => .move (given.place 0 "") (given.place 1 ""))
  | "cp" =>
      some (shapeWith [.text, .text] 2 [] [],
        fun given => .copy (given.place 0 "") (given.place 1 ""))
  | "history" =>
      some (shapeWith [.text, .text] 1 [{ name := "dirs" }, { name := "json" }] [],
        fun given =>
          .history (given.place 0 "") (given.place 1 "") (given.has "dirs") (given.has "json"))
  | "recover" =>
      some (shapeWith [.text, .text, .text] 3 [] [("version", .natural)],
        fun given =>
          .recover (given.place 0 "") (given.place 1 "") (given.place 2 "")
            (((given.options.lookup "version").bind natural?).getD 0))
  | "prune" =>
      some (shapeWith [.text, .text] 2 [{ name := "all" }] [],
        fun given => .prune (given.place 0 "") (given.place 1 "") (given.has "all"))
  | "cleanup" =>
      some (shapeWith [] 0 [{ name := "all" }] [("days", .integer)],
        fun given => .cleanup (given.has "all") ((given.options.lookup "days").bind integer?))
  | "verify" => some (shapeWith [.text] 0 [] [], fun given => .verify (given.place 0 "/"))
  | _ => none

/-! ## Reading -/

/-- The options given before and behind a command. -/
def optionsOf (before behind : Given) : Command.Options where
  database := (behind.options.lookup "db").or (before.options.lookup "db")
  config := (behind.options.lookup "config").or (before.options.lookup "config")
  noHistory := before.has "no-history" || behind.has "no-history"

/-- How help about some commands is answered: only a command's own name, or none, has
a help text. -/
def helpFor (names : List String) : Refusal :=
  match names with
  | [] => .help
  | [name] => if name = "help" || (commandNamed? name).isSome then .help else .usage
  | _ => .usage

/-- Read a command line. -/
def parse (arguments : List String) : Accepted Invocation := do
  let (before, rest) ← readArguments mainShape true none {} arguments
  match rest with
  | [] => throw .usage
  | name :: values =>
      if name = "help" then throw (helpFor values)
      match commandNamed? name with
      | none => throw .usage
      | some (shape, request) =>
          let behind ← readAll shape values
          return { options := optionsOf before behind, request := request behind }

end VersionStore.CommandLine
