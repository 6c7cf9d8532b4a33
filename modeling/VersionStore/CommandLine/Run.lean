import VersionStore.Command.Files
import VersionStore.Command.Listing
import VersionStore.Command.Trash
import VersionStore.CommandLine.Request

namespace VersionStore.CommandLine

/-!
# Running a command line

A command line opens its store, runs its command, and closes the store whatever
came of the command. It ends with a code: 0 for success, 1 for a failure, which is
then described, and 2 for a command line that is not understood.
-/

open ConsoleAction

/-- How a command line ended. -/
structure Exit where
  code : Nat
  output : ByteArray := .empty
  failure : Option Failure := none

namespace Exit

/-- What is written besides the output. -/
def errors (ended : Exit) : String :=
  match ended.failure with
  | some failure => "Error: " ++ failure.text ++ "\n"
  | none => ""

end Exit

/-- A host file as a source, with the time of its last change. -/
def fileSource (path : String) : ConsoleAction (Source × Option Int) := do
  let files := (← get).host.files
  match files.read path with
  | .ok data => return (Source.ofBytes data, files.modified? path)
  | .error fault =>
      if fault.kind = .isADirectory then
        return ({ deliveries := [], failure := some fault }, none)
      else within ("Failed to open " ++ path) (throw (Failure.ofIo fault))

/-- Store a host file, or the standard input when no file is given. -/
def put
    (now : Int)
    (id : StoreId)
    (input : Source)
    (path : String)
    (file? : Option String)
    (appending : Bool) :
    ConsoleAction Unit := do
  let (source, time?) ←
    match file? with
    | some file => fileSource file
    | none => pure (input, none)
  let _ ← Command.put now id path source appending time?

/-- Do what a request asks for. -/
def perform (now : Int) (id : StoreId) (input : Source) : Request → ConsoleAction Unit
  | .init => return
  | .list path => Command.list id path
  | .stat path => Command.stat id path
  | .cat path => Command.cat id path
  | .put path file? appending => put now id input path file? appending
  | .makeDirectory path => Command.makeDirectory now id path
  | .remove path => Command.remove now id path
  | .move source target => Command.move now id source target
  | .copy source target => Command.copy now id source target
  | .history root relative directories asValues =>
      Command.history id root relative directories asValues
  | .recover root relative target version =>
      Command.recover now id root relative target version
  | .prune root relative all => Command.prune id root relative all
  | .cleanup all days? => Command.cleanup now id all days?
  | .verify path => Command.verify id path

/-- Run a command with its options. -/
def invoke (now : Int) (input : Source) (invocation : Invocation) : ConsoleAction Unit := do
  if invocation.request = .init then Command.init now invocation.options
  else
    let id ← Command.openStore now invocation.options
    let outcome ← attempt (perform now id input invocation.request)
    Command.closeStore id
    ofExcept outcome

/-- The version of the command line tool. -/
def versionLine : String := "dbfs 0.1.0\n"

/-- Run a command line on a host. -/
def run (now : Int) (arguments : List String) (input : Source) (host : Host) : Exit × Host :=
  match parse arguments with
  | .error .usage => ({ code := 2 }, host)
  | .error .help => ({ code := 0 }, host)
  | .error .version => ({ code := 0, output := versionLine.toUTF8 }, host)
  | .ok invocation =>
      match (invoke now input invocation).runOn host with
      | (.ok (), output, left) => ({ code := 0, output }, left)
      | (.error failure, output, left) =>
          ({ code := 1, output, failure := some failure }, left)

end VersionStore.CommandLine
