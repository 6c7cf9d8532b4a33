import VersionStore.Failure
import VersionStore.Host.Traversal

namespace VersionStore

/-!
# The console

Commands work on a host and print. What was printed stays when a command fails,
and a failure gets the context of the commands it passes through.
-/

/-- A host, and what was printed. -/
structure Console where
  host : Host
  output : ByteArray := .empty

/-- A computation that prints. -/
abbrev ConsoleAction (α : Type) : Type :=
  ExceptT Failure (StateM Console) α

namespace ConsoleAction

/-- Run an action on a host; gives its outcome, what it printed, and the host. -/
def runOn (action : ConsoleAction α) (host : Host) : Except Failure α × ByteArray × Host :=
  let (outcome, left) := Id.run (StateT.run (ExceptT.run action) { host })
  (outcome, left.output, left.host)

/-- Fail with a message of its own. -/
def fail (message : String) : ConsoleAction α :=
  throw { message }

/-- Print bytes. -/
def printBytes (data : ByteArray) : ConsoleAction Unit :=
  modify fun console => { console with output := console.output ++ data }

/-- Print a line. -/
def printLine (text : String) : ConsoleAction Unit :=
  printBytes (text ++ "\n").toUTF8

/-- Print lines. -/
def printLines : List String → ConsoleAction Unit
  | [] => return
  | line :: rest => do
      printLine line
      printLines rest

/-- Do something to the host. -/
def onHost (action : HostAction α) : ConsoleAction α := do
  let console ← get
  let (outcome, host) := action.runOn console.host
  set { console with host }
  match outcome with
  | .ok value => return value
  | .error fault => throw (Failure.ofFault fault)

/-- Do something to a store. -/
def onStore (id : StoreId) (action : Action α) : ConsoleAction α :=
  onHost (HostAction.on id action)

/-- Run an action whose failure is the cause of a failure of this message. -/
def within (message : String) (action : ConsoleAction α) : ConsoleAction α :=
  tryCatch action fun failure => throw (failure.within message)

/-- Run an action and hand its failure over as a value. -/
def attempt (action : ConsoleAction α) : ConsoleAction (Except Failure α) :=
  ExceptT.mk (do return .ok (← ExceptT.run action))

end ConsoleAction

end VersionStore
