import VersionStore.Command.Console
import VersionStore.Text.Report

namespace VersionStore.Command

/-!
# Commands on files

Reading and storing files, making directories, removing, moving and copying. A
file that is appended to gets the directories that lead to it first; what was
appended before its source failed is kept.
-/

open ConsoleAction

/-- Print the bytes of a file. -/
def cat (id : StoreId) (path : String) : ConsoleAction Unit := do
  let data ← within ("Failed to read " ++ path)
    (onStore id (Store.copyOut path (fun out data => .ok (out ++ data)) ByteArray.empty))
  printBytes data

/-! ## Storing -/

/-- The directory that a path text names in front of its last component, unless it
is the root. -/
def parentText? (path : String) : Option String :=
  match Path.cut? (Path.trimEnd path).toList with
  | some (directory, _) =>
      let text := String.ofList directory
      if (Path.trim text).isEmpty then none else some text
  | none => none

/-- Write everything that a source delivers to a writer and close it. The writer is
closed whatever comes of the writing. -/
def writeAndClose (now : Int) (id : StoreId) (writer : Writer) (source : Source) :
    ConsoleAction Entry := do
  let (written, after) ← onHost (HostAction.onStream id writer (Writer.writeFrom source))
  match written with
  | .error fault =>
      let _ ← onHost (HostAction.onStream id after (Writer.dispose now))
      throw (Failure.ofIo fault.toIo)
  | .ok () =>
      let (closed, _) ← onHost (HostAction.onStream id after (Writer.finish now))
      match closed with
      | .ok entry => return entry
      | .error fault => throw (Failure.ofFault fault)

/-- Add everything that a source delivers to the end of a file. -/
def append
    (now : Int)
    (id : StoreId)
    (path : String)
    (source : Source)
    (time? : Option Int) :
    ConsoleAction Entry := do
  match parentText? path with
  | some directory =>
      let _ ← onStore id (Store.makeDirectories now directory)
  | none => pure ()
  let writer ← within ("Failed to open " ++ path ++ " for append")
    (onStore id (Writer.openPath now path true))
  let entry ← writeAndClose now id writer source
  match time? with
  | some time =>
      let _ ← onStore id (Store.setLastModified path time)
  | none => pure ()
  return entry

/-- Store everything that a source delivers as a file, or at the end of one. -/
def put
    (now : Int)
    (id : StoreId)
    (path : String)
    (source : Source)
    (appending : Bool)
    (time? : Option Int) :
    ConsoleAction Entry := do
  let entry ←
    if appending then append now id path source time?
    else
      within ("Failed to write " ++ path)
        (onStore id (Store.writeFrom now path source none time?))
  printLine (path ++ ": " ++ Text.fileSize entry.length)
  return entry

/-! ## Changing the tree -/

/-- Make a directory and those that lead to it. -/
def makeDirectory (now : Int) (id : StoreId) (path : String) : ConsoleAction Unit := do
  let _ ← within ("Failed to create directory " ++ path)
    (onStore id (Store.makeDirectories now path))
  printLine path

/-- Delete a file or an empty directory. -/
def remove (now : Int) (id : StoreId) (path : String) : ConsoleAction Unit := do
  let removed ← within ("Failed to remove " ++ path) (onStore id (Store.delete now path))
  if !removed then fail (path ++ ": no such file, or directory not empty")
  printLine ("removed " ++ path)

/-- Move a file or a directory with everything below it. -/
def move (now : Int) (id : StoreId) (source target : String) : ConsoleAction Unit := do
  let _ ← within ("Failed to move " ++ source ++ " to " ++ target)
    (onStore id (Store.moveTo now target source none))
  printLine (source ++ " -> " ++ target)

/-- Copy a file. -/
def copy (now : Int) (id : StoreId) (source target : String) : ConsoleAction Unit := do
  let entry ← within ("Failed to copy " ++ source ++ " to " ++ target)
    (onStore id (Store.copy now target source none))
  printLine (source ++ " -> " ++ target ++ " (" ++ toString entry.length ++ " bytes)")

end VersionStore.Command
