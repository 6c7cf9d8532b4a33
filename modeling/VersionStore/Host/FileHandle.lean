import VersionStore.Bytes.Utf8
import VersionStore.Host.Basic
import VersionStore.Text.Quoted

namespace VersionStore

/-!
# Roots and file handles

A root is a top level directory of a store. A file handle names a path at or
below a root; it says nothing about whether anything is there, and every
question goes to the store. No handle leads out of its root.
-/

/-- A top level directory of a store, with its entry as it was at first. -/
structure Root where
  store : StoreId
  name : Name
  entry : Entry
  deriving DecidableEq

namespace Root

/-- The root of a name in a store. -/
def named (id : StoreId) (text : String) : HostAction Root := do
  let path ← (CleanPath.ofText text : Except Fault CleanPath)
  match path.names with
  | [name] =>
      match ← HostAction.on id (Store.stat path.text) with
      | some entry =>
          if entry.isDirectory then return { store := id, name, entry }
          else throw (.notFound text)
      | none => throw (.notFound text)
  | _ => throw (.notFound text)

/-- The path of a root in its store. -/
def text (root : Root) : String :=
  root.name.text

/-- The path of a root from the top. -/
def absolute (root : Root) : String :=
  "/" ++ root.text

/-- A one-line description. -/
def describe (root : Root) : String :=
  "RootInfo \x7b name: " ++ Text.quoted root.text ++ " \x7d"

/-- True for two views of one root. -/
def same (first second : Root) : Bool :=
  first.store == second.store && first.name == second.name

end Root

/-- A path at or below a root. -/
structure FileHandle where
  root : Root
  /-- The path from the root on. -/
  below : CleanPath
  deriving DecidableEq

namespace FileHandle

/-- The handle for a text below a root. -/
def ofText (root : Root) (text : String) : Except Fault FileHandle :=
  match CleanPath.ofText (Path.join root.text text) with
  | .error fault => .error fault
  | .ok path =>
      match path.names with
      | [] => .error (.invalidDestination text)
      | first :: rest =>
          if first = root.name then .ok ⟨root, ⟨rest⟩⟩
          else .error (.invalidDestination text)

/-- The handle for a text below a handle. -/
def child (file : FileHandle) (text : String) : Except Fault FileHandle :=
  ofText file.root (Path.join file.below.text text)

/-- The path of a handle in its store. -/
def path (file : FileHandle) : CleanPath :=
  ⟨file.root.name :: file.below.names⟩

/-- The path in the store, written. -/
def text (file : FileHandle) : String :=
  file.path.text

/-- The path from the top, written. -/
def absolute (file : FileHandle) : String :=
  "/" ++ file.text

/-- The last name of the path. -/
def name (file : FileHandle) : String :=
  file.path.name

/-- A one-line description. -/
def describe (file : FileHandle) : String :=
  "Filepath(" ++ file.absolute ++ ")"

/-- The handle one name shorter, which the root itself does not have. -/
def parent? (file : FileHandle) : Option FileHandle :=
  if file.below.isRoot then none else some { file with below := file.below.dropLast }

/-- True for handles in one open store. -/
def sameStore (first second : FileHandle) : Bool :=
  first.root.store == second.root.store

/-- True for handles of one path in one open store. -/
def same (first second : FileHandle) : Bool :=
  first.sameStore second && first.path == second.path

/-- Do something to the store of a handle, given the handle's path. -/
def onPath (file : FileHandle) (action : String → Action α) : HostAction α :=
  HostAction.on file.root.store (action file.text)

/-! ## Questions -/

/-- The live entry at a handle. -/
def stat (file : FileHandle) : HostAction (Option Entry) :=
  file.onPath Store.stat

/-- True when something live is at a handle. -/
def exists? (file : FileHandle) : HostAction Bool := do
  return (← file.stat).isSome

/-- The live entry at a handle that has to have one. -/
def require (file : FileHandle) : HostAction Entry := do
  match ← file.stat with
  | some entry => return entry
  | none => throw (.notFound file.text)

/-- The live entries in the directory at a handle. -/
def list (file : FileHandle) : HostAction (List Entry) :=
  file.onPath Store.list

/-- Handles for entries below a handle. -/
def childrenOf (file : FileHandle) : List Entry → Except Fault (List FileHandle)
  | [] => .ok []
  | entry :: rest => do
      let first ← file.child entry.name
      return first :: (← file.childrenOf rest)

/-- Handles for the live entries in a directory. -/
def children (file : FileHandle) : HostAction (List FileHandle) := do
  file.childrenOf (← file.list)

/-- True for a directory without entries and a file without bytes; nothing where
there is nothing. -/
def isEmpty? (file : FileHandle) : HostAction (Option Bool) := do
  match ← file.stat with
  | none => return none
  | some entry =>
      if entry.isDirectory then return some (← file.list).isEmpty
      else return some (entry.length == 0)

/-! ## Content -/

/-- Open a reader for the file at a handle. -/
def openReader (file : FileHandle) : HostAction Reader :=
  file.onPath Reader.openPath

/-- Use a reader for a while and close it. -/
def withReader (id : StoreId) (reader : Reader) (action : StreamAction Reader α) :
    HostAction α := do
  let (outcome, after) ← HostAction.onStream id reader action
  let _ ← HostAction.onStream id after Reader.finish
  ofExcept outcome

/-- The bytes of the file at a handle. -/
def readBytes (file : FileHandle) : HostAction ByteArray := do
  withReader file.root.store (← file.openReader) Reader.readAll

/-- The text of the file at a handle, whose bytes have to be well formed. -/
def readText (file : FileHandle) : HostAction String := do
  match Utf8.decode (← file.readBytes) with
  | .ok text => return text
  | .error fault => throw (.io { kind := .invalidData, message := fault.message })

/-- The length of the file at a handle, as a reader sees it. -/
def inputSize (file : FileHandle) : HostAction Nat := do
  withReader file.root.store (← file.openReader) do
    return (← StreamAction.current).size

/-- Hand the bytes of a file on, part by part. -/
def copyOut (file : FileHandle) (put : σ → ByteArray → Except IoFault σ) (start : σ) :
    HostAction σ :=
  file.onPath fun path => Store.copyOut path put start

/-- Open a writer for the file at a handle. -/
def openWriter (now : Int) (file : FileHandle) (append : Bool) : HostAction Writer :=
  file.onPath fun path => Writer.openPath now path append

/-- Replace the file at a handle with some bytes. -/
def write
    (now : Int)
    (file : FileHandle)
    (data : ByteArray)
    (links? : Option (List String))
    (time? : Option Int) :
    HostAction Entry :=
  file.onPath fun path => Store.write now path data links? time?

/-- Replace the file at a handle with everything that a source delivers. -/
def writeFrom
    (now : Int)
    (file : FileHandle)
    (source : Source)
    (links? : Option (List String))
    (time? : Option Int) :
    HostAction Entry :=
  file.onPath fun path => Store.writeFrom now path source links? time?

/-- Store a snapshot of the file in the trash, and tell whether that succeeded. -/
def snapshot
    (now : Int)
    (file : FileHandle)
    (source? : Option Source)
    (time? : Option Int) :
    HostAction Bool :=
  file.onPath fun path => Store.snapshot now path source? time?

/-! ## Changes to the tree -/

/-- Set the time of the last change at a handle. -/
def setLastModified (file : FileHandle) (time : Int) : HostAction Bool :=
  file.onPath fun path => Store.setLastModified path time

/-- Allow or forbid writing at a handle. -/
def setWritable (file : FileHandle) (writable : Bool) : HostAction Bool :=
  file.onPath fun path => Store.setWritable path writable

/-- Make the directories that lead to a handle, and its own. -/
def makeDirectories (now : Int) (file : FileHandle) : HostAction Unit := do
  let _ ← file.onPath (Store.makeDirectories now)

/-- Make the directories that lead to a handle; there are none for the root. -/
def makeParent (now : Int) (file : FileHandle) : HostAction Bool := do
  match file.parent? with
  | some parent =>
      parent.makeDirectories now
      return true
  | none => return false

/-- Delete the entry at a handle. -/
def delete (now : Int) (file : FileHandle) : HostAction Bool :=
  file.onPath (Store.delete now)

/-- Make sure that a file is at a handle, and delete a file in the way at the
target. -/
def prepareTransfer (now : Int) (file target : FileHandle) : HostAction Unit := do
  if (← file.require).isDirectory then throw (.notAFile file.text)
  match ← target.stat with
  | some existing =>
      if existing.isDirectory then throw (.invalidDestination target.text)
      if !(← target.delete now) then throw (.invalidDestination target.text)
  | none => pure ()

/-- Write everything that a reader has left to a handle in another store. -/
def writeReader
    (now : Int)
    (id : StoreId)
    (reader : Reader)
    (target : FileHandle)
    (time? : Option Int) :
    HostAction Entry := do
  let (outcome, after) ← HostAction.onStream id reader Reader.toSource
  let written ← HostAction.attempt (do target.writeFrom now (← outcome) none time?)
  let _ ← HostAction.onStream id after Reader.finish
  ofExcept written

/-- Copy a file to a handle that nothing is at. -/
def transfer
    (now : Int)
    (file target : FileHandle)
    (time? : Option Int) :
    HostAction Entry := do
  if file.sameStore target then
    file.onPath fun path => Store.copy now target.text path time?
  else
    writeReader now file.root.store (← file.openReader) target time?

/-- Copy a file to a handle in any store, in place of a file there. -/
def copyTo
    (now : Int)
    (file target : FileHandle)
    (time? : Option Int) :
    HostAction Entry := do
  file.prepareTransfer now target
  file.transfer now target time?

/-- Move an entry within its store; nothing happens between stores. -/
def renameTo
    (now : Int)
    (file target : FileHandle)
    (time? : Option Int) :
    HostAction (Option Entry) := do
  if file.sameStore target then
    return some (← file.onPath fun path => Store.moveTo now target.text path time?)
  else return none

/-- Move a file to a handle in any store, in place of a file there. Between stores
it is copied and deleted. -/
def moveTo
    (now : Int)
    (file target : FileHandle)
    (time? : Option Int) :
    HostAction Entry := do
  file.prepareTransfer now target
  match ← file.renameTo now target time? with
  | some entry => return entry
  | none =>
      let entry ← file.transfer now target time?
      if !(← file.delete now) then throw (.inUse file.text)
      return entry

end FileHandle

end VersionStore
