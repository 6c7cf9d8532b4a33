import VersionStore.Text.Quoted
import VersionStore.Txn.Trash

namespace VersionStore.Store

/-!
# Operations of a store

Each operation here is complete in itself: a query runs inside the gate, and a
change runs in a transaction of its own, so that a change that fails leaves the
tables as they were. Queries look at their path before they enter the gate;
changes look at theirs inside the transaction.
-/

open VersionStore.Action

/-- A one-line description. -/
def describe (store : Store) : String :=
  "Dbfs \x7b path: " ++ Text.quoted store.config.path ++ ", closed: " ++
    toString store.closed ++ " \x7d"

/-! ## Queries -/

/-- The path of a directory that is given by its id. -/
def directoryPath? (id : Int) : Action (Option String) :=
  reading (query (fun tables => tables.directoryPath? id) .directories)

/-- The live entry at a path. -/
def stat (text : String) : Action (Option Entry) := do
  let path ← Txn.clean text
  reading (Txn.entryAt? path)

/-- The live entries in a directory, by path. -/
def list (text : String) : Action (List Entry) := do
  let path ← Txn.clean text
  reading (Txn.listAt path)

/-- The live entries in a directory, by id. -/
def listOf (id : Int) : Action (List Entry) :=
  reading (query fun tables => tables.listing id)

/-- The paths that an entry links to. -/
def linksFrom (text : String) : Action (List String) := do
  let path ← Txn.clean text
  reading (Txn.linksFrom path)

/-- Live entries that link to a path. -/
def linksTo (text : String) : Action (List TrashEntry) := do
  let path ← Txn.clean text
  reading (Txn.linksTo path)

/-- True when a file's stored bytes are those that were recorded. -/
def verify (text : String) : Action Bool := do
  let path ← Txn.clean text
  reading (Txn.verifyAt path)

/-- Hand bytes on to something that may refuse them. -/
def putAll (put : σ → ByteArray → Except IoFault σ) (held : σ) :
    List Content → Except IoFault σ
  | [] => .ok held
  | content :: rest =>
      match put held content.data with
      | .ok more => putAll put more rest
      | .error fault => .error fault

/-- Hand the bytes of a file on, part by part. -/
def copyOut (text : String) (put : σ → ByteArray → Except IoFault σ) (start : σ) : Action σ := do
  let path ← Txn.clean text
  reading do
    let entry ← Txn.requireFile path
    locked entry false do
      let contents ← query fun tables => tables.contents entry.id
      match putAll put start contents with
      | .ok held => return held
      | .error fault => throw (.io fault)

/-- Trashed files and directories, as `Txn.history` lists them. -/
def history
    (root directory name : String)
    (directories : Bool)
    (count : Int) :
    Action (List TrashEntry) :=
  reading (query fun tables => Txn.history tables root directory name directories count)

/-- Trashed files that a selector accepts. -/
def searchHistory
    (root directory name : String)
    (count : Int)
    (select : Txn.Selector) :
    Action (List TrashEntry) :=
  reading (query fun tables => Txn.searchHistory tables root directory name count select)

/-! ## Changes -/

/-- Make the directories that are missing along a path. -/
def makeDirectories (now : Int) (text : String) : Action Int :=
  writing (Txn.makeDirectories now text)

/-- Replace a file with some bytes. -/
def write
    (now : Int)
    (text : String)
    (data : ByteArray)
    (links? : Option (List String))
    (time? : Option Int) :
    Action Entry :=
  writing (Txn.write now text data links? time?)

/-- Replace a file with everything that a source delivers. -/
def writeFrom
    (now : Int)
    (text : String)
    (source : Source)
    (links? : Option (List String))
    (time? : Option Int) :
    Action Entry :=
  writing (Txn.writeFrom now text source links? time?)

/-- Store a snapshot in the trash, and tell whether that succeeded. -/
def snapshot
    (now : Int)
    (text : String)
    (source? : Option Source)
    (time? : Option Int) :
    Action Bool := do
  let outcome ← attempt (writing (Txn.snapshot now text source? time?))
  return outcome.isOk

/-- Delete the entry at a path. -/
def delete (now : Int) (text : String) : Action Bool :=
  writing (Txn.delete now text)

/-- Delete an entry. -/
def deleteEntry (now : Int) (entry : Entry) : Action Bool :=
  writing (Txn.deleteEntry now entry)

/-- Copy a file to another path. -/
def copy (now : Int) (target source : String) (time? : Option Int) : Action Entry :=
  writing (Txn.copy now target source time?)

/-- Move an entry to a path that has none. -/
def moveTo (now : Int) (target source : String) (time? : Option Int) : Action Entry :=
  writing (Txn.moveTo now target source time?)

/-- Set the time of the last change at a path. -/
def setLastModified (text : String) (time : Int) : Action Bool :=
  writing (Txn.setLastModified text time)

/-- Allow or forbid writing at a path. -/
def setWritable (text : String) (writable : Bool) : Action Bool :=
  writing (Txn.setWritable text writable)

/-- Replace the links from a path. -/
def setLinks (text : String) (targets : List String) : Action Bool :=
  writing (Txn.setLinks text targets)

/-- Remove a file for good. -/
def prune (now : Int) (entry : Entry) : Action Bool :=
  writing (Txn.prune now entry)

/-- Remove versions for good. -/
def pruneHistory (infos : List TrashEntry) (all : Bool) : Action (Nat × Nat) :=
  writing (Txn.pruneHistory infos all)

/-- Copy trashed versions back into the live tree. -/
def recover (now : Int) (target : String) (infos : List TrashEntry) : Action (Nat × Nat) :=
  writing (Txn.recover now target infos)

/-- Empty the trash. With a selector the space that the trash took is given back,
which needs a database that can be changed. -/
def sweep (select? : Option Txn.Selector) : Action (Nat × Nat) :=
  writing do
    let counts ← Txn.sweep select?
    if select?.isSome then claim .entries
    return counts

end VersionStore.Store
