import VersionStore.Host.FileHandle

namespace VersionStore.Root

/-!
# The trash of a root

A text below a root means a directory when it is empty or ends in a separator,
and a file otherwise. Trashed versions are restored within their store, or read
and written again into another one.
-/

/-- The handles of a root's entries, none once the store is closed. -/
def list (root : Root) : HostAction (List FileHandle) := do
  if ((← get).store root.store).closed then return []
  let entries ← HostAction.on root.store (Store.list root.text)
  (entries.mapM fun entry => FileHandle.ofText root entry.name : Except Fault (List FileHandle))

/-- The directory and the name that a text below a root asks about; the name is
empty when it asks about a directory. -/
def historyPlace (root : Root) (relative : String) : Except Fault (String × String) :=
  match CleanPath.ofText (Path.join root.text relative) with
  | .error fault => .error fault
  | .ok path =>
      if relative.isEmpty || Path.endsInSeparator relative then .ok (path.text, "")
      else .ok (path.directory, path.name)

/-- Trashed files at a text below a root. -/
def history (root : Root) (relative : String) (directories : Bool) :
    HostAction (List TrashEntry) := do
  let (directory, name) ← (root.historyPlace relative : Except Fault (String × String))
  HostAction.on root.store (Store.history root.text directory name directories (-1))

/-- Trashed files at a text below a root that a selector accepts. -/
def searchHistory (root : Root) (relative : String) (select : Txn.Selector) :
    HostAction (List TrashEntry) := do
  let (directory, name) ← (root.historyPlace relative : Except Fault (String × String))
  HostAction.on root.store (Store.searchHistory root.text directory name (-1) select)

/-- Read one trashed version and write it to a handle in another store. -/
def restoreAcross (now : Int) (root : Root) (target : FileHandle) (info : TrashEntry) :
    HostAction Entry := do
  let reader ← HostAction.on root.store (Reader.openEntry info.entry)
  FileHandle.writeReader now root.store reader target (some info.entry.lastModified)

/-- Restore entries in order into another store. Gives the numbers of entries
restored and failed. -/
def restoreEachAcross (now : Int) (root : Root) (target : FileHandle) (single : Bool) :
    List TrashEntry → HostAction (Nat × Nat)
  | [] => return (0, 0)
  | info :: rest => do
      let file ←
        if single then pure target
        else (target.child info.entry.name : Except Fault FileHandle)
      let outcome ← HostAction.attempt (restoreAcross now root file info)
      let (restored, failed) ← restoreEachAcross now root target single rest
      return if outcome.isOk then (restored + 1, failed) else (restored, failed + 1)

/-- Restore trashed versions of a root's store to a handle in any store. -/
def recover (now : Int) (root : Root) (target : FileHandle) (infos : List TrashEntry) :
    HostAction (Nat × Nat) :=
  if target.root.store == root.store then
    HostAction.on root.store (Store.recover now target.text infos)
  else restoreEachAcross now root target (infos.length == 1) infos

end VersionStore.Root
