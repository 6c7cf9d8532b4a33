import VersionStore.Txn.Lookup

namespace VersionStore.Txn

/-!
# Changing the tree

Directories are made along a path, entries are deleted, pruned and moved. A
directory is deleted only when it is empty. Moving a directory rewrites the path
of every directory below it, in the trash or not.
-/

open VersionStore.Action

/-- Make a directory in a directory. -/
def makeDirectory (now parent : Int) (path : String) (name : Name) : Action Int := do
  let id ← insert fun tables => tables.createEntry parent name.text true now
  addDirectory id path
  return id

/-- Make the directories that are missing along a path, and give the last one's
id. -/
def makeAlong (now : Int) (directory : Int) : List (String × Name) → Action Int
  | [] => return directory
  | (path, name) :: rest => do
      match ← query fun tables => tables.lookupIn? directory name.text with
      | some entry =>
          if entry.isDirectory then makeAlong now entry.id rest
          else throw (.invalidDestination path)
      | none =>
          let id ← makeDirectory now directory path name
          makeAlong now id rest

/-- Make the directories that are missing along a clean path. -/
def makeDirectoriesAt (now : Int) (path : CleanPath) : Action Int :=
  makeAlong now rootId (CleanPath.ancestry "" path.names)

/-- Make the directories that are missing along a path text. -/
def makeDirectories (now : Int) (text : String) : Action Int := do
  makeDirectoriesAt now (← clean text)

/-! ## Deleting and pruning -/

/-- Remove a row with everything that hangs on it, and count the rows of the
entry itself. -/
def pruneRow (entry : Entry) : Action Nat := do
  let count ← query fun tables => tables.entryCount entry.id
  update fun tables =>
    let removed := tables.removeEntry entry.id
    if entry.isDirectory then removed.removeDirectory entry.id
    else (removed.removeParts entry.id).removeLinks entry.id
  return count

/-- Move a row to the trash, and count the rows that were moved. -/
def trashRow (now : Int) (entry : Entry) : Action Nat := do
  let count ← query fun tables => tables.entryCount entry.id
  update fun tables => tables.trashEntry entry.id now
  return count

/-- Trash or remove an entry, depending on whether history is kept. -/
def deleteExisting (now : Int) (entry : Entry) : Action Bool :=
  locked entry true do
    let count ← if (← get).config.keepHistory then trashRow now entry else pruneRow entry
    return count > 0

/-- Delete an entry, unless it is the root or a directory with entries. -/
def deleteEntry (now : Int) (entry : Entry) : Action Bool := do
  if entry.id = rootId then return false
  if entry.isDirectory && !(← query fun tables => tables.isEmptyDirectory entry.id) then
    return false
  deleteExisting now entry

/-- Delete the entry at a path text, if there is one. -/
def delete (now : Int) (text : String) : Action Bool := do
  match ← stat text with
  | some entry => deleteEntry now entry
  | none => return false

/-- Remove a file's row and content for good, trashed or not. An empty directory
only goes to the trash. -/
def prune (now : Int) (entry : Entry) : Action Bool := do
  if entry.isDirectory then
    if entry.id != rootId && (← query fun tables => tables.isEmptyDirectory entry.id) then
      return (← trashRow now entry) > 0
    return false
  return (← pruneRow entry) > 0

/-! ## Moving -/

/-- Directories below a directory that are due for a path, with that path. -/
def dueBelow (tables : Tables) (id : Int) (path : String) : List (Int × String) :=
  (tables.childDirectories id).map fun child =>
    (child.id, Path.join path (Path.split child.path).2)

/-- Give directories their new paths and go on with those below them, for at
most `fuel` directories. -/
def rewritePaths (fuel : Nat) (due : List (Int × String)) (tables : Tables) : Tables :=
  match fuel, due with
  | 0, _ => tables
  | _, [] => tables
  | fuel + 1, (id, path) :: rest =>
      let renamed := tables.renameDirectory id path
      rewritePaths fuel (dueBelow renamed id path ++ rest) renamed

/-- Give a directory a new path, and every directory below it the path that
follows from it. Each directory has one parent, so no more directories come up
than there are entries. -/
def renameTree (tables : Tables) (id : Int) (path : String) : Tables :=
  rewritePaths (tables.entries.length + 1) [(id, path)] tables

/-- True when `path` lies below `above`. -/
def isBelow (path above : CleanPath) : Bool :=
  (above.text.toList ++ ['/']).isPrefixOf path.text.toList

/-- Move an entry to a path that has none. -/
def moveTo (now : Int) (target source : String) (time? : Option Int) : Action Entry := do
  let target ← clean target
  let source ← clean source
  let entry ← requireEntry source
  if source.isRoot || target.isRoot || (← entryAt? target).isSome then
    throw (.invalidDestination target.text)
  if entry.isDirectory && isBelow target source then
    throw (.invalidDestination target.text)
  locked entry true do
    let parent ← makeDirectoriesAt now target.dropLast
    update fun tables =>
      let moved := tables.moveEntry entry.id parent target.name (time?.getD now)
      if entry.isDirectory then renameTree moved entry.id target.text else moved
    Action.require (.notFound target.text) (← query fun tables => tables.entry? entry.id)

/-! ## Attributes -/

/-- Change the entry at a path text, and tell whether there was one. -/
def changeAt (text : String) (change : Tables → Int → Tables) : Action Bool := do
  match ← stat text with
  | some entry =>
      update fun tables => change tables entry.id
      return true
  | none => return false

/-- Set the time of the last change at a path text. -/
def setLastModified (text : String) (time : Int) : Action Bool :=
  changeAt text fun tables id => tables.setLastModified id time

/-- Allow or forbid writing at a path text. -/
def setWritable (text : String) (writable : Bool) : Action Bool :=
  changeAt text fun tables id => tables.setWritable id writable

/-- Replace the links from a path text. -/
def setLinks (text : String) (targets : List String) : Action Bool :=
  changeAt text fun tables id => tables.setLinks id targets

end VersionStore.Txn
