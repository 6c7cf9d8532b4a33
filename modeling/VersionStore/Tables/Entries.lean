import VersionStore.Tables.Basic

namespace VersionStore.Tables

/-!
# The entries table

Look-ups of live and trashed entries, and the changes to their rows. Names are
told apart by the directory that holds them; where several live entries share a
name, the oldest is meant.
-/

/-- An entry by id, live or not. -/
def entry? (tables : Tables) (id : Int) : Option Entry :=
  tables.entries.find? (·.id == id)

/-- A trashed entry by id. -/
def trashed? (tables : Tables) (id : Int) : Option Entry :=
  tables.entries.find? fun entry => entry.id == id && entry.isDeleted

/-- The live entry of a name in a directory that is given by its path. -/
def lookup? (tables : Tables) (directory name : String) : Option Entry :=
  tables.entries.find? fun entry =>
    entry.name == name && !entry.isDeleted &&
      tables.directories.any fun row =>
        row.id == entry.directoryId && row.path == directory

/-- The live entry of a name in a directory that is given by its id. -/
def lookupIn? (tables : Tables) (directoryId : Int) (name : String) : Option Entry :=
  tables.entries.find? fun entry =>
    entry.directoryId == directoryId && entry.name == name && !entry.isDeleted &&
      entry.id != rootId

/-- The live entries in a directory, in the order of their ids. -/
def liveIn (tables : Tables) (directoryId : Int) : List Entry :=
  tables.entries.filter fun entry =>
    entry.directoryId == directoryId && !entry.isDeleted && entry.id != rootId

/-- The order of names in a listing. -/
def nameLe (first second : Entry) : Bool :=
  decide (first.name ≤ second.name)

/-- The live entries in a directory, in the order of their names. -/
def listing (tables : Tables) (directoryId : Int) : List Entry :=
  (tables.liveIn directoryId).mergeSort nameLe

/-- True for a directory without live entries. -/
def isEmptyDirectory (tables : Tables) (directoryId : Int) : Bool :=
  (tables.liveIn directoryId).isEmpty

/-- The number of entries that keep a directory's row: all that it holds, in any
state, and its own while live. -/
def usage (tables : Tables) (directoryId : Int) : Nat :=
  tables.entries.countP fun entry =>
    entry.directoryId == directoryId || (entry.id == directoryId && !entry.isDeleted)

/-- Add an entry, giving it the next id. -/
def addEntry (tables : Tables) (entry : Entry) : Int × Tables :=
  let id := tables.lastEntryId + 1
  (id, { tables with
    entries := tables.entries ++ [{ entry with id }]
    lastEntryId := id })

/-- A live entry as it is first stored, without content. -/
def freshEntry (directoryId : Int) (name : String) (isDirectory : Bool) (modified : Int) :
    Entry where
  id := 0
  directoryId := directoryId
  name := name
  isDirectory := isDirectory
  lastModified := modified
  length := 0
  writable := true
  isDeleted := false
  lastDeleted := 0
  checksum := none

/-- Add a live entry without content. -/
def createEntry
    (tables : Tables)
    (directoryId : Int)
    (name : String)
    (isDirectory : Bool)
    (modified : Int) :
    Int × Tables :=
  tables.addEntry (freshEntry directoryId name isDirectory modified)

/-- Add an entry that is in the trash from the start. -/
def createTrashed
    (tables : Tables)
    (directoryId : Int)
    (name : String)
    (isDirectory : Bool)
    (modified length deleted : Int)
    (checksum : Option Checksum) :
    Int × Tables :=
  tables.addEntry { freshEntry directoryId name isDirectory modified with
    length
    isDeleted := true
    lastDeleted := deleted
    checksum }

/-- Change the entry of an id. -/
def modifyEntry (tables : Tables) (id : Int) (change : Entry → Entry) : Tables :=
  { tables with
    entries := tables.entries.map fun entry =>
      if entry.id = id then change entry else entry }

/-- The number of rows of an entry, which is one or none. -/
def entryCount (tables : Tables) (id : Int) : Nat :=
  tables.entries.countP (·.id == id)

/-- Record what a file's content came to. -/
def recordContent
    (tables : Tables)
    (id length modified : Int)
    (checksum : Option Checksum) :
    Tables :=
  tables.modifyEntry id fun entry =>
    { entry with length, lastModified := modified, checksum }

/-- Set the time of an entry's last change. -/
def setLastModified (tables : Tables) (id modified : Int) : Tables :=
  tables.modifyEntry id fun entry => { entry with lastModified := modified }

/-- Allow or forbid writing to an entry. -/
def setWritable (tables : Tables) (id : Int) (writable : Bool) : Tables :=
  tables.modifyEntry id fun entry => { entry with writable }

/-- Put an entry under another directory and name. -/
def moveEntry
    (tables : Tables)
    (id directoryId : Int)
    (name : String)
    (modified : Int) :
    Tables :=
  tables.modifyEntry id fun entry =>
    { entry with directoryId, name, lastModified := modified }

/-- Move an entry to the trash. -/
def trashEntry (tables : Tables) (id deleted : Int) : Tables :=
  tables.modifyEntry id fun entry =>
    { entry with isDeleted := true, lastDeleted := deleted }

/-- Remove the row of an entry. -/
def removeEntry (tables : Tables) (id : Int) : Tables :=
  { tables with entries := tables.entries.filter (·.id != id) }

end VersionStore.Tables
