import VersionStore.Fault
import VersionStore.Tables.Basic

namespace VersionStore.Tables

/-!
# The directories table

Look-ups of directories by path and by id, and the changes to their rows. A
directory in the trash may share its path with a live one, and the live one is
then meant.
-/

/-- The row of a directory. -/
def directory? (tables : Tables) (id : Int) : Option Directory :=
  tables.directories.find? (·.id == id)

/-- The path of a directory. -/
def directoryPath? (tables : Tables) (id : Int) : Option String :=
  (tables.directory? id).map (·.path)

/-- True when the entry of a directory row is live. -/
def isLiveDirectory (tables : Tables) (directory : Directory) : Bool :=
  tables.entries.any fun entry => entry.id == directory.id && !entry.isDeleted

/-- The id of the directory at a path: a live one first, and then the newest. -/
def directoryId? (tables : Tables) (path : String) : Option Int :=
  let here := tables.directories.filter (·.path == path)
  match (here.filter tables.isLiveDirectory).getLast? with
  | some live => some live.id
  | none => here.getLast?.map (·.id)

/-- The ids of all directories. -/
def directoryIds (tables : Tables) : List Int :=
  tables.directories.map (·.id)

/-- Directories directly below a directory, live or not. -/
def childDirectories (tables : Tables) (id : Int) : List Directory :=
  tables.directories.filter fun directory =>
    directory.id != id &&
      tables.entries.any fun entry =>
        entry.id == directory.id && entry.directoryId == id && entry.isDirectory

/-- Put a directory into its place among directories in the order of ids. -/
def placeDirectory (directory : Directory) : List Directory → List Directory
  | [] => [directory]
  | first :: rest =>
      if directory.id < first.id then directory :: first :: rest
      else first :: placeDirectory directory rest

/-- Add a directory under an id that no directory has yet. -/
def addDirectory (tables : Tables) (id : Int) (path : String) : Except Fault Tables :=
  if (tables.directory? id).isSome then
    .error (.database .duplicateDirectory)
  else
    .ok { tables with directories := placeDirectory ⟨id, path⟩ tables.directories }

/-- Give a directory another path. -/
def renameDirectory (tables : Tables) (id : Int) (path : String) : Tables :=
  { tables with
    directories := tables.directories.map fun directory =>
      if directory.id = id then { directory with path } else directory }

/-- Remove the row of a directory. -/
def removeDirectory (tables : Tables) (id : Int) : Tables :=
  { tables with directories := tables.directories.filter (·.id != id) }

/-- The number of rows of a directory, which is one or none. -/
def directoryCount (tables : Tables) (id : Int) : Nat :=
  tables.directories.countP (·.id == id)

end VersionStore.Tables
