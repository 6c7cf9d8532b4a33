import VersionStore.Tables.Entries
import VersionStore.Tables.Directories

namespace VersionStore.Tables

/-!
# The trash

Trashed entries with the paths of their directories. Listings are ordered by
directory and name, and within one name the newest deletion comes first. A
count limits the rows before those without a directory are left out.
-/

/-- An entry with the path of the directory that holds it, if that has a row. -/
structure Placed where
  directory : Option String
  entry : Entry

/-- An entry with the path of its directory. -/
def place (tables : Tables) (entry : Entry) : Placed :=
  ⟨tables.directoryPath? entry.directoryId, entry⟩

/-- The trash entry of an entry whose directory has a row. -/
def Placed.trashEntry? (placed : Placed) : Option TrashEntry :=
  placed.directory.map fun directory => ⟨directory, placed.entry⟩

/-- The order of directory paths; an entry without one comes first. -/
def directoryLe : Option String → Option String → Bool
  | none, _ => true
  | some _, none => false
  | some first, some second => decide (first ≤ second)

/-- Order by directory, then by name, then the newest deletion first. -/
def trashLe (first second : Placed) : Bool :=
  if first.directory = second.directory then
    if first.entry.name = second.entry.name then
      decide (second.entry.lastDeleted ≤ first.entry.lastDeleted)
    else
      decide (first.entry.name ≤ second.entry.name)
  else
    directoryLe first.directory second.directory

/-- Rows in the order of a trash listing, limited, and with their directories. -/
def trashListing (count : Int) (rows : List Placed) : List TrashEntry :=
  (limit count (rows.mergeSort trashLe)).filterMap Placed.trashEntry?

/-- True when a path is `root` or lies below it; everything is below no path. A
null character ends the part of a text that is compared, so that nothing lies
below a path that holds one. -/
def isUnder (root path : String) : Bool :=
  root.isEmpty || path == root ||
    (!root.toList.contains '\x00' && (root.toList ++ ['/']).isPrefixOf path.toList)

/-- True when a directory's path is known and lies under `root`. Under no path
lies even a directory without one. -/
def isPlacedUnder (root : String) (directory : Option String) : Bool :=
  match directory with
  | some path => isUnder root path
  | none => root.isEmpty

/-- All trashed entries, the oldest first. -/
def trash (tables : Tables) : List TrashEntry :=
  ((tables.entries.filter (·.isDeleted)).map tables.place).filterMap Placed.trashEntry?

/-- True for a file in the trash. -/
def isTrashedFile (entry : Entry) : Bool :=
  entry.isDeleted && !entry.isDirectory

/-- Trashed files with their directories, the oldest first. -/
def trashedFiles (tables : Tables) : List Placed :=
  (tables.entries.filter isTrashedFile).map tables.place

/-- Trashed files at or below `root`. -/
def trashUnder (tables : Tables) (root : String) (count : Int) : List TrashEntry :=
  trashListing count
    (tables.trashedFiles.filter fun placed => isPlacedUnder root placed.directory)

/-- Trashed files of the directories at a path. Versions that tie are listed
directory by directory, the oldest directory first. -/
def trashIn (tables : Tables) (directory : String) (count : Int) : List TrashEntry :=
  let here := tables.directories.filter (·.path == directory)
  trashListing count <| here.flatMap fun row =>
    tables.trashedFiles.filter (·.entry.directoryId == row.id)

/-- Trashed versions of one file. -/
def versionsOf
    (tables : Tables)
    (directory name : String)
    (count : Int) :
    List TrashEntry :=
  trashListing count
    (tables.trashedFiles.filter fun placed =>
      placed.entry.name == name && placed.directory == some directory)

/-- True when a directory holds a trashed file. -/
def holdsTrash (tables : Tables) (id : Int) : Bool :=
  tables.entries.any fun entry => isTrashedFile entry && entry.directoryId == id

/-- Directories at or below `root` that hold trashed files, as their own
entries. -/
def trashDirectories (tables : Tables) (root : String) (count : Int) : List TrashEntry :=
  let directories := tables.entries.filter fun entry =>
    entry.isDirectory && tables.holdsTrash entry.id &&
      isPlacedUnder root (tables.directoryPath? entry.id)
  trashListing count (directories.map tables.place)

end VersionStore.Tables
