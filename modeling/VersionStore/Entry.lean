import VersionStore.Checksum
import VersionStore.Path

namespace VersionStore

/-!
# Entries and parts

An entry is one version of a file or directory, live or in the trash. The
bytes of a file lie in parts, each with its place in the file.
-/

/-- The entry that stands for the whole store. -/
def rootId : Int := 1

/-- One version of a file or directory. -/
structure Entry where
  id : Int
  /-- The directory that holds the entry. -/
  directoryId : Int
  name : String
  isDirectory : Bool
  lastModified : Int
  length : Int
  writable : Bool
  isDeleted : Bool
  lastDeleted : Int
  checksum : Option Checksum
  deriving DecidableEq, Inhabited

namespace Entry

/-- True for an entry that is no directory. -/
def isFile (entry : Entry) : Bool :=
  !entry.isDirectory

/-- Whether an entry may be written to, in two letters. -/
def permissions (entry : Entry) : String :=
  if entry.writable then "rw" else "r-"

/-- The digits of the recorded checksum, none when there is none. -/
def checksumHex (entry : Entry) : String :=
  match entry.checksum with
  | some checksum => checksum.toHex
  | none => ""

end Entry

/-- A trashed entry together with the path of the directory that holds it. -/
structure TrashEntry where
  directory : String
  entry : Entry
  deriving DecidableEq, Inhabited

namespace TrashEntry

/-- The path of the entry itself. -/
def path (trashed : TrashEntry) : String :=
  Path.join trashed.directory trashed.entry.name

/-- A one-line description. -/
def describe (trashed : TrashEntry) : String :=
  let e := trashed.entry
  "DeletedFileStat(" ++ ", ".intercalate
    [trashed.directory, e.name, toString e.isDirectory, toString e.length,
      toString e.isDeleted, toString e.lastDeleted] ++ ")"

end TrashEntry

/-- The bytes of one part of a file. -/
structure Content where
  id : Int
  offset : Int
  data : ByteArray
  deriving DecidableEq, Inhabited

namespace Content

/-- The number of bytes in a part. -/
def size (content : Content) : Nat :=
  content.data.size

/-- The place in the file just behind a part. -/
def stop (content : Content) : Int :=
  content.offset + content.size

/-- A one-line description without the bytes. -/
def describe (content : Content) : String :=
  "Content \x7b id: " ++ toString content.id ++ ", offset: " ++ toString content.offset ++
    ", length: " ++ toString content.size ++ " \x7d"

end Content

/-- The place of one part of a file, without its bytes. -/
structure Extent where
  id : Int
  offset : Int
  length : Int
  deriving DecidableEq, Inhabited, Repr

namespace Extent

/-- The place in the file just behind an extent. -/
def stop (extent : Extent) : Int :=
  extent.offset + extent.length

/-- True for the positions from the start of an extent to just before its end. -/
def contains (extent : Extent) (position : Int) : Bool :=
  extent.offset ≤ position && position < extent.stop

end Extent

end VersionStore
