import VersionStore.Entry
import VersionStore.Json.Decode

namespace VersionStore

/-!
# Entries as data values

An entry is an object with a field for each of its columns; the directory id and
the checksum may be left out, and the checksum is left out when there is none.
Fields are read in the order in which they occur, fields that are not known are
passed over, and a field that is missing is complained about in the order of the
columns. An entry may also be given as the list of its columns. A trashed entry
is an object with one more field for the directory.
-/

namespace Entry

/-- The columns of an entry that were read so far. -/
structure Draft where
  id : Option Int := none
  directoryId : Option Int := none
  name : Option String := none
  isDirectory : Option Bool := none
  lastModified : Option Int := none
  length : Option Int := none
  writable : Option Bool := none
  isDeleted : Option Bool := none
  lastDeleted : Option Int := none
  checksum : Option Checksum := none

/-- The names of the columns in order. -/
def columns : List String :=
  ["id", "dir_id", "name", "is_dir", "last_modified", "length", "writable",
    "is_deleted", "last_deleted", "checksum"]

namespace Draft

open Json

/-- Read one field into a draft. -/
def read (draft : Draft) (field : String) (value : Json) : Decoded Draft :=
  match field with
  | "id" => do return { draft with id := some (← value.asInt64) }
  | "dir_id" => do return { draft with directoryId := some (← value.asInt64) }
  | "name" => do return { draft with name := some (← value.asString) }
  | "is_dir" => do return { draft with isDirectory := some (← value.asBool) }
  | "last_modified" => do return { draft with lastModified := some (← value.asInt64) }
  | "length" => do return { draft with length := some (← value.asInt64) }
  | "writable" => do return { draft with writable := some (← value.asBool) }
  | "is_deleted" => do return { draft with isDeleted := some (← value.asBool) }
  | "last_deleted" => do return { draft with lastDeleted := some (← value.asInt64) }
  | "checksum" => do return { draft with checksum := ← value.asOptional asChecksum }
  | _ => .ok draft

/-- Read fields in order. -/
def readAll (draft : Draft) : List (String × Json) → Decoded Draft
  | [] => .ok draft
  | (field, value) :: rest => do (← draft.read field value).readAll rest

/-- A column that has to be there; `position` is its place among the columns. -/
def column
    (missing : Nat → String → Json.Fault)
    (position : Nat)
    (name : String) :
    Option α → Decoded α
  | some value => .ok value
  | none => .error (missing position name)

/-- The entry of a draft with all the columns that have to be there. -/
def finish (missing : Nat → String → Json.Fault) (draft : Draft) : Decoded Entry := do
  let id ← column missing 0 "id" draft.id
  let name ← column missing 2 "name" draft.name
  let isDirectory ← column missing 3 "is_dir" draft.isDirectory
  let lastModified ← column missing 4 "last_modified" draft.lastModified
  let length ← column missing 5 "length" draft.length
  let writable ← column missing 6 "writable" draft.writable
  let isDeleted ← column missing 7 "is_deleted" draft.isDeleted
  let lastDeleted ← column missing 8 "last_deleted" draft.lastDeleted
  return {
    id, directoryId := draft.directoryId.getD 0, name, isDirectory, lastModified,
    length, writable, isDeleted, lastDeleted, checksum := draft.checksum }

end Draft

/-- Read an entry from its fields. -/
def ofFields (fields : List (String × Json)) : Json.Decoded Entry := do
  (← Draft.readAll {} fields).finish fun _ name => .missingField name

/-- Read an entry from the list of its columns. -/
def ofColumns (items : List Json) : Json.Decoded Entry := do
  let draft ← Draft.readAll {} (columns.zip items)
  let entry ← draft.finish fun position _ =>
    .wrongLength position "struct FileStat with 10 elements"
  if items.length > columns.length then
    throw (.wrongLength items.length "fewer elements in array")
  return entry

/-- Read an entry from a value. -/
def ofJson : Json → Json.Decoded Entry
  | .obj fields => ofFields fields
  | .arr items => ofColumns items
  | value => value.mismatch "struct FileStat"

/-- The checksum field, if there is a checksum. -/
def checksumField (entry : Entry) : List (String × Json) :=
  match entry.checksum with
  | some checksum => [("checksum", .str checksum.toHex)]
  | none => []

/-- The fields behind the checksum and the directory. -/
def plainFields (entry : Entry) : List (String × Json) :=
  [("dir_id", .int entry.directoryId), ("id", .int entry.id),
    ("is_deleted", .bool entry.isDeleted), ("is_dir", .bool entry.isDirectory),
    ("last_deleted", .int entry.lastDeleted), ("last_modified", .int entry.lastModified),
    ("length", .int entry.length), ("name", .str entry.name),
    ("writable", .bool entry.writable)]

/-- An entry as a value, its fields in the order of their names. -/
def toJson (entry : Entry) : Json :=
  .obj (entry.checksumField ++ entry.plainFields)

end Entry

namespace TrashEntry

/-- Read the directory from a field, if it is the field for it. -/
def readDirectory (found : Option String) : List (String × Json) → Json.Decoded (Option String)
  | [] => .ok found
  | (field, value) :: rest =>
      if field = "dir" then do readDirectory (some (← value.asString)) rest
      else readDirectory found rest

/-- Read a trashed entry from a value: the directory first, then the entry. -/
def ofJson : Json → Json.Decoded TrashEntry
  | .obj fields => do
      match ← readDirectory none fields with
      | none => throw (.missingField "dir")
      | some directory => return ⟨directory, ← Entry.ofFields fields⟩
  | value => value.mismatch "struct DeletedFileStat"

/-- A trashed entry as a value, its fields in the order of their names. -/
def toJson (trashed : TrashEntry) : Json :=
  .obj (trashed.entry.checksumField ++
    ("dir", .str trashed.directory) :: trashed.entry.plainFields)

end TrashEntry

end VersionStore
