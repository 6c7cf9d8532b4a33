import VersionStore.Entry

namespace VersionStore

/-!
# The tables of a store

A store is five tables: directories, entries, parts, link targets and links.
Every table is kept in the order of its ids. Ids of entries and parts are never
given out twice within one history, so each of these two tables remembers the
last id it gave; the other tables take one more than their greatest id, or are
told their ids.
-/

/-- A directory's own path, under the id of its entry. -/
structure Directory where
  id : Int
  path : String
  deriving DecidableEq, Inhabited, Repr

/-- A stored run of a file's bytes. -/
structure Part where
  id : Int
  fileId : Int
  offset : Int
  length : Int
  data : ByteArray
  deriving DecidableEq, Inhabited

/-- The place of a part, without its bytes. -/
def Part.extent (part : Part) : Extent where
  id := part.id
  offset := part.offset
  length := part.length

/-- The bytes of a part, with its place. -/
def Part.content (part : Part) : Content where
  id := part.id
  offset := part.offset
  data := part.data

/-- A path that some entry links to. -/
structure LinkTarget where
  id : Int
  path : String
  deriving DecidableEq, Inhabited, Repr

/-- A link from an entry to a link target. -/
structure Link where
  id : Int
  source : Int
  target : Int
  deriving DecidableEq, Inhabited, Repr

/-- All rows of a store. -/
structure Tables where
  directories : List Directory := []
  entries : List Entry := []
  parts : List Part := []
  targets : List LinkTarget := []
  links : List Link := []
  /-- The last id given to an entry. -/
  lastEntryId : Int := 0
  /-- The last id given to a part. -/
  lastPartId : Int := 0
  deriving DecidableEq, Inhabited

namespace Tables

/-- Tables without a row. -/
def empty : Tables := {}

/-- The first `count` of a list, all of it when `count` is negative. -/
def limit (count : Int) (rows : List α) : List α :=
  if count < 0 then rows else rows.take count.toNat

/-- One more than the greatest of some ids. -/
def nextId (ids : List Int) : Int :=
  match ids with
  | [] => 1
  | first :: rest => rest.foldl max first + 1

/-- A negative count limits nothing. -/
@[simp] theorem limit_of_neg
    {count : Int}
    (negative : count < 0)
    (rows : List α) :
    limit count rows = rows :=
  if_pos negative

end Tables

end VersionStore
