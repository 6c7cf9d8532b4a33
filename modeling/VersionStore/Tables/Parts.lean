import VersionStore.Tables.Basic

namespace VersionStore.Tables

/-!
# The parts table

The bytes of files, in the order of their places. Parts are read one at a time;
a part that is gone between the listing and the reading is skipped.
-/

/-- The order of places within a file. -/
def offsetLe (first second : Part) : Bool :=
  decide (first.offset ≤ second.offset)

/-- The parts of a file in the order of their places. -/
def partsOf (tables : Tables) (fileId : Int) : List Part :=
  (tables.parts.filter (·.fileId == fileId)).mergeSort offsetLe

/-- The places of the parts of a file. -/
def extents (tables : Tables) (fileId : Int) : List Extent :=
  (tables.partsOf fileId).map Part.extent

/-- The bytes of one part. -/
def content? (tables : Tables) (id : Int) : Option Content :=
  (tables.parts.find? (·.id == id)).map Part.content

/-- The parts of a file with their bytes, in the order of their places. -/
def contents (tables : Tables) (fileId : Int) : List Content :=
  (tables.extents fileId).filterMap fun extent => tables.content? extent.id

/-- Add a part to a file. -/
def addPart (tables : Tables) (fileId offset : Int) (data : ByteArray) : Int × Tables :=
  let id := tables.lastPartId + 1
  (id, { tables with
    parts := tables.parts ++ [{ id, fileId, offset, length := data.size, data }]
    lastPartId := id })

/-- Put other bytes into a part. -/
def replacePart (tables : Tables) (id : Int) (data : ByteArray) : Tables :=
  { tables with
    parts := tables.parts.map fun part =>
      if part.id = id then { part with length := data.size, data } else part }

/-- The number of rows of a part, which is one or none. -/
def partCount (tables : Tables) (id : Int) : Nat :=
  tables.parts.countP (·.id == id)

/-- Add parts to a file that have the places and bytes of given parts. -/
def addCopies (tables : Tables) (fileId : Int) : List Part → Tables
  | [] => tables
  | part :: rest =>
      let id := tables.lastPartId + 1
      addCopies
        { tables with
          parts := tables.parts ++ [{ part with id, fileId }]
          lastPartId := id }
        fileId rest

/-- Give one file copies of the parts of another. -/
def copyParts (tables : Tables) (target source : Int) : Tables :=
  tables.addCopies target (tables.partsOf source)

/-- Remove all parts of a file. -/
def removeParts (tables : Tables) (fileId : Int) : Tables :=
  { tables with parts := tables.parts.filter (·.fileId != fileId) }

/-- The number of parts of a file. -/
def partsCount (tables : Tables) (fileId : Int) : Nat :=
  tables.parts.countP (·.fileId == fileId)

end VersionStore.Tables
