import VersionStore.Bytes.Layout
import VersionStore.Tables.Basic

namespace VersionStore

/-!
# Tables in a file

The tables of a store are kept in a file as their image: a mark that tells images from
other files, and behind it the rows of each table with the ids that were given last.
-/

/-- The columns of a directory. -/
def Directory.layout : Layout Directory :=
  (Layout.integer.both Layout.text).through
    (fun directory => (directory.id, directory.path))
    fun (id, path) => some { id, path }

/-- The columns of a part. -/
def Part.layout : Layout Part :=
  (Layout.integer.both (Layout.integer.both
      (Layout.integer.both (Layout.integer.both Layout.bytes)))).through
    (fun part => (part.id, part.fileId, part.offset, part.length, part.data))
    fun (id, fileId, offset, length, data) => some { id, fileId, offset, length, data }

/-- The columns of a link target. -/
def LinkTarget.layout : Layout LinkTarget :=
  (Layout.integer.both Layout.text).through
    (fun target => (target.id, target.path))
    fun (id, path) => some { id, path }

/-- The columns of a link. -/
def Link.layout : Layout Link :=
  (Layout.integer.both (Layout.integer.both Layout.integer)).through
    (fun link => (link.id, link.source, link.target))
    fun (id, source, target) => some { id, source, target }

/-- The bytes of a checksum. -/
def Checksum.layout : Layout Checksum :=
  Layout.bytes.through Checksum.bytes Checksum.ofBytes?

/-- The columns of an entry. -/
def Entry.layout : Layout Entry :=
  (Layout.integer.both (Layout.integer.both (Layout.text.both (Layout.truth.both
      (Layout.integer.both (Layout.integer.both (Layout.truth.both (Layout.truth.both
        (Layout.integer.both (Layout.optional Checksum.layout)))))))))).through
    (fun entry =>
      (entry.id, entry.directoryId, entry.name, entry.isDirectory, entry.lastModified,
        entry.length, entry.writable, entry.isDeleted, entry.lastDeleted, entry.checksum))
    fun (id, directoryId, name, isDirectory, lastModified, length, writable, isDeleted,
        lastDeleted, checksum) =>
      some { id, directoryId, name, isDirectory, lastModified, length, writable,
             isDeleted, lastDeleted, checksum }

namespace Tables

/-- All rows, table by table. -/
def layout : Layout Tables :=
  ((Layout.list Directory.layout).both ((Layout.list Entry.layout).both
      ((Layout.list Part.layout).both ((Layout.list LinkTarget.layout).both
        ((Layout.list Link.layout).both (Layout.integer.both Layout.integer)))))).through
    (fun tables =>
      (tables.directories, tables.entries, tables.parts, tables.targets, tables.links,
        tables.lastEntryId, tables.lastPartId))
    fun (directories, entries, parts, targets, links, lastEntryId, lastPartId) =>
      some { directories, entries, parts, targets, links, lastEntryId, lastPartId }

/-- The mark that an image begins with. Its first byte begins no text, so that no image is
taken for one. -/
def imageMark : ByteArray :=
  [255].toByteArray ++ "version store image 1\n".toUTF8

/-- The image of tables. -/
def image (tables : Tables) : ByteArray :=
  layout.write tables imageMark

/-- The tables of an image; other bytes are the image of none. -/
def ofImage? (data : ByteArray) : Option Tables :=
  if data.extract 0 imageMark.size == imageMark then
    match layout.read data imageMark.size with
    | some (tables, behind) => if behind = data.size then some tables else none
    | none => none
  else none

end Tables

end VersionStore
