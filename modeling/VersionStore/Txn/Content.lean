import VersionStore.Source
import VersionStore.Txn.Tree

namespace VersionStore.Txn

/-!
# Writing content

A file is replaced as a whole: the old version is deleted, the new one gets a
row of its own, and its bytes are stored in parts as they arrive. A snapshot
stores the bytes of a file as a version that is in the trash from the start.
-/

open VersionStore.Action

/-! ## Storing what a source delivers -/

/-- Bytes on their way into parts. -/
structure Intake where
  /-- The place in the file of the first byte that is not stored yet. -/
  offset : Int := 0
  /-- Bytes that do not fill a part yet. -/
  buffer : ByteArray := .empty
  /-- The digest of all bytes so far. -/
  digest : Sha256.Digest := .empty

/-- Store parts one behind the other, and give the place behind the last. -/
def storeParts (fileId offset : Int) : List ByteArray → Action Int
  | [] => return offset
  | part :: rest => do
      let _ ← insert fun tables => tables.addPart fileId offset part
      storeParts fileId (offset + part.size) rest

/-- Take in some bytes, storing each part that they fill. -/
def Intake.take (fileId : Int) : Intake → ByteArray → Action Intake
  | ⟨offset, buffer, digest⟩, data => do
      let (parts, rest) := takeParts (buffer ++ data)
      let stored ← storeParts fileId offset parts
      return ⟨stored, rest, digest.update data⟩

/-- Take in deliveries up to the end or the failure of their source. -/
def Intake.drain
    (fileId : Int)
    (failure : Option IoFault)
    (intake : Intake) :
    List Delivery → Action Intake
  | [] =>
      match failure with
      | some fault => throw (.io fault)
      | none => return intake
  | .interrupted :: rest => intake.drain fileId failure rest
  | .bytes data :: rest => do
      if data.isEmpty then return intake
      let taken ← intake.take fileId data
      taken.drain fileId failure rest

/-- Store everything that a source delivers as the content of a file, and give
its length and checksum. -/
def storeContent (fileId : Int) (source : Source) : Action (Int × Checksum) := do
  let intake ← Intake.drain fileId source.failure {} source.deliveries
  let tail := if intake.buffer.isEmpty then [] else [intake.buffer]
  let length ← storeParts fileId intake.offset tail
  return (length, Checksum.finish intake.digest)

/-! ## Whole files -/

/-- Delete a file in the way at a path and make the directories that lead to
it. -/
def clearForWrite (now : Int) (path : CleanPath) : Action Int := do
  if path.isRoot then throw (.invalidDestination path.text)
  match ← entryAt? path with
  | some entry =>
      if entry.isDirectory || !entry.writable then
        throw (.invalidDestination path.text)
      if !(← deleteExisting now entry) then
        throw (.invalidDestination path.text)
  | none => pure ()
  makeDirectoriesAt now path.dropLast

/-- Replace the file at a path text with everything that a source delivers. -/
def writeFrom
    (now : Int)
    (text : String)
    (source : Source)
    (links? : Option (List String))
    (time? : Option Int) :
    Action Entry := do
  let path ← clean text
  let directory ← clearForWrite now path
  let modified := time?.getD now
  let id ← insert fun tables => tables.createEntry directory path.name false modified
  let (length, checksum) ← storeContent id source
  update fun tables => tables.recordContent id length modified (some checksum)
  match links? with
  | some links => update fun tables => tables.setLinks id links
  | none => pure ()
  Action.require (.notFound path.text) (← query fun tables => tables.entry? id)

/-- Replace the file at a path text with some bytes. -/
def write
    (now : Int)
    (text : String)
    (data : ByteArray)
    (links? : Option (List String))
    (time? : Option Int) :
    Action Entry :=
  writeFrom now text (Source.ofBytes data) links? time?

/-- Copy the content of any file row, live or not, to a path. -/
def copyEntry
    (now : Int)
    (path : CleanPath)
    (source : Entry)
    (time? : Option Int) :
    Action Entry :=
  locked source false do
    match ← entryAt? path with
    | some existing =>
        if existing.id = source.id then throw (.invalidDestination path.text)
    | none => pure ()
    let directory ← clearForWrite now path
    let modified := time?.getD now
    let id ← insert fun tables => tables.createEntry directory path.name false modified
    update fun tables =>
      (tables.copyParts id source.id).recordContent id source.length modified source.checksum
    Action.require (.notFound path.text) (← query fun tables => tables.entry? id)

/-- Copy the live file at one path text to another. -/
def copy (now : Int) (target source : String) (time? : Option Int) : Action Entry := do
  let entry ← requireFile (← clean source)
  let path ← clean target
  copyEntry now path entry time?

/-! ## Snapshots -/

/-- The id of the directory of some names, with trashed directories made for
those that are missing. The names are given last first. -/
def snapshotDirectory (now : Int) : List Name → Action Int
  | [] => do
      match ← query (fun tables => tables.directoryId? "") .directories with
      | some id => return id
      | none => throw (.notFound "")
  | name :: before => do
      let path := CleanPath.joinNames (name :: before).reverse
      match ← query (fun tables => tables.directoryId? path) .directories with
      | some id => return id
      | none =>
          let parent ← snapshotDirectory now before
          let id ← insert fun tables =>
            tables.createTrashed parent name.text true now 0 now none
          addDirectory id path
          return id

/-- Store a snapshot of a file in the trash: of what a source delivers, or of the
live file itself. The live tree is not touched. -/
def snapshot
    (now : Int)
    (text : String)
    (source? : Option Source)
    (time? : Option Int) :
    Action Unit := do
  let path ← clean text
  if path.isRoot then throw (.invalidDestination path.text)
  let modified := time?.getD now
  let above := path.dropLast.names.reverse
  match source? with
  | none =>
      let live ← requireFile path
      locked live false do
        let directory ← snapshotDirectory now above
        let id ← insert fun tables =>
          tables.createTrashed directory path.name false modified live.length now live.checksum
        update fun tables => tables.copyParts id live.id
  | some source =>
      let directory ← snapshotDirectory now above
      let id ← insert fun tables =>
        tables.createTrashed directory path.name false modified 0 now none
      let (length, checksum) ← storeContent id source
      update fun tables => tables.recordContent id length modified (some checksum)

end VersionStore.Txn
