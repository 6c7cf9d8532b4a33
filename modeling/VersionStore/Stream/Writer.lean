import VersionStore.Store.Operations
import VersionStore.Stream.Basic
import VersionStore.Text.Quoted

namespace VersionStore

/-!
# Writers

A writer gathers bytes and stores them part by part, each part as soon as it is
full and the last one when the writer is closed. Closing records the length, the
time and the checksum of the file. A writer holds an exclusive lock on the file
until it is closed, whatever becomes of the closing.

A write that fails because the store lets no one in keeps the part that it could not
store, and the next write stores it first. When the database does not take the part in,
the writer has forgotten that it went on with one; when the scope of the part cannot end,
the part is lost.
-/

/-- An open or closed stream of bytes into one file. -/
structure Writer where
  /-- The path that the writer was opened on. -/
  path : String
  fileId : Int
  /-- The lock on the file, while the writer is open. -/
  guard : Option Guard
  /-- Bytes that are not stored yet. -/
  buffer : ByteArray := .empty
  /-- The place in the file of the first byte that is not stored yet. -/
  offset : Int := 0
  /-- The stored part that the first bytes of the buffer come from. -/
  tail : Option Int := none
  /-- The digest of all bytes of the file so far. -/
  digest : Sha256.Digest := .empty
  /-- The file as it was when the writer was closed. -/
  result : Option Entry := none
  watchdog : Option Watchdog := none

namespace Writer

open VersionStore.Action StreamAction

/-! ## Opening -/

/-- A writer that starts a new file. -/
def fresh (path : String) (fileId : Int) (guard : Guard) : Writer :=
  { path, fileId, guard := some guard }

/-- A writer that goes on behind the given parts of a file. The last part is
taken up again when it is not full. -/
def resuming (path : String) (fileId : Int) (guard : Guard) (contents : List Content) :
    Writer :=
  let digest := contents.foldl (fun (digest : Sha256.Digest) content =>
    digest.update content.data) Sha256.Digest.empty
  let start : Writer := { fresh path fileId guard with digest }
  match contents.getLast? with
  | none => start
  | some last =>
      if last.size < partSize then
        { start with buffer := last.data, offset := last.offset, tail := some last.id }
      else
        { start with offset := last.stop }

/-- Start a new file at a path whose parent is a live directory. -/
def create (now : Int) (path : CleanPath) : Action Writer := do
  let refusal : Fault := .invalidDestination path.text
  let parent ← Action.require refusal path.parent?
  let directory ← Action.require refusal (← Txn.entryAt? parent)
  if !directory.isDirectory then throw refusal
  let id ← insert fun tables => tables.createEntry directory.id path.name false now
  let guard ← lockId id true (.inUse path.text)
  return fresh path.text id guard

/-- Begin writing at a path: behind the bytes of a file there, or in place of
it. -/
def start (now : Int) (path : CleanPath) (append : Bool) : Action Writer := do
  match ← Txn.entryAt? path with
  | none => create now path
  | some entry =>
      if entry.isDirectory then throw (.invalidDestination path.text)
      if append then
        let guard ← lock entry true
        return resuming path.text entry.id guard
          (← query fun tables => tables.contents entry.id)
      if !entry.writable then throw (.invalidDestination path.text)
      if !(← Txn.deleteExisting now entry) then throw (.invalidDestination path.text)
      create now path

/-- Open a writer at a path text. -/
def openPath (now : Int) (text : String) (append : Bool) : Action Writer := do
  let path ← Txn.clean text
  let writer ← writing (start now path append)
  return { writer with watchdog := Watchdog.ofStore? (← get) }

/-! ## State -/

/-- True once the writer was closed, with success or not. -/
def isClosed (writer : Writer) : Bool :=
  writer.result.isSome || writer.guard.isNone

/-- The number of bytes in the file so far. -/
def position (writer : Writer) : Int :=
  writer.offset + writer.buffer.size

/-- A one-line description. -/
def describe (writer : Writer) : String :=
  "DbfsWriter \x7b path: " ++ Text.quoted writer.path ++ ", file_id: " ++
    toString writer.fileId ++ ", closed: " ++ toString writer.isClosed ++ " \x7d"

/-- Note that the writer was used. -/
def touch : StreamAction Writer Unit :=
  change fun writer => { writer with watchdog := writer.watchdog.map Watchdog.touch }

/-! ## Writing -/

/-- Store the buffered bytes of a writer. -/
def storeBuffer (writer : Writer) : Action Unit :=
  if writer.buffer.isEmpty then pure ()
  else
    match writer.tail with
    | some id => update (fun tables => tables.replacePart id writer.buffer) .parts
    | none =>
        let added (tables : Tables) :=
          (tables.addPart writer.fileId writer.offset writer.buffer).2
        update added .parts

/-- A writer whose buffer was stored. -/
def emptied (writer : Writer) : Writer :=
  { writer with
    offset := writer.offset + writer.buffer.size
    buffer := ByteArray.emptyWithCapacity partSize
    tail := if writer.buffer.isEmpty then writer.tail else none }

/-- A writer that no longer knows the part that its buffer begins with. -/
def untailed (writer : Writer) : Writer :=
  { writer with tail := none }

/-- Store the bytes of the buffer and give them up. Which part they began with is forgotten first.
-/
def storePart : StreamAction Writer Unit := do
  let writer ← current
  if writer.buffer.isEmpty then return
  change untailed
  onStore (storeBuffer writer)
  change emptied

/-- Store the buffer when it is full. -/
def flushFull : StreamAction Writer Unit := do
  if (← current).buffer.size = partSize then
    StreamAction.streaming storePart

/-- A writer with more bytes in its buffer. -/
def buffered : Writer → ByteArray → Writer
  | ⟨path, fileId, guard, buffer, offset, tail, digest, result, watchdog⟩, data =>
      ⟨path, fileId, guard, buffer ++ data, offset, tail, digest.update data, result, watchdog⟩

/-- Buffer bytes, storing each part that they fill. A full buffer is stored
before anything is added to it. -/
def pour (data : ByteArray) : StreamAction Writer Unit := do
  if data.isEmpty then return
  flushFull
  let room := partSize - (← current).buffer.size
  if _fits : data.size ≤ room then
    change (·.buffered data)
    flushFull
  else if _some : 0 < room then
    change (·.buffered (data.extract 0 room))
    flushFull
    pour (data.extract room data.size)
termination_by data.size
decreasing_by
  rw [ByteArray.size_extract]
  omega

/-- Write bytes to the file. -/
def write (data : ByteArray) : StreamAction Writer Nat := do
  touch
  if (← current).isClosed then throw .closed
  pour data
  touch
  return data.size

/-- Write what deliveries bring, up to an empty one. -/
def writeEach : List Delivery → StreamAction Writer Unit
  | [] => return
  | .interrupted :: rest => writeEach rest
  | .bytes data :: rest => do
      if data.isEmpty then return
      let _ ← write data
      writeEach rest

/-- Write everything that a source delivers, and fail if the source does. -/
def writeFrom (source : Source) : StreamAction Writer Unit := do
  writeEach source.deliveries
  match source.failure? with
  | some fault => throw (.io fault)
  | none => return

/-! ## Closing -/

/-- Store what is left of a file and record what it came to. -/
def complete (now : Int) (writer : Writer) : Action Entry := do
  storeBuffer writer
  update fun tables =>
    tables.recordContent writer.fileId writer.position now
      (some (Checksum.finish writer.digest))
  Action.require (.notFound writer.path) (← query fun tables => tables.entry? writer.fileId)

/-- Close the writer. The lock goes whatever comes of it, and a close that failed
is not tried again. -/
def close (now : Int) : StreamAction Writer Entry := do
  let writer ← current
  match writer.result, writer.guard with
  | some entry, _ => return entry
  | none, none => throw .closed
  | none, some guard =>
      let outcome ← StreamAction.attempt (onStore (streaming (complete now writer)))
      onStore (release guard)
      change fun writer => { writer with guard := none, result := outcome.toOption }
      ofExcept outcome

/-- Close a writer for good, so that its watchdog has nothing to watch. -/
def finish (now : Int) : StreamAction Writer Entry := do
  change fun writer => { writer with watchdog := none }
  close now

/-- Close a writer that nobody holds any longer. -/
def dispose (now : Int) : StreamAction Writer Unit := do
  if !(← current).isClosed then
    let _ ← StreamAction.attempt (finish now)

/-- Let time go by; an idle writer is closed. -/
def elapse (now : Int) (milliseconds : Nat) : StreamAction Writer Unit := do
  change fun writer =>
    { writer with watchdog := writer.watchdog.map (·.elapse milliseconds) }
  let writer ← current
  if !writer.isClosed && (writer.watchdog.map Watchdog.isDue).getD false then
    let _ ← StreamAction.attempt (close now)

end Writer

end VersionStore
