import VersionStore.Halving
import VersionStore.Store.Operations
import VersionStore.Stream.Basic
import VersionStore.Stream.PartCache

namespace VersionStore

/-!
# Readers

A reader is a cursor over the bytes of one file. It learns where the parts lie
when it is opened and loads their bytes as they are needed. It holds a shared
lock on the file until it is closed, and a closed reader reads nothing more.
-/

/-- An open or closed cursor over one file. -/
structure Reader where
  entry : Entry
  extents : List Extent
  /-- The place behind the last part. -/
  length : Int
  position : Int := 0
  cache : PartCache
  /-- The lock on the file, while the reader is open. -/
  guard : Option Guard
  watchdog : Option Watchdog := none

/-- Where a seek counts from, and how far it goes. -/
inductive SeekFrom where
  | start (offset : Nat)
  | stop (delta : Int)
  | current (delta : Int)
  deriving DecidableEq, Repr

namespace Reader

open VersionStore.Action StreamAction

/-! ## Opening -/

/-- The place behind the last of some extents. -/
def lengthOf (extents : List Extent) : Int :=
  match extents.getLast? with
  | some last => last.stop
  | none => 0

/-- Lock an entry for reading and start a cursor over it. -/
def ofEntry (entry : Entry) : Action Reader := do
  let guard ← lock entry false
  let extents ← query fun tables => tables.extents entry.id
  let store ← get
  return {
    entry
    extents
    length := lengthOf extents
    cache := PartCache.empty store.config.cacheEntries
    guard := some guard
    watchdog := Watchdog.ofStore? store }

/-- Open the live file at a path. -/
def openPath (text : String) : Action Reader := do
  let path ← Txn.clean text
  reading do
    ofEntry (← Txn.requireFile path)

/-- Open any version of a file by its id. -/
def openEntry (entry : Entry) : Action Reader := do
  if entry.isDirectory then throw (.notAFile entry.name)
  reading do
    let found ← query fun tables => tables.entry? entry.id
    ofEntry (← Action.require (.notFound entry.name) found)

/-! ## State -/

/-- True once the lock on the file is gone. -/
def isClosed (reader : Reader) : Bool :=
  reader.guard.isNone

/-- A place or length as an unsigned 64-bit number. -/
def unsigned (value : Int) : Nat :=
  (value % Int.pow 2 64).toNat

/-- The number of bytes in the file. -/
def size (reader : Reader) : Nat :=
  unsigned reader.length

/-- A one-line description. -/
def describe (reader : Reader) : String :=
  "DbfsReader \x7b file_id: " ++ toString reader.entry.id ++ ", length: " ++
    toString reader.length ++ ", position: " ++ toString reader.position ++ " \x7d"

/-- Note that the reader was used. -/
def touch : StreamAction Reader Unit :=
  change fun reader => { reader with watchdog := reader.watchdog.map Watchdog.touch }

/-- Let the lock on the file go. -/
def close : StreamAction Reader Unit := do
  match (← current).guard with
  | some guard =>
      onStore (release guard)
      change fun reader => { reader with guard := none }
  | none => pure ()

/-- Close a reader for good, so that its watchdog has nothing to watch. -/
def finish : StreamAction Reader Unit := do
  change fun reader => { reader with watchdog := none }
  close

/-! ## Reading -/

/-- The extent that holds a position. It is looked for behind the extents that end in front
of the position. -/
def extentAt? (reader : Reader) (position : Int) : Option Extent :=
  let ended (index : Nat) : Bool :=
    reader.extents[index]?.any fun extent => extent.stop ≤ position
  (reader.extents[boundary ended 0 reader.extents.length]?).filter (·.contains position)

/-- Load the bytes of a part from the store. -/
def load (name : String) (id : Int) : StreamAction Reader Content := do
  let found ← onStore (reading (query (fun tables => tables.content? id) .parts))
  match found with
  | some content => return content
  | none => throw (.notFound name)

/-- The bytes of a part, by way of the cache. -/
def contentOf (id : Int) : StreamAction Reader Content := do
  let reader ← current
  let (content, cache) ← reader.cache.get id (load reader.entry.name id)
  change fun reader => { reader with cache }
  return content

/-- Read at most `room` bytes from a position on, in front of which `gathered`
was read already. -/
def gather (position : Int) (room : Nat) (gathered : ByteArray) :
    StreamAction Reader ByteArray := do
  let reader ← current
  match (if position < reader.length then reader.extentAt? position else none) with
  | none => return gathered
  | some extent =>
      if room = 0 then return gathered
      let content ← contentOf extent.id
      let start := (position - content.offset).toNat
      let count := min (content.size - start) room
      if _more : 0 < count then
        gather (position + count) (room - count)
          (gathered ++ content.data.extract start (start + count))
      else
        return gathered
termination_by room

/-- Read at most `room` bytes from a position on. -/
def readFrom (position : Int) (room : Nat) : StreamAction Reader ByteArray := do
  if (← current).isClosed then throw .closed
  gather position room .empty

/-- The signed value of an unsigned 64-bit number. -/
def signed (value : Nat) : Int :=
  if value < Nat.pow 2 63 then value else value - Int.pow 2 64

/-- Read at most `room` bytes at a position without moving the cursor. -/
def readAt (position room : Nat) : StreamAction Reader ByteArray := do
  touch
  if signed position > (← current).length then throw .endOfStream
  readFrom (signed position) room

/-- Read at most `room` bytes at the cursor and move it behind them. -/
def read (room : Nat) : StreamAction Reader ByteArray := do
  touch
  let data ← readFrom (← current).position room
  change fun reader => { reader with position := reader.position + data.size }
  return data

/-- Read until `room` bytes are there or no more come, for at most `fuel`
reads. -/
def readUntil (fuel room : Nat) (gathered : ByteArray) : StreamAction Reader ByteArray :=
  match fuel with
  | 0 => return gathered
  | fuel + 1 =>
      if room = 0 then return gathered
      else do
        let data ← read room
        if data.isEmpty then return gathered
        readUntil fuel (room - data.size) (gathered ++ data)

/-- Read exactly `count` bytes, or fail at the end of the file. -/
def readExact (count : Nat) : StreamAction Reader ByteArray := do
  let data ← readUntil (count + 1) count .empty
  if data.size < count then throw (.io .shortRead)
  return data

/-- Read to the end of the file in reads that double in size, for at most `fuel`
reads. -/
def readDoubling (fuel room : Nat) (gathered : ByteArray) : StreamAction Reader ByteArray :=
  match fuel with
  | 0 => return gathered
  | fuel + 1 => do
      let data ← read room
      if data.isEmpty then return gathered
      readDoubling fuel (2 * room) (gathered ++ data)

/-- The size of the first read when everything is read. -/
def firstRead : Nat := 8192

/-- Read the rest of the file. Each read but the last brings a byte, which bounds
their number. -/
def readAll : StreamAction Reader ByteArray := do
  let reader ← current
  let outcome ← StreamAction.attempt
    (readDoubling ((reader.length - reader.position).toNat + 2) firstRead .empty)
  match outcome with
  | .ok data => return data
  | .error fault => throw (.io fault.toIo)

/-- Move the cursor to a place within the file. -/
def seek (target : SeekFrom) : StreamAction Reader Nat := do
  touch
  let reader ← current
  if reader.isClosed then throw .closed
  let place : Int :=
    match target with
    | .start offset => offset
    | .stop delta => reader.length + delta
    | .current delta => reader.position + delta
  if place < 0 || place > reader.length then throw .endOfStream
  change fun reader => { reader with position := place }
  return place.toNat

/-- Let time go by; an idle reader is closed. -/
def elapse (milliseconds : Nat) : StreamAction Reader Unit := do
  change fun reader =>
    { reader with watchdog := reader.watchdog.map (·.elapse milliseconds) }
  if ((← current).watchdog.map Watchdog.isDue).getD false then close

/-! ## A reader as a source -/

/-- The deliveries of a reader that is read in runs of part size, and the failure
that ends them, for at most `fuel` reads. -/
def deliver (fuel : Nat) : StreamAction Reader (List Delivery × Option IoFault) :=
  match fuel with
  | 0 => return ([], none)
  | fuel + 1 => do
      match ← StreamAction.attempt (read partSize) with
      | .error fault => return ([], some fault.toIo)
      | .ok data =>
          if data.isEmpty then return ([], none)
          let (rest, failure) ← deliver fuel
          return (.bytes data :: rest, failure)

/-- What a reader has left, as a source. -/
def toSource : StreamAction Reader Source := do
  let reader ← current
  let (deliveries, failure) ← deliver ((reader.length - reader.position).toNat + 2)
  return { deliveries, failure }

end Reader

end VersionStore
