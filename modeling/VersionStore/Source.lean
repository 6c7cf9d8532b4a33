import VersionStore.Config
import VersionStore.Fault

namespace VersionStore

/-!
# Byte sources and parts

A source delivers bytes in runs of any size, may be interrupted between them,
and ends or fails after the last. An empty run is read as the end. Parts are cut
off a growing buffer as soon as they are full, so that how a source was split
leaves no trace in them.
-/

/-- What one read of a source can bring. -/
inductive Delivery where
  | bytes (data : ByteArray)
  | interrupted

/-- The reads that a source will answer, and how it ends. -/
structure Source where
  deliveries : List Delivery
  /-- The failure after the last delivery, if the source does not just end. -/
  failure : Option IoFault := none

namespace Source

/-- A source that delivers some bytes at once and ends. -/
def ofBytes (data : ByteArray) : Source where
  deliveries := if data.isEmpty then [] else [.bytes data]

/-- The bytes that deliveries bring before an empty run ends them. -/
def bytesOf : List Delivery → ByteArray
  | [] => .empty
  | .interrupted :: rest => bytesOf rest
  | .bytes data :: rest => if data.isEmpty then .empty else data ++ bytesOf rest

/-- True when an empty run ends the deliveries early. -/
def endsEarly : List Delivery → Bool
  | [] => false
  | .interrupted :: rest => endsEarly rest
  | .bytes data :: rest => data.isEmpty || endsEarly rest

/-- All bytes that a source delivers. -/
def bytes (source : Source) : ByteArray :=
  bytesOf source.deliveries

/-- The failure that a reader of the whole source meets. -/
def failure? (source : Source) : Option IoFault :=
  if endsEarly source.deliveries then none else source.failure

end Source

/-- Cut runs of exactly `size` bytes off some bytes, and keep what is left. -/
def cutEvery
    (size : Nat)
    (positive : 0 < size)
    (data : ByteArray) :
    List ByteArray × ByteArray :=
  if _full : size ≤ data.size then
    let cut := cutEvery size positive (data.extract size data.size)
    (data.extract 0 size :: cut.1, cut.2)
  else
    ([], data)
termination_by data.size
decreasing_by
  rw [ByteArray.size_extract]
  omega

/-- Cut full parts off some bytes, and keep what is left. -/
def takeParts (data : ByteArray) : List ByteArray × ByteArray :=
  cutEvery partSize partSize_pos data

end VersionStore
