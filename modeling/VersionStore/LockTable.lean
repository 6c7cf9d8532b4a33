namespace VersionStore

/-!
# The lock table

Files are locked by id, by any number of readers or by one writer. Taking a lock
gives a guard; the guard remembers the generation of the table it came from, so
that clearing the table makes every older guard harmless. A paused table gives
no locks.
-/

/-- How an id is held. -/
inductive Hold where
  | shared (readers : Nat)
  | exclusive
  deriving DecidableEq, Repr

/-- The right to release one hold of an id. -/
structure Guard where
  id : Int
  generation : Nat
  deriving DecidableEq, Repr

/-- The ids that are held, each once. -/
structure LockTable where
  holds : List (Int × Hold) := []
  paused : Bool := false
  /-- Counts the times the table was cleared. -/
  generation : Nat := 0
  deriving DecidableEq, Repr

namespace LockTable

instance : Inhabited LockTable := ⟨{}⟩

/-- How an id is held, if it is. -/
def hold? (table : LockTable) (id : Int) : Option Hold :=
  table.holds.lookup id

/-- Forget how an id is held. -/
def erase (table : LockTable) (id : Int) : LockTable :=
  { table with holds := table.holds.filter (·.1 != id) }

/-- Say how an id is held. -/
def put (table : LockTable) (id : Int) (hold : Hold) : LockTable :=
  { table with holds := (id, hold) :: table.holds.filter (·.1 != id) }

/-- The hold that one more holder brings about, if it is allowed. -/
def nextHold? (exclusive : Bool) : Option Hold → Option Hold
  | none => some (if exclusive then .exclusive else .shared 1)
  | some (.shared readers) => if exclusive then none else some (.shared (readers + 1))
  | some .exclusive => none

/-- Take a lock, which contention or a pause refuses. -/
def lock? (table : LockTable) (id : Int) (exclusive : Bool) : Option (Guard × LockTable) :=
  if table.paused then none
  else
    (nextHold? exclusive (table.hold? id)).map fun hold =>
      (⟨id, table.generation⟩, table.put id hold)

/-- Let one holder of an id go. -/
def unlock (table : LockTable) (id : Int) : LockTable :=
  match table.hold? id with
  | some (.shared (readers + 2)) => table.put id (.shared (readers + 1))
  | _ => table.erase id

/-- Let the holder of a guard go, unless the table was cleared since. -/
def release (table : LockTable) (guard : Guard) : LockTable :=
  if table.generation = guard.generation then table.unlock guard.id else table

/-- True when no id is held. -/
def isIdle (table : LockTable) : Bool :=
  table.holds.isEmpty

/-- The number of ids that are held. -/
def count (table : LockTable) : Nat :=
  table.holds.length

/-- Give no more locks. -/
def pause (table : LockTable) : LockTable :=
  { table with paused := true }

/-- Give locks again. -/
def resume (table : LockTable) : LockTable :=
  { table with paused := false }

/-- Drop every hold and make all guards harmless. -/
def clear (table : LockTable) : LockTable :=
  { table with holds := [], generation := table.generation + 1 }

/-- A paused table gives no lock. -/
theorem lock?_of_paused
    (table : LockTable)
    (id : Int)
    (exclusive : Bool)
    (paused : table.paused = true) :
    table.lock? id exclusive = none :=
  if_pos paused

end LockTable

end VersionStore
