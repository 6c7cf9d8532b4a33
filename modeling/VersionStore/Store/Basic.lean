import VersionStore.Config
import VersionStore.Fault
import VersionStore.LockTable
import VersionStore.Tables.Seed

namespace VersionStore

/-!
# Open stores

An open store is its view of the tables together with the stack of savepoints, the lock
table and the gate. An `Action` reads and changes an open store and may fail; a
failure undoes nothing by itself. Undoing is the work of `Action.transaction`:
it saves the tables first and puts them back when its body fails.

The database behind a store holds the tables that were kept last. What is changed outside
of every scope is kept at once, what is changed in scopes when the outermost one ends.
Several stores may have one database: from its first access until the end of its outermost
scope a store keeps the others from changing what it reads, and from writing at all once
it has written itself. A store that wrote while others read cannot end its outermost scope:
what it did there is undone, and from then on it is on its own until it is closed. Nothing
it does is kept, and the others cannot even begin to read.

The gate admits one scope at a time. A scope that reaches the store again from
inside itself is refused rather than left to wait for itself. The first to enter it after
a close connects the store with its database again.
-/

/-- What a store did with its database since its outermost scope began. -/
inductive Access where
  | idle
  | reading
  | writing
  /-- The store wrote, and its outermost scope cannot end. -/
  | stuck
  deriving DecidableEq, Repr, Inhabited

namespace Access

/-- How far an access goes. -/
def extent : Access → Nat
  | idle => 0
  | reading => 1
  | writing => 2
  | stuck => 3

/-- The further one of two accesses. -/
def max (first second : Access) : Access :=
  if first.extent < second.extent then second else first

end Access

/-- A store that is open, or was closed and may be resumed. -/
structure Store where
  config : Config
  /-- The tables that the database holds. -/
  kept : Tables
  /-- The tables with what was done in the open scopes. -/
  tables : Tables
  /-- Tables as they were when each open scope began, the innermost first. -/
  savepoints : List Tables := []
  locks : LockTable := {}
  /-- True while a scope is inside the gate. -/
  entered : Bool := false
  /-- Set from the start of a close: no more transactions. -/
  closing : Bool := false
  /-- Set at the end of a close: no more access at all. -/
  closed : Bool := false
  /-- False from a close until the gate is entered again. -/
  connected : Bool := true
  /-- The file of the database, if it has one. -/
  file : Option String := none
  /-- True when the database was opened to be read only. -/
  readOnly : Bool := false
  /-- Why the database can no longer be read, if it cannot. -/
  damage : Option DatabaseFault := none
  access : Access := .idle
  /-- What other stores do with the same database. -/
  others : Access := .idle
  /-- True when forgotten streams are closed after a time. -/
  timed : Bool := false

namespace Store

instance : Inhabited Store := ⟨{ config := {}, kept := {}, tables := {} }⟩

/-- A store opened on given tables. -/
def ofTables (config : Config) (tables : Tables) : Store :=
  { config, kept := tables, tables }

/-- Note an access. Outside of every scope it is over at once. -/
def noting (store : Store) (access : Access) : Store :=
  if store.savepoints.isEmpty then store
  else { store with access := store.access.max access }

/-- Why the database cannot be changed, if it cannot. -/
def refusal? (store : Store) : Option DatabaseFault :=
  match store.damage with
  | some cause => some cause
  | none =>
      if store.readOnly then some .readOnly
      else
        match store.others with
        | .idle => none
        | .reading => if store.savepoints.isEmpty then some .locked else none
        | .writing | .stuck => some .locked

/-- Why a table of the database cannot be read, if it cannot. -/
def unreadable? (store : Store) (table : TableName) : Option DatabaseFault :=
  match store.damage with
  | some cause => some (cause.missing table)
  | none =>
      if store.others = .stuck ∧ store.access = .idle then some .locked else none

/-- A store with changed tables. Outside of every scope they are kept at once. -/
def withTables (store : Store) (tables : Tables) : Store :=
  { store with tables, kept := if store.savepoints.isEmpty then tables else store.kept }

/-- True when others read what this store has written to. -/
def isBlocked (store : Store) : Bool :=
  store.access == .writing && store.others != .idle

/-- A store at the end of its outermost scope, with what it did there. -/
def settled (store : Store) : Store :=
  { store with
    savepoints := []
    access := .idle
    kept := if store.access = .writing then store.tables else store.kept }

/-- A store whose outermost scope began with the given tables and is undone. -/
def undone (store : Store) (saved : Tables) : Store :=
  if store.isBlocked then { store with tables := saved, savepoints := [saved], access := .stuck }
  else { store with tables := saved, savepoints := [], access := .idle }

end Store

/-- A computation on an open store. -/
abbrev Action (α : Type) : Type :=
  ExceptT Fault (StateM Store) α

namespace Action

/-- Run an action. -/
def runOn (action : Action α) (store : Store) : Except Fault α × Store :=
  Id.run (StateT.run (ExceptT.run action) store)

/-- Run an action and hand its failure over as a value. -/
def attempt (action : Action α) : Action (Except Fault α) :=
  ExceptT.mk (do return .ok (← ExceptT.run action))

/-- Succeed with a value that has to be there. -/
def require (fault : Fault) : Option α → Action α
  | some value => pure value
  | none => throw fault

/-- Learn something from the tables without access to the database. -/
def peek (question : Tables → α) : Action α := do
  return question (← get).tables

/-- Ask the tables, one of them first. -/
def query (question : Tables → α) (first : TableName := .entries) : Action α := do
  let store ← get
  if let some cause := store.unreadable? first then throw (.database cause)
  set (store.noting .reading)
  return question store.tables

/-- Make ready to change a table. -/
def claim (table : TableName) : Action Unit := do
  let store ← get
  if let some cause := store.refusal? then throw (.database (cause.missing table))
  set (store.noting .writing)

/-- Change the tables, one of them first, and learn something from it. -/
def insert (change : Tables → α × Tables) (first : TableName := .entries) : Action α := do
  claim first
  modifyGet fun store =>
    let (value, tables) := change store.tables
    (value, store.withTables tables)

/-- Change the tables, one of them first. -/
def update (change : Tables → Tables) (first : TableName := .entries) : Action Unit := do
  claim first
  modify fun store => store.withTables (change store.tables)

/-- Add a directory row under an id that has none. -/
def addDirectory (id : Int) (path : String) : Action Unit := do
  claim .directories
  let tables ← ofExcept ((← get).tables.addDirectory id path)
  modify fun store => store.withTables tables

/-! ## Savepoints -/

/-- Remember the tables as they are. -/
def beginScope : Action Unit :=
  modify fun store => { store with savepoints := store.tables :: store.savepoints }

/-- Put the tables of the innermost savepoint back. -/
def rollbackScope : Action Unit :=
  modify fun store =>
    match store.savepoints with
    | [] => store
    | [saved] => store.undone saved
    | saved :: outer => { store with tables := saved, savepoints := outer }

/-- Keep what was done since the innermost savepoint. The end of the outermost scope
undoes it all instead and fails when other stores are in the way. -/
def commitScope : Action Unit := do
  let store ← get
  match store.savepoints with
  | [_] =>
      if store.isBlocked then
        rollbackScope
        throw (.database .locked)
      set store.settled
  | savepoints => set { store with savepoints := savepoints.tail }

/-- End the innermost scope, keeping its work or not. -/
def endScope (kept : Bool) : Action Unit :=
  if kept then commitScope else rollbackScope

/-- Run an action in a scope of its own. Its failure undoes what it did. -/
def transaction (action : Action α) : Action α := do
  beginScope
  let outcome ← attempt action
  endScope outcome.isOk
  ofExcept outcome

/-! ## The gate -/

/-- Enter the gate, and connect with the database if the store is not. -/
def enter : Action Unit := do
  let store ← get
  if store.entered then throw .reentered
  if store.closed then throw .closed
  if !store.connected then
    if let some cause := store.damage then throw (.database cause)
  set { store with entered := true, connected := true }

/-- Leave the gate. -/
def leave : Action Unit :=
  modify fun store => { store with entered := false }

/-- Run an action and leave the gate whatever came of it. -/
def leaveAfter (action : Action α) : Action α := do
  let outcome ← attempt action
  leave
  ofExcept outcome

/-- Run an action inside the gate, without a savepoint. -/
def reading (action : Action α) : Action α := do
  enter
  leaveAfter action

/-- Run an action inside the gate in a scope of its own, also while a close waits
for streams to end. -/
def streaming (action : Action α) : Action α :=
  reading (transaction action)

/-- Refuse once a close has begun. -/
def refuseClosing : Action Unit := do
  if (← get).closing then throw .closed

/-- Run an action inside the gate in a scope of its own, unless a close has
begun. -/
def writing (action : Action α) : Action α := do
  refuseClosing
  streaming action

/-- Enter the gate and begin a scope that `endWriting` ends. -/
def beginWriting : Action Unit := do
  refuseClosing
  enter
  beginScope

/-- End the scope that `beginWriting` began and leave the gate. -/
def endWriting (kept : Bool) : Action Unit :=
  leaveAfter (endScope kept)

/-! ## Locks -/

/-- Take a lock on an id, or fail with the given fault. -/
def lockId (id : Int) (exclusive : Bool) (refusal : Fault) : Action Guard := do
  let store ← get
  match store.locks.lock? id exclusive with
  | some (guard, locks) =>
      set { store with locks }
      return guard
  | none => throw refusal

/-- Take a lock on an entry. -/
def lock (entry : Entry) (exclusive : Bool) : Action Guard :=
  lockId entry.id exclusive (.inUse entry.name)

/-- Let a lock go. -/
def release (guard : Guard) : Action Unit :=
  modify fun store => { store with locks := store.locks.release guard }

/-- Run an action while an entry is locked. -/
def locked (entry : Entry) (exclusive : Bool) (action : Action α) : Action α := do
  let guard ← lock entry exclusive
  let outcome ← attempt action
  release guard
  ofExcept outcome

end Action

namespace Store

/-- The number of open scopes, without one that cannot end. -/
def depth (store : Store) : Nat :=
  if store.access = .stuck then store.savepoints.length - 1 else store.savepoints.length

/-- True when no scope is open and nothing is locked. -/
def isDrained (store : Store) : Bool :=
  store.depth == 0 && store.locks.isIdle

/-- The number of files with an open stream. -/
def openStreams (store : Store) : Nat :=
  store.locks.count

/-- Refuse further work, drop every lock and close. Tells whether nothing was
under way. A scope that cannot end is given up. -/
def close (store : Store) : Bool × Store :=
  (store.isDrained,
    { store with
      locks := store.locks.clear
      closing := true
      closed := true
      connected := false
      savepoints := []
      access := .idle })

/-- Give no more locks and close. -/
def pause (store : Store) : Bool × Store :=
  { store with locks := store.locks.pause }.close

/-- Allow work again after a close or a pause. -/
def resume (store : Store) : Store :=
  { store with locks := store.locks.resume, closing := false, closed := false }

/-- Resuming gives locks, transactions and access again. -/
theorem resume_open (store : Store) :
    store.resume.locks.paused = false ∧
      store.resume.closing = false ∧ store.resume.closed = false :=
  ⟨rfl, rfl, rfl⟩

end Store

end VersionStore
