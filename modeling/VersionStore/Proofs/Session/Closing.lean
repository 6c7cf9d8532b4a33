import VersionStore.Proofs.Session.Enduring
import VersionStore.Proofs.Session.Nesting

namespace VersionStore

/-!
# Closing and resuming

A close waits for scopes and streams to end, clears the lock table whatever came of the
wait, and shuts the store. Streams that are still open then go on, but none of what they do
gets to the tables any more, nor does anything that is asked of the store. What is resumed
later is therefore the store that was closed, with a lock table that holds nothing.
-/

open VersionStore.Action

/-! ## What a closed store answers -/

namespace Request

variable {store : Store}

/-- Nobody gets through the gate of a store that is closed. -/
theorem barred_of_closed
    (free : store.entered = false)
    (closed : store.closed = true) :
    Barred store .closed := by
  intro α next
  rw [runOn_bind, enter, runOn_bind, runOn_get]
  dsimp only
  rw [free, closed]
  rfl

end Request

/-! ## What is left of a closed store -/

/-- Letting a guard go does nothing to a table that holds nothing. -/
theorem LockTable.isIdle_release
    {table : LockTable}
    (idle : table.isIdle = true)
    (guard : Guard) :
    (table.release guard).isIdle = true := by
  have nothing : table.holds = [] := by
    simpa [isIdle] using idle
  have free : table.hold? guard.id = none := by
    simp [hold?, nothing]
  unfold release unlock
  rw [free]
  split
  · simp [erase, isIdle, nothing]
  · exact idle

/-- A store since another was closed: it is what the close left, but for guards that were let
go, and its lock table holds nothing. -/
structure Store.Shut (open_ store : Store) : Prop where
  steady : store.Steady
  idle : store.locks.isIdle = true
  rest : ∃ locks connected, store = { open_.close.2 with locks, connected }

namespace Store.Shut

variable {open_ store : Store}

variable (shut : open_.Shut store)

include shut

/-- No scope is open on a closed store. -/
theorem outside :
    store.savepoints = [] := by
  obtain ⟨_, _, rfl⟩ := shut.rest
  rfl

/-- The gate of a closed store is free. -/
theorem free :
    store.entered = false :=
  shut.steady.entered_eq shut.outside

/-- Both marks of a close are set. -/
theorem closed :
    store.closing = true ∧ store.closed = true := by
  obtain ⟨_, _, rfl⟩ := shut.rest
  exact ⟨rfl, rfl⟩

/-- The tables are those that were closed. -/
theorem tables :
    store.tables = open_.tables ∧ store.kept = open_.kept := by
  obtain ⟨_, _, rfl⟩ := shut.rest
  exact ⟨rfl, rfl⟩

/-- A store stays shut whatever lock table without holds it has. -/
theorem withLocks
    {locks : LockTable}
    (idle : locks.isIdle = true) :
    open_.Shut { store with locks } := by
  refine ⟨shut.steady.withLocks fun id => ?_, idle, ?_⟩
  · rw [(LockTable.isIdle_iff locks).mp idle id]
    nofun
  · obtain ⟨_, connected, rfl⟩ := shut.rest
    exact ⟨locks, connected, rfl⟩

/-- No scope of its own begins on a closed store. -/
theorem runOn_streaming
    (action : Action α) :
    (streaming action).runOn store = (.error .closed, store) :=
  Request.barred_of_closed shut.free shut.closed.2 _

/-- A closed store is closed again. -/
theorem close :
    open_.Shut store.close.2 := by
  refine ⟨shut.steady.close shut.outside, rfl, ?_⟩
  obtain ⟨locks, connected, rfl⟩ := shut.rest
  exact ⟨_, _, rfl⟩

/-- What is done with a writer on a closed store does not get to it. Its lock goes when it is
closed. -/
theorem useWriter
    (writer : Writer)
    (now : Int)
    (use : WriterUse) :
    open_.Shut ((use.run now).runOn writer store).2.2 := by
  have stable : Writer.Stable now fun _ store => open_.Shut store := by
    constructor
    case steady =>
      exact fun _ _ before _ => before.steady
    case watched =>
      exact fun _ _ _ before => before
    case buffered =>
      exact fun _ _ _ before _ _ => before
    case stored =>
      intro writer store before _ _ _
      rw [before.runOn_streaming]
      exact before
    case refused =>
      intro writer store fault before _ _
      rw [before.runOn_streaming]
      exact before
    case closed =>
      intro writer store guard before _ _
      rw [before.runOn_streaming]
      exact before.withLocks (LockTable.isIdle_release before.idle guard)
  exact stable.run use writer store shut

/-- A reader changes nothing, but that its lock goes when it is closed. -/
theorem useReader
    (reader : Reader)
    (use : ReaderUse) :
    open_.Shut (use.run.runOn reader store).2.2 := by
  rcases reader.used_run shut.steady use with ⟨-, connected⟩ | ⟨guard, -, -, left⟩
  · have steady := connected.steady shut.steady
    obtain ⟨locks, _, isLeft⟩ := shut.rest
    obtain ⟨connected, -, isConnected⟩ := connected
    rw [isConnected] at steady ⊢
    exact ⟨steady, shut.idle, locks, connected, by rw [isLeft]⟩
  · rw [left]
    exact shut.withLocks (LockTable.isIdle_release shut.idle guard)

/-- A resumed store has the tables that were closed, gives every lock and begins
transactions. -/
theorem resume :
    (store.resume.tables = open_.tables ∧ store.resume.kept = open_.kept) ∧
      store.resume.locks.isIdle = true ∧
      (∀ id exclusive, (store.resume.locks.lock? id exclusive).isSome) ∧
      (beginWriting.runOn store.resume).1 = .ok ⟨⟩ := by
  have nothing (id : Int) : store.locks.hold? id = none :=
    (LockTable.isIdle_iff _).mp shut.idle id
  refine ⟨shut.tables, shut.idle, fun id exclusive => ?_, ?_⟩
  · have free : store.resume.locks.hold? id = none :=
      nothing id
    have sane : store.resume.locks.Sane :=
      shut.steady.sane
    refine (LockTable.isSome_lock?_iff sane).mpr ⟨rfl, ?_, fun _ => ?_⟩
    · rw [free]
      rfl
    · rw [free]
      rfl
  · have alone : store.resume.Alone :=
      ⟨shut.steady.damage, shut.steady.writable, shut.steady.others⟩
    rw [runOn_beginWriting alone]
    simp [Store.resume, shut.free]

end Store.Shut

namespace Session

variable {session later : Session} {open_ : Store}

end Session

end VersionStore
