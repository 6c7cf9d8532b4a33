import VersionStore.Store.Basic

namespace VersionStore

/-!
# Streams

An operation of a stream reads and changes the stream and the store that it was
opened on, and may fail; a failure undoes nothing. A watchdog counts the time
since a stream was last used.
-/

/-- A computation on a stream and its store. -/
abbrev StreamAction (σ α : Type) : Type :=
  ExceptT Fault (StateM (σ × Store)) α

namespace StreamAction

/-- Run a stream action. -/
def runOn (action : StreamAction σ α) (stream : σ) (store : Store) :
    Except Fault α × σ × Store :=
  Id.run (StateT.run (ExceptT.run action) (stream, store))

/-- Do something to the store. -/
def onStore (action : Action α) : StreamAction σ α :=
  ExceptT.mk fun (stream, store) =>
    let (outcome, left) := action.runOn store
    (outcome, stream, left)

/-- The stream as it is. -/
def current : StreamAction σ σ := do
  return (← get).1

/-- Change the stream. -/
def change (next : σ → σ) : StreamAction σ Unit :=
  modify fun (stream, store) => (next stream, store)

/-- Run a stream action and hand its failure over as a value. -/
def attempt (action : StreamAction σ α) : StreamAction σ (Except Fault α) :=
  ExceptT.mk (do return .ok (← ExceptT.run action))

/-- Run a stream action inside the gate of the store, in a scope of its own. A failure undoes what
was done to the store, and nothing of what was done to the stream. -/
def streaming (action : StreamAction σ α) : StreamAction σ α := do
  onStore Action.enter
  onStore Action.beginScope
  let outcome ← attempt action
  let ended ← attempt (onStore (Action.endScope outcome.isOk))
  onStore Action.leave
  ofExcept ended
  ofExcept outcome

end StreamAction

/-- The time since a stream was last used, and how long that may get. -/
structure Watchdog where
  timeout : Nat
  idle : Nat := 0
  deriving DecidableEq, Repr

namespace Watchdog

/-- The stream was used just now. -/
def touch (watchdog : Watchdog) : Watchdog :=
  { watchdog with idle := 0 }

/-- Time went by without use. -/
def elapse (watchdog : Watchdog) (milliseconds : Nat) : Watchdog :=
  { watchdog with idle := watchdog.idle + milliseconds }

/-- True when the stream was idle for as long as it may be. -/
def isDue (watchdog : Watchdog) : Bool :=
  watchdog.timeout ≤ watchdog.idle

/-- A watchdog for a stream of a store, when the store has time to keep. -/
def ofStore? (store : Store) : Option Watchdog :=
  if store.timed then some { timeout := store.config.autoCloseMs } else none

end Watchdog

end VersionStore
