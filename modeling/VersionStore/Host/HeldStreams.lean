import VersionStore.Host.Basic

namespace VersionStore.HostAction

/-!
# Held streams

A stream is held under a name until it is dropped. Holding another stream under
the same name drops the first one afterwards. A reader that is dropped lets its
lock go; a writer that is dropped is closed if it still is open.

When time goes by, streams are looked at in the order in which they would have
come due: the longest idle first, and of two streams equally idle the older.
-/

/-- Put something under a name, in place of what is there. -/
def putUnder (name : String) (held : σ) (others : List (String × σ)) : List (String × σ) :=
  (name, held) :: others.filter (·.1 != name)

/-- Take away what is under a name. -/
def takeFrom (name : String) (held : List (String × σ)) : List (String × σ) :=
  held.filter (·.1 != name)

/-! ## Readers -/

/-- Let a reader go that is no longer held. -/
def finishReader (held : Held Reader) : HostAction Unit := do
  let _ ← onStream held.store held.stream Reader.finish

/-- Hold a reader under a name. -/
def holdReader (name : String) (store : StoreId) (stream : Reader) : HostAction Unit := do
  let host ← get
  let rank := host.heldStreams
  set { host with
    readers := putUnder name ⟨store, stream, rank⟩ host.readers
    heldStreams := rank + 1 }
  match host.readers.lookup name with
  | some old => finishReader old
  | none => pure ()

/-- Do something with a held reader, and give the reader as it is then. -/
def onReader (name : String) (action : StreamAction Reader α) :
    HostAction (Option (Except Fault α × Reader)) := do
  let host ← get
  match host.readers.lookup name with
  | none => return none
  | some ⟨store, stream, rank⟩ =>
      set { host with readers := takeFrom name host.readers }
      let (outcome, after) ← onStream store stream action
      modify fun left =>
        { left with readers := putUnder name ⟨store, after, rank⟩ left.readers }
      return some (outcome, after)

/-- Drop a held reader, and tell whether there was one. -/
def dropReader (name : String) : HostAction Bool := do
  let host ← get
  match host.readers.lookup name with
  | none => return false
  | some held =>
      set { host with readers := takeFrom name host.readers }
      finishReader held
      return true

/-! ## Writers -/

/-- Let a writer go that is no longer held. -/
def disposeWriter (now : Int) (held : Held Writer) : HostAction Unit := do
  let _ ← onStream held.store held.stream (Writer.dispose now)

/-- Hold a writer under a name. -/
def holdWriter (now : Int) (name : String) (store : StoreId) (stream : Writer) :
    HostAction Unit := do
  let host ← get
  let rank := host.heldStreams
  set { host with
    writers := putUnder name ⟨store, stream, rank⟩ host.writers
    heldStreams := rank + 1 }
  match host.writers.lookup name with
  | some old => disposeWriter now old
  | none => pure ()

/-- Do something with a held writer, and give the writer as it is then. -/
def onWriter (name : String) (action : StreamAction Writer α) :
    HostAction (Option (Except Fault α × Writer)) := do
  let host ← get
  match host.writers.lookup name with
  | none => return none
  | some ⟨store, stream, rank⟩ =>
      set { host with writers := takeFrom name host.writers }
      let (outcome, after) ← onStream store stream action
      modify fun left =>
        { left with writers := putUnder name ⟨store, after, rank⟩ left.writers }
      return some (outcome, after)

/-- Drop a held writer, and tell whether there was one. -/
def dropWriter (now : Int) (name : String) : HostAction Bool := do
  let host ← get
  match host.writers.lookup name with
  | none => return false
  | some held =>
      set { host with writers := takeFrom name host.writers }
      disposeWriter now held
      return true

/-! ## Idle time -/

/-- A held stream that waits to be used. -/
structure Waiting where
  isReader : Bool
  name : String
  idle : Nat
  rank : Nat
  deriving DecidableEq, Repr

/-- The idle time that a watchdog has counted. -/
def idleTime (watchdog : Option Watchdog) : Nat :=
  match watchdog with
  | some watched => watched.idle
  | none => 0

/-- All held streams. -/
def waitingStreams (host : Host) : List Waiting :=
  (host.readers.map fun (name, held) =>
      ⟨true, name, idleTime held.stream.watchdog, held.rank⟩) ++
    host.writers.map fun (name, held) =>
      ⟨false, name, idleTime held.stream.watchdog, held.rank⟩

/-- The order in which streams come due. -/
def dueLe (first second : Waiting) : Bool :=
  if first.idle = second.idle then decide (first.rank ≤ second.rank)
  else decide (second.idle ≤ first.idle)

/-- Let time go by for streams in order. -/
def elapseEach (now : Int) (milliseconds : Nat) : List Waiting → HostAction Unit
  | [] => return
  | stream :: rest => do
      if stream.isReader then
        let _ ← onReader stream.name (Reader.elapse milliseconds)
      else
        let _ ← onWriter stream.name (Writer.elapse now milliseconds)
      elapseEach now milliseconds rest

/-- Let time go by; streams that are idle for too long are closed. -/
def elapse (now : Int) (milliseconds : Nat) : HostAction Unit := do
  elapseEach now milliseconds ((waitingStreams (← get)).mergeSort dueLe)

end VersionStore.HostAction
