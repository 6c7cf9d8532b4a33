import Mathlib.Logic.Relation
import VersionStore.Stream.Reader
import VersionStore.Stream.Writer

namespace VersionStore

/-!
# Sessions

A session is a store together with the streams that were opened on it. It is used in
events: scopes begin and end, calls are made within them or by themselves, streams are
opened and used, and the store is closed, resumed and opened anew. A session also keeps
the entries that the store kept at any time, because these are the ones that its users
have been given.
-/

/-- Run an action for what it does. -/
def Action.ignoring (action : Action α) : Action Unit := do
  let _ ← action

/-! ## What is asked of a store -/

/-- Work that is asked for inside a transaction or by itself. -/
inductive Call where
  | stat (text : String)
  | list (text : String)
  | makeDirectories (text : String)
  | write
      (text : String)
      (data : ByteArray)
      (links? : Option (List String))
      (time? : Option Int)
  | writeFrom
      (text : String)
      (source : Source)
      (links? : Option (List String))
      (time? : Option Int)
  | snapshot (text : String) (source? : Option Source) (time? : Option Int)
  | delete (text : String)
  | deleteEntry (entry : Entry)
  | copy (target source : String) (time? : Option Int)
  | moveTo (target source : String) (time? : Option Int)
  | setLastModified (text : String) (time : Int)
  | setWritable (text : String) (writable : Bool)
  | setLinks (text : String) (targets : List String)
  | prune (entry : Entry)
  | pruneHistory (infos : List TrashEntry) (all : Bool)
  | recover (target : String) (infos : List TrashEntry)
  | sweep (select? : Option Txn.Selector)

namespace Call

open VersionStore.Action

/-- A call inside a transaction that is open. -/
def inside (now : Int) : Call → Action Unit
  | stat text => ignoring (Txn.stat text)
  | list text => ignoring (Txn.list text)
  | makeDirectories text => ignoring (Txn.makeDirectories now text)
  | write text data links? time? => ignoring (Txn.write now text data links? time?)
  | writeFrom text source links? time? => ignoring (Txn.writeFrom now text source links? time?)
  | snapshot text source? time? => Txn.snapshot now text source? time?
  | delete text => ignoring (Txn.delete now text)
  | deleteEntry entry => ignoring (Txn.deleteEntry now entry)
  | copy target source time? => ignoring (Txn.copy now target source time?)
  | moveTo target source time? => ignoring (Txn.moveTo now target source time?)
  | setLastModified text time => ignoring (Txn.setLastModified text time)
  | setWritable text writable => ignoring (Txn.setWritable text writable)
  | setLinks text targets => ignoring (Txn.setLinks text targets)
  | prune entry => ignoring (Txn.prune now entry)
  | pruneHistory infos all => ignoring (Txn.pruneHistory infos all)
  | recover target infos => ignoring (Txn.recover now target infos)
  | sweep select? => ignoring (Txn.sweep select?)

/-- A call by itself. -/
def whole (now : Int) : Call → Action Unit
  | stat text => ignoring (Store.stat text)
  | list text => ignoring (Store.list text)
  | makeDirectories text => ignoring (Store.makeDirectories now text)
  | write text data links? time? => ignoring (Store.write now text data links? time?)
  | writeFrom text source links? time? => ignoring (Store.writeFrom now text source links? time?)
  | snapshot text source? time? => ignoring (Store.snapshot now text source? time?)
  | delete text => ignoring (Store.delete now text)
  | deleteEntry entry => ignoring (Store.deleteEntry now entry)
  | copy target source time? => ignoring (Store.copy now target source time?)
  | moveTo target source time? => ignoring (Store.moveTo now target source time?)
  | setLastModified text time => ignoring (Store.setLastModified text time)
  | setWritable text writable => ignoring (Store.setWritable text writable)
  | setLinks text targets => ignoring (Store.setLinks text targets)
  | prune entry => ignoring (Store.prune now entry)
  | pruneHistory infos all => ignoring (Store.pruneHistory infos all)
  | recover target infos => ignoring (Store.recover now target infos)
  | sweep select? => ignoring (Store.sweep select?)

/-- The entries that a call is given are known. -/
def Knows (known : List Entry) : Call → Prop
  | deleteEntry entry | prune entry => entry ∈ known
  | _ => True

end Call

/-- A question to a store outside of transactions. What takes in the bytes of a file may
refuse them, knowing what it took before. -/
inductive Question where
  | directoryPath (id : Int)
  | listOf (id : Int)
  | linksFrom (text : String)
  | linksTo (text : String)
  | verify (text : String)
  | copyOut (text : String) (accept : List ByteArray → ByteArray → Except IoFault Unit)
  | history (root directory name : String) (directories : Bool) (count : Int)
  | searchHistory (root directory name : String) (count : Int) (select : Txn.Selector)

namespace Question

open VersionStore.Action

/-- Put a question to the store. -/
def ask : Question → Action Unit
  | directoryPath id => ignoring (Store.directoryPath? id)
  | listOf id => ignoring (Store.listOf id)
  | linksFrom text => ignoring (Store.linksFrom text)
  | linksTo text => ignoring (Store.linksTo text)
  | verify text => ignoring (Store.verify text)
  | copyOut text accept =>
      ignoring (Store.copyOut text
        (fun taken data => (accept taken data).map fun _ => data :: taken) [])
  | history root directory name directories count =>
      ignoring (Store.history root directory name directories count)
  | searchHistory root directory name count select =>
      ignoring (Store.searchHistory root directory name count select)

end Question

/-! ## What is done with streams -/

/-- A use of a writer. -/
inductive WriterUse where
  | write (data : ByteArray)
  | writeFrom (source : Source)
  | finish
  /-- The writer is no longer held. -/
  | dispose
  | elapse (milliseconds : Nat)

/-- Use a writer. -/
def WriterUse.run (now : Int) : WriterUse → StreamAction Writer Unit
  | write data => do let _ ← Writer.write data
  | writeFrom source => Writer.writeFrom source
  | finish => do let _ ← Writer.finish now
  | dispose => Writer.dispose now
  | elapse milliseconds => Writer.elapse now milliseconds

/-- A use of a reader. -/
inductive ReaderUse where
  | read (room : Nat)
  | readAt (position room : Nat)
  | readExact (count : Nat)
  | readAll
  | toSource
  | seek (target : SeekFrom)
  | finish
  | elapse (milliseconds : Nat)

/-- Use a reader. -/
def ReaderUse.run : ReaderUse → StreamAction Reader Unit
  | read room => do let _ ← Reader.read room
  | readAt position room => do let _ ← Reader.readAt position room
  | readExact count => do let _ ← Reader.readExact count
  | readAll => do let _ ← Reader.readAll
  | toSource => do let _ ← Reader.toSource
  | seek target => do let _ ← Reader.seek target
  | finish => Reader.finish
  | elapse milliseconds => Reader.elapse milliseconds

/-! ## Events -/

/-- What can happen in a session. -/
inductive Event where
  /-- A transaction begins. -/
  | begin
  /-- A scope begins inside a transaction. -/
  | nest
  /-- The innermost scope ends. -/
  | finish (kept : Bool)
  /-- A call is made in the innermost scope. -/
  | inside (call : Call)
  /-- A call is made on the store. -/
  | whole (call : Call)
  | ask (question : Question)
  | openWriter (text : String) (append : Bool)
  | useWriter (index : Nat) (use : WriterUse)
  | openReader (text : String)
  | openReaderOf (entry : Entry)
  | useReader (index : Nat) (use : ReaderUse)
  /-- A close, or with no more locks a pause, begins to wait. -/
  | drain (paused : Bool)
  /-- The wait is over. -/
  | close
  | resume
  /-- The store is opened anew. -/
  | reopen (config : Config) (timed : Bool)

/-- A store, the streams on it, and the entries that it kept at any time. -/
structure Session where
  store : Store
  writers : List Writer := []
  readers : List Reader := []
  known : List Entry := []

namespace Session

open VersionStore.Action

/-- A store opened on tables, which may keep time. -/
def opened (config : Config) (timed : Bool) (tables : Tables) : Store :=
  { Store.ofTables config tables with timed }

/-- Note what the store keeps. -/
def remembering (session : Session) : Session :=
  { session with known := session.store.kept.entries ++ session.known }

/-- A session on a new store. -/
def start (config : Config) (timed : Bool) (now : Int) : Session :=
  remembering { store := opened config timed (Tables.seed config.roots now) }

/-- Run an action on the store. -/
def run (action : Action Unit) (session : Session) : Session :=
  { session with store := (action.runOn session.store).2 }

/-- Hold a writer that could be opened. -/
def holdWriter (opening : Action Writer) (session : Session) : Session :=
  match opening.runOn session.store with
  | (.ok writer, store) => { session with store, writers := session.writers ++ [writer] }
  | (.error _, store) => { session with store }

/-- Hold a reader that could be opened. -/
def holdReader (opening : Action Reader) (session : Session) : Session :=
  match opening.runOn session.store with
  | (.ok reader, store) => { session with store, readers := session.readers ++ [reader] }
  | (.error _, store) => { session with store }

/-- Use the writer at an index. -/
def onWriter (index : Nat) (action : StreamAction Writer Unit) (session : Session) : Session :=
  match session.writers[index]? with
  | some writer =>
      let (_, left, store) := action.runOn writer session.store
      { session with store, writers := session.writers.set index left }
  | none => session

/-- Use the reader at an index. -/
def onReader (index : Nat) (action : StreamAction Reader Unit) (session : Session) : Session :=
  match session.readers[index]? with
  | some reader =>
      let (_, left, store) := action.runOn reader session.store
      { session with store, readers := session.readers.set index left }
  | none => session

/-- What an event does. -/
def perform (now : Int) (session : Session) : Event → Session
  | .begin => session.run beginWriting
  | .nest => session.run beginScope
  | .finish kept =>
      session.run
        (if session.store.savepoints.length = 1 then endWriting kept else endScope kept)
  | .inside call => session.run (call.inside now)
  | .whole call => session.run (call.whole now)
  | .ask question => session.run question.ask
  | .openWriter text append => session.holdWriter (Writer.openPath now text append)
  | .useWriter index use => session.onWriter index (use.run now)
  | .openReader text => session.holdReader (Reader.openPath text)
  | .openReaderOf entry => session.holdReader (Reader.openEntry entry)
  | .useReader index use => session.onReader index use.run
  | .drain paused =>
      let locks := if paused then session.store.locks.pause else session.store.locks
      { session with store := { session.store with locks, closing := true } }
  | .close => { session with store := session.store.close.2 }
  | .resume => { session with store := session.store.resume }
  | .reopen config timed => { session with store := opened config timed session.store.kept }

/-- A session after an event. -/
def after (now : Int) (event : Event) (session : Session) : Session :=
  (session.perform now event).remembering

/-- Every stream is closed. -/
def StreamsClosed (session : Session) : Prop :=
  (∀ writer ∈ session.writers, writer.isClosed = true) ∧
    ∀ reader ∈ session.readers, reader.isClosed = true

/-- What can happen next. A call inside a transaction needs one, a close waits for it to
end, and a store is opened anew when its streams are closed. -/
def Possible (session : Session) : Event → Prop
  | .nest | .finish _ => session.store.savepoints ≠ []
  | .inside call => session.store.savepoints ≠ [] ∧ call.Knows session.known
  | .whole call => call.Knows session.known
  | .close => session.store.savepoints = []
  | .reopen _ _ => session.store.savepoints = [] ∧ session.StreamsClosed
  | _ => True

/-- One event that can happen, and that is allowed. -/
inductive Step (allowed : Session → Int → Event → Prop) (session : Session) : Session → Prop where
  | event {now : Int} {event : Event}
      (possible : session.Possible event)
      (isAllowed : allowed session now event) :
      Step allowed session (session.after now event)

/-- A session that some allowed events lead to. -/
def Reachable (allowed : Session → Int → Event → Prop) (first session : Session) : Prop :=
  Relation.ReflTransGen (Step allowed) first session

/-- What can happen next, whatever entries its users come with. -/
def Feasible (session : Session) : Event → Prop
  | .nest | .finish _ | .inside _ => session.store.savepoints ≠ []
  | .close => session.store.savepoints = []
  | .reopen _ _ => session.store.savepoints = [] ∧ session.StreamsClosed
  | _ => True

/-- What can happen is feasible. -/
theorem Possible.feasible
    {session : Session}
    {event : Event}
    (possible : session.Possible event) :
    session.Feasible event := by
  cases event with
  | inside call =>
      exact possible.1
  | whole call =>
      trivial
  | _ =>
      exact possible

/-- One event that is feasible, and that is allowed. -/
inductive Move (allowed : Session → Int → Event → Prop) (session : Session) : Session → Prop where
  | event {now : Int} {event : Event}
      (feasible : session.Feasible event)
      (isAllowed : allowed session now event) :
      Move allowed session (session.after now event)

/-- A session that some allowed events lead to, with entries from anywhere. -/
def Run (allowed : Session → Int → Event → Prop) (first session : Session) : Prop :=
  Relation.ReflTransGen (Move allowed) first session

/-- One event more. -/
theorem Run.next
    {allowed : Session → Int → Event → Prop}
    {first session : Session}
    (run : Run allowed first session)
    (now : Int)
    (event : Event)
    (feasible : session.Feasible event)
    (isAllowed : allowed session now event) :
    Run allowed first (session.after now event) :=
  run.tail (.event feasible isAllowed)

end Session

end VersionStore
