import VersionStore.Host.HeldStreams
import VersionStore.Proofs.Host.Presenting
import VersionStore.Proofs.Session.Idling

namespace VersionStore

/-!
# Streams that a host holds

A host holds streams under names. As long as no one else is at the file of their store, the host
finds the store as it was left, so that what is done with the stream under a name is done with a
stream of a session. When time goes by it does so for each of the streams that are held, once.
-/

open HostAction

namespace Store.Lasting

variable {store left : Store}

/-- What remains where it is goes on to be found, as long as no scope begins. -/
theorem remains
    (lasting : store.Lasting)
    (remains : store.Remains left)
    (savepoints : left.savepoints = store.savepoints) :
    left.Lasting :=
  { remains.steady with
    connected := remains.connected lasting.connected
    outside := fun some_ => savepoints.trans (lasting.outside (remains.file ▸ some_)) }

/-- Other locks make no difference to a file. -/
theorem withLocks
    (lasting : store.Lasting)
    {locks : LockTable}
    (sane : locks.Sane) :
    { store with locks }.Lasting :=
  { lasting.toSteady.withLocks sane with
    connected := lasting.connected
    outside := lasting.outside }

end Store.Lasting

/-- A use of a reader leaves a store that is found again, on its file. -/
theorem Reader.lasting_run
    (reader : Reader)
    {store : Store}
    (lasting : store.Lasting)
    (use : ReaderUse) :
    (use.run.runOn reader store).2.2.Lasting ∧
      (use.run.runOn reader store).2.2.file = store.file := by
  rcases Reader.used_run reader lasting.toSteady use with ⟨-, connected, stays, left⟩ |
    ⟨guard, -, -, left⟩
  · have steady : ({ store with connected } : Store).Steady := { lasting.toSteady with }
    rw [left]
    exact ⟨lasting.remains ⟨steady, rfl, stays⟩ rfl, rfl⟩
  · rw [left]
    exact ⟨lasting.withLocks (lasting.sane.release guard), rfl⟩

/-- A use of a writer leaves a store that is found again, on its file. -/
theorem Writer.lasting_run
    (writer : Writer)
    {store : Store}
    (lasting : store.Lasting)
    (now : Int)
    (use : WriterUse) :
    ((use.run now).runOn writer store).2.2.Lasting ∧
      ((use.run now).runOn writer store).2.2.file = store.file := by
  have remains := Writer.remains_run writer lasting.toSteady now use
  have used := Writer.used_run writer lasting.toSteady now use
  exact ⟨lasting.remains remains used.savepoints, remains.file⟩

/-! ## Labels -/

/-- Streams are held under names that are labels of theirs: each label leads to one of some streams,
and different names to different ones. -/
structure Labelled (label : String → Nat) (id : StoreId) (held : List (String × Held σ))
    (streams : List σ) : Prop where
  found : ∀ one ∈ held, one.2.store = id ∧ streams[label one.1]? = some one.2.stream
  once : (held.map fun one => label one.1).Nodup

namespace Labelled

variable
  {label : String → Nat}
  {id : StoreId}
  {held : List (String × Held σ)}
  {streams : List σ}
  {name : String}
  {one : Held σ}

/-- What is found under a name is held there. -/
theorem mem_of_lookup
    (isHeld : held.lookup name = some one) :
    (name, one) ∈ held := by
  obtain ⟨before, after, rfl, -⟩ := List.lookup_eq_some_iff.mp isHeld
  exact List.mem_append_right before List.mem_cons_self

/-- Another stream is put in the place of one that is held. -/
theorem replace
    (labelled : Labelled label id held streams)
    (isHeld : held.lookup name = some one)
    (stream : σ) :
    Labelled label id (putUnder name { one with stream } (takeFrom name held))
      (streams.set (label name) stream) := by
  have member := mem_of_lookup isHeld
  obtain ⟨isStore, isStream⟩ := labelled.found _ member
  have inside : label name < streams.length := (List.getElem?_eq_some_iff.mp isStream).1
  have apart (other : String × Held σ) (isOther : other ∈ takeFrom name held) :
      other ∈ held ∧ label other.1 ≠ label name := by
    obtain ⟨isMember, different⟩ := List.mem_filter.mp isOther
    refine ⟨isMember, fun same => bne_iff_ne.mp different ?_⟩
    exact congrArg Prod.fst (List.inj_on_of_nodup_map labelled.once isMember member same)
  have shape :
      putUnder name { one with stream } (takeFrom name held) =
        (name, { one with stream }) :: takeFrom name held := by
    rw [putUnder, takeFrom, List.filter_filter]
    simp only [Bool.and_self]
  rw [shape]
  constructor
  case found =>
    refine List.forall_mem_cons.mpr ⟨⟨isStore, List.getElem?_set_self inside⟩, fun other isOther => ?_⟩
    obtain ⟨isMember, different⟩ := apart other isOther
    rw [List.getElem?_set_ne (Ne.symm different)]
    exact labelled.found other isMember
  case once =>
    refine List.nodup_cons.mpr ⟨fun again => ?_, labelled.once.sublist (List.filter_sublist.map _)⟩
    obtain ⟨other, isOther, same⟩ := List.mem_map.mp again
    exact (apart other isOther).2 same

/-- The names stay when a stream is put in the place of one that is held. -/
theorem names_replace
    (isHeld : held.lookup name = some one)
    (stream : σ)
    (other : String) :
    other ∈ (putUnder name { one with stream } (takeFrom name held)).map Prod.fst ↔
      other ∈ held.map Prod.fst := by
  have member := List.mem_map_of_mem (f := Prod.fst) (mem_of_lookup isHeld)
  by_cases same : other = name
  · subst same
    exact iff_of_true List.mem_cons_self member
  · simp [putUnder, takeFrom, same]

end Labelled

namespace HostAction

/-- A look at the host. -/
theorem runOn_get
    (host : Host) :
    (get : HostAction Host).runOn host = (.ok host, host) :=
  rfl

/-- Another host takes the place of the one before. -/
theorem runOn_set
    (next host : Host) :
    (set next : HostAction PUnit).runOn host = (.ok ⟨⟩, next) :=
  rfl

/-- The host is changed. -/
theorem runOn_modify
    (change : Host → Host)
    (host : Host) :
    (modify change : HostAction PUnit).runOn host = (.ok ⟨⟩, change host) :=
  rfl

/-- What is done with a stream is done with its store as the host finds it. -/
theorem runOn_onStream
    (id : StoreId)
    (stream : σ)
    (action : StreamAction σ α)
    (host : Host) :
    (onStream id stream action).runOn host =
      (.ok ((action.runOn stream (host.found id)).1, (action.runOn stream (host.found id)).2.1),
        host.keep id (action.runOn stream (host.found id)).2.2) :=
  rfl

end HostAction

namespace Host

variable
  {host : Host}
  {name : String}

/-- It does not matter to a store which streams are held. -/
theorem found_withStreams
    (host : Host)
    (readers : List (String × Held Reader))
    (writers : List (String × Held Writer))
    (id : StoreId) :
    ({ host with readers, writers } : Host).found id = host.found id :=
  rfl

/-- The streams that are held stay while a store is kept. -/
theorem keep_withStreams
    (host : Host)
    (readers : List (String × Held Reader))
    (writers : List (String × Held Writer))
    (id : StoreId)
    (left : Store) :
    ({ host with readers, writers } : Host).keep id left =
      { host.keep id left with readers, writers } := by
  simp only [keep, save]
  split <;> rfl

/-- A host after the use of a reader that it holds. -/
theorem runOn_onReader
    {held : Held Reader}
    (isHeld : host.readers.lookup name = some held)
    (action : StreamAction Reader α) :
    let ran := action.runOn held.stream (host.found held.store)
    (onReader name action).runOn host =
      (.ok (some (ran.1, ran.2.1)),
        { host.keep held.store ran.2.2 with
          readers := putUnder name { held with stream := ran.2.1 } (takeFrom name host.readers)
          writers := host.writers }) := by
  rw [onReader, runOn_bind, runOn_get]
  dsimp only
  rw [isHeld]
  dsimp only
  rw [runOn_bind, runOn_set]
  dsimp only
  rw [runOn_bind, runOn_onStream]
  dsimp only
  rw [runOn_bind, runOn_modify, found_withStreams, keep_withStreams]
  rfl

/-- A host after the use of a writer that it holds. -/
theorem runOn_onWriter
    {held : Held Writer}
    (isHeld : host.writers.lookup name = some held)
    (action : StreamAction Writer α) :
    let ran := action.runOn held.stream (host.found held.store)
    (onWriter name action).runOn host =
      (.ok (some (ran.1, ran.2.1)),
        { host.keep held.store ran.2.2 with
          readers := host.readers
          writers := putUnder name { held with stream := ran.2.1 } (takeFrom name host.writers) }) := by
  rw [onWriter, runOn_bind, runOn_get]
  dsimp only
  rw [isHeld]
  dsimp only
  rw [runOn_bind, runOn_set]
  dsimp only
  rw [runOn_bind, runOn_onStream]
  dsimp only
  rw [runOn_bind, runOn_modify, found_withStreams, keep_withStreams]
  rfl

end Host

/-! ## Hosts and sessions -/

/-- Names for streams of a session. -/
structure Labels where
  reader : String → Nat
  writer : String → Nat

/-- The stream that waits under a name. -/
def Labels.place (labels : Labels) (waiting : Waiting) : StreamAt :=
  if waiting.isReader then .reader (labels.reader waiting.name)
  else .writer (labels.writer waiting.name)

namespace Host

/-- A host carries a session: it finds the session's store, and holds streams of the session. -/
structure Carries (host : Host) (id : StoreId) (labels : Labels) (session : Session) : Prop where
  there : id < host.stores.size
  found : host.found id = session.store
  lasting : session.store.Lasting
  readers : Labelled labels.reader id host.readers session.readers
  writers : Labelled labels.writer id host.writers session.writers

/-- A stream of a session is held. -/
def Holds (host : Host) (labels : Labels) (stream : StreamAt) : Prop :=
  ∃ waiting ∈ waitingStreams host, labels.place waiting = stream

/-- Two hosts hold streams under the same names. -/
structure SameNames (host other : Host) : Prop where
  readers : ∀ name, name ∈ other.readers.map Prod.fst ↔ name ∈ host.readers.map Prod.fst
  writers : ∀ name, name ∈ other.writers.map Prod.fst ↔ name ∈ host.writers.map Prod.fst

namespace Carries

variable
  {host : Host}
  {id : StoreId}
  {labels : Labels}
  {session : Session}
  {name : String}

/-- A store that is kept is found again. -/
theorem found_keep
    (carries : host.Carries id labels session)
    {left : Store}
    (lasting : left.Lasting)
    (sameFile : left.file = session.store.file) :
    (host.keep id left).found id = left :=
  found_keep_of_lasting carries.there (carries.found ▸ carries.lasting.others) lasting
    (carries.found ▸ sameFile)

/-- As many stores are there while one is kept. -/
theorem there_keep
    (carries : host.Carries id labels session)
    (left : Store) :
    id < (host.keep id left).stores.size := by
  obtain ⟨files, kept⟩ := host.keep_eq id left
  rw [kept, Array.size_setIfInBounds]
  exact carries.there

/-- The use of a reader under a name is the use of a reader of the session. -/
theorem useReader
    (carries : host.Carries id labels session)
    {held : Held Reader}
    (isHeld : host.readers.lookup name = some held)
    (now : Int)
    (use : ReaderUse) :
    ∃ outcome left,
      (onReader name use.run).runOn host = (.ok (some outcome), left) ∧ host.SameNames left ∧
        left.Carries id labels (session.after now (.useReader (labels.reader name) use)) := by
  obtain ⟨rfl, isStream⟩ := carries.readers.found _ (Labelled.mem_of_lookup isHeld)
  obtain ⟨lasting, sameFile⟩ := held.stream.lasting_run carries.lasting use
  have ran := runOn_onReader isHeld use.run
  dsimp only at ran
  rw [carries.found] at ran
  refine ⟨_, _, ran, ⟨Labelled.names_replace isHeld _, fun _ => .rfl⟩, ?_⟩
  change Carries _ held.store labels (session.onReader (labels.reader name) use.run).remembering
  rw [Session.onReader_eq isStream]
  exact
    { there := carries.there_keep _
      found := carries.found_keep lasting sameFile
      lasting := lasting
      readers := carries.readers.replace isHeld _
      writers := carries.writers }

/-- The use of a writer under a name is the use of a writer of the session. -/
theorem useWriter
    (carries : host.Carries id labels session)
    {held : Held Writer}
    (isHeld : host.writers.lookup name = some held)
    (now : Int)
    (use : WriterUse) :
    ∃ outcome left,
      (onWriter name (use.run now)).runOn host = (.ok (some outcome), left) ∧ host.SameNames left ∧
        left.Carries id labels (session.after now (.useWriter (labels.writer name) use)) := by
  obtain ⟨rfl, isStream⟩ := carries.writers.found _ (Labelled.mem_of_lookup isHeld)
  obtain ⟨lasting, sameFile⟩ := held.stream.lasting_run carries.lasting now use
  have ran := runOn_onWriter isHeld (use.run now)
  dsimp only at ran
  rw [carries.found] at ran
  refine ⟨_, _, ran, ⟨fun _ => .rfl, Labelled.names_replace isHeld _⟩, ?_⟩
  change Carries _ held.store labels (session.onWriter (labels.writer name) (use.run now)).remembering
  rw [Session.onWriter_eq isStream]
  exact
    { there := carries.there_keep _
      found := carries.found_keep lasting sameFile
      lasting := lasting
      readers := carries.readers
      writers := carries.writers.replace isHeld _ }

end Carries

end Host

end VersionStore
