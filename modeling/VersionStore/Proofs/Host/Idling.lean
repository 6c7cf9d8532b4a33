import VersionStore.Proofs.Host.Holding
import VersionStore.Proofs.Host.RootListings

namespace VersionStore

/-!
# Idle streams of a host

When time goes by on a host it does so for each stream that is held, once, in the order in which
they would come due. The streams of a session that are due then, and no others, are closed as they
would be by hand.
-/

open HostAction

/-! ## Time for all streams -/

namespace Host

variable
  {host other : Host}
  {id : StoreId}
  {labels : Labels}
  {session : Session}
  {waiting : Waiting}

/-- A stream is held that waits. -/
def Keeps (host : Host) (waiting : Waiting) : Prop :=
  if waiting.isReader then waiting.name ∈ host.readers.map Prod.fst
  else waiting.name ∈ host.writers.map Prod.fst

/-- A stream is held under a name as long as the name is there. -/
theorem SameNames.keeps_iff
    (same : host.SameNames other)
    (waiting : Waiting) :
    other.Keeps waiting ↔ host.Keeps waiting := by
  rw [Keeps, Keeps]
  split
  · exact same.readers waiting.name
  · exact same.writers waiting.name

/-- Streams that wait are held. -/
theorem keeps_of_mem
    (member : waiting ∈ waitingStreams host) :
    host.Keeps waiting := by
  rcases List.mem_append.mp member with isReader | isWriter
  · obtain ⟨one, isHeld, rfl⟩ := List.mem_map.mp isReader
    exact List.mem_map_of_mem isHeld
  · obtain ⟨one, isHeld, rfl⟩ := List.mem_map.mp isWriter
    exact List.mem_map_of_mem isHeld

/-- Under each name that is held something is found. -/
theorem exists_lookup
    {held : List (String × Held σ)}
    {name : String}
    (isHeld : name ∈ held.map Prod.fst) :
    ∃ one, held.lookup name = some one := by
  rw [← Option.isSome_iff_exists, List.lookup_isSome_iff]
  obtain ⟨one, member, rfl⟩ := List.mem_map.mp isHeld
  exact ⟨one, member, beq_self_eq_true one.1⟩

namespace Carries

/-- Time that goes by for a stream that is held goes by for a stream of the session. -/
theorem elapseOne
    (carries : host.Carries id labels session)
    (keeps : host.Keeps waiting)
    (now : Int)
    (milliseconds : Nat)
    (rest : List Waiting) :
    ∃ left,
      (elapseEach now milliseconds (waiting :: rest)).runOn host =
          (elapseEach now milliseconds rest).runOn left ∧
        host.SameNames left ∧
          left.Carries id labels (session.after now ((labels.place waiting).idles milliseconds)) := by
  obtain ⟨isReader, name, idle, rank⟩ := waiting
  cases isReader with
  | true =>
      obtain ⟨held, isHeld⟩ := exists_lookup keeps
      obtain ⟨outcome, left, ran, same, carried⟩ :=
        carries.useReader isHeld now (.elapse milliseconds)
      rw [ReaderUse.run] at ran
      refine ⟨left, ?_, same, carried⟩
      rw [elapseEach, if_pos rfl, runOn_bind, ran]
  | false =>
      obtain ⟨held, isHeld⟩ := exists_lookup keeps
      obtain ⟨outcome, left, ran, same, carried⟩ :=
        carries.useWriter isHeld now (.elapse milliseconds)
      rw [WriterUse.run] at ran
      refine ⟨left, ?_, same, carried⟩
      rw [elapseEach, if_neg Bool.false_ne_true, runOn_bind, ran]

/-- Time that goes by for streams that are held goes by for streams of the session. -/
theorem elapseEach
    (carries : host.Carries id labels session)
    (now : Int)
    (milliseconds : Nat)
    (streams : List Waiting)
    (keeps : ∀ waiting ∈ streams, host.Keeps waiting) :
    ∃ left,
      (HostAction.elapseEach now milliseconds streams).runOn host = (.ok ⟨⟩, left) ∧
        left.Carries id labels (session.pass now milliseconds (streams.map labels.place)) := by
  induction streams generalizing host session with
  | nil =>
      exact ⟨host, rfl, carries⟩
  | cons waiting rest inductionHypothesis =>
      obtain ⟨here, keeps⟩ := List.forall_mem_cons.mp keeps
      obtain ⟨middle, ran, same, carried⟩ := carries.elapseOne here now milliseconds rest
      obtain ⟨left, ranRest, carriedRest⟩ :=
        inductionHypothesis carried fun one member => (same.keeps_iff one).mpr (keeps one member)
      exact ⟨left, ran.trans ranRest, carriedRest⟩

/-- Different streams of a session wait under different names. -/
theorem nodup_places
    (carries : host.Carries id labels session) :
    ((waitingStreams host).map labels.place).Nodup := by
  have readers :
      ((host.readers.map fun one => StreamAt.reader (labels.reader one.1))).Nodup := by
    have once := carries.readers.once.map fun first second => @StreamAt.reader.inj first second
    rwa [List.map_map] at once
  have writers :
      ((host.writers.map fun one => StreamAt.writer (labels.writer one.1))).Nodup := by
    have once := carries.writers.once.map fun first second => @StreamAt.writer.inj first second
    rwa [List.map_map] at once
  rw [waitingStreams, List.map_append, List.map_map, List.map_map]
  refine readers.append writers fun stream isReader isWriter => ?_
  obtain ⟨one, -, rfl⟩ := List.mem_map.mp isReader
  obtain ⟨other, -, absurd⟩ := List.mem_map.mp isWriter
  cases absurd

/-- When time goes by on a host, it goes by for each stream that is held, once. -/
theorem elapse
    (carries : host.Carries id labels session)
    (now : Int)
    (milliseconds : Nat) :
    ∃ left streams,
      (HostAction.elapse now milliseconds).runOn host = (.ok ⟨⟩, left) ∧
        streams.Nodup ∧ (∀ stream, stream ∈ streams ↔ host.Holds labels stream) ∧
          left.Carries id labels (session.pass now milliseconds streams) := by
  have same := List.mergeSort_perm (waitingStreams host) dueLe
  obtain ⟨left, ran, carried⟩ :=
    carries.elapseEach now milliseconds ((waitingStreams host).mergeSort dueLe)
      fun waiting member => keeps_of_mem (same.mem_iff.mp member)
  refine ⟨left, _, ?_, (same.map labels.place).nodup_iff.mpr carries.nodup_places, ?_, carried⟩
  · rw [HostAction.elapse, runOn_bind, runOn_get]
    exact ran
  · intro stream
    rw [(same.map labels.place).mem_iff, List.mem_map]
    rfl

end Carries

end Host

namespace Session

variable {session : Session} {stream : StreamAt}

/-! ## Watched streams -/

/-- Writers know the parts at the ends of their files whatever happens. -/
theorem Tailed.of_run
    {allowed : Session → Int → Event → Prop}
    {first : Session}
    (tailed : first.Tailed)
    (accounted : first.Accounted)
    (run : Run allowed first session) :
    session.Tailed := by
  induction run with
  | refl =>
      exact tailed
  | tail before move inductionHypothesis =>
      obtain ⟨feasible, -⟩ := move
      exact inductionHypothesis.after (accounted.of_run before).steady _ feasible

/-- What time does to a stream that some pulses came to. -/
structure Watched (stream : StreamAt) (timeout : Nat) (pulses : List Pulse) (session : Session) :
    Prop where
  /-- It is closed just when it was closed by hand, or had been idle for as long as it may be. -/
  closed_iff : stream.isClosed session = true ↔ Pulse.Ends timeout pulses
  due_iff :
    ∀ milliseconds,
      stream.isDue milliseconds session = true ↔
        stream.isClosed session = false ∧ timeout ≤ Pulse.idleTime pulses + milliseconds
  /-- Before its time nothing is done, and neither once it is closed. -/
  early :
    ∀ now milliseconds,
      stream.isClosed session = true ∨ Pulse.idleTime pulses + milliseconds < timeout →
      (session.after now (stream.idles milliseconds)).Alike session
  /-- When its time has come it is closed as it would be by hand. -/
  late :
    ∀ now milliseconds,
      stream.isClosed session = false →
      timeout ≤ Pulse.idleTime pulses + milliseconds →
      (session.after now (stream.idles milliseconds)).Alike (session.after now stream.finishes)
  /-- Of a reader only the lock goes. -/
  released :
    ∀ now milliseconds index guard,
      stream = .reader index →
      stream.guard? session = some guard →
      timeout ≤ Pulse.idleTime pulses + milliseconds →
      (session.after now (stream.idles milliseconds)).store =
        { session.store with locks := session.store.locks.release guard }
  spares :
    ∀ now milliseconds, Spares stream session (session.after now (stream.idles milliseconds))
  /-- Time goes by for all streams, in whatever order they are looked at. -/
  together :
    ∀ now milliseconds streams,
      streams.Nodup →
      (session.pass now milliseconds streams).Alike
        (session.finishing now (streams.filter (·.isDue milliseconds session)))
  /-- On a host it goes by for each stream that is held, once. -/
  hosted :
    ∀ host id labels now milliseconds,
      Host.Carries host id labels session →
      ∃ left streams,
        (HostAction.elapse now milliseconds).runOn host = (.ok ⟨⟩, left) ∧
          streams.Nodup ∧ (∀ held, held ∈ streams ↔ host.Holds labels held) ∧
            left.Carries id labels (session.pass now milliseconds streams)
  reader :
    ∀ index reader,
      stream = .reader index →
      session.readers[index]? = some reader →
      Pulse.Ends timeout pulses →
      reader.Refuses session.store
  writer :
    ∀ index writer,
      stream = .writer index →
      session.writers[index]? = some writer →
      Pulse.Ends timeout pulses →
      writer.Refuses session.store

/-- A reader that has a lock lets it go when it is closed by hand, and nothing else happens. -/
theorem finished_reader
    {index : Nat}
    {guard : Guard}
    (has : (StreamAt.reader index).guard? session = some guard)
    (now : Int) :
    (session.after now (StreamAt.reader index).finishes).store =
      { session.store with locks := session.store.locks.release guard } := by
  obtain ⟨reader, found, held⟩ := Option.bind_eq_some_iff.mp has
  change (session.onReader index Reader.finish).store = _
  rw [onReader_eq found]
  exact Reader.finish_of_held held session.store

/-- In any session that a new store comes to, a stream that was opened while time was kept is
closed as soon as it has been idle for as long as it may be, and not before, whatever was done with
it and with others. It is closed as it would be by hand at that moment, without others noticing, and
refuses to be used from then on. -/
theorem watched_of_lived
    {config : Config}
    {timed : Bool}
    {since : Int}
    {timeout : Nat}
    {pulses : List Pulse}
    (lived : Lived (start config timed since) stream timeout pulses session) :
    session.Watched stream timeout pulses := by
  have first := Accounted.start config timed since
  have accounted := first.of_run lived.run
  have tailed := (Orderly.start config timed since).tailed.of_run first lived.run
  have attends := lived.attends first
  have closed_iff := (session.vigil_eq_none_iff stream).symm.trans attends.closed_iff
  have due_iff (milliseconds : Nat) :
      stream.isDue milliseconds session = true ↔
        stream.isClosed session = false ∧ timeout ≤ Pulse.idleTime pulses + milliseconds := by
    rw [StreamAt.isDue, ← Bool.not_eq_true, ← vigil_eq_none_iff]
    cases isVigil : stream.vigil session with
    | none =>
        simp
    | some watchdog =>
        obtain rfl := attends.counted watchdog isVigil
        simp [Watchdog.isDueAfter, Watchdog.isDue, Watchdog.elapse]
  have idles (now : Int) (milliseconds : Nat) := session.after_idles now milliseconds stream
  constructor
  case closed_iff =>
    exact closed_iff
  case due_iff =>
    exact due_iff
  case early =>
    intro now milliseconds early
    have notDue : ¬stream.isDue milliseconds session = true := by
      rw [due_iff]
      rintro ⟨open_, reached⟩
      rcases early with closed | before
      · exact Bool.false_ne_true (open_.symm.trans closed)
      · omega
    have left := idles now milliseconds
    rw [if_neg notDue] at left
    exact left
  case late =>
    intro now milliseconds open_ reached
    have left := idles now milliseconds
    rw [if_pos ((due_iff milliseconds).mpr ⟨open_, reached⟩)] at left
    exact left
  case released =>
    rintro now milliseconds index guard rfl has reached
    have open_ : (StreamAt.reader index).isClosed session = false := by
      obtain ⟨reader, found, held⟩ := Option.bind_eq_some_iff.mp has
      rw [StreamAt.isClosed, found]
      exact congrArg Option.isNone held
    have left := idles now milliseconds
    rw [if_pos ((due_iff milliseconds).mpr ⟨open_, reached⟩)] at left
    exact left.store.trans (finished_reader has now)
  case spares =>
    exact fun now milliseconds => spares_after_idles accounted tailed now milliseconds stream
  case together =>
    exact fun now milliseconds streams nodup => session.pass_alike now milliseconds nodup
  case hosted =>
    exact fun _ _ _ now milliseconds carries => carries.elapse now milliseconds
  case reader =>
    rintro index reader rfl found ended
    have closed := closed_iff.mpr ended
    rw [StreamAt.isClosed, found] at closed
    exact Reader.refuses_of_closed closed session.store
  case writer =>
    rintro index writer rfl found ended
    have closed := closed_iff.mpr ended
    rw [StreamAt.isClosed, found] at closed
    exact Writer.refuses_of_closed closed session.store

/-- A reader is left alone for just under five seconds, twice, with a read in between that finds
nothing. It is open still, and closed one millisecond later, which a writer next to it is not. Then
it refuses to read, but at a place behind the end of its file it sees the end first. A host may hold
them both. -/
theorem watched_of_lived_reader :
    let written := ((start {} true 0).after 1 (.openWriter "home/a" false)).after 2
      (.useWriter 0 .finish)
    let opened := (written.after 3 (.openReader "home/a")).after 4 (.openWriter "home/b" false)
    let session := ((opened.after 5 (.useReader 0 (.elapse 4999))).after 6
      (.useReader 0 (.read 1))).after 7 (.useReader 0 (.elapse 4999))
    let ended := session.after 8 (.useReader 0 (.elapse 1))
    session.Watched (.reader 0) 5000 [.quiet, .pause 4999, .beat, .pause 4999] ∧
      (StreamAt.reader 0).isClosed session = false ∧
        (∃ host labels,
          Host.Carries host 0 labels session ∧
            host.Holds labels (.reader 0) ∧ host.Holds labels (.writer 1)) ∧
          ended.Watched (.reader 0) 5000 [.quiet, .pause 4999, .beat, .pause 4999, .pause 1] ∧
            (StreamAt.reader 0).isClosed ended = true ∧
              (StreamAt.writer 1).isClosed ended = false ∧
                ∃ reader,
                  ended.readers[0]? = some reader ∧
                    ((Reader.read 1).runOn reader ended.store).1 = .error .closed ∧
                      ((Reader.readAt 1 1).runOn reader ended.store).1 = .error .endOfStream := by
  intro written opened session ended
  have writing : Run (fun _ _ _ => True) (start {} true 0) written :=
    (Run.next .refl 1 (.openWriter "home/a" false) trivial trivial).next 2 (.useWriter 0 .finish)
      trivial trivial
  have begun :
      Lived (start {} true 0) (.reader 0) 5000 [] (written.after 3 (.openReader "home/a")) :=
    .opened writing (by decide) (by decide) trivial (by decide)
      (by decide)
  have lived :
      Lived (start {} true 0) (.reader 0) 5000 [.quiet, .pause 4999, .beat, .pause 4999] session :=
    (((begun.next 4 (.openWriter "home/b" false) trivial).next 5 (.useReader 0 (.elapse 4999))
      trivial).next 6 (.useReader 0 (.read 1)) trivial).next 7 (.useReader 0 (.elapse 4999)) trivial
  have accounted := (Accounted.start {} true 0).of_run lived.run
  have unfiled : session.store.connected = true ∧ session.store.file = none := by
    decide +kernel
  have reads : session.readers[0]?.isSome = true := by
    decide
  have writes : session.writers[1]?.isSome = true := by
    decide
  have held :
      ∃ host labels,
        Host.Carries host 0 labels session ∧
          host.Holds labels (.reader 0) ∧ host.Holds labels (.writer 1) := by
    clear_value session
    obtain ⟨reader, isReader⟩ := Option.isSome_iff_exists.mp reads
    obtain ⟨writer, isWriter⟩ := Option.isSome_iff_exists.mp writes
    refine
      ⟨{ stores := #[session.store], readers := [("r", ⟨0, reader, 0⟩)],
         writers := [("w", ⟨0, writer, 1⟩)] }, ⟨fun _ => 0, fun _ => 1⟩, ?_,
        ⟨_, List.mem_cons_self, rfl⟩, ⟨_, List.mem_cons_of_mem _ List.mem_cons_self, rfl⟩⟩
    exact
      { there := Nat.zero_lt_one
        found := Host.found_single unfiled.1 unfiled.2 accounted.steady.others
        lasting :=
          { accounted.steady with
            connected := unfiled.1
            outside := fun filed => absurd unfiled.2 filed }
        readers := ⟨List.forall_mem_singleton.mpr ⟨rfl, isReader⟩, List.nodup_singleton _⟩
        writers := ⟨List.forall_mem_singleton.mpr ⟨rfl, isWriter⟩, List.nodup_singleton _⟩ }
  have watched := watched_of_lived lived
  have watchedAfter := watched_of_lived (lived.next 8 (.useReader 0 (.elapse 1)) trivial)
  have isEnded : Pulse.Ends 5000 [.quiet, .pause 4999, .beat, .pause 4999, .pause 1] :=
    ⟨[.quiet, .pause 4999, .beat, .pause 4999], .pause 1, [], rfl, .inr ⟨1, rfl, by decide⟩⟩
  have isThere : ended.readers[0]?.map (·.length) = some 0 := by
    decide +kernel
  obtain ⟨reader, found, isEmpty⟩ := Option.map_eq_some_iff.mp isThere
  have refuses := watchedAfter.reader 0 reader rfl found isEnded
  have behind : Reader.signed 1 > reader.length := by
    rw [isEmpty]
    decide
  refine ⟨watched, by decide +kernel, held, watchedAfter, watchedAfter.closed_iff.mpr isEnded,
    by decide, reader, found, congrArg Prod.fst (refuses.read 1), ?_⟩
  rw [refuses.readAt 1 1, if_pos behind]

end Session

end VersionStore
