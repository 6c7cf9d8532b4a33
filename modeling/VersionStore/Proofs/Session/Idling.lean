import VersionStore.Proofs.Content.Beside
import VersionStore.Proofs.Session.Enduring
import VersionStore.Proofs.Stream.Idling

namespace VersionStore

/-!
# Idle streams

In a session that keeps time a stream is closed as soon as it has been left alone for as long as the
configuration allows, and not before. It is closed as it would be by hand at that time: what is left
of a writer's file is stored and its lock goes, of a reader only the lock goes. Other streams and
their files do not notice, and the stream refuses to be used from then on.
-/

/-- Letting a guard go does not change how other files are held. -/
theorem LockTable.hold?_release_of_ne
    {table : LockTable}
    {guard : Guard}
    {id : Int}
    (different : id ≠ guard.id) :
    (table.release guard).hold? id = table.hold? id := by
  unfold release
  split
  · rw [hold?_unlock, if_neg different]
  · rfl

/-- All files but one endure the storing of its parts. -/
theorem Tables.stores_beside
    (file : Int)
    (base : Tables) :
    EnduresStoring (· = file) (· = file) (Beside (· = file) base) where
  recorded tables id length modified checksum isFile beside := by
    have recorded :
        Beside (· = id) tables (tables.recordContent id length modified checksum) :=
      beside_modifyEntry tables id fun _ => rfl
    exact beside.trans (recorded.widen fun _ same => same.trans isFile)
  stored tables part isFile _ beside := beside.trans (beside_addPart tables file part isFile _)
  replaced _ _ _ isFile beside :=
    beside.trans ⟨fun _ _ => .rfl, fun _ different => pieces_replacePart fun part member isId same =>
      different (same.symm.trans (isFile part member isId))⟩

/-- A stream of a session. -/
inductive StreamAt where
  | reader (index : Nat)
  | writer (index : Nat)
  deriving DecidableEq, Repr

namespace StreamAt

/-- A session has this stream. -/
def IsIn (session : Session) : StreamAt → Prop
  | reader index => index < session.readers.length
  | writer index => index < session.writers.length

instance (session : Session) (stream : StreamAt) : Decidable (stream.IsIn session) :=
  match stream with
  | reader index => inferInstanceAs (Decidable (index < session.readers.length))
  | writer index => inferInstanceAs (Decidable (index < session.writers.length))

/-- True when a stream is closed, or not there. -/
def isClosed (session : Session) : StreamAt → Bool
  | reader index => session.readers[index]?.all Reader.isClosed
  | writer index => session.writers[index]?.all Writer.isClosed

/-- The watchdog of a stream, as long as there is something to watch. -/
def vigil (session : Session) : StreamAt → Option (Option Watchdog)
  | reader index => session.readers[index]?.bind Reader.vigil
  | writer index => session.writers[index]?.bind Writer.vigil

/-- True when an open stream would be closed after some more time. -/
def isDue (milliseconds : Nat) (session : Session) (stream : StreamAt) : Bool :=
  (stream.vigil session).any (Watchdog.isDueAfter milliseconds)

/-- The lock of a stream, as long as it has one. -/
def guard? (session : Session) : StreamAt → Option Guard
  | reader index => session.readers[index]?.bind Reader.guard
  | writer index => session.writers[index]?.bind Writer.guard

/-- The file of a stream. -/
def fileId? (session : Session) : StreamAt → Option Int
  | reader index => session.readers[index]?.map (·.entry.id)
  | writer index => session.writers[index]?.map (·.fileId)

/-- Time goes by for a stream. -/
def idles (milliseconds : Nat) : StreamAt → Event
  | reader index => .useReader index (.elapse milliseconds)
  | writer index => .useWriter index (.elapse milliseconds)

/-- A stream is closed by hand. -/
def finishes : StreamAt → Event
  | reader index => .useReader index .finish
  | writer index => .useWriter index .finish

/-- What an event is to the watchdog of a stream. -/
def pulse : StreamAt → Event → Pulse
  | reader index, .useReader used use => if used = index then use.pulse else .quiet
  | writer index, .useWriter used use => if used = index then use.pulse else .quiet
  | _, _ => .quiet

/-- To a reader every event but its use is quiet. -/
theorem pulse_reader
    {index : Nat}
    {event : Event}
    (unused : ∀ use, event ≠ .useReader index use) :
    (reader index).pulse event = .quiet := by
  cases event with
  | useReader other use =>
      exact if_neg fun same : other = index => unused use (same ▸ rfl)
  | _ =>
      rfl

/-- To a writer every event but its use is quiet. -/
theorem pulse_writer
    {index : Nat}
    {event : Event}
    (unused : ∀ use, event ≠ .useWriter index use) :
    (writer index).pulse event = .quiet := by
  cases event with
  | useWriter other use =>
      exact if_neg fun same : other = index => unused use (same ▸ rfl)
  | _ =>
      rfl

end StreamAt

namespace Session

variable {session next : Session} {now : Int} {event : Event} {stream other : StreamAt}

/-! ## Streams in a session -/

/-- A session after a reader was used. -/
theorem onReader_eq
    {index : Nat}
    {reader : Reader}
    (found : session.readers[index]? = some reader)
    (action : StreamAction Reader Unit) :
    session.onReader index action =
      { session with
        store := (action.runOn reader session.store).2.2
        readers := session.readers.set index (action.runOn reader session.store).2.1 } := by
  unfold onReader
  rw [found]

/-- A reader that is not there is not used. -/
theorem onReader_none
    {index : Nat}
    (missing : session.readers[index]? = none)
    (action : StreamAction Reader Unit) :
    session.onReader index action = session := by
  unfold onReader
  rw [missing]

/-- What the use of a reader leaves of the other streams. -/
theorem onReader_others
    (used : Nat)
    (action : StreamAction Reader Unit)
    (session : Session) :
    (session.onReader used action).readers.length = session.readers.length ∧
      (∀ index,
        used ≠ index →
        (session.onReader used action).readers[index]? = session.readers[index]?) ∧
        (session.onReader used action).writers = session.writers := by
  cases found : session.readers[used]? with
  | none =>
      rw [onReader_none found]
      exact ⟨rfl, fun _ _ => rfl, rfl⟩
  | some reader =>
      rw [onReader_eq found]
      exact ⟨List.length_set, fun _ different => List.getElem?_set_ne different, rfl⟩

/-- What the use of a writer leaves of the other streams. -/
theorem onWriter_others
    (used : Nat)
    (action : StreamAction Writer Unit)
    (session : Session) :
    (session.onWriter used action).writers.length = session.writers.length ∧
      (∀ index,
        used ≠ index →
        (session.onWriter used action).writers[index]? = session.writers[index]?) ∧
        (session.onWriter used action).readers = session.readers := by
  cases found : session.writers[used]? with
  | none =>
      rw [onWriter_none found]
      exact ⟨rfl, fun _ _ => rfl, rfl⟩
  | some writer =>
      rw [onWriter_eq found]
      exact ⟨List.length_set, fun _ different => List.getElem?_set_ne different, rfl⟩

/-- The readers after a writer was to be opened. -/
theorem holdWriter_readers
    (opening : Action Writer)
    (session : Session) :
    (session.holdWriter opening).readers = session.readers := by
  unfold holdWriter
  rcases opening.runOn session.store with ⟨fault | opened, left⟩ <;> rfl

/-- A reader stays as it is at every event but its use. -/
theorem readers_after
    {index : Nat}
    {reader : Reader}
    (found : session.readers[index]? = some reader)
    (now : Int)
    (unused : ∀ use, event ≠ .useReader index use) :
    (session.after now event).readers[index]? = some reader := by
  have held (opening : Action Reader) :
      (session.holdReader opening).readers[index]? = some reader := by
    unfold holdReader
    rcases opening.runOn session.store with ⟨fault | opened, left⟩
    · exact found
    · exact (List.getElem?_append_left (List.getElem?_eq_some_iff.mp found).1).trans found
  cases event with
  | openReader text =>
      exact held _
  | openReaderOf entry =>
      exact held _
  | openWriter text append =>
      change (session.holdWriter _).readers[index]? = some reader
      rw [holdWriter_readers]
      exact found
  | useReader used use =>
      have different : used ≠ index := fun same => unused use (same ▸ rfl)
      exact ((session.onReader_others used use.run).2.1 index different).trans found
  | useWriter used use =>
      change (session.onWriter used (use.run now)).readers[index]? = some reader
      rw [(session.onWriter_others used (use.run now)).2.2]
      exact found
  | _ =>
      exact found

/-- A writer stays as it is at every event but its use. -/
theorem writers_after
    {index : Nat}
    {writer : Writer}
    (found : session.writers[index]? = some writer)
    (now : Int)
    (unused : ∀ use, event ≠ .useWriter index use) :
    (session.after now event).writers[index]? = some writer := by
  cases event with
  | openWriter text append =>
      change (session.holdWriter _).writers[index]? = some writer
      rw [holdWriter_writers]
      exact (List.getElem?_append_left (List.getElem?_eq_some_iff.mp found).1).trans found
  | useWriter used use =>
      have different : used ≠ index := fun same => unused use (same ▸ rfl)
      exact ((session.onWriter_others used (use.run now)).2.1 index different).trans found
  | inside | whole =>
      exact found
  | _ =>
      rw [session.writers_quiet now]
      · exact found
      · trivial

/-- A stream has no vigil just when it is closed or not there. -/
theorem vigil_eq_none_iff
    (session : Session)
    (stream : StreamAt) :
    stream.vigil session = none ↔ stream.isClosed session = true := by
  cases stream with
  | reader index =>
      cases found : session.readers[index]? <;>
        simp [StreamAt.vigil, StreamAt.isClosed, Reader.vigil, found]
  | writer index =>
      cases found : session.writers[index]? <;>
        simp [StreamAt.vigil, StreamAt.isClosed, Writer.vigil, found]

/-- Every event is to the watchdog of a stream the pulse that it counts as. -/
theorem vigil_after
    (steady : session.store.Steady)
    (isIn : stream.IsIn session)
    (now : Int)
    (event : Event) :
    stream.vigil (session.after now event) = (stream.pulse event).pass (stream.vigil session) := by
  cases stream with
  | reader index =>
      obtain ⟨reader, found⟩ : ∃ reader, session.readers[index]? = some reader :=
        ⟨_, List.getElem?_eq_getElem isIn⟩
      by_cases used : ∃ use, event = .useReader index use
      · obtain ⟨use, rfl⟩ := used
        change
          (session.onReader index use.run).readers[index]?.bind Reader.vigil =
            (if index = index then use.pulse else .quiet).pass _
        rw [onReader_eq found, List.getElem?_set_self isIn, if_pos rfl]
        refine (Reader.vigil_run reader steady use).trans ?_
        rw [StreamAt.vigil, found]
        rfl
      · have unused (use : ReaderUse) : event ≠ .useReader index use := fun same => used ⟨use, same⟩
        rw [StreamAt.pulse_reader unused, Pulse.quiet_pass, StreamAt.vigil, StreamAt.vigil, found,
          readers_after found now unused]
  | writer index =>
      obtain ⟨writer, found⟩ : ∃ writer, session.writers[index]? = some writer :=
        ⟨_, List.getElem?_eq_getElem isIn⟩
      by_cases used : ∃ use, event = .useWriter index use
      · obtain ⟨use, rfl⟩ := used
        change
          (session.onWriter index (use.run now)).writers[index]?.bind Writer.vigil =
            (if index = index then use.pulse else .quiet).pass _
        rw [onWriter_eq found, List.getElem?_set_self isIn, if_pos rfl]
        refine (Writer.vigil_run now writer session.store use).trans ?_
        rw [StreamAt.vigil, found]
        rfl
      · have unused (use : WriterUse) : event ≠ .useWriter index use := fun same => used ⟨use, same⟩
        rw [StreamAt.pulse_writer unused, Pulse.quiet_pass, StreamAt.vigil, StreamAt.vigil, found,
          writers_after found now unused]

/-- A stream does not go away. -/
theorem isIn_after
    (isIn : stream.IsIn session)
    (now : Int)
    (event : Event) :
    stream.IsIn (session.after now event) := by
  cases stream with
  | reader index =>
      by_cases used : ∃ use, event = .useReader index use
      · obtain ⟨use, rfl⟩ := used
        exact isIn.trans_eq (session.onReader_others index use.run).1.symm
      · have stays := readers_after (List.getElem?_eq_getElem isIn) now
          fun use same => used ⟨use, same⟩
        exact (List.getElem?_eq_some_iff.mp stays).1
  | writer index =>
      by_cases used : ∃ use, event = .useWriter index use
      · obtain ⟨use, rfl⟩ := used
        exact isIn.trans_eq (session.onWriter_others index (use.run now)).1.symm
      · have stays := writers_after (List.getElem?_eq_getElem isIn) now
          fun use same => used ⟨use, same⟩
        exact (List.getElem?_eq_some_iff.mp stays).1

/-- A stream that was opened just now has the watchdog that its store gives. -/
theorem vigil_of_new
    (steady : session.store.Steady)
    (isNew : ¬stream.IsIn session)
    (isIn : stream.IsIn (session.after now event)) :
    stream.vigil (session.after now event) = some (Watchdog.ofStore? session.store) := by
  have read {opening : Action Reader} {index : Nat}
      (opened : Reader.Opened session.store (opening.runOn session.store))
      (isNew : ¬index < session.readers.length)
      (isIn : index < (session.holdReader opening).readers.length) :
      (session.holdReader opening).readers[index]?.bind Reader.vigil =
        some (Watchdog.ofStore? session.store) := by
    unfold holdReader at isIn ⊢
    rcases ran : opening.runOn session.store with ⟨fault | reader, left⟩
    · rw [ran] at isIn
      exact absurd isIn isNew
    · rw [ran] at isIn opened
      have isLast : index = session.readers.length := by
        dsimp only at isIn
        rw [List.length_append, List.length_singleton] at isIn
        omega
      obtain ⟨guard, -, -, -, starts⟩ := opened.done reader rfl
      have open_ : reader.isClosed = false := congrArg Option.isNone starts.held
      subst isLast
      dsimp only
      rw [List.getElem?_concat_length]
      exact (Reader.vigil_of_open open_).trans (congrArg some (opened.watched reader rfl))
  cases stream with
  | reader index =>
      cases event with
      | openReader text =>
          exact read (Reader.opened_openPath steady text) isNew isIn
      | openReaderOf entry =>
          exact read (Reader.opened_openEntry steady entry) isNew isIn
      | openWriter text append =>
          exact absurd (isIn.trans_eq (congrArg List.length (holdWriter_readers _ session))) isNew
      | useReader used use =>
          exact absurd (isIn.trans_eq (session.onReader_others used use.run).1) isNew
      | useWriter used use =>
          have same := (session.onWriter_others used (use.run now)).2.2
          exact absurd (isIn.trans_eq (congrArg List.length same)) isNew
      | _ =>
          exact absurd isIn isNew
  | writer index =>
      cases event with
      | openWriter text append =>
          have lends := Writer.lends_openPath steady now text append
          change (session.holdWriter (Writer.openPath now text append)).writers[index]?.bind _ = _
          have isIn : index < (session.holdWriter (Writer.openPath now text append)).writers.length :=
            isIn
          rw [holdWriter_writers] at isIn ⊢
          rcases ran : ((Writer.openPath now text append).runOn session.store).1 with fault | writer
          · rw [ran] at isIn
            exact absurd (isIn.trans_eq (congrArg List.length (List.append_nil _))) isNew
          · obtain ⟨guard, -, -, -, held, -, noResult⟩ := lends.lent writer ran
            have open_ : writer.isClosed = false := by
              simp [Writer.isClosed, held, noResult]
            rw [ran] at isIn
            have isLast : index = session.writers.length := by
              change index < (session.writers ++ [writer]).length at isIn
              have notIn : ¬index < session.writers.length := isNew
              rw [List.length_append, List.length_singleton] at isIn
              omega
            subst isLast
            change (session.writers ++ [writer])[session.writers.length]?.bind _ = _
            rw [List.getElem?_concat_length]
            exact (Writer.vigil_of_open open_).trans
              (congrArg some (Writer.watchdog_openPath steady ran))
      | useWriter used use =>
          exact absurd (isIn.trans_eq (session.onWriter_others used (use.run now)).1) isNew
      | inside | whole =>
          exact absurd isIn isNew
      | _ =>
          refine absurd (isIn.trans_eq (congrArg List.length (session.writers_quiet now ?_))) isNew
          trivial

/-! ## Lives of streams -/

/-- A stream was opened in a session that kept time, and some pulses came since. Meanwhile whatever
is feasible may have happened, to this stream and to others. -/
inductive Lived (first : Session) (stream : StreamAt) (timeout : Nat) :
    List Pulse → Session → Prop where
  | opened {before : Session} {now : Int} {event : Event}
      (run : Run (fun _ _ _ => True) first before)
      (timed : before.store.timed = true)
      (isTimeout : before.store.config.autoCloseMs = timeout)
      (feasible : before.Feasible event)
      (isNew : ¬stream.IsIn before)
      (isIn : stream.IsIn (before.after now event)) :
      Lived first stream timeout [] (before.after now event)
  | next {pulses : List Pulse} {session : Session}
      (lived : Lived first stream timeout pulses session)
      (now : Int)
      (event : Event)
      (feasible : session.Feasible event) :
      Lived first stream timeout (pulses ++ [stream.pulse event]) (session.after now event)

namespace Lived

variable {first : Session} {timeout : Nat} {pulses : List Pulse}

/-- What some session came to is a session that something led to. -/
theorem run
    (lived : Lived first stream timeout pulses session) :
    Run (fun _ _ _ => True) first session := by
  induction lived with
  | opened run _ _ feasible _ _ =>
      exact run.next _ _ feasible trivial
  | next _ now event feasible inductionHypothesis =>
      exact inductionHypothesis.next now event feasible trivial

/-- A stream that was opened is there. -/
theorem isIn
    (lived : Lived first stream timeout pulses session) :
    stream.IsIn session := by
  induction lived with
  | opened _ _ _ _ _ isIn =>
      exact isIn
  | next _ now event _ inductionHypothesis =>
      exact isIn_after inductionHypothesis now event

/-- The watchdog of a stream attends to it. -/
theorem attends
    (lived : Lived first stream timeout pulses session)
    (accounted : first.Accounted) :
    Pulse.Attends timeout pulses (stream.vigil session) := by
  induction lived with
  | @opened before now event run timed isTimeout _ isNew isIn =>
      have steady := (accounted.of_run run).steady
      have given : Watchdog.ofStore? before.store = some ⟨timeout, 0⟩ := by
        rw [Watchdog.ofStore?, if_pos timed, isTimeout]
      rw [vigil_of_new steady isNew isIn, given]
      constructor
      case closed_iff =>
        refine iff_of_false (Option.some_ne_none _) ?_
        rintro ⟨earlier, pulse, later, isList, -⟩
        exact List.cons_ne_nil _ _ (List.append_eq_nil_iff.mp isList.symm).2
      case counted =>
        exact fun _ same => (Option.some_inj.mp same).symm
  | next lived now event _ inductionHypothesis =>
      have steady := (accounted.of_run lived.run).steady
      rw [vigil_after steady lived.isIn]
      exact inductionHypothesis.pass _

end Lived

/-! ## Closing on time -/

/-- Two sessions are the same but for what their watchdogs have counted. -/
structure Alike (one another : Session) : Prop where
  store : one.store = another.store
  readers : one.readers.map Reader.unwatched = another.readers.map Reader.unwatched
  writers : one.writers.map Writer.unwatched = another.writers.map Writer.unwatched

namespace Alike

variable {one another third : Session}

/-- A session is like itself. -/
theorem refl
    (session : Session) :
    session.Alike session :=
  ⟨rfl, rfl, rfl⟩

/-- Likeness passes on. -/
theorem trans
    (first : one.Alike another)
    (second : another.Alike third) :
    one.Alike third :=
  ⟨first.store.trans second.store, first.readers.trans second.readers,
    first.writers.trans second.writers⟩

/-- One stream of many may be left the same but for its watchdog. -/
theorem map_set_of_same
    {f : σ → τ}
    {streams : List σ}
    {index : Nat}
    {before after : σ}
    (found : streams[index]? = some before)
    (same : f after = f before) :
    (streams.set index after).map f = streams.map f := by
  have isMapped : (streams.map f)[index]? = some (f after) := by
    rw [List.getElem?_map, found, Option.map_some, same]
  obtain ⟨inside, isHere⟩ := List.getElem?_eq_some_iff.mp isMapped
  rw [List.map_set, ← isHere, List.set_getElem_self]

/-- Streams that are the same but for their watchdogs are found in the same places. -/
theorem found_of_map
    {f : σ → τ}
    {one another : List σ}
    (same : one.map f = another.map f)
    (index : Nat) :
    one[index]?.map f = another[index]?.map f := by
  rw [← List.getElem?_map, ← List.getElem?_map, same]

/-- What is done with two readers is the same but for their watchdogs, when it leaves the same. -/
theorem onReader
    (alike : one.Alike another)
    {index : Nat}
    {reader twin : Reader}
    {first second : StreamAction Reader Unit}
    (foundOne : one.readers[index]? = some reader)
    (foundAnother : another.readers[index]? = some twin)
    (left :
      (first.runOn reader one.store).2.1.unwatched =
          (second.runOn twin another.store).2.1.unwatched ∧
        (first.runOn reader one.store).2.2 = (second.runOn twin another.store).2.2) :
    (one.onReader index first).Alike (another.onReader index second) := by
  rw [onReader_eq foundOne, onReader_eq foundAnother]
  refine ⟨left.2, ?_, alike.writers⟩
  rw [List.map_set, List.map_set, left.1, alike.readers]

/-- What is done with two writers is the same but for their watchdogs, when it leaves the same. -/
theorem onWriter
    (alike : one.Alike another)
    {index : Nat}
    {writer twin : Writer}
    {first second : StreamAction Writer Unit}
    (foundOne : one.writers[index]? = some writer)
    (foundAnother : another.writers[index]? = some twin)
    (left :
      (first.runOn writer one.store).2.1.unwatched =
          (second.runOn twin another.store).2.1.unwatched ∧
        (first.runOn writer one.store).2.2 = (second.runOn twin another.store).2.2) :
    (one.onWriter index first).Alike (another.onWriter index second) := by
  rw [onWriter_eq foundOne, onWriter_eq foundAnother]
  refine ⟨left.2, alike.readers, ?_⟩
  rw [List.map_set, List.map_set, left.1, alike.writers]

/-- Noting what a store keeps is not about streams. -/
theorem remembering
    (alike : one.Alike another) :
    one.remembering.Alike another.remembering :=
  ⟨alike.store, alike.readers, alike.writers⟩

/-- Closing a stream by hand is not about watchdogs. -/
theorem finished
    (alike : one.Alike another)
    (now : Int)
    (stream : StreamAt) :
    (one.after now stream.finishes).Alike (another.after now stream.finishes) := by
  apply remembering
  cases stream with
  | reader index =>
      change (one.onReader index Reader.finish).Alike (another.onReader index Reader.finish)
      have same := found_of_map alike.readers index
      cases foundOne : one.readers[index]? with
      | none =>
          rw [foundOne] at same
          rw [onReader_none foundOne, onReader_none (Option.map_eq_none_iff.mp same.symm)]
          exact alike
      | some reader =>
          rw [foundOne] at same
          obtain ⟨twin, foundAnother, isTwin⟩ := Option.map_eq_some_iff.mp same.symm
          have ran : Reader.finish.runOn reader one.store = Reader.finish.runOn twin another.store := by
            change Reader.close.runOn reader.unwatched _ = Reader.close.runOn twin.unwatched _
            rw [isTwin, alike.store]
          exact alike.onReader foundOne foundAnother (by rw [ran]; exact ⟨rfl, rfl⟩)
  | writer index =>
      change (one.onWriter index (WriterUse.finish.run now)).Alike
        (another.onWriter index (WriterUse.finish.run now))
      have same := found_of_map alike.writers index
      cases foundOne : one.writers[index]? with
      | none =>
          rw [foundOne] at same
          rw [onWriter_none foundOne, onWriter_none (Option.map_eq_none_iff.mp same.symm)]
          exact alike
      | some writer =>
          rw [foundOne] at same
          obtain ⟨twin, foundAnother, isTwin⟩ := Option.map_eq_some_iff.mp same.symm
          have ran :
              ((WriterUse.finish.run now).runOn writer one.store).2 =
                ((WriterUse.finish.run now).runOn twin another.store).2 := by
            rw [WriterUse.run, StreamAction.left_of_ignored, StreamAction.left_of_ignored]
            change ((Writer.close now).runOn writer.unwatched _).2 =
              ((Writer.close now).runOn twin.unwatched _).2
            rw [isTwin, alike.store]
          exact alike.onWriter foundOne foundAnother (by rw [ran]; exact ⟨rfl, rfl⟩)

end Alike

/-- Time that goes by for a reader closes it as by hand if it is due, and does nothing else. -/
theorem onReader_elapse
    (milliseconds : Nat)
    (index : Nat)
    (session : Session) :
    (session.onReader index (Reader.elapse milliseconds)).Alike
      (if (StreamAt.reader index).isDue milliseconds session then
        session.onReader index Reader.finish
      else session) := by
  rw [StreamAt.isDue, StreamAt.vigil]
  cases found : session.readers[index]? with
  | none =>
      rw [onReader_none found]
      exact .refl session
  | some reader =>
      rw [Option.bind_some]
      have early
          (early : reader.isClosed = true ∨
            Watchdog.isDueAfter milliseconds reader.watchdog = false) :
          (session.onReader index (Reader.elapse milliseconds)).Alike session := by
        rw [onReader_eq found, Reader.elapse_early early]
        exact ⟨rfl, Alike.map_set_of_same found rfl, rfl⟩
      cases closed : reader.isClosed with
      | true =>
          rw [Reader.vigil_of_closed closed]
          exact early (.inl closed)
      | false =>
          rw [Reader.vigil_of_open closed, Option.any_some]
          split
          · rename_i due
            exact (Alike.refl session).onReader found found (Reader.elapse_due due session.store)
          · rename_i notDue
            exact early (.inr (Bool.eq_false_iff.mpr notDue))

/-- Time that goes by for a writer closes it as by hand if it is due, and does nothing else. -/
theorem onWriter_elapse
    (now : Int)
    (milliseconds : Nat)
    (index : Nat)
    (session : Session) :
    (session.onWriter index (Writer.elapse now milliseconds)).Alike
      (if (StreamAt.writer index).isDue milliseconds session then
        session.onWriter index (WriterUse.finish.run now)
      else session) := by
  rw [StreamAt.isDue, StreamAt.vigil]
  cases found : session.writers[index]? with
  | none =>
      rw [onWriter_none found]
      exact .refl session
  | some writer =>
      rw [Option.bind_some]
      have early
          (early : writer.isClosed = true ∨
            Watchdog.isDueAfter milliseconds writer.watchdog = false) :
          (session.onWriter index (Writer.elapse now milliseconds)).Alike session := by
        rw [onWriter_eq found, Writer.elapse_early early]
        exact ⟨rfl, rfl, Alike.map_set_of_same found rfl⟩
      cases closed : writer.isClosed with
      | true =>
          rw [Writer.vigil_of_closed closed]
          exact early (.inl closed)
      | false =>
          rw [Writer.vigil_of_open closed, Option.any_some]
          split
          · rename_i due
            refine (Alike.refl session).onWriter found found ?_
            rw [WriterUse.run, StreamAction.left_of_ignored]
            exact Writer.elapse_due closed due now session.store
          · rename_i notDue
            exact early (.inr (Bool.eq_false_iff.mpr notDue))

/-- Time that goes by for a stream closes it as by hand if it is due, and does nothing else. -/
theorem after_idles
    (now : Int)
    (milliseconds : Nat)
    (stream : StreamAt)
    (session : Session) :
    (session.after now (stream.idles milliseconds)).Alike
      (if stream.isDue milliseconds session then session.after now stream.finishes else session) := by
  have remembered {one another : Session} {due : Bool}
      (alike : one.Alike (if due then another else session)) :
      one.remembering.Alike (if due then another.remembering else session) := by
    cases due <;> exact ⟨alike.store, alike.readers, alike.writers⟩
  cases stream with
  | reader index =>
      exact remembered (session.onReader_elapse milliseconds index)
  | writer index =>
      exact remembered (session.onWriter_elapse now milliseconds index)

/-! ## Many streams at once -/

/-- Time that goes by for a stream leaves the other streams as they are. -/
theorem others_after_idles
    (now : Int)
    (milliseconds : Nat)
    (stream : StreamAt)
    (session : Session) :
    (∀ index,
        stream ≠ .reader index →
        (session.after now (stream.idles milliseconds)).readers[index]? = session.readers[index]?) ∧
      ∀ index,
        stream ≠ .writer index →
        (session.after now (stream.idles milliseconds)).writers[index]? =
          session.writers[index]? := by
  cases stream with
  | reader used =>
      obtain ⟨-, readers, writers⟩ := session.onReader_others used (Reader.elapse milliseconds)
      exact ⟨fun index different => readers index fun same => different (congrArg _ same),
        fun index _ => congrArg (fun writers : List Writer => writers[index]?) writers⟩
  | writer used =>
      obtain ⟨-, writers, readers⟩ := session.onWriter_others used (Writer.elapse now milliseconds)
      exact ⟨fun index _ => congrArg (fun readers : List Reader => readers[index]?) readers,
        fun index different => writers index fun same => different (congrArg _ same)⟩

/-- Time that goes by for another stream makes no stream due. -/
theorem isDue_after_idles
    (different : other ≠ stream)
    (now : Int)
    (waited milliseconds : Nat)
    (session : Session) :
    stream.isDue milliseconds (session.after now (other.idles waited)) =
      stream.isDue milliseconds session := by
  obtain ⟨readers, writers⟩ := session.others_after_idles now waited other
  cases stream with
  | reader index =>
      rw [StreamAt.isDue, StreamAt.isDue, StreamAt.vigil, StreamAt.vigil, readers index different]
  | writer index =>
      rw [StreamAt.isDue, StreamAt.isDue, StreamAt.vigil, StreamAt.vigil, writers index different]

/-- Time goes by for some streams, which are looked at one after the other. -/
def pass (now : Int) (milliseconds : Nat) (streams : List StreamAt) (session : Session) : Session :=
  streams.foldl (fun session stream => session.after now (stream.idles milliseconds)) session

/-- Some streams are closed by hand, one after the other. -/
def finishing (now : Int) (streams : List StreamAt) (session : Session) : Session :=
  streams.foldl (fun session stream => session.after now stream.finishes) session

/-- Closing streams by hand is not about watchdogs. -/
theorem Alike.finishing
    {one another : Session}
    (alike : one.Alike another)
    (now : Int)
    (streams : List StreamAt) :
    (one.finishing now streams).Alike (another.finishing now streams) := by
  induction streams generalizing one another with
  | nil =>
      exact alike
  | cons stream rest inductionHypothesis =>
      exact inductionHypothesis (alike.finished now stream)

/-- Time that goes by for many streams closes those that are due as by hand, one after the other,
and does nothing else. -/
theorem pass_alike
    (now : Int)
    (milliseconds : Nat)
    {streams : List StreamAt}
    (nodup : streams.Nodup)
    (session : Session) :
    (session.pass now milliseconds streams).Alike
      (session.finishing now (streams.filter (·.isDue milliseconds session))) := by
  induction streams generalizing session with
  | nil =>
      exact .refl session
  | cons stream rest inductionHypothesis =>
      obtain ⟨notIn, nodup⟩ := List.nodup_cons.mp nodup
      have same :
          rest.filter (·.isDue milliseconds (session.after now (stream.idles milliseconds))) =
            rest.filter (·.isDue milliseconds session) :=
        List.filter_congr fun other member =>
          isDue_after_idles (fun isOther : stream = other => notIn (isOther ▸ member)) now _ _ session
      have later :=
        inductionHypothesis nodup (session.after now (stream.idles milliseconds))
      rw [same] at later
      have here := session.after_idles now milliseconds stream
      rw [List.filter_cons]
      split
      · rename_i due
        rw [if_pos due] at here
        exact later.trans (here.finishing now _)
      · rename_i notDue
        rw [if_neg notDue] at here
        exact later.trans (here.finishing now _)

/-! ## What others notice -/

/-- What becomes of a stream is not noticed by others: they stay as they are, and so do their locks,
and the rows and parts of all other files. -/
structure Spares (stream : StreamAt) (session next : Session) : Prop where
  readers : ∀ index, stream ≠ .reader index → next.readers[index]? = session.readers[index]?
  writers : ∀ index, stream ≠ .writer index → next.writers[index]? = session.writers[index]?
  tables :
    Tables.Beside (fun id => stream.fileId? session = some id) session.store.tables
      next.store.tables
  elsewhere :
    ∀ id,
      stream.fileId? session ≠ some id →
      next.store.locks.hold? id = session.store.locks.hold? id
  held :
    ∀ other guard,
      other ≠ stream →
      other.guard? session = some guard →
      guard.generation = session.store.locks.generation →
      next.store.locks.hold? guard.id ≠ none

/-- A stream that was opened since the lock table was cleared last has its file locked. -/
theorem Accounted.locked
    (accounted : session.Accounted)
    {guard : Guard}
    (has : stream.guard? session = some guard)
    (current : guard.generation = session.store.locks.generation) :
    session.store.locks.hold? guard.id ≠ none := by
  intro free
  have tallied := accounted.tally guard.id
  rw [free, ← current] at tallied
  obtain ⟨noWriter, noReader⟩ := Prod.mk.inj tallied
  cases stream with
  | reader index =>
      obtain ⟨reader, found, held⟩ := Option.bind_eq_some_iff.mp has
      exact (holders_pos (List.mem_of_getElem? found) held).ne noReader
  | writer index =>
      obtain ⟨writer, found, held⟩ := Option.bind_eq_some_iff.mp has
      exact (holders_pos (List.mem_of_getElem? found) held).ne noWriter

/-- A use of a reader leaves the locks of other files, and all tables. -/
theorem Accounted.beside_useReader
    (accounted : session.Accounted)
    (index : Nat)
    (use : ReaderUse) :
    (session.onReader index use.run).store.tables = session.store.tables ∧
      ∀ id,
        (StreamAt.reader index).fileId? session ≠ some id →
        (session.onReader index use.run).store.locks.hold? id = session.store.locks.hold? id := by
  cases found : session.readers[index]? with
  | none =>
      rw [onReader_none found]
      exact ⟨rfl, fun _ _ => rfl⟩
  | some reader =>
      rw [onReader_eq found, StreamAt.fileId?, found]
      rcases Reader.used_run reader accounted.steady use with
        ⟨-, _, -, isLeft⟩ | ⟨guard, held, -, isLeft⟩
      · rw [isLeft]
        exact ⟨rfl, fun _ _ => rfl⟩
      · rw [isLeft]
        refine ⟨rfl, fun id different => LockTable.hold?_release_of_ne fun same => different ?_⟩
        have isFile := (accounted.reader reader (List.mem_of_getElem? found) guard held).1
        rw [Option.map_some, same, isFile]

/-- A use of a writer leaves the locks of other files, and their rows and parts. -/
theorem Accounted.beside_useWriter
    (accounted : session.Accounted)
    (tailed : session.Tailed)
    (now : Int)
    (index : Nat)
    (use : WriterUse) :
    Tables.Beside (fun id => (StreamAt.writer index).fileId? session = some id)
        session.store.tables (session.onWriter index (use.run now)).store.tables ∧
      ∀ id,
        (StreamAt.writer index).fileId? session ≠ some id →
        (session.onWriter index (use.run now)).store.locks.hold? id =
          session.store.locks.hold? id := by
  cases found : session.writers[index]? with
  | none =>
      rw [onWriter_none found]
      exact ⟨.refl _ _, fun _ _ => rfl⟩
  | some writer =>
      have member := List.mem_of_getElem? found
      rw [onWriter_eq found, StreamAt.fileId?, found]
      constructor
      · have respects :
            writer.Respects (· = writer.fileId) (· = writer.fileId) session.store.tables :=
          ⟨rfl, rfl, fun id isTail part isPart isId =>
            (tailed.tail writer member id isTail).tables.file part isPart isId⟩
        obtain ⟨beside, -⟩ :=
          Writer.tables_run (Tables.stores_beside writer.fileId session.store.tables)
            accounted.steady (.refl _ _) (fun _ => respects) now use
        exact beside.widen fun id isFile => congrArg some isFile.symm
      · intro id different
        rcases (Writer.used_run writer accounted.steady now use).locks with
          ⟨-, -, same⟩ | ⟨guard, held, -, same⟩
        · exact same.hold? id
        · have isFile := (accounted.writer writer member guard held).1
          refine (same.hold? id).trans (LockTable.hold?_release_of_ne fun isId => different ?_)
          rw [Option.map_some, isId, isFile]

/-- Time that goes by for a stream is not noticed by others. -/
theorem spares_after_idles
    (accounted : session.Accounted)
    (tailed : session.Tailed)
    (now : Int)
    (milliseconds : Nat)
    (stream : StreamAt) :
    Spares stream session (session.after now (stream.idles milliseconds)) := by
  obtain ⟨readers, writers⟩ := session.others_after_idles now milliseconds stream
  have feasible : session.Feasible (stream.idles milliseconds) := by
    cases stream <;> trivial
  have generation :
      (session.after now (stream.idles milliseconds)).store.locks.generation =
        session.store.locks.generation := by
    cases stream with
    | reader index =>
        exact (accounted.onReader index (.elapse milliseconds)).generation
    | writer index =>
        exact (accounted.onWriter now index (.elapse milliseconds)).generation
  have beside :
      Tables.Beside (fun id => stream.fileId? session = some id) session.store.tables
          (session.after now (stream.idles milliseconds)).store.tables ∧
        ∀ id,
          stream.fileId? session ≠ some id →
          (session.after now (stream.idles milliseconds)).store.locks.hold? id =
            session.store.locks.hold? id := by
    cases stream with
    | reader index =>
        obtain ⟨tables, locks⟩ := accounted.beside_useReader index (.elapse milliseconds)
        exact ⟨tables.symm ▸ .refl _ _, locks⟩
    | writer index =>
        exact accounted.beside_useWriter tailed now index (.elapse milliseconds)
  refine ⟨readers, writers, beside.1, beside.2, fun other guard different has current => ?_⟩
  have stillHas :
      other.guard? (session.after now (stream.idles milliseconds)) = some guard := by
    cases other with
    | reader index =>
        rw [← has, StreamAt.guard?, StreamAt.guard?, readers index (Ne.symm different)]
    | writer index =>
        rw [← has, StreamAt.guard?, StreamAt.guard?, writers index (Ne.symm different)]
  exact (accounted.after now feasible).locked stillHas (current.trans generation.symm)

end Session

end VersionStore
