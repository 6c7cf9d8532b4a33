import VersionStore.Proofs.Stream.Places
import VersionStore.Proofs.Stream.Refusals

namespace VersionStore

/-!
# Streams that are left alone

To its watchdog a use of a stream is a pulse: the stream is used, with success or not, or time goes
by, or it is closed by hand. Once the pauses since the stream was last used add up to what the
watchdog allows, the stream is closed as it would be by hand. From then on it refuses to be used.
-/

/-! ## Pulses -/

/-- What a use of a stream is to its watchdog. -/
inductive Pulse where
  /-- The stream is used, with success or not. -/
  | beat
  /-- The stream is not used, and no time goes by. -/
  | quiet
  /-- The stream is left alone for a time. -/
  | pause (milliseconds : Nat)
  /-- The stream is closed by hand. -/
  | stop
  deriving DecidableEq, Repr

/-- A watchdog would have its stream closed after some more time. -/
def Watchdog.isDueAfter (milliseconds : Nat) (watchdog : Option Watchdog) : Bool :=
  ((watchdog.map (·.elapse milliseconds)).map isDue).getD false

namespace Pulse

variable {timeout : Nat} {pulses : List Pulse} {pulse : Pulse}

/-- For how long a stream is left alone. -/
def milliseconds : Pulse → Nat
  | pause milliseconds => milliseconds
  | _ => 0

/-- The time since the last beat, or since the first pulse when there was none. -/
def idleTime (pulses : List Pulse) : Nat :=
  ((pulses.reverse.takeWhile (· != beat)).map milliseconds).sum

/-- A beat starts the idle time anew, and nothing else does. -/
theorem idleTime_concat
    (pulses : List Pulse)
    (pulse : Pulse) :
    idleTime (pulses ++ [pulse]) =
      if pulse = beat then 0 else idleTime pulses + pulse.milliseconds := by
  rw [idleTime, List.reverse_concat, List.takeWhile_cons]
  split
  · rename_i isOther
    rw [if_neg (bne_iff_ne.mp isOther), List.map_cons, List.sum_cons, Nat.add_comm, idleTime]
  · rename_i isBeat
    rw [if_pos (by simpa using isBeat)]
    rfl

/-- A pulse closes a stream that some pulses came before: by hand, or because the stream has been
idle for as long as it may be. -/
def Closes (timeout : Nat) (before : List Pulse) (pulse : Pulse) : Prop :=
  pulse = stop ∨ ∃ milliseconds, pulse = pause milliseconds ∧ timeout ≤ idleTime before + milliseconds

/-- One of some pulses closes the stream. -/
def Ends (timeout : Nat) (pulses : List Pulse) : Prop :=
  ∃ before pulse after, pulses = before ++ pulse :: after ∧ Closes timeout before pulse

/-- The pulse that closes a stream is one of the earlier ones or the last. -/
theorem ends_concat :
    Ends timeout (pulses ++ [pulse]) ↔ Ends timeout pulses ∨ Closes timeout pulses pulse := by
  constructor
  · rintro ⟨before, closing, after, isList, closes⟩
    rcases List.eq_nil_or_concat after with rfl | ⟨between, last, rfl⟩
    · obtain ⟨rfl, isLast⟩ := List.append_inj' isList rfl
      cases isLast
      exact .inr closes
    · rw [List.concat_eq_append, ← List.cons_append, ← List.append_assoc] at isList
      obtain ⟨rfl, -⟩ := List.append_inj' isList rfl
      exact .inl ⟨before, closing, between, rfl, closes⟩
  · rintro (⟨before, closing, after, rfl, closes⟩ | closes)
    · exact ⟨before, closing, after ++ [pulse], by simp, closes⟩
    · exact ⟨pulses, pulse, [], rfl, closes⟩

/-- What a pulse makes of the watchdog of an open stream, if it leaves it open. -/
def pass (pulse : Pulse) (vigil : Option (Option Watchdog)) : Option (Option Watchdog) :=
  vigil.bind fun watchdog =>
    match pulse with
    | beat => some (watchdog.map Watchdog.touch)
    | quiet => some watchdog
    | pause milliseconds =>
        if Watchdog.isDueAfter milliseconds watchdog then none
        else some (watchdog.map (·.elapse milliseconds))
    | stop => none

/-- Where nothing is done and no time goes by nothing changes. -/
theorem quiet_pass
    (vigil : Option (Option Watchdog)) :
    quiet.pass vigil = vigil := by
  cases vigil <;> rfl

/-- One beat more makes no difference. -/
theorem beat_pass_pass
    (vigil : Option (Option Watchdog)) :
    beat.pass (beat.pass vigil) = beat.pass vigil := by
  cases vigil with
  | none =>
      rfl
  | some watchdog =>
      exact congrArg some (Watchdog.map_touch_touch watchdog)

/-- A watchdog attends to a stream: as long as the stream is open the watchdog has its idle time,
and the stream is closed when one of the pulses closed it. -/
structure Attends (timeout : Nat) (pulses : List Pulse) (vigil : Option (Option Watchdog)) :
    Prop where
  closed_iff : vigil = none ↔ Ends timeout pulses
  counted : ∀ watchdog, vigil = some watchdog → watchdog = some ⟨timeout, idleTime pulses⟩

/-- A watchdog goes on to attend to its stream. -/
theorem Attends.pass
    {vigil : Option (Option Watchdog)}
    (attends : Attends timeout pulses vigil)
    (pulse : Pulse) :
    Attends timeout (pulses ++ [pulse]) (pulse.pass vigil) := by
  cases vigil with
  | none =>
      exact ⟨iff_of_true rfl (ends_concat.mpr (.inl (attends.closed_iff.mp rfl))), nofun⟩
  | some watchdog =>
      have notEnded : ¬Ends timeout pulses := fun ended => nomatch attends.closed_iff.mpr ended
      obtain rfl := attends.counted watchdog rfl
      constructor
      case closed_iff =>
        rw [ends_concat, or_iff_right notEnded]
        cases pulse <;> simp [Pulse.pass, Closes, Watchdog.isDueAfter, Watchdog.isDue,
          Watchdog.elapse]
      case counted =>
        rw [idleTime_concat]
        cases pulse <;> simp [Pulse.pass, Watchdog.touch, Watchdog.elapse, milliseconds]

end Pulse

open StreamAction

/-- What an action gives does not matter for what it leaves. -/
theorem StreamAction.left_of_ignored
    (action : StreamAction σ α)
    (stream : σ)
    (store : Store) :
    ((do let _ ← action : StreamAction σ Unit).runOn stream store).2 =
      (action.runOn stream store).2 := by
  rw [runOn_bind]
  rcases action.runOn stream store with ⟨fault | value, left⟩ <;> rfl

/-! ## Readers -/

/-- What a use of a reader is to its watchdog. A read of no bytes at all does not come to the
reader. -/
def ReaderUse.pulse : ReaderUse → Pulse
  | read _ | readAt _ _ | readAll | toSource | seek _ => .beat
  | readExact count => if count = 0 then .quiet else .beat
  | finish => .stop
  | elapse milliseconds => .pause milliseconds

namespace Reader

variable {reader : Reader} {store : Store}

/-- A reader that was used just now. -/
def touched (reader : Reader) : Reader :=
  { reader with watchdog := reader.watchdog.map Watchdog.touch }

/-- A reader that was left alone for a time. -/
def idled (milliseconds : Nat) (reader : Reader) : Reader :=
  { reader with watchdog := reader.watchdog.map (·.elapse milliseconds) }

/-- A reader without a watchdog. -/
def unwatched (reader : Reader) : Reader :=
  { reader with watchdog := none }

/-- The watchdog of a reader, as long as there is something to watch. -/
def vigil (reader : Reader) : Option (Option Watchdog) :=
  if reader.isClosed then none else some reader.watchdog

/-- A closed reader has no vigil. -/
theorem vigil_of_closed
    (closed : reader.isClosed = true) :
    reader.vigil = none :=
  if_pos closed

/-- An open reader has the vigil of its watchdog, if it has one. -/
theorem vigil_of_open
    (open_ : reader.isClosed = false) :
    reader.vigil = some reader.watchdog :=
  if_neg (Bool.eq_false_iff.mp open_)

/-- What follows a touch is done to a reader that was touched. -/
theorem runOn_touch
    (next : Unit → StreamAction Reader α)
    (reader : Reader)
    (store : Store) :
    (touch >>= next).runOn reader store = (next ⟨⟩).runOn reader.touched store :=
  rfl

/-- What begins with a touch does the same to a reader that was touched already. -/
theorem runOn_touched
    (next : Unit → StreamAction Reader α)
    (reader : Reader)
    (store : Store) :
    (touch >>= next).runOn reader.touched store = (touch >>= next).runOn reader store := by
  have again : reader.touched.touched = reader.touched :=
    congrArg (fun watchdog => { reader with watchdog }) (Watchdog.map_touch_touch _)
  rw [runOn_touch, runOn_touch, again]

/-- What begins with something that does the same to a reader that was touched already does so
itself. -/
theorem runOn_touched_bind
    {action : StreamAction Reader α}
    (same : action.runOn reader.touched store = action.runOn reader store)
    (next : α → StreamAction Reader β) :
    (action >>= next).runOn reader.touched store = (action >>= next).runOn reader store := by
  rw [runOn_bind, runOn_bind, same]

/-- A read does the same to a reader that was touched already. -/
theorem runOn_touched_read
    (room : Nat)
    (reader : Reader)
    (store : Store) :
    (read room).runOn reader.touched store = (read room).runOn reader store :=
  runOn_touched _ reader store

/-- Reading ever more does the same to a reader that was touched already. -/
theorem runOn_touched_readAll
    (reader : Reader)
    (store : Store) :
    readAll.runOn reader.touched store = readAll.runOn reader store := by
  have first :
      (StreamAction.attempt
          (readDoubling ((reader.length - reader.position).toNat + 2) firstRead .empty)).runOn
            reader.touched store =
        (StreamAction.attempt
          (readDoubling ((reader.length - reader.position).toNat + 2) firstRead .empty)).runOn
            reader store := by
    rw [runOn_attempt, runOn_attempt, readDoubling,
      runOn_touched_bind (runOn_touched_read firstRead reader store)]
  rw [readAll, runOn_bind, runOn_bind, runOn_current, runOn_current]
  exact runOn_touched_bind first _

/-- Delivering what is left of a file does the same to a reader that was touched already. -/
theorem runOn_touched_toSource
    (reader : Reader)
    (store : Store) :
    toSource.runOn reader.touched store = toSource.runOn reader store := by
  have first :
      (StreamAction.attempt (read partSize)).runOn reader.touched store =
        (StreamAction.attempt (read partSize)).runOn reader store := by
    rw [runOn_attempt, runOn_attempt, runOn_touched_read]
  exact runOn_touched_bind
    (runOn_touched_bind first _ :
      (deliver ((reader.length - reader.position).toNat + 2)).runOn reader.touched store = _) _

/-- Reading some bytes exactly does the same to a reader that was touched already. -/
theorem runOn_touched_readExact
    {count : Nat}
    (some_ : count ≠ 0)
    (reader : Reader)
    (store : Store) :
    (readExact count).runOn reader.touched store = (readExact count).runOn reader store := by
  have first :
      (readUntil (count + 1) count .empty).runOn reader.touched store =
        (readUntil (count + 1) count .empty).runOn reader store := by
    rw [readUntil, if_neg some_]
    exact runOn_touched_bind (runOn_touched_read count reader store) _
  exact runOn_touched_bind first _

/-- An action that does the same to a reader that was touched already is a beat, if it keeps the
lock. -/
theorem vigil_of_looks
    {action : StreamAction Reader α}
    (looks : Looks action)
    (steady : store.Steady)
    (same : action.runOn reader.touched store = action.runOn reader store) :
    (action.runOn reader store).2.1.vigil = Pulse.beat.pass reader.vigil := by
  have stays := looks reader.touched store steady reader.touched store (.refl _ _)
  rw [same] at stays
  have guard : (action.runOn reader store).2.1.guard = reader.guard :=
    congrArg Prod.fst stays.fixed
  have watchdog : (action.runOn reader store).2.1.watchdog = reader.touched.watchdog := by
    rcases stays.watched with isTouched | isTouched
    · exact isTouched
    · exact isTouched.trans (Watchdog.map_touch_touch _)
  rw [vigil, vigil, isClosed, isClosed, guard, watchdog]
  split <;> rfl

/-- A close leaves a reader without a vigil. -/
theorem vigil_close
    (reader : Reader)
    (store : Store) :
    (close.runOn reader store).2.1.vigil = none := by
  rw [close, runOn_bind, runOn_current]
  dsimp only
  cases held : reader.guard with
  | some guard =>
      rfl
  | none =>
      exact if_pos (congrArg Option.isNone held)

/-- Time that goes by closes a reader or leaves it as it is. -/
theorem runOn_elapse
    (milliseconds : Nat)
    (reader : Reader)
    (store : Store) :
    (elapse milliseconds).runOn reader store =
      if Watchdog.isDueAfter milliseconds reader.watchdog then
        close.runOn (reader.idled milliseconds) store
      else (.ok ⟨⟩, reader.idled milliseconds, store) := by
  rw [elapse, runOn_bind, runOn_change]
  dsimp only
  rw [runOn_bind, runOn_current]
  change
    (if Watchdog.isDueAfter milliseconds reader.watchdog = true then close else pure ⟨⟩ :
      StreamAction Reader Unit).runOn (reader.idled milliseconds) store = _
  split <;> rfl

/-- Every use of a reader is to its watchdog the pulse that it counts as. -/
theorem vigil_run
    (reader : Reader)
    (steady : store.Steady)
    (use : ReaderUse) :
    (use.run.runOn reader store).2.1.vigil = use.pulse.pass reader.vigil := by
  cases use with
  | read room =>
      exact vigil_of_looks (.bind (looks_read room) fun _ => .pure _) steady
        (runOn_touched_bind (runOn_touched_read room reader store) _)
  | readAt position room =>
      exact vigil_of_looks (.bind (looks_readAt position room) fun _ => .pure _) steady
        (runOn_touched_bind (runOn_touched _ reader store) _)
  | seek target =>
      exact vigil_of_looks (.bind (looks_seek target) fun _ => .pure _) steady
        (runOn_touched_bind (runOn_touched _ reader store) _)
  | readAll =>
      exact vigil_of_looks (.bind looks_readAll fun _ => .pure _) steady
        (runOn_touched_bind (runOn_touched_readAll reader store) _)
  | toSource =>
      exact vigil_of_looks
        (.bind (.bind .current fun _ => .bind (looks_deliver _) fun _ => .pure _) fun _ => .pure _)
        steady (runOn_touched_bind (runOn_touched_toSource reader store) _)
  | readExact count =>
      rw [ReaderUse.pulse]
      split
      · rename_i none_
        subst none_
        exact (Pulse.quiet_pass _).symm
      · rename_i some_
        exact vigil_of_looks (.bind (looks_readExact count) fun _ => .pure _) steady
          (runOn_touched_bind (runOn_touched_readExact some_ reader store) _)
  | finish =>
      exact (vigil_close _ store).trans (by cases reader.vigil <;> rfl)
  | elapse milliseconds =>
      rw [ReaderUse.run, runOn_elapse]
      cases closed : reader.isClosed with
      | true =>
          rw [vigil_of_closed closed]
          split
          · exact vigil_close _ store
          · exact @vigil_of_closed (reader.idled milliseconds) closed
      | false =>
          rw [vigil_of_open closed]
          split
          · rename_i due
            exact (vigil_close _ store).trans (if_pos due).symm
          · rename_i notDue
            exact (@vigil_of_open (reader.idled milliseconds) closed).trans (if_neg notDue).symm

/-! ### Closing -/

/-- A close is not about the watchdog. -/
theorem close_unwatched
    (reader : Reader)
    (store : Store) :
    (close.runOn reader store).2.1.unwatched = (close.runOn reader.unwatched store).2.1 ∧
      (close.runOn reader store).2.2 = (close.runOn reader.unwatched store).2.2 := by
  have sameGuard : reader.unwatched.guard = reader.guard := rfl
  rw [close, runOn_bind, runOn_bind, runOn_current, runOn_current]
  dsimp only
  rw [sameGuard]
  cases reader.guard <;> exact ⟨rfl, rfl⟩

/-- Before its time, or once it is closed, a reader is left as it is. -/
theorem elapse_early
    {milliseconds : Nat}
    (early : reader.isClosed = true ∨ Watchdog.isDueAfter milliseconds reader.watchdog = false)
    (store : Store) :
    (elapse milliseconds).runOn reader store = (.ok ⟨⟩, reader.idled milliseconds, store) := by
  rw [runOn_elapse]
  split
  · rename_i due
    rcases early with closed | notDue
    · have gone : (reader.idled milliseconds).guard = none := Option.isNone_iff_eq_none.mp closed
      rw [close, runOn_bind, runOn_current]
      dsimp only
      rw [gone]
      rfl
    · exact absurd due (Bool.eq_false_iff.mp notDue)
  · rfl

/-- When its time has come a reader is closed as it would be by hand. -/
theorem elapse_due
    {milliseconds : Nat}
    (due : Watchdog.isDueAfter milliseconds reader.watchdog = true)
    (store : Store) :
    ((elapse milliseconds).runOn reader store).2.1.unwatched =
        (finish.runOn reader store).2.1.unwatched ∧
      ((elapse milliseconds).runOn reader store).2.2 = (finish.runOn reader store).2.2 := by
  rw [runOn_elapse, if_pos due]
  obtain ⟨same, sameStore⟩ := close_unwatched (reader.idled milliseconds) store
  obtain ⟨again, -⟩ := close_unwatched reader.unwatched store
  exact ⟨same.trans again.symm, sameStore⟩

/-- An open reader that is closed lets its lock go, and that is all. -/
theorem finish_of_held
    {guard : Guard}
    (held : reader.guard = some guard)
    (store : Store) :
    (finish.runOn reader store).2.2 = { store with locks := store.locks.release guard } := by
  rw [finish, runOn_bind, runOn_change]
  dsimp only
  rw [close, runOn_bind, runOn_current]
  dsimp only
  rw [held]
  rfl

/-! ### Closed readers -/

/-- What a closed reader does when it is used: it fails, and nothing changes but that its watchdog
notes the use. A read at a place behind the end does not notice that the reader is closed. -/
structure Refuses (reader : Reader) (store : Store) : Prop where
  read : ∀ room, (read room).runOn reader store = (.error .closed, reader.touched, store)
  seek : ∀ target, (seek target).runOn reader store = (.error .closed, reader.touched, store)
  readAt :
    ∀ position room,
      (readAt position room).runOn reader store =
        (.error (if signed position > reader.length then .endOfStream else .closed),
          reader.touched, store)
  readExact :
    ∀ count,
      count ≠ 0 →
      (readExact count).runOn reader store = (.error .closed, reader.touched, store)
  readAll : readAll.runOn reader store = (.error (.io Fault.closed.toIo), reader.touched, store)
  toSource :
    toSource.runOn reader store =
      (.ok { deliveries := [], failure := some Fault.closed.toIo }, reader.touched, store)

/-- A closed reader refuses to be used. -/
theorem refuses_of_closed
    (closed : reader.isClosed = true)
    (store : Store) :
    reader.Refuses store := by
  have stillClosed : reader.touched.isClosed = true := closed
  have read (room : Nat) :
      (Reader.read room).runOn reader store = (.error .closed, reader.touched, store) := by
    rw [Reader.read, runOn_touch, runOn_bind, runOn_current]
    dsimp only
    rw [runOn_bind, readFrom_closed stillClosed]
  constructor
  case read =>
    exact read
  case seek =>
    intro target
    rw [Reader.seek, runOn_touch, runOn_bind, runOn_current]
    dsimp only
    rw [if_pos stillClosed]
    rfl
  case readAt =>
    intro position room
    rw [Reader.readAt, runOn_touch, runOn_bind, runOn_current]
    dsimp only
    have sameLength : reader.touched.length = reader.length := rfl
    rw [sameLength]
    split
    · rfl
    · exact readFrom_closed stillClosed _ _
  case readExact =>
    intro count some_
    rw [Reader.readExact, runOn_bind, readUntil, if_neg some_, runOn_bind, read]
  case readAll =>
    rw [Reader.readAll, runOn_bind, runOn_current]
    dsimp only
    rw [runOn_bind, runOn_attempt, readDoubling, runOn_bind, read]
    rfl
  case toSource =>
    rw [Reader.toSource, runOn_bind, runOn_current]
    dsimp only
    rw [runOn_bind, deliver, runOn_bind, runOn_attempt, read]
    rfl

end Reader

/-! ## Writers -/

/-- What a use of a writer is to its watchdog. A source that delivers no bytes does not come to the
writer. -/
def WriterUse.pulse : WriterUse → Pulse
  | write _ => .beat
  | writeFrom source => if source.bytes.isEmpty then .quiet else .beat
  | finish | dispose => .stop
  | elapse milliseconds => .pause milliseconds

namespace Writer

variable {writer : Writer} {store : Store} {now : Int}

/-- A writer that was left alone for a time. -/
def idled (milliseconds : Nat) (writer : Writer) : Writer :=
  { writer with watchdog := writer.watchdog.map (·.elapse milliseconds) }

/-- A writer without a watchdog. -/
def unwatched (writer : Writer) : Writer :=
  { writer with watchdog := none }

/-- The watchdog of a writer, as long as there is something to watch. -/
def vigil (writer : Writer) : Option (Option Watchdog) :=
  if writer.isClosed then none else some writer.watchdog

/-- A closed writer has no vigil. -/
theorem vigil_of_closed
    (closed : writer.isClosed = true) :
    writer.vigil = none :=
  if_pos closed

/-- An open writer has the vigil of its watchdog, if it has one. -/
theorem vigil_of_open
    (open_ : writer.isClosed = false) :
    writer.vigil = some writer.watchdog :=
  if_neg (Bool.eq_false_iff.mp open_)

/-- A touch is a beat. -/
theorem vigil_touched
    (writer : Writer) :
    writer.touched.vigil = Pulse.beat.pass writer.vigil := by
  cases closed : writer.isClosed with
  | true =>
      rw [vigil_of_closed closed]
      exact @vigil_of_closed writer.touched closed
  | false =>
      rw [vigil_of_open closed]
      exact @vigil_of_open writer.touched closed

/-- Taking bytes in keeps what giving the buffer up and filling it keep. -/
theorem keeps_pour_of
    {holds : Writer → Prop}
    (untailed : ∀ writer : Writer, holds writer → holds writer.untailed)
    (emptied : ∀ writer : Writer, holds writer → holds writer.emptied)
    (buffered : ∀ (writer : Writer) data, holds writer → holds (writer.buffered data))
    (data : ByteArray) :
    Keeps (fun writer _ => holds writer) (pour data) := by
  have flush := keeps_flushFull_of untailed emptied
  induction size : data.size using Nat.strongRecOn generalizing data with
  | _ count inductionHypothesis =>
      rw [pour]
      split
      · exact .pure _
      rename_i notEmpty
      have more : 0 < data.size := by
        simpa [ByteArray.isEmpty, Nat.pos_iff_ne_zero] using notEmpty
      refine .bind flush fun _ => .bind (fun _ _ => id) fun seen => ?_
      dsimp only
      split
      · exact .bind (.change fun writer _ => buffered writer _) fun _ => flush
      split
      · refine .bind (.change fun writer _ => buffered writer _) fun _ => .bind flush fun _ =>
          inductionHypothesis _ ?_ _ rfl
        rw [ByteArray.size_extract]
        omega
      · exact .pure _

/-- A closed writer refuses to write. -/
theorem write_closed
    (closed : writer.isClosed = true)
    (data : ByteArray)
    (store : Store) :
    (write data).runOn writer store = (.error .closed, writer.touched, store) := by
  have stillClosed : writer.touched.isClosed = true := closed
  have touch (next : Unit → StreamAction Writer Nat) :
      (Writer.touch >>= next).runOn writer store = (next ⟨⟩).runOn writer.touched store :=
    rfl
  rw [write, touch, runOn_bind, runOn_current]
  dsimp only
  rw [if_pos stillClosed]
  rfl

/-- A write is a beat, with success or not. -/
theorem vigil_write
    (data : ByteArray)
    (writer : Writer)
    (store : Store) :
    ((write data).runOn writer store).2.1.vigil = Pulse.beat.pass writer.vigil := by
  cases closed : writer.isClosed with
  | true =>
      rw [write_closed closed]
      exact vigil_touched writer
  | false =>
      have poured :=
        @keeps_pour_of (·.vigil = writer.touched.vigil) (fun _ => id) (fun _ => id) (fun _ _ => id)
          data writer.touched store rfl
      rw [runOn_write closed]
      rw [vigil_touched] at poured
      rcases ran : (pour data).runOn writer.touched store with ⟨fault | ⟨⟩, left⟩
      · rw [ran] at poured
        exact poured
      · rw [ran] at poured
        dsimp only at poured ⊢
        rw [vigil_touched, poured, Pulse.beat_pass_pass]

/-- Writing what deliveries bring is a beat, if they bring something. -/
theorem vigil_writeEach
    (deliveries : List Delivery)
    (writer : Writer)
    (store : Store) :
    ((writeEach deliveries).runOn writer store).2.1.vigil =
      if (Source.bytesOf deliveries).isEmpty then writer.vigil
      else Pulse.beat.pass writer.vigil := by
  induction deliveries generalizing writer store with
  | nil =>
      rfl
  | cons delivery rest inductionHypothesis =>
      cases delivery with
      | interrupted =>
          exact inductionHypothesis writer store
      | bytes data =>
          rw [writeEach, Source.bytesOf]
          split
          · rfl
          rename_i notEmpty
          have some_ : ¬(data ++ Source.bytesOf rest).isEmpty = true := by
            simp only [ByteArray.isEmpty, ByteArray.size_append, beq_iff_eq] at notEmpty ⊢
            omega
          have first := vigil_write data writer store
          rw [if_neg some_, runOn_bind]
          rcases ran : (write data).runOn writer store with ⟨fault | count, left⟩
          · rw [ran] at first
            exact first
          · rw [ran] at first
            dsimp only at first ⊢
            rw [inductionHypothesis, first, Pulse.beat_pass_pass, ite_self]

/-- A writer that is closed completes its file and lets its lock go. -/
theorem runOn_close_of_held
    {guard : Guard}
    (noResult : writer.result = none)
    (held : writer.guard = some guard)
    (now : Int)
    (store : Store) :
    (close now).runOn writer store =
      (((Action.streaming (complete now writer)).runOn store).1,
        { writer with
          guard := none
          result := ((Action.streaming (complete now writer)).runOn store).1.toOption },
        { ((Action.streaming (complete now writer)).runOn store).2 with
          locks := ((Action.streaming (complete now writer)).runOn store).2.locks.release guard }) := by
  rw [close, runOn_bind, runOn_current]
  dsimp only
  rw [noResult, held]
  dsimp only
  rw [runOn_bind, runOn_attempt, runOn_onStore]
  dsimp only
  rw [runOn_bind, runOn_onStore, Action.runOn_release]
  dsimp only
  rw [runOn_bind, runOn_change]
  dsimp only
  rw [runOn_ofExcept]

/-- A writer that is closed already is not changed by another close. -/
theorem runOn_close_of_closed
    (closed : writer.isClosed = true)
    (now : Int)
    (store : Store) :
    ((close now).runOn writer store).2 = (writer, store) := by
  rw [close, runOn_bind, runOn_current]
  dsimp only
  cases result : writer.result with
  | some entry =>
      rfl
  | none =>
      have gone : writer.guard = none := by
        simpa [isClosed, result] using closed
      rw [gone]
      rfl

/-- An open writer has a lock and no result. -/
theorem held_of_open
    (open_ : writer.isClosed = false) :
    writer.result = none ∧ ∃ guard, writer.guard = some guard :=
  ⟨by simpa using (Bool.or_eq_false_iff.mp open_).1, guard_of_open open_⟩

/-- A close leaves a writer without a vigil. -/
theorem vigil_close
    (now : Int)
    (writer : Writer)
    (store : Store) :
    ((close now).runOn writer store).2.1.vigil = none := by
  cases closed : writer.isClosed with
  | true =>
      rw [runOn_close_of_closed closed]
      exact vigil_of_closed closed
  | false =>
      obtain ⟨noResult, guard, held⟩ := held_of_open closed
      rw [runOn_close_of_held noResult held]
      exact vigil_of_closed (Bool.or_true _)

/-- Time that goes by closes an open writer or leaves it as it is. -/
theorem runOn_elapse
    (now : Int)
    (milliseconds : Nat)
    (writer : Writer)
    (store : Store) :
    (elapse now milliseconds).runOn writer store =
      if !writer.isClosed && Watchdog.isDueAfter milliseconds writer.watchdog then
        (.ok ⟨⟩, ((close now).runOn (writer.idled milliseconds) store).2)
      else (.ok ⟨⟩, writer.idled milliseconds, store) := by
  rw [elapse, runOn_bind, runOn_change]
  dsimp only
  rw [runOn_bind, runOn_current]
  change
    (if (!writer.isClosed && Watchdog.isDueAfter milliseconds writer.watchdog) = true then
      (do let _ ← StreamAction.attempt (close now)) else pure ⟨⟩ :
        StreamAction Writer Unit).runOn (writer.idled milliseconds) store = _
  split <;> rfl

/-- Every use of a writer is to its watchdog the pulse that it counts as. -/
theorem vigil_run
    (now : Int)
    (writer : Writer)
    (store : Store)
    (use : WriterUse) :
    ((use.run now).runOn writer store).2.1.vigil = use.pulse.pass writer.vigil := by
  have stopped : Pulse.stop.pass writer.vigil = none := by
    cases writer.vigil <;> rfl
  cases use with
  | write data =>
      rw [WriterUse.run, left_of_ignored]
      exact vigil_write data writer store
  | writeFrom source =>
      have written := vigil_writeEach source.deliveries writer store
      have same :
          ((writeFrom source).runOn writer store).2.1 =
            ((writeEach source.deliveries).runOn writer store).2.1 := by
        rw [writeFrom, runOn_bind]
        rcases (writeEach source.deliveries).runOn writer store with ⟨fault | ⟨⟩, left⟩
        · rfl
        · cases source.failure? <;> rfl
      rw [WriterUse.run, same, written, WriterUse.pulse, Source.bytes]
      split
      · exact (Pulse.quiet_pass _).symm
      · rfl
  | finish =>
      rw [WriterUse.run, left_of_ignored]
      exact (vigil_close now writer.unwatched store).trans stopped.symm
  | dispose =>
      refine Eq.trans ?_ stopped.symm
      rw [WriterUse.run, dispose, runOn_bind, runOn_current]
      dsimp only
      split
      · rw [left_of_ignored]
        exact vigil_close now writer.unwatched store
      · rename_i notOpen
        have closed : writer.isClosed = true := by
          simpa using notOpen
        exact vigil_of_closed closed
  | elapse milliseconds =>
      rw [WriterUse.run, runOn_elapse]
      cases closed : writer.isClosed with
      | true =>
          rw [vigil_of_closed closed]
          exact @vigil_of_closed (writer.idled milliseconds) closed
      | false =>
          rw [vigil_of_open closed]
          cases due : Watchdog.isDueAfter milliseconds writer.watchdog with
          | true =>
              exact (vigil_close now _ store).trans (if_pos due).symm
          | false =>
              exact (@vigil_of_open (writer.idled milliseconds) closed).trans
                (if_neg (Bool.eq_false_iff.mp due)).symm

/-! ### Closing -/

/-- A close is not about the watchdog. -/
theorem close_unwatched
    (now : Int)
    (writer : Writer)
    (store : Store) :
    ((close now).runOn writer store).2.1.unwatched = ((close now).runOn writer.unwatched store).2.1 ∧
      ((close now).runOn writer store).2.2 = ((close now).runOn writer.unwatched store).2.2 := by
  cases closed : writer.isClosed with
  | true =>
      have stillClosed : writer.unwatched.isClosed = true := closed
      rw [runOn_close_of_closed closed, runOn_close_of_closed stillClosed]
      exact ⟨rfl, rfl⟩
  | false =>
      obtain ⟨noResult, guard, held⟩ := held_of_open closed
      rw [runOn_close_of_held noResult held,
        @runOn_close_of_held writer.unwatched guard noResult held now store]
      exact ⟨rfl, rfl⟩

/-- Before its time, or once it is closed, a writer is left as it is. -/
theorem elapse_early
    {milliseconds : Nat}
    (early : writer.isClosed = true ∨ Watchdog.isDueAfter milliseconds writer.watchdog = false)
    (now : Int)
    (store : Store) :
    (elapse now milliseconds).runOn writer store = (.ok ⟨⟩, writer.idled milliseconds, store) := by
  rw [runOn_elapse, if_neg]
  rcases early with closed | notDue
  · simp [closed]
  · simp [notDue]

/-- When its time has come a writer is closed as it would be by hand. -/
theorem elapse_due
    {milliseconds : Nat}
    (open_ : writer.isClosed = false)
    (due : Watchdog.isDueAfter milliseconds writer.watchdog = true)
    (now : Int)
    (store : Store) :
    ((elapse now milliseconds).runOn writer store).2.1.unwatched =
        ((finish now).runOn writer store).2.1.unwatched ∧
      ((elapse now milliseconds).runOn writer store).2.2 =
        ((finish now).runOn writer store).2.2 := by
  rw [runOn_elapse, if_pos (by simp [open_, due])]
  obtain ⟨same, sameStore⟩ := close_unwatched now (writer.idled milliseconds) store
  obtain ⟨again, -⟩ := close_unwatched now writer.unwatched store
  exact ⟨same.trans again.symm, sameStore⟩

/-! ### Closed writers -/

/-- What a closed writer does when it is used: it fails, and nothing changes but that its watchdog
notes the use. -/
structure Refuses (writer : Writer) (store : Store) : Prop where
  write : ∀ data, (write data).runOn writer store = (.error .closed, writer.touched, store)
  writeFrom :
    ∀ source : Source,
      source.bytes.isEmpty = false →
      (writeFrom source).runOn writer store = (.error .closed, writer.touched, store)

/-- A closed writer refuses what deliveries bring, if they bring something. -/
theorem writeEach_closed
    (closed : writer.isClosed = true)
    {deliveries : List Delivery}
    (some_ : (Source.bytesOf deliveries).isEmpty = false)
    (store : Store) :
    (writeEach deliveries).runOn writer store = (.error .closed, writer.touched, store) := by
  induction deliveries with
  | nil =>
      cases some_
  | cons delivery rest inductionHypothesis =>
      cases delivery with
      | interrupted =>
          exact inductionHypothesis some_
      | bytes data =>
          rw [Source.bytesOf] at some_
          rw [writeEach]
          split
          · rename_i empty
            rw [if_pos empty] at some_
            cases some_
          · rw [runOn_bind, write_closed closed]

/-- A closed writer refuses to be used. -/
theorem refuses_of_closed
    (closed : writer.isClosed = true)
    (store : Store) :
    writer.Refuses store where
  write data := write_closed closed data store
  writeFrom source some_ := by
    rw [Writer.writeFrom, runOn_bind, writeEach_closed closed some_]

end Writer

end VersionStore
