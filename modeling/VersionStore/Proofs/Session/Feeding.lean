import VersionStore.Proofs.Session.Layout
import VersionStore.Proofs.Session.Tree
import VersionStore.Proofs.Stream.Starting

namespace VersionStore

/-!
# Files that are written in turns

A file is opened for writing, written to, closed and opened again, as often as one likes, while
anything may happen to other files. It contains what was written in all the turns, and when no
writer is open it is as if these bytes had been stored at once.
-/

open Tables

/-- A store is open, in no scope, and gives locks. -/
structure Store.Serves (store : Store) : Prop where
  outside : store.savepoints = []
  opened : store.closed = false
  staying : store.closing = false
  running : store.locks.paused = false

namespace Session

variable {session next : Session}

/-- Nobody has a file open. -/
structure Unopened (session : Session) (file : Int) : Prop where
  writer : ∀ writer ∈ session.writers, writer.fileId = file → writer.isClosed = true
  reader : ∀ reader ∈ session.readers, reader.entry.id = file → reader.isClosed = true

/-- Files that nobody has open can be locked. -/
theorem Unopened.grants
    (accounted : session.Accounted)
    (serves : session.store.Serves) :
    session.store.locks.Grants session.Unopened := by
  refine ⟨serves.running, fun id unopened => ?_⟩
  have tally := accounted.tally id
  have noWriter : holders Writer.guard session.writers ⟨id, session.store.locks.generation⟩ = 0 := by
    refine holders_eq_zero fun writer member held => ?_
    obtain ⟨isFile, -, noResult⟩ := accounted.writer writer member _ held
    have closed := unopened.writer writer member isFile.symm
    simp [Writer.isClosed, held, noResult] at closed
  have noReader : holders Reader.guard session.readers ⟨id, session.store.locks.generation⟩ = 0 := by
    refine holders_eq_zero fun reader member held => ?_
    obtain ⟨isFile, -⟩ := accounted.reader reader member _ held
    have closed := unopened.reader reader member isFile.symm
    simp [Reader.isClosed, held] at closed
  rw [noWriter, noReader] at tally
  cases held : session.store.locks.hold? id with
  | none =>
      rfl
  | some hold =>
      cases hold with
      | exclusive =>
          simp [held, VersionStore.tally] at tally
      | shared readers =>
          have none_ : readers = 0 := by
            simpa [held, VersionStore.tally] using tally
          subst none_
          exact absurd held (accounted.steady.sane id)

end Session

/-- A file that is written to in turns: the session, the place of the writer that is open, and
the bytes so far. -/
structure Feed where
  session : Session
  writer : Option Nat
  written : ByteArray

namespace Feed

open Session

/-- An event leaves a file and the writer that is open on it alone. -/
structure Aside (file : Int) (feed : Feed) (next : Session) : Prop where
  row : next.store.tables.entry? file = feed.session.store.tables.entry? file
  pieces : next.store.tables.pieces file = feed.session.store.tables.pieces file
  writer :
    ∀ index,
      feed.writer = some index →
      ∃ writer watchdog,
        feed.session.writers[index]? = some writer ∧
          next.writers[index]? = some { writer with watchdog }

/-- A turn of who writes to a file. -/
inductive Turn (file : Int) (feed : Feed) : Feed → Prop where
  | write {now : Int} {index : Nat} {data : ByteArray}
      (isOpen : feed.writer = some index)
      (outside : feed.session.store.savepoints = [])
      (opened : feed.session.store.closed = false) :
      Turn file feed
        { session := feed.session.after now (.useWriter index (.write data))
          writer := some index
          written := feed.written ++ data }
  | close {now : Int} {index : Nat}
      (isOpen : feed.writer = some index)
      (outside : feed.session.store.savepoints = [])
      (opened : feed.session.store.closed = false) :
      Turn file feed
        { session := feed.session.after now (.useWriter index .finish)
          writer := none
          written := feed.written }
  | resume {now : Int} {text : String} {path : CleanPath} {entry : Entry}
      (isClosed : feed.writer = none)
      (serves : feed.session.store.Serves)
      (unopened : feed.session.Unopened file)
      (isPath : CleanPath.ofText text = .ok path)
      (found : feed.session.store.tables.lookupAt? path = some entry)
      (isFile : entry.isDirectory = false)
      (isEntry : entry.id = file) :
      Turn file feed
        { session := feed.session.after now (.openWriter text true)
          writer := some feed.session.writers.length
          written := feed.written }

/-- A turn, or something else that goes on meanwhile. -/
inductive Goes (file : Int) (feed : Feed) : Feed → Prop where
  | turn {next : Feed}
      (turn : feed.Turn file next) :
      Goes file feed next
  | other {now : Int} {event : Event}
      (feasible : feed.session.Feasible event)
      (aside : feed.Aside file (feed.session.after now event)) :
      Goes file feed { feed with session := feed.session.after now event }

/-- The open writer and the file hold the bytes so far. -/
def Holds (file : Int) (feed : Feed) : Prop :=
  match feed.writer with
  | some index =>
      ∃ writer done,
        feed.session.writers[index]? = some writer ∧ writer.isClosed = false ∧
          writer.fileId = file ∧ (∃ entry, feed.session.store.tables.entry? file = some entry) ∧
            writer.Writes done (feed.session.store.tables.pieces file) ∧
              bytesOf done ++ writer.buffer = feed.written
  | none => feed.session.store.tables.Contains file feed.written

/-- The open writer takes bytes in and can be closed, and the file is without one as if its bytes
had been stored at once. -/
def Right (file : Int) (feed : Feed) : Prop :=
  match feed.writer with
  | some index =>
      ∃ writer,
        feed.session.writers[index]? = some writer ∧ writer.isClosed = false ∧
          writer.fileId = file ∧ writer.position = feed.written.size ∧
            (feed.session.store.savepoints = [] →
              feed.session.store.closed = false →
              ∀ now : Int,
                (∀ data,
                  ((Writer.write data).runOn writer feed.session.store).1 = .ok data.size) ∧
                  ∃ entry, ((Writer.finish now).runOn writer feed.session.store).1 = .ok entry)
  | none => feed.session.store.tables.AtOnce file feed.written

variable
  {file : Int}
  {feed next : Feed}
  {index : Nat}
  {writer : Writer}

/-! ## What a turn does to the session -/

/-- The store after a use of a writer is what the use leaves. -/
theorem store_used
    {session : Session}
    (found : session.writers[index]? = some writer)
    (now : Int)
    (use : WriterUse) :
    (session.after now (.useWriter index use)).store =
      ((use.run now).runOn writer session.store).2.2 :=
  congrArg Session.store (onWriter_eq found (use.run now))

/-- A writer that is opened comes last. -/
theorem after_openWriter
    {session : Session}
    {now : Int}
    {text : String}
    {append : Bool}
    {left : Store}
    (ran : (Writer.openPath now text append).runOn session.store = (.ok writer, left)) :
    (session.after now (.openWriter text append)).store = left ∧
      (session.after now (.openWriter text append)).writers[session.writers.length]? =
        some writer := by
  constructor
  · exact (holdWriter_store _ session).trans (congrArg Prod.snd ran)
  · refine (congrArg (·[session.writers.length]?) (holdWriter_writers _ session)).trans ?_
    rw [ran]
    exact List.getElem?_concat_length

/-- What a writer is fed with the open writer and the file hold. -/
theorem holds_of_feeds
    {session : Session}
    {start : Tables}
    {written : ByteArray}
    {store : Store}
    (found : session.writers[index]? = some writer)
    (isStore : session.store = store)
    (feeds : writer.Feeds file start written store) :
    Holds file { session, writer := some index, written } := by
  obtain ⟨done, writes, bytes⟩ := feeds.writes
  subst isStore
  exact ⟨writer, done, found, feeds.open_, feeds.isFile, feeds.row, writes, bytes⟩

/-! ## What a feed keeps -/

/-- The locks and parts of a session are in order, and a file is written to in it. -/
structure Going (file : Int) (feed : Feed) : Prop where
  accounted : feed.session.Accounted
  tailed : feed.session.Tailed
  holds : feed.Holds file

namespace Going

/-- The open writer is fed on a store that is open and in no scope. -/
theorem feeds
    (going : feed.Going file)
    (isOpen : feed.writer = some index)
    (outside : feed.session.store.savepoints = [])
    (opened : feed.session.store.closed = false) :
    ∃ writer,
      feed.session.writers[index]? = some writer ∧
        writer.Feeds file feed.session.store.tables feed.written feed.session.store := by
  have holds := going.holds
  rw [Holds, isOpen] at holds
  obtain ⟨writer, done, found, open_, isFile, row, writes, bytes⟩ := holds
  exact ⟨writer, found, ⟨going.accounted.steady, outside, opened⟩, open_, isFile,
    going.tailed.ordered.tables, row, ⟨done, writes, bytes⟩, .refl _ _⟩

/-- A turn leaves what was written in the open writer and the file, and other files alone. -/
theorem turn
    (going : feed.Going file)
    (turn : feed.Turn file next) :
    next.Going file ∧
      Beside (· = file) feed.session.store.tables next.session.store.tables := by
  have steady := going.accounted.steady
  cases turn with
  | @write now index data isOpen outside opened =>
      obtain ⟨writer, found, feeds⟩ := going.feeds isOpen outside opened
      obtain ⟨_, left, store, ran, rfl, feedsAfter⟩ :=
        Writer.write_feeds data writer feed.session.store feeds
      have used :
          ((WriterUse.write data).run now).runOn writer feed.session.store = (.ok (), left, store) := by
        rw [WriterUse.run, StreamAction.runOn_bind, ran]
        rfl
      have foundLeft := (feed.session.writers_used found now (.write data)).1
      have isStore := store_used found now (.write data)
      rw [used] at foundLeft isStore
      refine ⟨⟨going.accounted.after now trivial, going.tailed.after steady now trivial,
        holds_of_feeds foundLeft isStore feedsAfter⟩, ?_⟩
      rw [isStore]
      exact feedsAfter.beside
  | @close now index isOpen outside opened =>
      obtain ⟨writer, found, feeds⟩ := going.feeds isOpen outside opened
      obtain ⟨entry, left, store, ran, -, -, contains, beside⟩ := feeds.finished now
      have used :
          (WriterUse.finish.run now).runOn writer feed.session.store = (.ok (), left, store) := by
        rw [WriterUse.run, StreamAction.runOn_bind, ran]
        rfl
      have isStore := store_used found now .finish
      rw [used] at isStore
      refine ⟨⟨going.accounted.after now trivial, going.tailed.after steady now trivial, ?_⟩, ?_⟩
      · change Tables.Contains (feed.session.after now (.useWriter index .finish)).store.tables _ _
        rw [isStore]
        exact contains
      · rw [isStore]
        exact beside
  | @resume now text path entry isClosed serves unopened isPath found isFile isEntry =>
      subst isEntry
      have contains := going.holds
      rw [Holds, isClosed] at contains
      obtain ⟨writer, left, ran, same, feeds⟩ :=
        Writer.openPath_resumes now ⟨steady, serves.outside, serves.opened⟩ serves.staying
          (Unopened.grants going.accounted serves) isPath found isFile unopened
          going.tailed.ordered.tables contains.laid
      rw [contains.bytes] at feeds
      obtain ⟨isStore, foundLeft⟩ := after_openWriter ran
      refine ⟨⟨going.accounted.after now trivial, going.tailed.after steady now trivial,
        holds_of_feeds foundLeft isStore feeds⟩, ?_⟩
      rw [isStore, same]
      exact .refl _ _

/-- What leaves the file and the open writer alone leaves what was written. -/
theorem other
    (going : feed.Going file)
    {now : Int}
    {event : Event}
    (feasible : feed.session.Feasible event)
    (aside : feed.Aside file (feed.session.after now event)) :
    Going file { feed with session := feed.session.after now event } := by
  refine ⟨going.accounted.after now feasible,
    going.tailed.after going.accounted.steady now feasible, ?_⟩
  have holds := going.holds
  cases isOpen : feed.writer with
  | none =>
      rw [Holds, isOpen] at holds
      exact holds.congr aside.row aside.pieces
  | some index =>
      rw [Holds, isOpen] at holds
      obtain ⟨writer, done, found, open_, isFile, row, writes, bytes⟩ := holds
      obtain ⟨same, watchdog, wasFound, foundLeft⟩ := aside.writer index isOpen
      obtain rfl := Option.some.inj (found.symm.trans wasFound)
      refine ⟨_, done, foundLeft, open_, isFile, ?_, ?_, bytes⟩
      · rw [aside.row]
        exact row
      · rw [aside.pieces]
        exact writes.watched watchdog

/-- What was written stays along a run. -/
theorem run
    (going : feed.Going file)
    (goes : Relation.ReflTransGen (Goes file) feed next) :
    next.Going file := by
  induction goes with
  | refl =>
      exact going
  | tail _ step before =>
      cases step with
      | turn turn =>
          exact (before.turn turn).1
      | other feasible aside =>
          exact before.other feasible aside

/-- What holds what was written is right. -/
theorem right
    (going : feed.Going file) :
    feed.Right file := by
  have holds := going.holds
  cases isOpen : feed.writer with
  | none =>
      rw [Holds, isOpen] at holds
      rw [Right, isOpen]
      exact holds.atOnce
  | some index =>
      rw [Holds, isOpen] at holds
      rw [Right, isOpen]
      obtain ⟨writer, done, found, open_, isFile, -, writes, bytes⟩ := holds
      refine ⟨writer, found, open_, isFile, ?_, fun outside opened now => ⟨fun data => ?_, ?_⟩⟩
      · rw [Writer.position, writes.offset, ← bytes, ByteArray.size_append]
        omega
      all_goals
        obtain ⟨same, wasFound, feeds⟩ := going.feeds isOpen outside opened
        obtain rfl := Option.some.inj (found.symm.trans wasFound)
      · obtain ⟨_, left, store, ran, rfl, -⟩ :=
          Writer.write_feeds data writer feed.session.store feeds
        rw [ran]
      · obtain ⟨entry, left, store, ran, -⟩ := feeds.finished now
        exact ⟨entry, by rw [ran]⟩

end Going

/-! ## From the first opening on -/

/-- A path leads a writer to a file, and the feed begins with the bytes that it goes on behind. -/
theorem going_opened
    {session : Session}
    {strict : Prop}
    (filed : session.Filed)
    (sound : session.Sound strict)
    (serves : session.store.Serves)
    {text : String}
    {append : Bool}
    {content : ByteArray}
    {replaced : Option Int}
    (receives : session.store.tables.Receives text append file content replaced)
    (unopened : ∀ id, id = file ∨ replaced = some id → session.Unopened id)
    (now : Int) :
    Beside (fun id => id = file ∨ replaced = some id) session.store.tables
        (session.after now (.openWriter text append)).store.tables ∧
      Going file
        { session := session.after now (.openWriter text append)
          writer := some session.writers.length
          written := content } := by
  have accounted := filed.orderly.accounted
  have steady := accounted.steady
  have idle : session.store.Idle := ⟨steady, serves.outside, serves.opened⟩
  have grants := Unopened.grants accounted serves
  have numbered := filed.filed.tables.toNumbered
  have going
      {writer : Writer}
      {left : Store}
      (ran : (Writer.openPath now text append).runOn session.store = (.ok writer, left))
      (beside :
        Beside (fun id => id = file ∨ replaced = some id) session.store.tables left.tables)
      (feeds : writer.Feeds file left.tables content left) :
      Beside (fun id => id = file ∨ replaced = some id) session.store.tables
          (session.after now (.openWriter text append)).store.tables ∧
        Going file
          { session := session.after now (.openWriter text append)
            writer := some session.writers.length
            written := content } := by
    obtain ⟨isStore, found⟩ := after_openWriter ran
    refine ⟨?_, accounted.after now trivial,
      filed.orderly.tailed.after steady now trivial, holds_of_feeds found isStore feeds⟩
    rw [isStore]
    exact beside
  cases receives with
  | @resumed path entry isPath found isFile =>
      have free := unopened entry.id (.inl rfl)
      have member : entry ∈ session.store.tables.entries := List.mem_of_find?_eq_some found
      have stored := filed.filed.tables.stored entry member fun ⟨writer, isWriter, open_, same⟩ =>
        Bool.false_ne_true (open_.symm.trans (free.writer writer isWriter same))
      obtain ⟨writer, left, ran, same, feeds⟩ :=
        Writer.openPath_resumes now idle serves.staying grants isPath found isFile free
          numbered.toOrdered stored.laid
      refine going ran ?_ feeds
      rw [same]
      exact .refl _ _
  | created isPath missing isParent found isDirectory =>
      obtain ⟨writer, left, ran, beside, feeds⟩ :=
        Writer.openPath_creates now append idle serves.staying grants isPath missing
          isParent found isDirectory (unopened _ (.inl rfl)) numbered
      exact going ran (beside.widen fun _ => .inl) feeds
  | @replaced path entry isPath found isFile writable =>
      obtain ⟨writer, left, ran, beside, feeds⟩ :=
        Writer.openPath_replaces now idle serves.staying grants isPath found isFile writable
          (unopened _ (.inr rfl)) (unopened _ (.inl rfl)) numbered sound.all.tables
      refine going ran (beside.widen fun id changed => ?_) feeds
      rcases changed with isNew | isOld
      · exact .inl isNew
      · exact .inr (congrArg some isOld.symm)

end Feed

end VersionStore
