import VersionStore.Proofs.Session.Idling
import VersionStore.Proofs.Session.Lent

namespace VersionStore

/-!
# Isolated readers

While a reader is open no one is given the lock that a change of its file takes. Only what removes
contents by their rows takes no lock: a row that is pruned, a listing whose versions are pruned, and
a sweep. As long as none of these is about the file, it keeps its contents whatever else happens, and
the reader goes on answering as a cursor over the bytes that were there when it was opened.
-/

open Tables VersionStore.Action

namespace Session

variable
  {session before : Session}
  {base : Tables}
  {now : Int}
  {event : Event}
  {id : Int}
  {index : Nat}
  {reader : Reader}

/-- An event clears no lock that is held, and does not ask for the contents of a file to be removed
by its row. -/
def Harmless (id : Int) (session : Session) (_ : Int) (event : Event) : Prop :=
  (event = .close → session.store.isDrained = true) ∧
    session.Respects (fun _ => True) (· ≠ id) event

/-! ## Open readers -/

/-- A reader is open on a file, with a lock that the table knows, over the parts that the file had
in some tables. The file has them in all tables, and no open writer is on it. -/
structure Reads (base : Tables) (id : Int) (index : Nat) (session : Session) : Prop where
  accounted : session.Accounted
  tailed : session.Tailed
  secure : session.Secure (fun _ => True) (· ≠ id) (Holding id (base.pieces id))
  reader :
    ∃ reader guard,
      session.readers[index]? = some reader ∧
        reader.entry.id = id ∧
          reader.guard = some guard ∧
            guard.generation = session.store.locks.generation ∧
              reader.Over id (base.partsOf id) session.store

/-- Parts that stay in the tables of a session are there for its readers. -/
theorem bears_of_holding
    (accounted : session.Accounted)
    (tailed : session.Tailed)
    (holding : session.store.tables.Holding id (base.pieces id)) :
    session.store.Bears id (base.partsOf id) where
  toSteady := accounted.steady
  parts := congrArg (List.mergeSort · offsetLe) holding.pieces
  keyed := tailed.ordered.tables.parts.imp Int.ne_of_lt

/-- A reader that is still open had its lock, and knows of its file what it knew. -/
theorem fixed_of_open
    (steady : session.store.Steady)
    (isIn : (StreamAt.reader index).IsIn session)
    {left : Reader}
    (found : (session.after now event).readers[index]? = some left)
    (open_ : left.isClosed = false) :
    ∃ old, session.readers[index]? = some old ∧ left.fixed = old.fixed := by
  obtain ⟨old, isOld⟩ : ∃ old, session.readers[index]? = some old :=
    ⟨_, List.getElem?_eq_getElem isIn⟩
  refine ⟨old, isOld, ?_⟩
  by_cases used : ∃ use, event = .useReader index use
  · obtain ⟨use, rfl⟩ := used
    change (session.onReader index use.run).readers[index]? = some left at found
    rw [onReader_eq isOld, List.getElem?_set_self isIn] at found
    obtain rfl := Option.some.inj found
    rcases Reader.used_run old steady use with ⟨fixed, -⟩ | ⟨_, -, fixed, -⟩
    · exact fixed
    · have noGuard := congrArg Prod.fst fixed
      rw [Reader.isClosed, show (use.run.runOn old session.store).2.1.guard = none from noGuard]
        at open_
      cases open_
  · rw [readers_after isOld now fun use isUse => used ⟨use, isUse⟩] at found
    rw [Option.some.inj found]

namespace Reads

/-- The file of an open reader is locked. -/
theorem locked
    (reads : session.Reads base id index) :
    session.store.locks.hold? id ≠ none := by
  obtain ⟨reader, guard, found, rfl, held, current, -⟩ := reads.reader
  exact reads.accounted.held_of_current (List.mem_of_getElem? found) held current

/-- The file of an open reader keeps its parts. -/
theorem secure_after
    (reads : session.Reads base id index)
    (feasible : session.Feasible event)
    (harmless : session.Harmless id now event) :
    (session.after now event).Secure (fun _ => True) (· ≠ id) (Holding id (base.pieces id)) := by
  have fits : session.store.Fits (session.store.setting (fun _ => False) (· = id)) :=
    ⟨rfl, fun _ absurd => absurd.elim, fun other same => same ▸ reads.locked⟩
  exact reads.secure.after reads.tailed (endures_holding id _) (fun other _ free same => free same)
    reads.accounted.steady fits now feasible harmless.2

/-- As long as a reader is open no lock is cleared. -/
theorem generation_after
    (reads : session.Reads base id index)
    (feasible : session.Feasible event)
    (harmless : session.Harmless id now event) :
    (session.after now event).store.locks.generation = session.store.locks.generation := by
  have notClose : event ≠ .close := by
    intro isClose
    have idle : session.store.locks.holds = [] := by
      simpa [Store.isDrained, LockTable.isIdle] using
        (Bool.and_eq_true_iff.mp (harmless.1 isClose)).2
    exact reads.locked (by simp [LockTable.hold?, idle])
  have notReopen config timed : event ≠ .reopen config timed := by
    rintro rfl
    obtain ⟨reader, guard, found, -, held, -⟩ := reads.reader
    have closed := feasible.2.2 reader (List.mem_of_getElem? found)
    rw [Reader.isClosed, held] at closed
    cases closed
  exact (reads.accounted.perform now feasible notClose notReopen).generation

/-- An open reader reads on, unless it is closed. -/
theorem after
    (reads : session.Reads base id index)
    (contiguous : Contiguous 0 (base.partsOf id))
    (feasible : session.Feasible event)
    (harmless : session.Harmless id now event)
    {left : Reader}
    (found : (session.after now event).readers[index]? = some left)
    (open_ : left.isClosed = false) :
    (session.after now event).Reads base id index := by
  have accounted := reads.accounted.after now feasible
  have tailed := reads.tailed.after reads.accounted.steady now feasible
  have secure := reads.secure_after feasible harmless
  have generation := reads.generation_after feasible harmless
  obtain ⟨reader, guard, isReader, isFile, held, current, isOver⟩ := reads.reader
  obtain ⟨old, isOld, stays⟩ :=
    fixed_of_open reads.accounted.steady (List.getElem?_eq_some_iff.mp isReader).1 found open_
  obtain rfl : reader = old := Option.some.inj (isReader.symm.trans isOld)
  refine ⟨accounted, tailed, secure, left, guard, found,
    (congrArg (fun fixed => fixed.2.1.id) stays).trans isFile, (congrArg Prod.fst stays).trans held,
    current.trans generation.symm, ?_⟩
  by_cases used : ∃ use, event = .useReader index use
  · obtain ⟨use, rfl⟩ := used
    change (session.onReader index use.run).readers[index]? = some left at found
    change left.Over id (base.partsOf id) (session.onReader index use.run).store
    rw [onReader_eq isReader] at found ⊢
    rw [List.getElem?_set_self (List.getElem?_eq_some_iff.mp isReader).1] at found
    obtain rfl := Option.some.inj found
    exact Reader.keeps_run contiguous use reader session.store isOver
  · rw [readers_after isReader now fun use isUse => used ⟨use, isUse⟩] at found
    obtain rfl := Option.some.inj found
    exact isOver.onto (bears_of_holding accounted tailed secure.all.tables)

end Reads

/-- A reader that was opened just now was opened on the store, and nothing else happened. -/
theorem openedOn_of_new
    (new : (session.after now event).readers = session.readers ++ [reader]) :
    reader.OpenedOn session.store ∧ session.Feasible event ∧ Still event ∧ Quiet event ∧
      event ≠ .close ∧ ∀ config timed, event ≠ .reopen config timed := by
  have held {opening : Action Reader}
      (isNew : (session.holdReader opening).readers = session.readers ++ [reader]) :
      (opening.runOn session.store).1 = .ok reader := by
    unfold holdReader at isNew
    rcases ran : opening.runOn session.store with ⟨fault | opened, left⟩
    · rw [ran] at isNew
      simp at isNew
    · rw [ran] at isNew
      rw [List.singleton_inj.mp (List.append_cancel_left isNew)]
  have same (others : (session.after now event).readers.length = session.readers.length) : False := by
    rw [new] at others
    simp at others
  cases event with
  | openReader text =>
      exact ⟨.inl ⟨text, held new⟩, trivial, trivial, trivial, nofun, nofun⟩
  | openReaderOf entry =>
      exact ⟨.inr ⟨entry, held new⟩, trivial, trivial, trivial, nofun, nofun⟩
  | openWriter text append =>
      exact (same (congrArg List.length (holdWriter_readers _ session))).elim
  | useReader used use =>
      exact (same (session.onReader_others used use.run).1).elim
  | useWriter used use =>
      exact (same (congrArg List.length (session.onWriter_others used (use.run now)).2.2)).elim
  | _ =>
      exact (same rfl).elim

/-- An open reader reads on from its opening. -/
theorem reads_of_new
    (accounted : session.Accounted)
    (tailed : session.Tailed)
    (listed : session.store.All Listed)
    (new : (session.after now event).readers = session.readers ++ [reader])
    (contiguous : Contiguous 0 (session.store.tables.partsOf reader.entry.id))
    (known :
      ∀ writer ∈ session.writers,
        writer.isClosed = false →
        writer.fileId = reader.entry.id →
        writer.guard.map Guard.generation = some session.store.locks.generation) :
    (session.after now event).Reads session.store.tables reader.entry.id session.readers.length := by
  obtain ⟨opened, feasible, still, quiet, notClose, notReopen⟩ := openedOn_of_new new
  have steady := accounted.steady
  obtain ⟨guard, given, isGiven, starts⟩ := opened.starts steady
  obtain ⟨outside, member⟩ := opened.member steady
  obtain ⟨sameTables, sameSavepoints⟩ := tables_still steady now feasible still
  have isGuard := (LockTable.guard_of_lock? isGiven).1
  have accountedAfter := accounted.after now feasible
  have tailedAfter := tailed.after steady now feasible
  have holding :
      (session.after now event).store.tables.Holding reader.entry.id
        (session.store.tables.pieces reader.entry.id) := by
    rw [sameTables]
    exact ⟨listed.tables.row_le reader.entry member, rfl⟩
  have bears : session.store.Bears reader.entry.id (session.store.tables.partsOf reader.entry.id) :=
    bears_of_holding accounted tailed ⟨listed.tables.row_le reader.entry member, rfl⟩
  refine ⟨accountedAfter, tailedAfter, ⟨⟨holding, ?_⟩, ?_⟩, reader, guard, ?_, rfl, starts.held, ?_,
    (Reader.Over.of_opened opened bears contiguous).onto
      (bears_of_holding accountedAfter tailedAfter holding)⟩
  · rw [sameSavepoints, outside]
    exact fun _ absurd => nomatch absurd
  · rw [session.writers_quiet now quiet]
    refine fun writer isWriter open_ => ⟨trivial, fun sameFile => ?_⟩
    -- the lock was given for sharing, so that no writer that the table knows has the file open
    obtain ⟨writing, holds⟩ := Writer.guard_of_open open_
    have isKnown := known writer isWriter open_ sameFile
    rw [holds, Option.map_some] at isKnown
    have exclusive := accounted.exclusive_of_current isWriter holds (Option.some.inj isKnown)
    rw [sameFile, ← starts.file] at exclusive
    exact LockTable.hold?_ne_exclusive_of_lock? isGiven exclusive
  · rw [new, List.getElem?_concat_length]
  · exact (congrArg Guard.generation isGuard).trans
      (accounted.perform now feasible notClose notReopen).generation.symm

/-! ## Isolation -/

/-- Writers know the ends of their files and rows are listed, with entries from anywhere. -/
theorem tailed_of_run
    {allowed : Session → Int → Event → Prop}
    {config : Config}
    {timed : Bool}
    {since : Int}
    (run : Run allowed (start config timed since) session) :
    session.Tailed ∧ session.store.All Listed := by
  have accounted := Accounted.start config timed since
  induction run with
  | refl =>
      exact ⟨(Orderly.start config timed since).tailed, (Orderly.start config timed since).listed⟩
  | tail run move inductionHypothesis =>
      obtain ⟨feasible, -⟩ := move
      have steady := (accounted.of_run run).steady
      exact ⟨inductionHypothesis.1.after steady _ feasible,
        all_always endures_listed steady inductionHypothesis.2 _ feasible⟩

/-- What a session is to an open reader: the file has the parts that it had, no one is given the
lock that a change of it takes, and as soon as nothing is under way the reader answers as a cursor
over their bytes. -/
structure Isolates (parts : List Part) (reader : Reader) (session : Session) : Prop where
  contents :
    ∀ tables ∈ session.store.tables :: session.store.kept :: session.store.savepoints,
      tables.partsOf reader.entry.id = parts
  refused : session.store.locks.lock? reader.entry.id true = none
  answers :
    ∃ place ≤ (bytesOf parts).size,
      reader.position = (place : Nat) ∧
        (session.store.Idle →
          ∀ request : Reader.Request,
            request.Fits →
            ∃ left after,
              request.run.runOn reader session.store =
                  (((Cursor.mk (bytesOf parts) place).answer request).1, left, after) ∧
                left.position = ((Cursor.mk (bytesOf parts) place).answer request).2.position)

/-- An open reader is isolated. -/
theorem Reads.isolates
    (reads : session.Reads base id index)
    (contiguous : Contiguous 0 (base.partsOf id))
    {left : Reader}
    (found : session.readers[index]? = some left) :
    left.entry.id = id ∧ session.Isolates (base.partsOf id) left := by
  obtain ⟨reader, guard, isReader, isFile, held, -, isOver⟩ := reads.reader
  obtain rfl : reader = left := Option.some.inj (isReader.symm.trans found)
  have open_ : reader.isClosed = false := congrArg Option.isNone held
  refine ⟨isFile, ⟨fun tables isTables => ?_, ?_, ?_⟩⟩
  · have holding : tables.Holding id (base.pieces id) := by
      rcases List.mem_cons.mp isTables with rfl | isTables
      · exact reads.secure.all.tables
      rcases List.mem_cons.mp isTables with rfl | isTables
      · exact reads.secure.all.kept reads.accounted.steady
      · exact reads.secure.all.saved tables isTables
    rw [isFile]
    exact congrArg (List.mergeSort · offsetLe) holding.pieces
  · refine Option.eq_none_iff_forall_ne_some.mpr fun ⟨guard, locked⟩ given => ?_
    exact reads.locked (isFile ▸ LockTable.hold?_of_lock?_exclusive given)
  · obtain ⟨place, within, position⟩ := isOver.position
    refine ⟨place, within, position, fun idle request fits => ?_⟩
    obtain ⟨there, isWithin, ready⟩ := isOver.ready open_ idle
    obtain rfl : there = place := Int.ofNat_inj.mp (ready.position.symm.trans position)
    obtain ⟨left, after, ran, readyAfter⟩ := ready.answers contiguous within fits
    exact ⟨left, after, ran, readyAfter.position⟩

/-- Whatever happened before, a reader that is opened on a file whose parts lie one behind the other
stays isolated for as long as it is not closed, whatever else happens, unless a close is forced or
someone asks for the contents of the file to be removed by its row. Of the writers on the file at the
time of the opening this takes that the lock table knows them: none was left on it by a close that
was forced. -/
theorem isolates_of_run
    {config : Config}
    {timed : Bool}
    {since : Int}
    (run : Run (fun _ _ _ => True) (start config timed since) before)
    (opened : (before.after now event).readers = before.readers ++ [reader])
    (contiguous : Contiguous 0 (before.store.tables.partsOf reader.entry.id))
    (known :
      ∀ writer ∈ before.writers,
        writer.isClosed = false →
        writer.fileId = reader.entry.id →
        writer.guard.map Guard.generation = some before.store.locks.generation)
    (harmless : Run (Harmless reader.entry.id) (before.after now event) session)
    {left : Reader}
    (found : session.readers[before.readers.length]? = some left)
    (open_ : left.isClosed = false) :
    left.entry.id = reader.entry.id ∧
      session.Isolates (before.store.tables.partsOf reader.entry.id) left := by
  obtain ⟨tailed, listed⟩ := tailed_of_run run
  have begun :=
    reads_of_new ((Accounted.start config timed since).of_run run) tailed listed opened contiguous
      known
  have reading :
      (StreamAt.reader before.readers.length).IsIn session ∧
        ∀ left,
          session.readers[before.readers.length]? = some left →
          left.isClosed = false →
          session.Reads before.store.tables reader.entry.id before.readers.length := by
    clear found open_
    induction harmless with
    | refl =>
        refine ⟨?_, fun _ _ _ => begun⟩
        change before.readers.length < (before.after now event).readers.length
        rw [opened, List.length_append, List.length_singleton]
        exact Nat.lt_succ_self _
    | tail harmlessRun move inductionHypothesis =>
        obtain ⟨feasible, isHarmless⟩ := move
        obtain ⟨isIn, reads⟩ := inductionHypothesis
        refine ⟨isIn_after isIn _ _, fun left found open_ => ?_⟩
        have steady := (begun.accounted.of_run harmlessRun).steady
        obtain ⟨old, isOld, stays⟩ := fixed_of_open steady isIn found open_
        have wasOpen : old.isClosed = false := by
          rw [← open_, Reader.isClosed, Reader.isClosed]
          exact congrArg (fun fixed => fixed.1.isNone) stays.symm
        exact (reads old isOld wasOpen).after contiguous feasible isHarmless found open_
  exact (reading.2 left found open_).isolates contiguous found

/-- A call by itself leaves the store of a session to continue. -/
theorem continues_after
    (steady : session.store.Steady)
    (now : Int)
    (call : Call) :
    session.store.Continues (session.after now (.whole call)).store :=
  call.continues_whole steady now

/-- A file that is deleted and a sweep of all that is in the trash leave an open reader its byte. -/
theorem isolates_swept :
    let written := (start {} false 0).after 1 (.whole (.write "home/a" ⟨#[1]⟩ none none))
    let opened := written.after 2 (.openReader "home/a")
    let refused := opened.after 3 (.whole (.delete "home/a"))
    let beside := refused.after 4 (.whole (.write "home/b" ⟨#[2]⟩ none none))
    let deleted := beside.after 5 (.whole (.delete "home/b"))
    let session := deleted.after 6 (.whole (.sweep (some fun _ _ => true)))
    ∃ reader left after,
      session.readers[0]? = some reader ∧
        Reader.Request.readAll.run.runOn reader session.store =
          (.ok (.bytes ⟨#[1]⟩), left, after) := by
  intro written opened refused beside deleted session
  have run : Run (fun _ _ _ => True) (start {} false 0) written :=
    Run.next .refl _ _ trivial trivial
  have isOpened : opened.readers.map (fun reader => reader.entry.id) = [5] := by
    decide +kernel
  obtain ⟨reader, rest, isReader, isFile, isRest⟩ := List.map_eq_cons_iff.mp isOpened
  obtain rfl := List.map_eq_nil_iff.mp isRest
  have new : (written.after 2 (.openReader "home/a")).readers = written.readers ++ [reader] :=
    isReader
  have isParts : written.store.tables.partsOf reader.entry.id = [⟨1, 5, 0, 1, ⟨#[1]⟩⟩] := by
    have pieces : written.store.tables.pieces 5 = [⟨1, 5, 0, 1, ⟨#[1]⟩⟩] := by decide +kernel
    rw [isFile]
    exact (congrArg (List.mergeSort · offsetLe) pieces).trans (List.mergeSort_singleton _)
  have contiguous : Contiguous 0 (written.store.tables.partsOf reader.entry.id) := by
    rw [isParts]
    exact ⟨rfl, rfl, trivial⟩
  have toDeleted : Run (Harmless reader.entry.id) opened deleted :=
    ((Run.next .refl 3 (.whole (.delete "home/a")) trivial ⟨nofun, trivial⟩).next 4
      (.whole (.write "home/b" ⟨#[2]⟩ none none)) trivial ⟨nofun, trivial⟩).next 5
        (.whole (.delete "home/b")) trivial ⟨nofun, trivial⟩
  have elsewhere :
      ∀ file ∈ Txn.accepted (some fun _ _ => true) deleted.store.tables, file.entry.id ≠ 5 := by
    decide +kernel
  have harmless : Run (Harmless reader.entry.id) opened session :=
    toDeleted.next 6 (.whole (.sweep (some fun _ _ => true))) trivial
      ⟨nofun, fun file member => ⟨trivial, isFile ▸ elsewhere file member⟩⟩
  have isLeft :
      session.readers.map (fun reader => (reader.isClosed, reader.position)) = [(false, 0)] := by
    decide +kernel
  obtain ⟨left, rest, isLeft, isOpen, isRest⟩ := List.map_eq_cons_iff.mp isLeft
  obtain ⟨open_, position⟩ := Prod.mk.inj isOpen
  have begun : opened.Accounted :=
    (Accounted.start {} false 0).of_run (run.next 2 (.openReader "home/a") trivial trivial)
  have free : session.store.savepoints = [] ∧ session.store.closed = false := by
    have before :
        deleted.store.savepoints.isEmpty = true ∧ deleted.store.closed = false := by
      decide +kernel
    have sweeps := continues_after (begun.of_run toDeleted).steady 6 (.sweep (some fun _ _ => true))
    exact ⟨sweeps.savepoints.trans (List.isEmpty_iff.mp before.1), sweeps.closed.trans before.2⟩
  have steady := (begun.of_run harmless).steady
  have found : session.readers[written.readers.length]? = some left := by
    rw [isLeft]
    rfl
  obtain ⟨-, isolates⟩ :=
    isolates_of_run run new contiguous (fun _ isWriter => nomatch isWriter) harmless found open_
  obtain ⟨place, -, isPlace, answers⟩ := isolates.answers
  obtain ⟨used, after, ran, -⟩ :=
    answers ⟨steady, free.1, free.2⟩ .readAll trivial
  obtain rfl : place = 0 := Int.ofNat_inj.mp (isPlace.symm.trans position)
  rw [isParts] at ran
  exact ⟨left, used, after, found, ran⟩

end Session

end VersionStore
