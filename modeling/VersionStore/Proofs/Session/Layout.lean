import VersionStore.Proofs.Session.Contents

namespace VersionStore

/-!
# Runs that keep contents filed

A scope in which a call failed is undone in the end. Until then anything may go on in it,
and its tables may be in any state; but those that it goes back to are as they were when it
began, and so are the writers, because nothing can be stored through them meanwhile.
-/

open Tables VersionStore.Action

namespace Session

variable
  {session next : Session}
  {now : Int}
  {event : Event}

/-! ## Runs -/

/-- An event that can happen, while no close is forced and no close of a writer fails. -/
structure Proper (session : Session) (now : Int) (event : Event) : Prop where
  feasible : session.Feasible event
  drained : event = .close → session.store.isDrained = true
  finished : (session.after now event).Finished

/-- What goes on while some scopes stay open, with calls that may fail. -/
inductive Lingers (depth : Nat) (session : Session) : Session → Prop where
  | event {now : Int} {event : Event}
      (proper : session.Proper now event)
      (within : depth ≤ (session.after now event).store.savepoints.length) :
      Lingers depth session (session.after now event)

/-- What goes on in a session in which errors are passed on: a call in a scope does not fail, or
sooner or later the scope is undone. -/
inductive Advances (session : Session) : Session → Prop where
  | event {now : Int} {event : Event}
      (proper : session.Proper now event)
      (succeeds :
        ∀ call,
          event = .inside call →
          ((call.inside now).runOn session.store).1 = .ok ⟨⟩) :
      Advances session (session.after now event)
  | undone {now : Int} {failed : Session}
      (opened : session.store.savepoints ≠ [])
      (lingers :
        Relation.ReflTransGen (Lingers session.store.savepoints.length) session failed)
      (back : failed.store.savepoints.length = session.store.savepoints.length) :
      Advances session (failed.after now (.finish false))

/-- A session advances by an event that closes neither the store nor a writer and happens in no
scope. -/
theorem Advances.of_open
    (possible : session.Possible event)
    (notClose : event ≠ .close)
    (notInside : ∀ call, event ≠ .inside call)
    (open_ : ((session.after now event).writers.all fun writer => writer.guard.isSome) = true) :
    session.Advances (session.after now event) := by
  refine .event ⟨possible.feasible, fun isClose => absurd isClose notClose, ?_⟩
    fun call isInside => absurd isInside (notInside call)
  intro writer member noGuard
  have isOpen := List.all_eq_true.mp open_ writer member
  simp [noGuard] at isOpen

/-! ## What stays while a scope is open -/

/-- A scope is open, and it may go on, end, or have another one begin in it. -/
theorem savepoints_inside
    (orderly : session.Orderly)
    (opened : session.store.savepoints ≠ [])
    (now : Int)
    {event : Event}
    (feasible : session.Feasible event) :
    (session.after now event).store.savepoints = session.store.savepoints ∨
      (∃ saved, (session.after now event).store.savepoints = saved :: session.store.savepoints) ∨
        (session.after now event).store.savepoints = session.store.savepoints.tail := by
  have steady := orderly.accounted.steady
  have entered := steady.entered opened
  change
    (session.perform now event).store.savepoints = session.store.savepoints ∨
      (∃ saved, (session.perform now event).store.savepoints = saved :: session.store.savepoints) ∨
        (session.perform now event).store.savepoints = session.store.savepoints.tail
  cases event with
  | begin =>
      refine .inl ?_
      change (beginWriting.runOn session.store).2.savepoints = session.store.savepoints
      rw [runOn_beginWriting steady.toAlone, if_pos entered]
      split <;> rfl
  | nest =>
      exact .inr (.inl ⟨_, rfl⟩)
  | finish kept =>
      refine .inr (.inr ?_)
      change
        ((if session.store.savepoints.length = 1 then endWriting kept else endScope kept).runOn
          session.store).2.savepoints = _
      obtain ⟨saved, outer, around⟩ := List.exists_cons_of_ne_nil opened
      cases outer with
      | nil =>
          rw [if_pos (by simp [around]), runOn_endWriting steady.toAlone around, around]
          exact Store.ended_savepoints steady.toAlone kept saved
      | cons next outer =>
          rw [if_neg (by simp [around]), around]
          cases kept with
          | true =>
              rw [show endScope true = commitScope from rfl, runOn_commitScope_inner around]
              rfl
          | false =>
              rw [show endScope false = rollbackScope from rfl, runOn_rollbackScope_inner around]
              rfl
  | inside call =>
      exact .inl (call.continues_inside steady now).savepoints
  | whole call =>
      exact .inl (call.continues_whole steady now).savepoints
  | openWriter text append =>
      refine .inl ?_
      change (session.holdWriter _).store.savepoints = _
      rw [holdWriter_store]
      exact (Writer.lends_openPath steady now text append).savepoints
  | useWriter index use =>
      refine .inl ?_
      change (session.onWriter index (use.run now)).store.savepoints = _
      cases found : session.writers[index]? with
      | none =>
          rw [onWriter_none found]
      | some writer =>
          rw [onWriter_eq found]
          exact (Writer.used_run writer steady now use).savepoints
  | _ =>
      exact .inl (tables_still steady now feasible trivial).2

/-- The writers of a session go on in another one, open as they are and knowing what they knew. -/
structure Persist (session next : Session) : Prop where
  busy : ∀ id, session.Busy id → next.Busy id
  origin :
    ∀ writer ∈ next.writers,
      writer.isClosed = false →
      ∃ old ∈ session.writers,
        old.isClosed = false ∧ ∀ tables : Tables, old.Tracks tables → writer.Tracks tables

/-- Writers that are left alone persist. -/
theorem Persist.of_eq
    (same : next.writers = session.writers) :
    session.Persist next where
  busy id := by
    rintro ⟨writer, member, open_, isFile⟩
    exact ⟨writer, same ▸ member, open_, isFile⟩
  origin writer member open_ := ⟨writer, same ▸ member, open_, fun _ => id⟩

/-- Inside a scope all writers persist, unless a close of one fails. -/
theorem persist_inside
    (orderly : session.Orderly)
    (opened : session.store.savepoints ≠ [])
    (finished : (session.after now event).Finished) :
    session.Persist (session.after now event) := by
  have steady := orderly.accounted.steady
  cases event with
  | openWriter text append =>
      have leaves :=
        Writer.openPath_endures endures_ordered.toEndures endures_ordered.fresh
          (fun _ _ _ => trivial) steady .idle orderly.tailed.ordered.tables now text append
      have writers :
          (session.after now (.openWriter text append)).writers = _ :=
        holdWriter_writers (Writer.openPath now text append) session
      refine .of_eq ?_
      cases outcome : ((Writer.openPath now text append).runOn session.store).1 with
      | ok writer =>
          exact absurd (leaves.done writer outcome).1 opened
      | error fault =>
          rw [writers, outcome]
          exact List.append_nil _
  | useWriter index use =>
      cases found : session.writers[index]? with
      | none =>
          refine .of_eq ?_
          change (session.onWriter index (use.run now)).writers = session.writers
          rw [onWriter_none found]
      | some writer =>
          have used := Writer.used_run writer steady now use
          have closed (isClosed : writer.isClosed = true) :=
            Writer.run_closed isClosed now use session.store
          have inside (open_ : writer.isClosed = false) :=
            Writer.tracks_inside steady opened open_ now use
          obtain ⟨foundLeft, besides⟩ := session.writers_used found now use
          dsimp only at inside
          generalize ((use.run now).runOn writer session.store).2.1 = left at *
          have member := List.mem_of_getElem? foundLeft
          have goesOn (open_ : writer.isClosed = false) :
              left.isClosed = false ∧
                ∀ tables : Tables, writer.Tracks tables → left.Tracks tables := by
            rcases inside open_ with ⟨noGuard, noResult⟩ | goesOn
            · exact absurd noResult (finished left member noGuard)
            · exact goesOn
          constructor
          case busy =>
            intro id isBusy
            rw [busy_iff found] at isBusy
            rw [busy_iff foundLeft, besides, used.fileId]
            exact isBusy.imp_right fun ⟨open_, isFile⟩ => ⟨(goesOn open_).1, isFile⟩
          case origin =>
            intro other otherMember otherOpen
            rcases (Writer.open_iff foundLeft).mp ⟨otherMember, otherOpen⟩ with
              isBesides | ⟨rfl, isOpen⟩
            · obtain ⟨old, wasOpen⟩ := (Writer.open_iff found).mpr (.inl (besides ▸ isBesides))
              exact ⟨other, old, wasOpen, fun _ => id⟩
            · cases wasOpen : writer.isClosed with
              | true =>
                  exact absurd (isOpen.symm.trans (closed wasOpen).1) Bool.false_ne_true
              | false =>
                  exact ⟨writer, List.mem_of_getElem? found, wasOpen, (goesOn wasOpen).2⟩
  | inside call | whole call =>
      exact .of_eq rfl
  | _ =>
      exact .of_eq (session.writers_quiet now trivial)

/-- The tables that some scopes go back to are filed, whatever goes on inside. -/
structure Shelters (outer : List Tables) (session : Session) : Prop where
  orderly : session.Orderly
  around : ∃ inner, session.store.savepoints = inner ++ outer
  filed : ∀ saved ∈ outer, saved.Filed session.Busy
  tracks :
    ∀ writer ∈ session.writers,
      writer.isClosed = false →
      ∀ saved ∈ outer,
        writer.Tracks saved

namespace Shelters

variable {outer : List Tables}

/-- What goes on inside leaves the tables around it filed. -/
theorem after
    (shelters : session.Shelters outer)
    (some_ : outer ≠ [])
    (proper : session.Proper now event)
    (within : outer.length ≤ (session.after now event).store.savepoints.length) :
    (session.after now event).Shelters outer := by
  obtain ⟨inner, around⟩ := shelters.around
  have opened : session.store.savepoints ≠ [] := by
    simp [around, some_]
  have persist := persist_inside shelters.orderly opened proper.finished
  refine ⟨shelters.orderly.after now proper.feasible proper.drained, ?_, ?_, ?_⟩
  · rcases savepoints_inside shelters.orderly opened now proper.feasible with
      same | ⟨saved, begun⟩ | ended
    · exact ⟨inner, same.trans around⟩
    · exact ⟨saved :: inner, begun.trans (congrArg (saved :: ·) around)⟩
    · rw [ended, around] at within
      cases inner with
      | nil =>
          have shorter := List.length_pos_of_ne_nil some_
          rw [List.nil_append, List.length_tail] at within
          omega
      | cons saved inner =>
          exact ⟨inner, by rw [ended, around, List.cons_append, List.tail_cons]⟩
  · exact fun saved member => (shelters.filed saved member).leaving persist.busy
  · intro writer member open_ saved isSaved
    obtain ⟨old, oldMember, wasOpen, knows⟩ := persist.origin writer member open_
    exact knows saved (shelters.tracks old oldMember wasOpen saved isSaved)

/-- A scope that is undone goes back to tables that are filed. -/
theorem undone
    (shelters : session.Shelters session.store.savepoints)
    (opened : session.store.savepoints ≠ [])
    (now : Int) :
    (session.after now (.finish false)).Filed := by
  have steady := shelters.orderly.accounted.steady
  have every
      {holds : Tables → Prop}
      (saved : ∀ saved ∈ session.store.savepoints, holds saved) :
      (session.after now (.finish false)).store.All holds := by
    change
      ((if session.store.savepoints.length = 1 then endWriting false else endScope false).runOn
        session.store).2.All holds
    obtain ⟨first, outer, around⟩ := List.exists_cons_of_ne_nil opened
    rw [around] at saved
    have isFirst := saved first List.mem_cons_self
    cases outer with
    | nil =>
        rw [if_pos (by simp [around]), runOn_endWriting steady.toAlone around,
          Store.ended_false steady.toAlone]
        exact ⟨isFirst, nofun⟩
    | cons next outer =>
        rw [if_neg (by simp [around]), show endScope false = rollbackScope from rfl,
          runOn_rollbackScope_inner around]
        exact ⟨isFirst, fun tables member => saved tables (List.mem_cons_of_mem _ member)⟩
  refine ⟨shelters.orderly.after now opened (by simp), every shelters.filed, ?_⟩
  exact fun writer member open_ => every (shelters.tracks writer member open_)

end Shelters

/-! ## Filed contents along a run -/

/-- Contents are filed in a new store. -/
theorem filed_start
    (config : Config)
    (timed : Bool)
    (now : Int) :
    (start config timed now).Filed := by
  have orderly := Orderly.start config timed now
  have parts := (bare_seed config.roots now).1
  obtain ⟨listed, bare⟩ := listed_seed config.roots now
  have numbered : (seed config.roots now).Numbered :=
    ⟨orderly.tailed.ordered.tables, by simp [parts], listed.row_le⟩
  have pieces (id : Int) : (seed config.roots now).pieces id = [] := by
    simp [Tables.pieces, parts]
  refine ⟨orderly, ⟨⟨numbered, fun entry member _ => ?_⟩,
    fun _ member => absurd member List.not_mem_nil⟩,
    fun _ member => absurd member List.not_mem_nil⟩
  exact .of_nil (pieces entry.id) (bare entry member).1 (bare entry member).2

namespace Filed

/-- The tables around an open scope are filed when everything is. -/
theorem shelters
    (filed : session.Filed) :
    session.Shelters session.store.savepoints where
  orderly := filed.orderly
  around := ⟨[], rfl⟩
  filed := filed.filed.saved
  tracks writer member open_ := (filed.tracks writer member open_).saved

/-- Contents stay filed. -/
theorem advances
    (filed : session.Filed)
    (advance : session.Advances next) :
    next.Filed := by
  cases advance with
  | @event now event proper succeeds =>
      have orderly := filed.orderly.after now proper.feasible proper.drained
      cases event with
      | inside call =>
          exact filed.inside proper.feasible orderly (succeeds call rfl)
      | whole call =>
          exact filed.whole orderly
      | openWriter text append =>
          exact filed.openWriter orderly
      | useWriter index use =>
          exact filed.useWriter orderly proper.finished
      | _ =>
          exact filed.passing orderly (session.writers_quiet now trivial) fun _ =>
            all_quiet filed.orderly.accounted.steady now trivial proper.feasible
  | @undone now failed opened lingers back =>
      have shelters : failed.Shelters session.store.savepoints := by
        clear back
        induction lingers with
        | refl =>
            exact filed.shelters
        | tail _ step before =>
            obtain ⟨proper, within⟩ := step
            exact before.after opened proper within
      obtain ⟨inner, around⟩ := shelters.around
      have same : failed.store.savepoints = session.store.savepoints := by
        have none_ : inner = [] := by
          rw [around, List.length_append] at back
          exact List.eq_nil_of_length_eq_zero (by omega)
        rw [around, none_, List.nil_append]
      exact (same ▸ shelters : failed.Shelters failed.store.savepoints).undone
        (same ▸ opened) now

end Filed

/-- Contents are filed in every state that a session comes to while errors are passed on. -/
theorem filed_of_advances
    {config : Config}
    {timed : Bool}
    {since : Int}
    (advances : Relation.ReflTransGen Advances (start config timed since) session) :
    session.Filed := by
  induction advances with
  | refl =>
      exact filed_start config timed since
  | tail _ advance before =>
      exact before.advances advance

/-- In every state that a session comes to while errors are passed on, no close of a writer
fails and no close is forced, the contents of a file that no writer has open are laid out from
its beginning in full parts and one that may be shorter, and its row has their length and, if
any, their checksum. Directories have no contents. This holds of the tables that are worked on,
of those that are kept, and of those that a scope may go back to. -/
theorem laid_of_advances
    {config : Config}
    {timed : Bool}
    {since : Int}
    (advances : Relation.ReflTransGen Advances (start config timed since) session) :
    ∀ tables ∈ session.store.tables :: session.store.kept :: session.store.savepoints,
      ∀ entry ∈ tables.entries,
        (entry.isDirectory = true → tables.partsOf entry.id = []) ∧
          ((∀ writer ∈ session.writers, writer.fileId = entry.id → writer.isClosed = true) →
            LaidFrom 0 (tables.partsOf entry.id) ∧
              entry.length = (bytesOf (tables.partsOf entry.id)).size ∧
                ∀ checksum,
                  entry.checksum = some checksum →
                  checksum = Checksum.ofData (bytesOf (tables.partsOf entry.id))) := by
  have filed := filed_of_advances advances
  have steady := filed.orderly.accounted.steady
  intro tables isTables entry member
  have every
      {holds : Tables → Prop}
      (all : session.store.All holds) :
      holds tables := by
    rcases List.mem_cons.mp isTables with rfl | isTables
    · exact all.tables
    rcases List.mem_cons.mp isTables with rfl | isTables
    · exact all.kept steady
    · exact all.saved tables isTables
  have isFiled := every filed.filed
  constructor
  · intro isDirectory
    by_cases busy : session.Busy entry.id
    · obtain ⟨writer, isWriter, open_, isFile⟩ := busy
      have row := (every (filed.tracks writer isWriter open_)).row entry member isFile.symm
      exact absurd (row.1.symm.trans isDirectory) Bool.false_ne_true
    · have stored := isFiled.stored entry member busy
      rw [partsOf_eq_pieces stored.laid]
      exact stored.bare isDirectory
  · intro idle
    have stored := isFiled.stored entry member fun ⟨writer, isWriter, open_, isFile⟩ =>
      Bool.false_ne_true (open_.symm.trans (idle writer isWriter isFile))
    rw [partsOf_eq_pieces stored.laid]
    exact ⟨stored.laid, stored.length, stored.checksum⟩

/-- Bytes that went through a writer are laid out once it is closed. -/
theorem laid_finish :
    let opened := (start {} false 0).after 1 (.openWriter "home/f" false)
    let written := opened.after 2 (.useWriter 0 (.write ⟨#[1, 2]⟩))
    let session := written.after 3 (.useWriter 0 .finish)
    ∃ entry ∈ session.store.tables.entries,
      entry.name = "f" ∧ entry.checksum.isSome = true ∧ entry.length = 2 ∧
        LaidFrom 0 (session.store.tables.partsOf entry.id) ∧
          entry.checksum =
            some (Checksum.ofData (bytesOf (session.store.tables.partsOf entry.id))) := by
  intro opened written session
  have step
      {before : Session}
      {now : Int}
      {event : Event}
      (feasible : before.Feasible event)
      (notInside : ∀ call, event ≠ .inside call)
      (notClose : event ≠ .close)
      (finished :
        ((before.after now event).writers.all fun writer =>
          writer.guard.isSome || writer.result.isSome) = true) :
      Advances before (before.after now event) := by
    refine .event ⟨feasible, fun isClose => absurd isClose notClose, fun writer member => ?_⟩
      fun call isInside => absurd isInside (notInside call)
    intro noGuard noResult
    have isFinished := List.all_eq_true.mp finished writer member
    simp [noGuard, noResult] at isFinished
  have opens : Advances (start {} false 0) opened :=
    step trivial (by simp) (by simp) (by decide)
  have writes : Advances opened written :=
    step trivial (by simp) (by simp) (by decide +kernel)
  have finishes : Advances written session :=
    step trivial (by simp) (by simp) (by decide +kernel)
  have advances : Relation.ReflTransGen Advances (start {} false 0) session :=
    ((Relation.ReflTransGen.single opens).tail writes).tail finishes
  have isThere :
      (session.store.tables.entries.any fun entry =>
        entry.name == "f" && entry.checksum.isSome && entry.length == 2) = true := by
    decide +kernel
  obtain ⟨entry, member, isEntry⟩ := List.any_eq_true.mp isThere
  simp only [Bool.and_eq_true, beq_iff_eq] at isEntry
  obtain ⟨⟨isName, hasChecksum⟩, isLength⟩ := isEntry
  have closed : (session.writers.all fun writer => writer.isClosed) = true := by
    decide +kernel
  obtain ⟨laid, -, checksum⟩ :=
    (laid_of_advances advances session.store.tables List.mem_cons_self entry member).2
      fun writer isWriter _ => List.all_eq_true.mp closed writer isWriter
  obtain ⟨recorded, isRecorded⟩ := Option.isSome_iff_exists.mp hasChecksum
  exact ⟨entry, member, isName, hasChecksum, isLength, laid,
    isRecorded.trans (congrArg some (checksum recorded isRecorded))⟩

end Session

end VersionStore
