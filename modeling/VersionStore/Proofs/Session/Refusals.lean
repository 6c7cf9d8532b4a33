import VersionStore.Proofs.Session.Feeding
import VersionStore.Proofs.Stream.Refusals

namespace VersionStore

/-!
# Files that are written to while a store may be shut

A write may come while the store is closed or a scope is open on it, and fail. Where it does, the
file goes on with the bytes that the writer took in before it failed, as if only these had been
written.
-/

namespace Feed

open Session

/-- A turn, something else that goes on meanwhile, or a write that fails. The bytes that there was
room for are written even so. -/
inductive Tries (file : Int) (feed : Feed) : Feed → Prop where
  | goes {next : Feed}
      (goes : feed.Goes file next) :
      Tries file feed next
  | fails {now : Int} {index : Nat} {writer : Writer} {data : ByteArray} {fault : Fault}
      (isOpen : feed.writer = some index)
      (found : feed.session.writers[index]? = some writer)
      (failed : ((Writer.write data).runOn writer feed.session.store).1 = .error fault) :
      Tries file feed
        { session := feed.session.after now (.useWriter index (.write data))
          writer := some index
          written := feed.written ++ data.extract 0 writer.room }

variable
  {file : Int}
  {feed next : Feed}

/-- A write that fails leaves in the open writer and the file what was written and what there was
room for. -/
theorem Going.fails
    (going : feed.Going file)
    {now : Int}
    {index : Nat}
    {writer : Writer}
    {data : ByteArray}
    {fault : Fault}
    (isOpen : feed.writer = some index)
    (found : feed.session.writers[index]? = some writer)
    (failed : ((Writer.write data).runOn writer feed.session.store).1 = .error fault) :
    Going file
      { session := feed.session.after now (.useWriter index (.write data))
        writer := some index
        written := feed.written ++ data.extract 0 writer.room } := by
  have steady := going.accounted.steady
  have holds := going.holds
  rw [Holds, isOpen] at holds
  obtain ⟨same, done, wasFound, open_, isFile, row, writes, bytes⟩ := holds
  obtain rfl := Option.some.inj (found.symm.trans wasFound)
  have ran := Writer.write_refused steady open_ failed
  have used :
      ((WriterUse.write data).run now).runOn writer feed.session.store =
        (.error fault, writer.touched.buffered (data.extract 0 writer.room),
          feed.session.store) := by
    rw [WriterUse.run, StreamAction.runOn_bind, ran]
  have foundLeft := (feed.session.writers_used found now (.write data)).1
  have isStore := store_used found now (.write data)
  rw [used] at foundLeft isStore
  have fits : writer.buffer.size + (data.extract 0 writer.room).size ≤ partSize := by
    have fits := writes.fits
    rw [ByteArray.size_extract, Writer.room]
    omega
  refine ⟨going.accounted.after now trivial, going.tailed.after steady now trivial, _, done,
    foundLeft, open_, isFile, ?_, ?_, ?_⟩
  · rw [isStore]
    exact row
  · rw [isStore]
    exact (writes.watched _).buffered fits
  · rw [← bytes]
    exact ByteArray.append_assoc.symm

/-- What was written stays along a run with writes that fail. -/
theorem Going.tries
    (going : feed.Going file)
    (tries : Relation.ReflTransGen (Tries file) feed next) :
    next.Going file := by
  induction tries with
  | refl =>
      exact going
  | tail _ step before =>
      cases step with
      | goes goes =>
          exact before.run (.single goes)
      | fails isOpen found failed =>
          exact before.fails isOpen found failed

/-- What has to do neither with rows nor with scopes nor with writers leaves every file alone. -/
theorem aside_still
    (steady : feed.session.store.Steady)
    {now : Int}
    {event : Event}
    (feasible : feed.session.Feasible event)
    (still : Still event)
    (found :
      ∀ index,
        feed.writer = some index →
        ∃ writer, feed.session.writers[index]? = some writer) :
    feed.Aside file (feed.session.after now event) := by
  have tables := (tables_still steady now feasible still).1
  have quiet : Quiet event := by
    cases event <;> trivial
  refine ⟨by rw [tables], by rw [tables], fun index isOpen => ?_⟩
  obtain ⟨writer, isWriter⟩ := found index isOpen
  refine ⟨writer, writer.watchdog, isWriter, ?_⟩
  rw [feed.session.writers_quiet now quiet]
  exact isWriter

/-- Whatever bytes a file holds that a path leads a writer to, and whatever writes to it fail in
between: the file goes on with the bytes that were taken in. A write of any open writer fails just
when it fills the buffer of the writer while the store is closed or in a scope. It leaves the store
as it is and takes in as many of its bytes as there was room for. Even on a store that others keep
from its database, the place of a writer stays only if the buffer was full. -/
theorem failures_of_opened
    {config : Config}
    {timed : Bool}
    {since : Int}
    (named : ∀ root ∈ config.roots, IsName root)
    (distinct : config.roots.Nodup)
    {session : Session}
    (advances : Relation.ReflTransGen Advances (start config timed since) session)
    (reachable : Reachable (fun _ _ _ => True) (start config timed since) session)
    (serves : session.store.Serves)
    {text : String}
    {append : Bool}
    {content : ByteArray}
    {replaced : Option Int}
    (receives : session.store.tables.Receives text append file content replaced)
    (unopened : ∀ id, id = file ∨ replaced = some id → session.Unopened id)
    (now : Int)
    (tries :
      Relation.ReflTransGen (Tries file)
        { session := session.after now (.openWriter text append)
          writer := some session.writers.length
          written := content }
        feed) :
    feed.Right file ∧
      ∀ (index : Nat) (writer : Writer) (data : ByteArray),
        feed.session.writers[index]? = some writer →
        writer.isClosed = false →
        ((∃ fault, ((Writer.write data).runOn writer feed.session.store).1 = .error fault) ↔
            feed.session.store.Barred ∧ writer.Fills data) ∧
          (∀ fault,
            ((Writer.write data).runOn writer feed.session.store).1 = .error fault →
            ∃ left,
              (Writer.write data).runOn writer feed.session.store =
                  (.error fault, left, feed.session.store) ∧
                writer.Stops data left) ∧
            ∀ (store : Store) (fault : Fault),
              ((Writer.write data).runOn writer store).1 = .error fault →
              ∃ taken,
                writer.TakesIn data taken ((Writer.write data).runOn writer store).2.1 ∧
                  (taken = 0 → writer.buffer.size = partSize) := by
  have sound : session.Sound False :=
    (Session.Sound.start named distinct timed since).of_reachable False.elim reachable
  obtain ⟨-, opened⟩ :=
    going_opened (filed_of_advances advances) sound serves receives unopened now
  have going := opened.tries tries
  have steady := going.accounted.steady
  exact ⟨going.right, fun index writer data found open_ =>
    ⟨Writer.write_fails_iff steady open_, fun fault => Writer.stops_of_failed steady open_,
      fun store fault => Writer.write_takes open_ store⟩⟩

/-- A full part that a new file could not store while the store was closed is written nevertheless,
and a second time when the write is repeated. -/
theorem failures_repeated :
    let data : ByteArray := ⟨Array.replicate partSize 0⟩
    let created := (Session.start {} false 0).after 1 (.openWriter "home/f" true)
    let closed := created.after 2 .close
    let failed := closed.after 3 (.useWriter 0 (.write data))
    let resumed := failed.after 4 .resume
    let session := (resumed.after 5 (.useWriter 0 (.write data))).after 6 (.useWriter 0 .finish)
    session.store.tables.AtOnce 5 (data ++ data) := by
  intro data created closed failed resumed session
  have size : data.size = partSize := Array.size_replicate
  clear_value data
  have isThere :
      ((CleanPath.ofText "home/f").toOption.bind fun path =>
        path.parent?.bind fun parent =>
          ((Session.start {} false 0).store.tables.lookupAt? parent).bind fun directory =>
            (closed.writers[0]?).map fun writer =>
              (((Session.start {} false 0).store.tables.lookupAt? path).isNone,
                directory.isDirectory, writer.isClosed, writer.buffer.size)) =
        some (true, true, false, 0) := by
    decide
  obtain ⟨path, isPath, isThere⟩ := Option.bind_eq_some_iff.mp isThere
  obtain ⟨parent, isParent, isThere⟩ := Option.bind_eq_some_iff.mp isThere
  obtain ⟨directory, foundParent, isThere⟩ := Option.bind_eq_some_iff.mp isThere
  obtain ⟨writer, found, isThere⟩ := Option.map_eq_some_iff.mp isThere
  simp only [Prod.mk.injEq] at isThere
  obtain ⟨missing, isDirectory, open_, isEmpty⟩ := isThere
  have receives :
      (Session.start {} false 0).store.tables.Receives "home/f" true 5 .empty none :=
    .created (eq_ok_of_toOption isPath) (Option.isNone_iff_eq_none.mp missing) isParent foundParent
      isDirectory
  have drained : created.store.savepoints = [] := by
    decide
  have outside : closed.store.savepoints = [] := rfl
  have begun : created.Accounted :=
    (Orderly.start {} false 0).accounted.after 1
      (trivial : Feasible _ (.openWriter "home/f" true))
  have accounted : closed.Accounted :=
    begun.after 2 (drained : created.Feasible .close)
  have wasFound : created.writers[0]? = some writer := by
    have same : closed.writers = created.writers :=
      created.writers_quiet 2 (trivial : Quiet .close)
    rwa [← same]
  have fills : writer.Fills data :=
    ⟨by rw [size]; exact partSize_pos, by omega, by omega⟩
  have all : data.extract 0 writer.room = data := by
    rw [Writer.room, isEmpty, Nat.sub_zero, ← size, ByteArray.extract_zero_size]
  obtain ⟨fault, isFault⟩ :=
    (Writer.write_fails_iff accounted.steady open_).mpr ⟨.inr rfl, fills⟩
  obtain ⟨left, ran, -⟩ := Writer.stops_of_failed accounted.steady open_ isFault
  have used :
      ((WriterUse.write data).run 3).runOn writer closed.store =
        (.error fault, left, closed.store) := by
    rw [WriterUse.run, StreamAction.runOn_bind, ran]
  have foundLeft := (closed.writers_used found 3 (.write data)).1
  have isStore := store_used found 3 (.write data)
  rw [used] at foundLeft isStore
  have shut : failed.Accounted :=
    accounted.after 3 (trivial : closed.Feasible (.useWriter 0 (.write data)))
  have resumes : resumed.Accounted :=
    shut.after 4 (trivial : failed.Feasible .resume)
  have stillOutside : resumed.store.savepoints = [] := by
    have feasible : failed.Feasible .resume := trivial
    have same : resumed.store.savepoints = failed.store.savepoints :=
      (tables_still shut.steady 4 feasible trivial).2
    rw [same, isStore]
    exact outside
  have closes :
      Tries 5 { session := created, writer := some 0, written := .empty }
        { session := closed, writer := some 0, written := .empty } :=
    .goes (.other drained (aside_still begun.steady drained trivial fun index isIndex =>
      ⟨writer, Option.some.inj isIndex ▸ wasFound⟩))
  have fails :
      Tries 5 { session := closed, writer := some 0, written := .empty }
        { session := failed, writer := some 0, written := .empty ++ data.extract 0 writer.room } :=
    .fails rfl found isFault
  have opens :
      Tries 5
        { session := failed, writer := some 0, written := .empty ++ data.extract 0 writer.room }
        { session := resumed, writer := some 0, written := .empty ++ data.extract 0 writer.room } :=
    .goes (.other trivial (aside_still shut.steady trivial trivial fun index isIndex =>
      ⟨left, Option.some.inj isIndex ▸ foundLeft⟩))
  have foundAgain : resumed.writers[0]? = some left := by
    have same : resumed.writers = failed.writers :=
      failed.writers_quiet 4 (trivial : Quiet .resume)
    rwa [same]
  have repeats :
      Tries 5
        { session := resumed, writer := some 0, written := .empty ++ data.extract 0 writer.room }
        { session := resumed.after 5 (.useWriter 0 (.write data)), writer := some 0,
          written := .empty ++ data.extract 0 writer.room ++ data } :=
    .goes (.turn (.write rfl stillOutside rfl))
  have used := Writer.used_run left resumes.steady 5 (.write data)
  have isRepeated := store_used foundAgain 5 (.write data)
  have finishes :
      Tries 5
        { session := resumed.after 5 (.useWriter 0 (.write data)), writer := some 0,
          written := .empty ++ data.extract 0 writer.room ++ data }
        { session, writer := none, written := .empty ++ data.extract 0 writer.room ++ data } := by
    refine .goes (.turn (.close rfl ?_ ?_))
    · rw [isRepeated, used.savepoints, stillOutside]
    · rw [isRepeated, used.closed]
      rfl
  have tries :=
    ((((Relation.ReflTransGen.single closes).tail fails).tail opens).tail repeats).tail finishes
  obtain ⟨right, -⟩ :=
    failures_of_opened (by decide) (by decide) .refl .refl ⟨rfl, rfl, rfl, rfl⟩ receives
      (fun _ _ =>
        ⟨fun _ member => absurd member List.not_mem_nil,
          fun _ member => absurd member List.not_mem_nil⟩)
      1 tries
  rw [all, ByteArray.empty_append] at right
  exact right

end Feed

end VersionStore
