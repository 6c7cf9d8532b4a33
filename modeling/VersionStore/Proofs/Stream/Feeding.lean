import VersionStore.Proofs.Content.AtOnce
import VersionStore.Proofs.Content.Beside
import VersionStore.Proofs.Stream.Absorbing
import VersionStore.Proofs.Stream.Storing

namespace VersionStore

/-!
# What goes through a writer

On a store that is open and in no scope every write and the close of a writer succeed. What
is stored and what is in the buffer are at any time all the bytes that went through the writer
behind those it began with, however they were split, and at the close the file is as if they
had been stored at once. Other files are left alone.
-/

open Tables StreamAction

namespace Writer

variable
  {writer : Writer}
  {tables : Tables}
  {done : List Part}

/-- Storing the buffer leaves the rows alone, and the parts of other files. -/
theorem Writes.stored_beside
    (writes : writer.Writes done (tables.pieces writer.fileId))
    (ordered : tables.Ordered) :
    (writer.stored tables).Ordered ∧ (writer.stored tables).entries = tables.entries ∧
      Beside (· = writer.fileId) tables (writer.stored tables) := by
  have last := writes.last
  unfold stored
  split
  · exact ⟨ordered, rfl, .refl _ _⟩
  cases isTail : writer.tail with
  | none =>
      refine ⟨?_, rfl, fun _ _ => .rfl, fun id other => ?_⟩
      · exact endures_ordered.stored tables
          { id := tables.lastPartId + 1, fileId := writer.fileId, offset := writer.offset,
            length := writer.buffer.size, data := writer.buffer } trivial rfl ordered
      · unfold addPart
        rw [Carries.pieces_concat, if_neg (Ne.symm other), List.append_nil]
  | some id =>
      rw [isTail] at last
      obtain ⟨-, tail, isLast, rfl, -⟩ := last
      have isPiece : tail ∈ tables.pieces writer.fileId := by
        simp [isLast]
      obtain ⟨isPart, isFile⟩ := mem_pieces_iff.mp isPiece
      refine ⟨endures_ordered.replaced tables tail.id writer.buffer (fun _ _ _ => trivial) ordered,
        rfl, fun _ _ => .rfl, fun id other => ?_⟩
      refine pieces_replacePart fun part member same => ?_
      rw [ordered.part_eq member isPart same, isFile]
      exact Ne.symm other

/-- A writer that is open on a store, behind which some bytes of its file lie. Other files are as
they were at first. -/
structure Feeds (file : Int) (start : Tables) (written : ByteArray) (writer : Writer)
    (store : Store) : Prop where
  idle : store.Idle
  open_ : writer.isClosed = false
  isFile : writer.fileId = file
  ordered : store.tables.Ordered
  row : ∃ entry, store.tables.entry? file = some entry
  writes :
    ∃ done,
      writer.Writes done (store.tables.pieces file) ∧ bytesOf done ++ writer.buffer = written
  beside : Beside (· = file) start store.tables

variable
  {file : Int}
  {start : Tables}
  {written : ByteArray}
  {store : Store}

namespace Feeds

/-- The place of a writer is the number of bytes so far. -/
theorem position_eq
    (feeds : writer.Feeds file start written store) :
    writer.position = written.size := by
  obtain ⟨done, writes, isWritten⟩ := feeds.writes
  rw [position, writes.offset, ← isWritten, ByteArray.size_append]
  omega

/-- A use of a writer does not count against it. -/
theorem watched
    (feeds : writer.Feeds file start written store)
    (watchdog : Option Watchdog) :
    Feeds file start written { writer with watchdog } store := by
  obtain ⟨done, writes, isWritten⟩ := feeds.writes
  exact ⟨feeds.idle, feeds.open_, feeds.isFile, feeds.ordered, feeds.row,
    ⟨done, writes.watched watchdog, isWritten⟩, feeds.beside⟩

/-- More bytes fit into the buffer. -/
theorem buffered
    (feeds : writer.Feeds file start written store)
    {data : ByteArray}
    (room : writer.buffer.size + data.size ≤ partSize) :
    (writer.buffered data).Feeds file start (written ++ data) store := by
  obtain ⟨done, writes, rfl⟩ := feeds.writes
  refine ⟨feeds.idle, feeds.open_, feeds.isFile, feeds.ordered, feeds.row,
    ⟨done, writes.buffered room, ?_⟩, feeds.beside⟩
  exact ByteArray.append_assoc.symm

/-- A full buffer is stored. -/
theorem emptied
    (feeds : writer.Feeds file start written store)
    (full : writer.buffer.size = partSize) :
    ∃ left,
      (Action.streaming (storeBuffer writer)).runOn store = (.ok ⟨⟩, left) ∧
        writer.emptied.Feeds file start written left := by
  obtain ⟨done, writes, rfl⟩ := feeds.writes
  obtain rfl := feeds.isFile
  obtain ⟨⟨⟩, left, ran, idle, -, -, tables⟩ :=
    (@storeBuffer_works writer (store.setting fun _ => False) (· = store.tables)
      (· = writer.stored store.tables) (fun _ _ => False)
      fun _ same => congrArg writer.stored same).runs_streaming feeds.idle .idle rfl
  obtain ⟨ordered, entries, beside⟩ := writes.stored_beside feeds.ordered
  refine ⟨left, ran, idle, feeds.open_, rfl, ?_, ?_, ?_, ?_⟩
  · rw [tables]
    exact ordered
  · unfold Tables.entry?
    rw [tables, entries]
    exact feeds.row
  · rw [tables]
    refine ⟨_, writes.emptied feeds.ordered full, ?_⟩
    exact ByteArray.append_empty.trans (writes.pieces_stored feeds.ordered).2.1
  · rw [tables]
    exact feeds.beside.trans beside

end Feeds

/-- What a writer is fed with it takes in. -/
theorem feeds_absorbs :
    Absorbs (Feeds file start) where
  steady feeds := feeds.idle.toSteady
  open_ feeds := feeds.open_
  fits feeds := by
    obtain ⟨done, writes, -⟩ := feeds.writes
    exact writes.fits
  watched watchdog feeds := feeds.watched watchdog
  buffered feeds room := feeds.buffered room
  emptied feeds full := feeds.emptied full

/-- A write takes all its bytes in. -/
theorem write_feeds
    (data : ByteArray) :
    Yields (Feeds file start written) (write data) fun count writer store =>
      count = data.size ∧ writer.Feeds file start (written ++ data) store :=
  feeds_absorbs.write data

/-! ## The close -/

/-- The rest is stored and recorded, and the row of the file is given. -/
theorem complete_records
    {setting : Setting}
    {before : Tables}
    {now : Int}
    {entry : Entry}
    (found : Tables.entry? (writer.completed now before) writer.fileId = some entry) :
    Action.Works setting (· = before) (complete now writer)
      (fun value tables => value = entry ∧ tables = writer.completed now before)
      fun _ _ => False := by
  refine .bind (fun _ tables => tables = writer.stored before)
    (storeBuffer_works fun _ same => congrArg writer.stored same) fun _ => ?_
  refine .bind (fun _ tables => tables = writer.completed now before)
    (.update fun _ same => by rw [same]; rfl) fun _ => ?_
  refine .bind (fun found tables => found = some entry ∧ tables = writer.completed now before)
    (.query fun tables same => ⟨by rw [same, found], same⟩) fun row => ?_
  refine .require (fun value isRow tables after => ⟨?_, after.2⟩) fun isRow tables after => ?_
  · exact Option.some.inj (isRow.symm.trans after.1)
  · cases isRow.symm.trans after.1

/-- A file contains the bytes that went through its writer when this is closed. -/
theorem Feeds.completed
    (feeds : writer.Feeds file start written store)
    (now : Int) :
    (writer.completed now store.tables).Contains file written ∧
      Beside (· = file) start (writer.completed now store.tables) := by
  obtain ⟨done, writes, rfl⟩ := feeds.writes
  obtain rfl := feeds.isFile
  obtain ⟨old, found⟩ := feeds.row
  obtain ⟨ordered, entries, beside⟩ := writes.stored_beside feeds.ordered
  obtain ⟨laid, bytes, -⟩ := writes.pieces_stored feeds.ordered
  have place := feeds.position_eq
  have stillFound : Tables.entry? (writer.stored store.tables) writer.fileId = some old := by
    unfold Tables.entry?
    rw [entries]
    exact found
  have recorded :
      Tables.entry? (writer.completed now store.tables) writer.fileId =
        some { old with
          length := writer.position, lastModified := now,
          checksum := some (Checksum.finish writer.digest) } :=
    entry?_modifyEntry (fun _ => rfl) stillFound
  have digest : Checksum.finish writer.digest = Checksum.ofData (bytesOf done ++ writer.buffer) := by
    rw [writes.digest]
    rfl
  refine ⟨⟨⟨_, recorded, place, ?_⟩, laid, bytes⟩, ?_⟩
  · rw [digest]
  · exact (feeds.beside.trans beside).trans (beside_modifyEntry _ _ fun _ => rfl)

/-- The close of an open writer ends as its completion does, and lets the lock go. -/
theorem runOn_finish
    {now : Int}
    {outcome : Except Fault Entry}
    {left : Store}
    (open_ : writer.isClosed = false)
    (ran :
      (Action.streaming (complete now { writer with watchdog := none })).runOn store =
        (outcome, left)) :
    ∃ guard after,
      (finish now).runOn writer store =
        (outcome, after, { left with locks := left.locks.release guard }) := by
  obtain ⟨guard, held⟩ := guard_of_open open_
  have noResult : writer.result = none := by
    simp only [isClosed, Bool.or_eq_false_iff] at open_
    simpa using open_.1
  refine ⟨guard, { writer with watchdog := none, guard := none, result := outcome.toOption }, ?_⟩
  rw [held, noResult] at ran
  rw [finish, close, runOn_bind, runOn_change]
  dsimp only
  rw [runOn_bind, runOn_current]
  dsimp only
  rw [noResult, held]
  dsimp only
  rw [runOn_bind, runOn_attempt, runOn_onStore, ran]
  cases outcome <;> rfl

/-- A close succeeds, and leaves the file with the bytes that went through the writer. -/
theorem Feeds.finished
    (feeds : writer.Feeds file start written store)
    (now : Int) :
    ∃ entry left after,
      (finish now).runOn writer store = (.ok entry, left, after) ∧
        after.Idle ∧ after.tables.entry? file = some entry ∧
          after.tables.Contains file written ∧ Beside (· = file) start after.tables := by
  obtain ⟨contains, beside⟩ := feeds.completed now
  obtain ⟨entry, found, -, -⟩ := contains.row
  have isFile := feeds.isFile
  obtain ⟨value, after, ran, idle, -, -, rfl, tables⟩ :=
    (@complete_records { writer with watchdog := none } (store.setting fun _ => False)
      store.tables now entry (by rw [← isFile] at found; exact found)).runs_streaming feeds.idle .idle rfl
  have isCompleted : after.tables = writer.completed now store.tables := tables
  obtain ⟨guard, left, finished⟩ := runOn_finish feeds.open_ ran
  refine ⟨value, left, _, finished, ?_, ?_, ?_, ?_⟩
  · exact ⟨idle.toSteady.withLocks (idle.sane.release guard), idle.outside, idle.opened⟩
  · rw [isCompleted]
    exact found
  · rw [isCompleted]
    exact contains
  · rw [isCompleted]
    exact beside

end Writer

end VersionStore
