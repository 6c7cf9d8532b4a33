import VersionStore.Proofs.Store.Standing
import VersionStore.Proofs.Stream.Starting

namespace VersionStore

/-!
# Files that are extended

A writer that goes on behind the bytes of a file extends them, however the parts of the file lie:
after other writers that went on past their locks these may leave gaps or lie on top of each other.
What is read of the file after the close is what was read before, and then all that went through
the writer.
-/

open Tables

/-- Storing parts of one file leaves all others alone. -/
theorem Tables.Refills.beside
    {before after : Tables}
    {file : Int}
    (refills : Refills file before after) :
    Beside (· = file) before after where
  rows entry _ := by rw [refills.entries]
  pieces := refills.pieces

namespace Writer

variable
  {writer : Writer}
  {tables : Tables}
  {done parts : List Part}

/-- What a writer that is open knows about the parts of its file, however they lie. All of them lie
before its own place, but for one that it may go on with; the bytes of this one are in the
buffer. -/
structure Trails (writer : Writer) (done parts : List Part) : Prop where
  behind : ∀ part ∈ done, part.offset ≤ writer.offset
  digest : writer.digest = Sha256.Digest.empty.update (bytesOf done ++ writer.buffer)
  fits : writer.buffer.size ≤ partSize
  last :
    match writer.tail with
    | none => parts = done
    | some id =>
        ∃ last,
          parts = done ++ [last] ∧ last.id = id ∧ last.offset = writer.offset ∧
            last.data.size ≤ writer.buffer.size

namespace Trails

/-- Bytes that go into the buffer come behind those that were written. -/
theorem buffered
    (trails : writer.Trails done parts)
    {data : ByteArray}
    (room : writer.buffer.size + data.size ≤ partSize) :
    (writer.buffered data).Trails done parts := by
  refine ⟨trails.behind, ?_, ?_, ?_⟩
  · change writer.digest.update data = Sha256.Digest.empty.update (_ ++ (writer.buffer ++ data))
    rw [trails.digest, ← Sha256.Digest.update_append, ByteArray.append_assoc]
  · change (writer.buffer ++ data).size ≤ partSize
    rwa [ByteArray.size_append]
  · have last := trails.last
    change
      match writer.tail with
      | none => _ = done
      | some id =>
          ∃ last,
            _ = done ++ [last] ∧ last.id = id ∧ last.offset = writer.offset ∧
              last.data.size ≤ (writer.buffer ++ data).size
    cases isTail : writer.tail with
    | none =>
        rwa [isTail] at last
    | some id =>
        rw [isTail] at last
        obtain ⟨last, isLast, isId, offset, shorter⟩ := last
        refine ⟨last, isLast, isId, offset, ?_⟩
        rw [ByteArray.size_append]
        omega

/-- An empty buffer leaves nothing to be stored. -/
theorem of_empty
    (trails : writer.Trails done parts)
    (isEmpty : writer.buffer = .empty) :
    bytesOf parts = bytesOf done ∧ ∀ part ∈ parts, part.offset ≤ writer.offset := by
  have last := trails.last
  cases isTail : writer.tail with
  | none =>
      rw [isTail] at last
      subst last
      exact ⟨rfl, trails.behind⟩
  | some id =>
      rw [isTail] at last
      obtain ⟨last, rfl, -, offset, shorter⟩ := last
      have bare : last.data = .empty := by
        rw [isEmpty] at shorter
        exact ByteArray.size_eq_zero_iff.mp (Nat.le_zero.mp shorter)
      refine ⟨by rw [bytesOf_append, bytesOf_singleton, bare, ByteArray.append_empty], ?_⟩
      intro part member
      rcases List.mem_append.mp member with member | member
      · exact trails.behind part member
      · rw [List.mem_singleton.mp member, offset]

/-- Once the buffer is stored, what is read is all that was written. No part lies behind the
buffer, and parts that were stored in the order of their places go on to be. -/
theorem stored
    (trails : writer.Trails done (tables.partsOf writer.fileId))
    (ordered : tables.Ordered) :
    bytesOf ((writer.stored tables).partsOf writer.fileId) = bytesOf done ++ writer.buffer ∧
      (∀ part ∈ (writer.stored tables).partsOf writer.fileId, part.offset ≤ writer.offset) ∧
        (tables.partsOf writer.fileId = tables.pieces writer.fileId →
          (writer.stored tables).partsOf writer.fileId =
            (writer.stored tables).pieces writer.fileId) := by
  by_cases isEmpty : writer.buffer.isEmpty = true
  · have none_ : writer.buffer = .empty := by
      simpa [ByteArray.isEmpty, ByteArray.size_eq_zero_iff] using isEmpty
    obtain ⟨bytes, behind⟩ := trails.of_empty none_
    rw [Writer.stored, if_pos isEmpty, none_, ByteArray.append_empty]
    exact ⟨bytes, behind, id⟩
  have last := trails.last
  rw [Writer.stored, if_neg isEmpty]
  cases isTail : writer.tail with
  | none =>
      rw [isTail] at last
      have behind : ∀ part ∈ tables.partsOf writer.fileId, part.offset ≤ writer.offset := by
        rw [last]
        exact trails.behind
      dsimp only
      rw [partsOf_addPart behind, last]
      refine ⟨by rw [bytesOf_append, bytesOf_singleton], fun part member => ?_, fun inOrder => ?_⟩
      · rcases List.mem_append.mp member with member | member
        · exact trails.behind part member
        · exact Int.le_of_eq (congrArg Part.offset (List.mem_singleton.mp member))
      · unfold addPart
        rw [Carries.pieces_concat, if_pos rfl, ← inOrder]
  | some id =>
      rw [isTail] at last
      obtain ⟨last, isLast, rfl, offset, -⟩ := last
      have apart : ∀ part ∈ done, part.id ≠ last.id := by
        have ids : ((tables.partsOf writer.fileId).map (·.id)).Nodup := by
          refine ((List.mergeSort_perm _ _).map _).nodup_iff.mpr ?_
          exact (ordered.parts.sublist (List.filter_sublist.map _)).imp Int.ne_of_lt
        rw [isLast, List.map_append, List.nodup_append] at ids
        intro part member
        exact ids.2.2 part.id (List.mem_map_of_mem member) last.id (by simp)
      dsimp only
      rw [partsOf_replacePart, pieces_replacePart_eq]
      refine ⟨?_, ?_, fun inOrder => by rw [inOrder]⟩
      all_goals
        rw [isLast, List.map_append, List.map_singleton, if_pos rfl,
          List.map_congr_left fun part member => if_neg (apart part member), List.map_id']
      · rw [bytesOf_append, bytesOf_singleton]
      · intro part member
        rcases List.mem_append.mp member with member | member
        · exact trails.behind part member
        · rw [List.mem_singleton.mp member, offset]

/-- A full buffer that was stored is one more part behind the writer. -/
theorem emptied
    (trails : writer.Trails done (tables.partsOf writer.fileId))
    (ordered : tables.Ordered)
    (isFull : writer.buffer.size = partSize) :
    writer.emptied.Trails ((writer.stored tables).partsOf writer.fileId)
      ((writer.stored tables).partsOf writer.fileId) := by
  obtain ⟨bytes, behind, -⟩ := trails.stored ordered
  refine ⟨fun part member => ?_, ?_, Nat.zero_le _, ?_⟩
  · have earlier := behind part member
    change part.offset ≤ writer.offset + writer.buffer.size
    omega
  · change writer.digest = Sha256.Digest.empty.update (_ ++ ByteArray.empty)
    rw [bytes, ByteArray.append_empty]
    exact trails.digest
  · have some_ : writer.buffer.isEmpty = false := by
      have positive := partSize_pos
      rw [← isFull] at positive
      simpa [ByteArray.isEmpty] using positive.ne'
    rw [Writer.emptied, some_]
    rfl

/-- A writer on a new file has no parts behind it. -/
theorem fresh
    (path : String)
    (fileId : Int)
    (guard : Guard) :
    (fresh path fileId guard).Trails [] [] where
  behind _ member := absurd member List.not_mem_nil
  digest := (Sha256.Digest.update_empty _).symm
  fits := Nat.zero_le _
  last := rfl

/-- A writer that goes on behind some parts has them behind it, but for a last one that has room.
The bytes of this one are in the buffer. -/
theorem resuming
    (inOrder : parts.Pairwise fun first second => offsetLe first second = true)
    (path : String)
    (fileId : Int)
    (guard : Guard) :
    ∃ done,
      (resuming path fileId guard (parts.map Part.content)).Trails done parts ∧
        bytesOf done ++ (resuming path fileId guard (parts.map Part.content)).buffer =
          bytesOf parts := by
  have digest := foldl_update_content parts Sha256.Digest.empty
  rcases List.eq_nil_or_concat parts with rfl | ⟨front, last, rfl⟩
  · exact ⟨[], .fresh path fileId guard, rfl⟩
  rw [List.concat_eq_append] at inOrder digest ⊢
  have lower : ∀ part ∈ front, part.offset ≤ last.offset := fun part member =>
    of_decide_eq_true ((List.pairwise_append.mp inOrder).2.2 part member last (by simp))
  have isLast : ((front ++ [last]).map Part.content).getLast? = some last.content := by
    simp
  unfold Writer.resuming
  dsimp only
  rw [digest, isLast]
  dsimp only
  split
  · rename_i short
    refine ⟨front, ⟨lower, ?_, Nat.le_of_lt short, last, rfl, rfl, rfl, Nat.le_refl _⟩, ?_⟩
    · change _ = Sha256.Digest.empty.update (bytesOf front ++ last.data)
      rw [bytesOf_append, bytesOf_singleton]
    · rw [bytesOf_append, bytesOf_singleton]
      rfl
  · refine ⟨front ++ [last], ⟨fun part member => ?_, ?_, Nat.zero_le _, rfl⟩,
      ByteArray.append_empty⟩
    · change part.offset ≤ last.offset + last.data.size
      rcases List.mem_append.mp member with member | member
      · have before := lower part member
        omega
      · rw [List.mem_singleton.mp member]
        omega
    · change _ = Sha256.Digest.empty.update (_ ++ ByteArray.empty)
      rw [ByteArray.append_empty]

end Trails

/-! ## Along the writes -/

/-- The part that a writer goes on with is one of its file. -/
theorem Trails.partOf
    (trails : writer.Trails done (tables.partsOf writer.fileId))
    (ordered : tables.Ordered)
    {id : Int}
    (isTail : writer.tail = some id) :
    tables.PartOf id writer.fileId := by
  have last := trails.last
  rw [isTail] at last
  obtain ⟨last, isLast, rfl, -⟩ := last
  obtain ⟨member, isFile⟩ := mem_partsOf_iff.mp
    (isLast ▸ List.mem_append_right done (List.mem_singleton_self last))
  rw [← isFile]
  exact ordered.partOf member

/-- A writer that is open on a store, behind which some bytes of its file are read. Since the
writer was opened nothing but the parts of the file has changed, and its place and the number of
bytes are as far apart as at first. -/
structure Adds (strict : Prop) (known : List Entry) (file : Int) (start : Store) (gap : Int)
    (written : ByteArray) (writer : Writer) (store : Store) : Prop where
  holds : store = start.holding store.tables store.locks
  sane : store.locks.Sane
  open_ : writer.isClosed = false
  isFile : writer.fileId = file
  given : file ≤ store.tables.lastEntryId
  sound : store.tables.Sound strict known
  refills : Refills file start.tables store.tables
  trails :
    ∃ done,
      writer.Trails done (store.tables.partsOf file) ∧ bytesOf done ++ writer.buffer = written
  place : writer.position = gap + written.size
  inOrder :
    start.tables.partsOf file = start.tables.pieces file →
    store.tables.partsOf file = store.tables.pieces file

namespace Adds

variable
  {strict : Prop}
  {known : List Entry}
  {file gap : Int}
  {start store : Store}
  {written : ByteArray}

/-- What a writer adds to stands open as it did at first. -/
theorem standing
    (adds : writer.Adds strict known file start gap written store)
    (standing : start.Standing) :
    store.Standing := by
  rw [adds.holds]
  exact standing.holding adds.sane

/-- Storing the buffer changes the parts of the file alone. -/
theorem refilled
    (adds : writer.Adds strict known file start gap written store) :
    Refills file store.tables (writer.stored store.tables) := by
  obtain ⟨done, trails, -⟩ := adds.trails
  obtain rfl := adds.isFile
  exact stored_refills adds.refills.numbered adds.given fun _ isTail =>
    trails.partOf adds.refills.numbered.toOrdered isTail

/-- A full buffer is stored. -/
theorem emptied
    (adds : writer.Adds strict known file start gap written store)
    (standing : start.Standing)
    (full : writer.buffer.size = partSize) :
    ∃ left,
      (Action.streaming (storeBuffer writer)).runOn store = (.ok ⟨⟩, left) ∧
        writer.emptied.Adds strict known file start gap written left := by
  have works :=
    (@storeBuffer_works writer (store.setting fun _ => False) (· = store.tables)
      (· = writer.stored store.tables) (fun _ _ => False)
      fun _ same => congrArg writer.stored same).both (@storeBuffer_keeps _ strict known writer)
  obtain ⟨⟨⟩, _, locks, ran, sane, rfl, sound⟩ :=
    (adds.standing standing).streams
      (works.weaken (fun _ before => before) (fun _ _ after => after) fun _ _ failed => failed.1)
      .idle ⟨rfl, adds.sound⟩
  have refilled := adds.refilled
  obtain ⟨done, trails, bytes⟩ := adds.trails
  obtain rfl := adds.isFile
  have ordered := adds.refills.numbered.toOrdered
  obtain ⟨isStored, -, inOrder⟩ := trails.stored ordered
  refine ⟨_, ran, ?_, sane, adds.open_, rfl, ?_, sound, ?_, ?_, ?_, fun isFirst => ?_⟩
  · conv_lhs => rw [adds.holds]
    rfl
  · exact refilled.given ▸ adds.given
  · exact adds.refills.trans refilled
  · refine ⟨_, trails.emptied ordered full, ?_⟩
    exact ByteArray.append_empty.trans (isStored.trans bytes)
  · change writer.offset + writer.buffer.size + (0 : Nat) = _
    rw [← adds.place, position]
    omega
  · exact inOrder (adds.inOrder isFirst)

/-- What is added by a writer is taken in. -/
theorem absorbs
    (standing : start.Standing) :
    Absorbs (Adds strict known file start gap) where
  steady adds := (adds.standing standing).toSteady
  open_ adds := adds.open_
  fits adds := by
    obtain ⟨done, trails, -⟩ := adds.trails
    exact trails.fits
  watched watchdog adds := by
    obtain ⟨done, ⟨behind, digest, fits, last⟩, bytes⟩ := adds.trails
    exact ⟨adds.holds, adds.sane, adds.open_, adds.isFile, adds.given, adds.sound, adds.refills,
      ⟨done, ⟨behind, digest, fits, last⟩, bytes⟩, adds.place, adds.inOrder⟩
  buffered := by
    intro written data writer store adds room
    obtain ⟨done, trails, rfl⟩ := adds.trails
    refine ⟨adds.holds, adds.sane, adds.open_, adds.isFile, adds.given, adds.sound, adds.refills,
      ⟨done, trails.buffered room, ByteArray.append_assoc.symm⟩, ?_, adds.inOrder⟩
    have place := adds.place
    rw [position] at place
    change writer.offset + (writer.buffer ++ data).size = _
    simp only [ByteArray.size_append] at place ⊢
    omega
  emptied adds full := adds.emptied standing full

end Adds

end Writer

/-! ## The opening -/

/-- Nothing is at a path where room was made. -/
theorem Txn.Room.missing
    {strict : Prop}
    {known : List Entry}
    {before room : Tables}
    {path : CleanPath}
    {id : Int}
    (isRoom : Txn.Room strict known before path id room) :
    room.lookupAt? path = none := by
  obtain ⟨names, name, whole, above, -⟩ := Txn.exists_names_of_not_isRoot isRoom.proper
  have away : ¬path.names <+: path.dropLast.names := by
    rw [whole, above]
    exact Sights.not_prefix_of_concat names name
  have nothing : room.sights path = none := by
    rw [isRoom.seen, Sights.lead_elsewhere away, Sights.set_self]
  exact Option.map_eq_none_iff.mp nothing

/-- Parts and entries go on to be numbered when an entry gets the next number. -/
theorem Tables.Numbered.createEntry
    {tables : Tables}
    (numbered : tables.Numbered)
    (directory : Int)
    (name : String)
    (isDirectory : Bool)
    (modified : Int) :
    (tables.createEntry directory name isDirectory modified).2.Numbered where
  toOrdered := ⟨numbered.parts, numbered.part_le⟩
  file_le part member := (numbered.file_le part member).trans (Int.le_of_lt (Int.lt_succ _))
  entry_le entry member := by
    rcases List.mem_append.mp member with old | new
    · exact (numbered.entry_le entry old).trans (Int.le_of_lt (Int.lt_succ _))
    · rw [List.mem_singleton.mp new]
      exact Int.le_refl _

/-- No parts lie in a row. -/
theorem Tables.laidFrom_of_eq_nil
    {parts : List Part}
    (none_ : parts = []) :
    LaidFrom 0 parts := by
  rw [none_]
  trivial

/-- The row of a file that is just begun. -/
def Tables.nextFile (tables : Tables) (directory : Int) (name : String) (modified : Int) : Entry :=
  { freshEntry directory name false modified with id := tables.lastEntryId + 1 }

/-- A file that is just begun is made as one without bytes. -/
theorem Tables.made_nextFile
    (room : Tables)
    (directory : Int)
    (name : String)
    (modified : Int)
    {after : Tables}
    (isCreated : after = (room.createEntry directory name false modified).2) :
    Made room directory name (after.versionOf (room.nextFile directory name modified))
      (room.nextFile directory name modified) after := by
  subst isCreated
  exact
    { toBeside := beside_createEntry room directory name false modified
      isNew := rfl
      member := List.mem_append_right _ (List.mem_singleton_self _)
      held := rfl
      called := rfl
      live := rfl
      isFile := rfl
      seen := rfl }

namespace Writer

open VersionStore.Action

/-- A writer was just opened on a file, behind the bytes that are read of it. Where these lie in a
row the place of the writer is their number. -/
structure Joins (strict : Prop) (known : List Entry) (row : Entry) (store : Store)
    (writer : Writer) : Prop where
  found : store.tables.entry? row.id = some row
  adds :
    ∃ gap,
      writer.Adds strict known row.id store gap (bytesOf (store.tables.partsOf row.id)) store ∧
        (LaidFrom 0 (store.tables.pieces row.id) → gap = 0)

variable
  {strict : Prop}
  {known : List Entry}
  {store : Store}
  {tables : Tables}
  {locks : LockTable}
  {text : String}
  {path : CleanPath}
  {row : Entry}
  (now : Int)

/-- A writer that goes on behind the parts of a file was opened behind its bytes. -/
theorem joins_resuming
    (standing : (store.holding tables locks).Standing)
    (member : row ∈ tables.entries)
    (sound : tables.Sound strict known)
    (numbered : tables.Numbered)
    (text : String)
    (guard : Guard)
    (watchdog : Option Watchdog) :
    Joins strict known row (store.holding tables locks)
      { resuming text row.id guard ((tables.partsOf row.id).map Part.content) with watchdog } := by
  refine ⟨sound.coherent.entry?_eq_some_iff.mpr ⟨member, rfl⟩, ?_⟩
  generalize isWriter :
    resuming text row.id guard ((tables.partsOf row.id).map Part.content) = writer
  obtain ⟨done, trails, bytes⟩ :=
    Trails.resuming (pairwise_partsOf tables row.id) text row.id guard
  rw [isWriter] at trails bytes
  have adds :
      writer.Adds strict known row.id (store.holding tables locks)
        (writer.position - (bytesOf (tables.partsOf row.id)).size)
        (bytesOf (tables.partsOf row.id)) (store.holding tables locks) :=
    { holds := rfl
      sane := standing.sane
      open_ := isWriter ▸ resuming_isClosed _ _ _ _
      isFile := isWriter ▸ resuming_fileId _ _ _ _
      given := numbered.entry_le row member
      sound := sound
      refills := ⟨rfl, rfl, numbered, fun _ _ => rfl⟩
      trails := ⟨done, trails, bytes⟩
      place := by omega
      inOrder := id }
  refine ⟨_, (Adds.absorbs standing).watched watchdog adds, fun laid => ?_⟩
  have laid : LaidFrom 0 (tables.partsOf row.id) := (partsOf_eq_pieces laid).symm ▸ laid
  obtain ⟨done, writes, bytes⟩ := writes_resuming laid text row.id guard
  rw [isWriter] at writes bytes
  rw [position, writes.offset, ← bytes, ByteArray.size_append]
  omega

/-- What opens a writer in a scope opens one at a path text. -/
theorem openPath_opens
    (standing : store.Standing)
    (isPath : CleanPath.ofText text = .ok path)
    {free : Int → Prop}
    (grants : store.locks.Grants free)
    {post : Writer → Tables → Prop}
    (retains :
      Retains (store.setting fun _ => False) free (· = store.tables) (start now path true) post) :
    ∃ writer watchdog tables locks,
      (openPath now text true).runOn store =
          (.ok { writer with watchdog }, store.holding tables locks) ∧
        locks.Sane ∧ post writer tables := by
  obtain ⟨writer, tables, locks, ran, sane, after⟩ := standing.retains retains .idle grants rfl
  refine ⟨writer, Watchdog.ofStore? (store.holding tables locks), tables, locks, ?_, sane, after⟩
  rw [openPath, runOn_bind, Txn.clean, runOn_ofExcept, isPath]
  dsimp only
  rw [runOn_bind, standing.writing_eq, ran]
  rfl

/-- What cannot be written to is a directory, or a file that someone else has open. -/
theorem openPath_refused
    (standing : store.Standing)
    (isPath : CleanPath.ofText text = .ok path)
    (found : store.tables.lookupAt? path = some row)
    (refused : row.isDirectory = true ∨ store.locks.gives row.id true = false) :
    ∃ fault locks,
      (openPath now text true).runOn store = (.error fault, store.holding store.tables locks) ∧
        locks.Sane := by
  have decides :
      Decides (store.setting fun _ => False) store.locks.gives (· = store.tables)
        (start now path true) False fun _ _ => False := by
    refine .known _ _ (Txn.entryAt?_known path) ?_
    rw [found]
    simp only [throw_bind]
    by_cases isDirectory : row.isDirectory = true
    · rw [if_pos isDirectory]
      exact .throw id
    · rw [if_neg isDirectory, if_pos trivial]
      exact .lockId_refused (refused.resolve_left isDirectory)
  obtain ⟨absurd, -⟩ | ⟨-, fault, locks, ran, same⟩ := standing.decides decides .idle rfl
  · exact absurd.elim
  · refine ⟨fault, locks, ?_, same.sane standing.sane⟩
    rw [openPath, runOn_bind, Txn.clean, runOn_ofExcept, isPath]
    dsimp only
    rw [runOn_bind, standing.writing_eq, ran]

/-- A file that no one has open is extended. -/
theorem openPath_extends
    (standing : store.Standing)
    (isPath : CleanPath.ofText text = .ok path)
    (here : store.tables.FileAt path row)
    (grants : store.locks.Grants (· = row.id))
    (sound : store.tables.Sound strict known)
    (numbered : store.tables.Numbered) :
    ∃ writer locks,
      (openPath now text true).runOn store = (.ok writer, store.holding store.tables locks) ∧
        locks.Sane ∧ Joins strict known row (store.holding store.tables locks) writer := by
  obtain ⟨_, watchdog, _, locks, ran, sane, ⟨guard, rfl⟩, rfl⟩ :=
    openPath_opens now standing isPath grants (start_resumes now here.found here.isFile rfl)
  rw [numbered.toOrdered.contents_eq_map] at ran
  exact ⟨_, locks, ran, sane, joins_resuming (standing.holding sane)
    (List.mem_of_find?_eq_some here.found) sound numbered _ guard watchdog⟩

/-- Where there is room for a file a new one is begun. -/
theorem openPath_begins
    (standing : store.Standing)
    (isPath : CleanPath.ofText text = .ok path)
    {before : Tables}
    {directory : Int}
    (isRoom : Txn.Room strict known before path directory store.tables)
    (numbered : store.tables.Numbered)
    (grants : store.locks.Grants (· = store.tables.lastEntryId + 1)) :
    let row := store.tables.nextFile directory path.name now
    ∃ writer tables locks,
      (openPath now text true).runOn store = (.ok writer, store.holding tables locks) ∧
        locks.Sane ∧
          Made store.tables directory path.name (tables.versionOf row) row tables ∧
          tables.pieces row.id = [] ∧ tables.Sound strict known ∧
          Joins strict known row (store.holding tables locks) writer := by
  intro row
  obtain ⟨holder, here, rfl⟩ := isRoom.here
  have found := isRoom.sound.coherent.lookupAt?_eq_some_iff.mpr here
  obtain ⟨live, isLive, same⟩ := isRoom.vacant.placed
  have isDirectory : holder.isDirectory = true := by
    rw [← isRoom.sound.coherent.entry_eq isLive.member here.member same]
    exact isLive.isDirectory
  have isParent : path.parent? = some path.dropLast := by
    rw [CleanPath.parent?, if_neg isRoom.proper]
  obtain ⟨_, watchdog, tables, locks, ran, sane, ⟨guard, rfl⟩, isCreated⟩ :=
    openPath_opens now standing isPath grants
      (start_creates now true isRoom.missing isParent found isDirectory rfl)
  have made := made_nextFile store.tables holder.id path.name now isCreated
  have none_ : tables.pieces row.id = [] := by
    rw [isCreated]
    exact numbered.pieces_eq_nil (Int.lt_succ _)
  have sound : tables.Sound strict known := by
    rw [isCreated]
    exact isRoom.sound.createFile isRoom.vacant now
  have numberedAfter : tables.Numbered := by
    rw [isCreated]
    exact numbered.createEntry holder.id path.name false now
  have joins :=
    joins_resuming (standing.holding sane) made.member sound numberedAfter path.text guard watchdog
  have noParts : tables.partsOf row.id = [] :=
    (partsOf_eq_pieces (laidFrom_of_eq_nil none_)).trans none_
  rw [noParts] at joins
  exact ⟨_, tables, locks, ran, sane, made, none_, sound, joins⟩

end Writer

/-! ## The close -/

/-- What is left of a file that was extended: a row, and what is read of its parts. Other files are
as they were. -/
structure Tables.Lengthened (start : Tables) (strict : Prop) (known : List Entry) (row : Entry)
    (written : ByteArray) (tables : Tables) : Prop
    extends Beside (· = row.id) start tables where
  sound : tables.Sound strict known
  member : row ∈ tables.entries
  bytes : bytesOf (tables.partsOf row.id) = written
  inOrder :
    start.partsOf row.id = start.pieces row.id →
    tables.partsOf row.id = tables.pieces row.id

/-- A row after the close of a writer. -/
def Entry.closed (row : Entry) (gap now : Int) (written : ByteArray) : Entry :=
  { row with
    length := gap + written.size
    lastModified := now
    checksum := some (Checksum.ofData written) }

namespace Writer

variable
  {writer : Writer}
  {strict : Prop}
  {known : List Entry}
  {gap : Int}
  {start store : Store}
  {written : ByteArray}
  {row : Entry}

/-- The row of the file once the length, the time and the checksum are recorded. -/
theorem Adds.recorded
    (adds : writer.Adds strict known row.id start gap written store)
    (found : start.tables.entry? row.id = some row)
    (now : Int) :
    Tables.entry? (writer.completed now store.tables) row.id =
      some (row.closed gap now written) := by
  obtain ⟨done, trails, bytes⟩ := adds.trails
  have stillFound : Tables.entry? (writer.stored store.tables) row.id = some row := by
    unfold Tables.entry?
    rw [adds.refilled.entries, adds.refills.entries]
    exact found
  rw [Writer.completed, adds.isFile, adds.place, trails.digest, bytes]
  exact entry?_modifyEntry (fun _ => rfl) stillFound

/-- The file is as long as is recorded, and is read as what went through the writer. -/
theorem Adds.lengthened
    (adds : writer.Adds strict known row.id start gap written store)
    (found : start.tables.entry? row.id = some row)
    (now : Int)
    (sound : (writer.completed now store.tables).Sound strict known) :
    start.tables.Lengthened strict known (row.closed gap now written) written
      (writer.completed now store.tables) := by
  have refills := adds.refills.trans adds.refilled
  have isRecorded := adds.recorded found now
  obtain ⟨done, trails, rfl⟩ := adds.trails
  have isFile := adds.isFile
  rw [← isFile] at trails
  obtain ⟨bytes, -, inOrder⟩ := trails.stored adds.refills.numbered.toOrdered
  refine ⟨?_, sound, List.mem_of_find?_eq_some isRecorded, ?_, fun isFirst => ?_⟩
  · refine refills.beside.trans ?_
    rw [Writer.completed, isFile]
    exact beside_modifyEntry _ _ fun _ => rfl
  · rw [isFile] at bytes
    exact bytes
  · rw [isFile] at inOrder
    exact inOrder (adds.inOrder isFirst)

/-- The close of a writer succeeds. What was read of its file is followed by what went through the
writer, and the row that is given says so. -/
theorem Adds.finished
    (adds : writer.Adds strict known row.id start gap written store)
    (standing : start.Standing)
    (found : start.tables.entry? row.id = some row)
    (now : Int) :
    ∃ after tables locks,
      (finish now).runOn writer store =
          (.ok (row.closed gap now written), after, start.holding tables locks) ∧
        locks.Sane ∧
          start.tables.Lengthened strict known (row.closed gap now written) written tables := by
  have isRecorded := adds.recorded found now
  rw [← adds.isFile] at isRecorded
  have works :=
    (@complete_records { writer with watchdog := none } (store.setting fun _ => False)
      store.tables now _ isRecorded).both (@complete_keeps _ strict known now _)
  obtain ⟨_, _, locks, ran, sane, ⟨rfl, rfl⟩, sound⟩ :=
    (adds.standing standing).streams
      (works.weaken (fun _ before => before) (fun _ _ after => after) fun _ _ failed => failed.1)
      .idle ⟨rfl, adds.sound⟩
  obtain ⟨guard, after, finished⟩ := runOn_finish adds.open_ ran
  have isLeft :
      ({ store.holding (writer.completed now store.tables) locks with
        locks := locks.release guard } : Store) =
        start.holding (writer.completed now store.tables) (locks.release guard) := by
    conv_lhs => rw [adds.holds]
    rfl
  exact ⟨after, writer.completed now store.tables, locks.release guard,
    finished.trans (congrArg (fun left => (_, after, left)) isLeft), sane.release guard,
    adds.lengthened found now sound⟩

/-- A writer that is dropped while it is open is closed. -/
theorem runOn_dispose
    (open_ : writer.isClosed = false)
    (now : Int)
    (store : Store) :
    (dispose now).runOn writer store = (.ok ⟨⟩, ((finish now).runOn writer store).2) := by
  rw [dispose, StreamAction.runOn_bind, StreamAction.runOn_current]
  dsimp only
  rw [open_]
  rfl

end Writer

end VersionStore
