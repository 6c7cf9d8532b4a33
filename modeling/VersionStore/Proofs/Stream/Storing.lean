import VersionStore.Proofs.Content.PlaceOrder
import VersionStore.Proofs.Stream.Enduring

namespace VersionStore

/-!
# What writers store

A writer that is open has put some full parts behind it and holds the bytes that come next
in its buffer. When it went on with a file whose last part was not full, that part is still
there as it was, and the buffer begins with its bytes. What is recorded at the close is what
all the parts come to then.
-/

open Tables

namespace Tables

variable
  {before after : Tables}
  {busy busy' : Int → Prop}
  {file id : Int}

/-- What the storing of parts of one file leaves alone. -/
structure Refills (file : Int) (before after : Tables) : Prop where
  entries : after.entries = before.entries
  given : after.lastEntryId = before.lastEntryId
  numbered : after.Numbered
  pieces : ∀ id, id ≠ file → after.pieces id = before.pieces id

/-- What is left alone twice is left alone. -/
theorem Refills.trans
    {middle : Tables}
    (first : Refills file before middle)
    (second : Refills file middle after) :
    Refills file before after where
  entries := second.entries.trans first.entries
  given := second.given.trans first.given
  numbered := second.numbered
  pieces id other := (second.pieces id other).trans (first.pieces id other)

/-- More files may be left out. -/
theorem Filed.leaving
    (filed : before.Filed busy)
    (more : ∀ id, busy id → busy' id) :
    before.Filed busy' where
  toNumbered := filed.toNumbered
  stored entry member idle := filed.stored entry member fun isBusy => idle (more _ isBusy)

/-- Files that no one stores parts of stay filed. -/
theorem Filed.refilled
    (filed : before.Filed busy)
    (refills : Refills file before after)
    (isBusy : busy file) :
    after.Filed busy where
  toNumbered := refills.numbered
  stored entry member idle := by
    rw [refills.entries] at member
    refine (filed.stored entry member idle).congr (.refl entry) (refills.pieces _ ?_)
    rintro rfl
    exact idle isBusy

end Tables

namespace Writer

variable
  {writer : Writer}
  {tables after base : Tables}
  {done : List Part}

/-- What a writer that is open knows about the parts of its file. Behind those that are full
there may be one that it goes on with; the bytes of this one are in the buffer. -/
structure Writes (writer : Writer) (done pieces : List Part) : Prop where
  laid : LaidFrom 0 done
  full : ∀ part ∈ done, part.data.size = partSize
  offset : writer.offset = (bytesOf done).size
  digest : writer.digest = Sha256.Digest.empty.update (bytesOf done ++ writer.buffer)
  fits : writer.buffer.size ≤ partSize
  last :
    match writer.tail with
    | none => pieces = done
    | some id =>
        0 < writer.buffer.size ∧
          ∃ last, pieces = done ++ [last] ∧ last.id = id ∧ last.offset = writer.offset

/-- What a writer that is open knows about its file, as long as this has a row. -/
structure Tracks (writer : Writer) (tables : Tables) : Prop where
  given : writer.fileId ≤ tables.lastEntryId
  row :
    ∀ entry ∈ tables.entries,
      entry.id = writer.fileId →
      entry.isDirectory = false ∧ ∃ done, writer.Writes done (tables.pieces writer.fileId)

/-- The tables once the buffer is stored. -/
def stored (writer : Writer) (tables : Tables) : Tables :=
  if writer.buffer.isEmpty then tables
  else
    match writer.tail with
    | some id => tables.replacePart id writer.buffer
    | none => (tables.addPart writer.fileId writer.offset writer.buffer).2

/-- Storing the buffer is that change. -/
theorem storeBuffer_works
    {setting : Setting}
    {pre post : Tables → Prop}
    {failed : Fault → Tables → Prop}
    (holds : ∀ tables, pre tables → post (writer.stored tables)) :
    Action.Works setting pre (storeBuffer writer) (fun _ => post) failed := by
  refine .ite (fun isEmpty => .pure fun tables before => ?_) fun some_ => ?_
  · simpa [stored, isEmpty] using holds tables before
  · cases isTail : writer.tail with
    | some id =>
        exact .update fun tables before => by simpa [stored, some_, isTail] using holds tables before
    | none =>
        exact .update fun tables before => by simpa [stored, some_, isTail] using holds tables before

/-- Storing the buffer leaves alone what is not about the file. -/
theorem stored_refills
    (numbered : tables.Numbered)
    (given : writer.fileId ≤ tables.lastEntryId)
    (tail : ∀ id, writer.tail = some id → tables.PartOf id writer.fileId) :
    Refills writer.fileId tables (writer.stored tables) := by
  unfold stored
  split
  · exact ⟨rfl, rfl, numbered, fun _ _ => rfl⟩
  split
  · rename_i id isTail
    have ordered := endures_ordered.replaced tables id writer.buffer (fun _ _ _ => trivial)
      numbered.toOrdered
    refine ⟨rfl, rfl, ⟨ordered, fun part member => ?_, numbered.entry_le⟩, fun other isOther => ?_⟩
    · obtain ⟨old, oldMember, rfl⟩ := List.mem_map.mp member
      have earlier := numbered.file_le old oldMember
      split <;> exact earlier
    · refine pieces_replacePart fun part member isPart => ?_
      rw [(tail id isTail).file part member isPart]
      exact Ne.symm isOther
  · have ordered := endures_ordered.stored tables
      { id := tables.lastPartId + 1, fileId := writer.fileId, offset := writer.offset,
        length := writer.buffer.size, data := writer.buffer }
      trivial rfl numbered.toOrdered
    refine ⟨rfl, rfl, ⟨ordered, fun part member => ?_, numbered.entry_le⟩, fun other isOther => ?_⟩
    · rcases List.mem_append.mp member with old | new
      · exact numbered.file_le part old
      · rw [List.mem_singleton.mp new]
        exact given
    · unfold addPart
      rw [Carries.pieces_concat, if_neg (Ne.symm isOther), List.append_nil]

/-- A part with the bytes of the buffer may follow the parts that are full. -/
theorem Writes.laid_concat
    {pieces : List Part}
    (writes : writer.Writes done pieces)
    (some_ : 0 < writer.buffer.size)
    {part : Part}
    (offset : part.offset = writer.offset)
    (length : part.length = writer.buffer.size)
    (data : part.data = writer.buffer) :
    LaidFrom 0 (done ++ [part]) ∧
      bytesOf (done ++ [part]) = bytesOf done ++ writer.buffer ∧
        (writer.buffer.size = partSize → ∀ other ∈ done ++ [part], other.data.size = partSize) := by
  rw [laidFrom_concat_iff, bytesOf_append, bytesOf_singleton, data]
  refine ⟨⟨writes.laid, writes.full, ?_, ?_, ?_, ?_⟩, rfl, fun isFull other member => ?_⟩
  · rw [offset, writes.offset]
    omega
  · rw [length, data]
  · rwa [data]
  · rw [data]
    exact writes.fits
  · rcases List.mem_append.mp member with old | new
    · exact writes.full other old
    · rw [List.mem_singleton.mp new, data, isFull]

/-- Once the buffer is stored, the parts of the file are all the bytes that were written. -/
theorem Writes.pieces_stored
    (writes : writer.Writes done (tables.pieces writer.fileId))
    (ordered : tables.Ordered) :
    LaidFrom 0 ((writer.stored tables).pieces writer.fileId) ∧
      bytesOf ((writer.stored tables).pieces writer.fileId) = bytesOf done ++ writer.buffer ∧
        (writer.buffer.size = partSize →
          ∀ part ∈ (writer.stored tables).pieces writer.fileId, part.data.size = partSize) := by
  have last := writes.last
  by_cases isEmpty : writer.buffer.isEmpty = true
  · have none_ : writer.buffer = .empty := by
      simpa [ByteArray.isEmpty, ByteArray.size_eq_zero_iff] using isEmpty
    have pieces : tables.pieces writer.fileId = done := by
      cases isTail : writer.tail with
      | none =>
          simpa [isTail] using last
      | some id =>
          simp [isTail, none_] at last
    rw [stored, if_pos isEmpty, pieces, none_, ByteArray.append_empty]
    exact ⟨writes.laid, rfl, fun _ => writes.full⟩
  have some_ : 0 < writer.buffer.size := by
    simpa [ByteArray.isEmpty, Nat.pos_iff_ne_zero] using isEmpty
  cases isTail : writer.tail with
  | none =>
      have pieces :
          (writer.stored tables).pieces writer.fileId =
            done ++
              [{ id := tables.lastPartId + 1, fileId := writer.fileId, offset := writer.offset,
                 length := writer.buffer.size, data := writer.buffer }] := by
        rw [stored, if_neg isEmpty, isTail]
        unfold addPart
        rw [Carries.pieces_concat, if_pos rfl]
        congr 1
        simpa [isTail] using last
      rw [pieces]
      exact writes.laid_concat some_ rfl rfl rfl
  | some id =>
      rw [isTail] at last
      obtain ⟨-, tail, isLast, rfl, offset⟩ := last
      have apart : ∀ part ∈ done, part.id ≠ tail.id := by
        have ids : ((tables.pieces writer.fileId).map (·.id)).Pairwise (· < ·) :=
          ordered.parts.sublist (List.filter_sublist.map _)
        rw [isLast, List.map_append, List.pairwise_append] at ids
        intro part member
        exact Int.ne_of_lt (ids.2.2 part.id (List.mem_map_of_mem member) tail.id (by simp))
      have pieces :
          (writer.stored tables).pieces writer.fileId =
            done ++ [{ tail with length := writer.buffer.size, data := writer.buffer }] := by
        rw [stored, if_neg isEmpty, isTail]
        dsimp only
        rw [pieces_replacePart_eq, isLast, List.map_append, List.map_singleton, if_pos rfl]
        congr 1
        rw [List.map_congr_left fun part member => if_neg (apart part member), List.map_id']
      rw [pieces]
      exact writes.laid_concat some_ offset rfl rfl

/-- A full buffer that was stored is one more full part. -/
theorem Writes.emptied
    (writes : writer.Writes done (tables.pieces writer.fileId))
    (ordered : tables.Ordered)
    (isFull : writer.buffer.size = partSize) :
    writer.emptied.Writes ((writer.stored tables).pieces writer.fileId)
      ((writer.stored tables).pieces writer.fileId) := by
  obtain ⟨laid, bytes, full⟩ := writes.pieces_stored ordered
  refine ⟨laid, full isFull, ?_, ?_, Nat.zero_le _, ?_⟩
  · change writer.offset + writer.buffer.size = _
    rw [bytes, ByteArray.size_append, writes.offset]
    omega
  · change writer.digest = Sha256.Digest.empty.update (_ ++ ByteArray.empty)
    rw [bytes, ByteArray.append_empty]
    exact writes.digest
  · have some_ : writer.buffer.isEmpty = false := by
      have positive := partSize_pos
      rw [← isFull] at positive
      simpa [ByteArray.isEmpty] using positive.ne'
    rw [Writer.emptied, some_]
    rfl

/-- Bytes that go into the buffer come behind those that were written. -/
theorem Writes.buffered
    {pieces : List Part}
    (writes : writer.Writes done pieces)
    {data : ByteArray}
    (room : writer.buffer.size + data.size ≤ partSize) :
    (writer.buffered data).Writes done pieces := by
  refine ⟨writes.laid, writes.full, writes.offset, ?_, ?_, ?_⟩
  · change writer.digest.update data = Sha256.Digest.empty.update (_ ++ (writer.buffer ++ data))
    rw [writes.digest, ← Sha256.Digest.update_append, ByteArray.append_assoc]
  · change (writer.buffer ++ data).size ≤ partSize
    rwa [ByteArray.size_append]
  · have last := writes.last
    change
      match writer.tail with
      | none => _ = done
      | some id =>
          0 < (writer.buffer ++ data).size ∧
            ∃ last, _ = done ++ [last] ∧ last.id = id ∧ last.offset = writer.offset
    cases isTail : writer.tail with
    | none =>
        rwa [isTail] at last
    | some id =>
        rw [isTail] at last
        refine ⟨?_, last.2⟩
        rw [ByteArray.size_append]
        omega

/-- A writer with another watchdog writes the same. -/
theorem Writes.watched
    {pieces : List Part}
    (writes : writer.Writes done pieces)
    (watchdog : Option Watchdog) :
    { writer with watchdog }.Writes done pieces :=
  ⟨writes.laid, writes.full, writes.offset, writes.digest, writes.fits, writes.last⟩

namespace Tracks

/-- What a writer knows stays true while others store parts. -/
theorem refilled
    {file : Int}
    (tracks : writer.Tracks tables)
    (refills : Refills file tables after)
    (other : writer.fileId ≠ file) :
    writer.Tracks after where
  given := by
    rw [refills.given]
    exact tracks.given
  row entry member isFile := by
    rw [refills.entries] at member
    rw [refills.pieces _ other]
    exact tracks.row entry member isFile

/-- What a writer knows stays true when contents are carried over. -/
theorem carried
    (tracks : writer.Tracks base)
    (carries : base.Carries (fun _ => False) (fun _ => False) tables) :
    writer.Tracks tables where
  given := by
    have earlier := carries.lastEntryId_le
    have given := tracks.given
    omega
  row entry member isFile := by
    rcases carries.rows entry member with ⟨old, oldMember, same, pieces⟩ | ⟨fresh, -⟩
    · obtain ⟨isNoDirectory, writes⟩ := tracks.row old oldMember (same.id.trans isFile)
      rw [isFile] at pieces
      rw [pieces, ← same.isDirectory]
      exact ⟨isNoDirectory, writes⟩
    · have given := tracks.given
      omega

/-- A full buffer that was stored is one more full part. -/
theorem emptied
    (tracks : writer.Tracks tables)
    (ordered : tables.Ordered)
    (refills : Refills writer.fileId tables (writer.stored tables))
    (isFull : writer.buffer.size = partSize) :
    writer.emptied.Tracks (writer.stored tables) where
  given := by
    rw [refills.given]
    exact tracks.given
  row entry member isFile := by
    rw [refills.entries] at member
    obtain ⟨isNoDirectory, done, writes⟩ := tracks.row entry member isFile
    exact ⟨isNoDirectory, _, writes.emptied ordered isFull⟩

/-- Bytes that go into the buffer come behind those that were written. -/
theorem buffered
    (tracks : writer.Tracks tables)
    {data : ByteArray}
    (room : writer.buffer.size + data.size ≤ partSize) :
    (writer.buffered data).Tracks tables where
  given := tracks.given
  row entry member isFile := by
    obtain ⟨isNoDirectory, done, writes⟩ := tracks.row entry member isFile
    exact ⟨isNoDirectory, done, writes.buffered room⟩

end Tracks

/-! ## The close -/

/-- The tables once a writer has stored its buffer and recorded what the file came to. -/
def completed (now : Int) (writer : Writer) (tables : Tables) : Tables :=
  (writer.stored tables).recordContent writer.fileId writer.position now
    (some (Checksum.finish writer.digest))

/-- A close that does not fail is that change. -/
theorem complete_works
    {setting : Setting}
    {pre post : Tables → Prop}
    {now : Int}
    (holds : ∀ tables, pre tables → post (completed now writer tables)) :
    Action.Works setting pre (complete now writer) (fun _ => post) fun _ _ => True := by
  refine .bind (fun _ tables => ∃ before, pre before ∧ tables = writer.stored before)
    (storeBuffer_works fun tables before => ⟨tables, before, rfl⟩) fun _ => ?_
  refine .bind (fun _ => post) (.update ?_) fun _ => (Txn.requireEntry?_keeps _ _).loosely
  rintro _ ⟨tables, before, rfl⟩
  exact holds tables before

/-- A close is not about other files. -/
theorem Tracks.aside
    {other : Writer}
    (tracks : other.Tracks tables)
    (refills : Refills writer.fileId tables (writer.stored tables))
    (now : Int)
    (apart : other.fileId ≠ writer.fileId) :
    other.Tracks (writer.completed now tables) := by
  have stays := tracks.refilled refills apart
  refine ⟨stays.given, fun entry member isFile => ?_⟩
  obtain ⟨old, oldMember, rfl⟩ := List.mem_map.mp member
  have sameId : old.id = other.fileId := by
    split at isFile <;> exact isFile
  rw [if_neg fun same => apart (sameId.symm.trans same)]
  exact stays.row old oldMember sameId

/-- A file is filed once its writer is closed. -/
theorem Tracks.completed
    {busy : Int → Prop}
    (tracks : writer.Tracks tables)
    (filed : tables.Filed busy)
    (refills : Refills writer.fileId tables (writer.stored tables))
    (now : Int) :
    (writer.completed now tables).Filed fun id => busy id ∧ id ≠ writer.fileId where
  toNumbered := by
    refine ⟨⟨refills.numbered.parts, refills.numbered.part_le⟩, refills.numbered.file_le,
      fun entry member => ?_⟩
    obtain ⟨old, oldMember, rfl⟩ := List.mem_map.mp member
    split <;> exact refills.numbered.entry_le old oldMember
  stored entry member idle := by
    obtain ⟨old, oldMember, rfl⟩ := List.mem_map.mp member
    rw [refills.entries] at oldMember
    by_cases isFile : old.id = writer.fileId
    · obtain ⟨isNoDirectory, done, writes⟩ := tracks.row old oldMember isFile
      obtain ⟨laid, bytes, -⟩ := writes.pieces_stored filed.toOrdered
      rw [← isFile] at laid bytes
      rw [if_pos isFile]
      refine ⟨laid, ?_, fun checksum isChecksum => ?_, fun isDirectory => ?_⟩
      · change writer.offset + writer.buffer.size =
          (bytesOf ((writer.stored tables).pieces old.id)).size
        rw [bytes, ByteArray.size_append, writes.offset]
        omega
      · change some (Checksum.finish writer.digest) = some checksum at isChecksum
        change checksum = Checksum.ofData (bytesOf ((writer.stored tables).pieces old.id))
        rw [bytes, ← Option.some.inj isChecksum, writes.digest]
        rfl
      · exact (Bool.false_ne_true (isNoDirectory.symm.trans isDirectory)).elim
    · rw [if_neg isFile] at idle ⊢
      refine (filed.stored old oldMember fun isBusy => idle ⟨isBusy, isFile⟩).congr (.refl old) ?_
      exact refills.pieces old.id isFile

/-! ## The start -/

/-- The digest of all parts is that of their bytes. -/
theorem foldl_update_content
    (parts : List Part)
    (digest : Sha256.Digest) :
    (parts.map Part.content).foldl
        (fun (digest : Sha256.Digest) content => digest.update content.data) digest =
      digest.update (bytesOf parts) := by
  induction parts generalizing digest with
  | nil =>
      exact (Sha256.Digest.update_empty digest).symm
  | cons part rest inductionHypothesis =>
      rw [List.map_cons, List.foldl_cons, inductionHypothesis]
      exact (Sha256.Digest.update_append digest part.data (bytesOf rest)).symm

/-- A writer that goes on behind parts that lie in a row knows how they lie. -/
theorem writes_resuming
    {pieces : List Part}
    (laid : LaidFrom 0 pieces)
    (path : String)
    (fileId : Int)
    (guard : Guard) :
    ∃ done,
      (resuming path fileId guard (pieces.map Part.content)).Writes done pieces ∧
        bytesOf done ++ (resuming path fileId guard (pieces.map Part.content)).buffer =
          bytesOf pieces := by
  have digest := foldl_update_content pieces Sha256.Digest.empty
  rcases List.eq_nil_or_concat pieces with rfl | ⟨front, last, rfl⟩
  · exact ⟨[], ⟨trivial, by simp, rfl, (Sha256.Digest.update_empty _).symm, Nat.zero_le _, rfl⟩,
      rfl⟩
  · rw [List.concat_eq_append] at laid digest ⊢
    obtain ⟨laidFront, full, fills⟩ := laidFrom_concat_iff.mp laid
    have isLast : ((front ++ [last]).map Part.content).getLast? = some last.content := by
      simp
    unfold resuming
    dsimp only
    rw [digest, isLast]
    dsimp only
    split
    · refine ⟨front, ⟨laidFront, full, ?_, ?_, fills.size_le, fills.size_pos, last, rfl, rfl, rfl⟩,
        ?_⟩
      · change last.offset = _
        rw [fills.offset]
        omega
      · change _ = Sha256.Digest.empty.update (bytesOf front ++ last.data)
        rw [bytesOf_append, bytesOf_singleton]
      · rw [bytesOf_append, bytesOf_singleton]
        rfl
    · rename_i notShort
      have isFull : last.data.size = partSize := by
        have fits := fills.size_le
        change ¬last.data.size < partSize at notShort
        omega
      refine ⟨front ++ [last], ⟨laid, fun part member => ?_, ?_, ?_, Nat.zero_le _, rfl⟩,
        ByteArray.append_empty⟩
      · rcases List.mem_append.mp member with old | new
        · exact full part old
        · rw [List.mem_singleton.mp new, isFull]
      · change last.offset + last.data.size = _
        rw [bytesOf_append, bytesOf_singleton, ByteArray.size_append, fills.offset]
        omega
      · change _ = Sha256.Digest.empty.update (_ ++ ByteArray.empty)
        rw [ByteArray.append_empty]

/-- A writer knows what it begins with. -/
theorem Begins.tracks
    {setting : Setting}
    (begins : writer.Begins setting (base.Carries (fun _ => False) fun _ => False) tables)
    (listed : tables.Listed)
    (filed : tables.Filed setting.busy) :
    writer.Tracks tables := by
  cases begins with
  | @created path entry guard watchdog before earlier isFile live isTables isWriter =>
      subst isTables isWriter
      refine ⟨Int.le_refl _, fun row member isRow => ?_⟩
      have isNew : row = { entry with id := before.lastEntryId + 1 } :=
        listed.row_eq member (List.mem_append_right _ (List.mem_singleton_self _)) isRow
      have pieces : (before.addEntry entry).2.pieces (before.lastEntryId + 1) = [] :=
        earlier.pieces_eq_nil (by omega)
      refine ⟨by rw [isNew]; exact isFile, [], ?_⟩
      dsimp only [fresh]
      rw [pieces]
      exact ⟨trivial, by simp, rfl, by simp [bytesOf, joined], Nat.zero_le _, rfl⟩
  | @resumed path entry guard watchdog member isFile live free isWriter =>
      have stored := filed.stored entry member free
      have contents := filed.contents_eq stored.laid
      subst isWriter
      constructor
      · dsimp only
        rw [resuming_fileId]
        exact listed.row_le entry member
      · intro row isRow sameId
        dsimp only at sameId ⊢
        rw [resuming_fileId] at sameId ⊢
        rw [listed.row_eq isRow member sameId, contents]
        obtain ⟨done, writes, -⟩ := writes_resuming stored.laid path entry.id guard
        exact ⟨isFile, done, writes.laid, writes.full, writes.offset, writes.digest, writes.fits,
          writes.last⟩

/-! ## Uses -/

/-- A writer with another watchdog knows the same. -/
theorem Tracks.watched
    (tracks : writer.Tracks tables)
    (watchdog : Option Watchdog) :
    { writer with watchdog }.Tracks tables where
  given := tracks.given
  row entry member isFile := by
    obtain ⟨isNoDirectory, done, writes⟩ := tracks.row entry member isFile
    exact ⟨isNoDirectory, done, writes.watched watchdog⟩

/-- A writer on a store whose files are filed, but for those that others write to and its own
as long as it is open, or when its close failed. The other writers know theirs. -/
structure Upholds (busy : Int → Prop) (others : Writer → Prop) (writer : Writer) (store : Store) :
    Prop where
  steady : store.Steady
  filed :
    writer.result ≠ none ∨ writer.guard ≠ none →
    store.All (Tables.Filed fun id => busy id ∨ writer.isClosed = false ∧ id = writer.fileId)
  tail :
    writer.isClosed = false →
    ∀ id,
      writer.tail = some id →
      store.All (PartOf id writer.fileId)
  tracks : writer.isClosed = false → store.All writer.Tracks
  apart : writer.isClosed = false → ∀ other, others other → other.fileId ≠ writer.fileId
  others : ∀ other, others other → store.All other.Tracks

namespace Upholds

variable
  {busy : Int → Prop}
  {others : Writer → Prop}
  {store : Store}
  {now : Int}

section Open

variable
  (upholds : writer.Upholds busy others store)
  (open_ : writer.isClosed = false)

include upholds open_

/-- All files are filed but those that are open. -/
theorem filed_open :
    store.All (Tables.Filed fun id => busy id ∨ writer.isClosed = false ∧ id = writer.fileId) := by
  obtain ⟨guard, held⟩ := guard_of_open open_
  exact upholds.filed (.inr (by simp [held]))

/-- Storing the buffer leaves alone what is not about the file. -/
theorem refills :
    Refills writer.fileId store.tables (writer.stored store.tables) :=
  stored_refills (upholds.filed_open open_).tables.toNumbered (upholds.tracks open_).tables.given
    fun id isTail => (upholds.tail open_ id isTail).tables

/-- A full buffer is stored. -/
theorem afterStored
    (full : writer.buffer.size = partSize)
    (succeeds : ((Action.streaming (storeBuffer writer)).runOn store).1 = .ok ⟨⟩) :
    writer.emptied.Upholds busy others
      ((Action.streaming (storeBuffer writer)).runOn store).2 := by
  have leaves :=
    (@storeBuffer_works writer (store.setting fun _ => False) (· = store.tables)
      (· = writer.stored store.tables) (fun _ _ => True)
      fun _ same => congrArg writer.stored same).leaves upholds.steady .idle rfl
  obtain ⟨-, -, tables⟩ := leaves.done ⟨⟩ succeeds
  have every
      {holds : Tables → Prop}
      (after : holds (writer.stored store.tables)) :
      ((Action.streaming (storeBuffer writer)).runOn store).2.All holds :=
    leaves.all_done succeeds (tables ▸ after)
  have refills := upholds.refills open_
  have filed := (upholds.filed_open open_).tables
  refine ⟨leaves.steady, fun _ => ?_, fun _ id isTail => ?_, fun _ => ?_,
    fun _ => upholds.apart open_, fun other member => ?_⟩
  · exact every (filed.refilled refills (.inr ⟨open_, rfl⟩))
  · have some_ : writer.buffer.isEmpty = false := by
      have positive := partSize_pos
      rw [← full] at positive
      simpa [ByteArray.isEmpty] using positive.ne'
    simp [emptied, some_] at isTail
  · exact every ((upholds.tracks open_).tables.emptied filed.toOrdered refills full)
  · exact every
      ((upholds.others other member).tables.refilled refills (upholds.apart open_ other member))

/-- A file is closed. Its row then says what its parts come to, or the close failed. -/
theorem afterClosed
    (guard : Guard) :
    Upholds busy others
      { writer with
        guard := none
        result := ((Action.streaming (complete now writer)).runOn store).1.toOption }
      { ((Action.streaming (complete now writer)).runOn store).2 with
        locks := ((Action.streaming (complete now writer)).runOn store).2.locks.release guard } := by
  have leaves :=
    (@complete_works writer (store.setting fun _ => False) (· = store.tables)
      (· = writer.completed now store.tables) now
      fun _ same => congrArg (writer.completed now) same).leaves upholds.steady .idle rfl
  have closed (result : Option Entry) :
      isClosed { writer with guard := none, result } = true := by
    simp [isClosed]
  have steady := leaves.steady.withLocks (leaves.steady.sane.release guard)
  cases outcome : ((Action.streaming (complete now writer)).runOn store).1 with
  | error fault =>
      refine ⟨steady, fun absurd => ?_, fun absurd => ?_, fun absurd => ?_, fun absurd => ?_,
        fun other member => ?_⟩
      · simp [Except.toOption] at absurd
      · simp [closed] at absurd
      · simp [closed] at absurd
      · simp [closed] at absurd
      · have before := leaves.all_undone outcome (upholds.others other member)
        exact ⟨before.tables, before.saved⟩
  | ok entry =>
      obtain ⟨-, -, tables⟩ := leaves.done entry outcome
      have every
          {holds : Tables → Prop}
          (after : holds (writer.completed now store.tables)) :
          Store.All holds
            { ((Action.streaming (complete now writer)).runOn store).2 with
              locks :=
                ((Action.streaming (complete now writer)).runOn store).2.locks.release guard } := by
        have all := leaves.all_done outcome (tables ▸ after)
        exact ⟨all.tables, all.saved⟩
      have refills := upholds.refills open_
      have filed := (upholds.filed_open open_).tables
      refine ⟨steady, fun _ => ?_, fun absurd => ?_, fun absurd => ?_, fun absurd => ?_,
        fun other member => ?_⟩
      · refine every (((upholds.tracks open_).tables.completed filed refills now).leaving ?_)
        rintro id ⟨isBusy | ⟨-, isFile⟩, apart⟩
        · exact .inl isBusy
        · exact (apart isFile).elim
      · simp [closed] at absurd
      · simp [closed] at absurd
      · simp [closed] at absurd
      · exact every ((upholds.others other member).tables.aside refills now
          (upholds.apart open_ other member))

end Open

/-- Files stay filed while a writer is used. -/
theorem run
    (upholds : writer.Upholds busy others store)
    (now : Int)
    (use : WriterUse) :
    ((use.run now).runOn writer store).2.1.Upholds busy others
      ((use.run now).runOn writer store).2.2 := by
  have stable : Stable now (Upholds busy others) := by
    constructor
    case steady =>
      exact fun _ _ upholds _ => upholds.steady
    case watched =>
      intro writer store watchdog upholds
      refine ⟨upholds.steady, upholds.filed, upholds.tail, fun open_ => ?_, upholds.apart,
        upholds.others⟩
      have tracks := upholds.tracks open_
      exact ⟨tracks.tables.watched watchdog,
        fun saved member => (tracks.saved saved member).watched watchdog⟩
    case buffered =>
      intro writer store data upholds open_ room
      refine ⟨upholds.steady, upholds.filed, upholds.tail, fun _ => ?_, upholds.apart,
        upholds.others⟩
      have tracks := upholds.tracks open_
      exact ⟨tracks.tables.buffered room,
        fun saved member => (tracks.saved saved member).buffered room⟩
    case stored =>
      exact fun _ _ upholds open_ full succeeds => upholds.afterStored open_ full succeeds
    case refused =>
      intro writer store fault upholds open_ failed
      have leaves :=
        (@storeBuffer_works writer (store.setting fun _ => False) (fun _ => True) (fun _ => True)
          (fun _ _ => True) fun _ _ => trivial).leaves upholds.steady .idle trivial
      have every
          {holds : Tables → Prop}
          (before : store.All holds) :
          ((Action.streaming (storeBuffer writer)).runOn store).2.All holds :=
        leaves.all_undone failed before
      exact ⟨leaves.steady, fun some_ => every (upholds.filed some_),
        fun open_ id isTail => every (upholds.tail open_ id isTail),
        fun open_ => every (upholds.tracks open_), upholds.apart,
        fun other member => every (upholds.others other member)⟩
    case closed =>
      intro writer store guard upholds noResult held
      have open_ : writer.isClosed = false := by
        simp [isClosed, noResult, held]
      exact upholds.afterClosed open_ guard
  exact stable.run use writer store upholds

end Upholds

/-- Inside a scope a writer stores nothing. It knows what it knew, unless its close failed. -/
theorem tracks_inside
    {store : Store}
    (steady : store.Steady)
    (opened : store.savepoints ≠ [])
    (open_ : writer.isClosed = false)
    (now : Int)
    (use : WriterUse) :
    let left := ((use.run now).runOn writer store).2.1
    left.guard = none ∧ left.result = none ∨
      left.isClosed = false ∧ ∀ tables, writer.Tracks tables → left.Tracks tables := by
  have stable :
      Stable now fun left store =>
        (store.Steady ∧ store.savepoints ≠ []) ∧
          (left.guard = none ∧ left.result = none ∨
            left.isClosed = false ∧ ∀ tables, writer.Tracks tables → left.Tracks tables) := by
    constructor
    case steady =>
      exact fun _ _ before _ => before.1.1
    case watched =>
      rintro left store watchdog ⟨inScope, gone | ⟨open_, knows⟩⟩
      · exact ⟨inScope, .inl gone⟩
      · exact ⟨inScope, .inr ⟨open_, fun tables tracks => (knows tables tracks).watched watchdog⟩⟩
    case buffered =>
      rintro left store data ⟨inScope, known⟩ open_ room
      obtain ⟨guard, held⟩ := guard_of_open open_
      rcases known with ⟨noGuard, -⟩ | ⟨-, knows⟩
      · rw [held] at noGuard
        cases noGuard
      · exact ⟨inScope, .inr ⟨open_, fun tables tracks => (knows tables tracks).buffered room⟩⟩
    case stored =>
      rintro left store ⟨⟨steady, opened⟩, -⟩ - - succeeds
      have leaves :=
        (@storeBuffer_works left (store.setting fun _ => False) (fun _ => True) (fun _ => True)
          (fun _ _ => True) fun _ _ => trivial).leaves steady .idle trivial
      exact (opened (leaves.done ⟨⟩ succeeds).1).elim
    case refused =>
      rintro left store fault ⟨⟨steady, opened⟩, known⟩ - -
      have continues := (storeBuffer_uniform left).continues_streaming steady
      exact ⟨⟨continues.steady, continues.savepoints ▸ opened⟩, known⟩
    case closed =>
      rintro left store guard ⟨⟨steady, opened⟩, -⟩ - -
      have continues := (complete_uniform now left).continues_streaming steady
      refine ⟨⟨continues.steady.withLocks (continues.steady.sane.release guard),
        continues.savepoints ▸ opened⟩, .inl ⟨rfl, ?_⟩⟩
      have leaves :=
        (@complete_works left (store.setting fun _ => False) (fun _ => True) (fun _ => True) now
          fun _ _ => trivial).leaves steady .idle trivial
      cases outcome : ((Action.streaming (complete now left)).runOn store).1 with
      | ok entry =>
          exact (opened (leaves.done entry outcome).1).elim
      | error fault =>
          rfl
  exact (stable.run use writer store ⟨⟨steady, opened⟩, .inr ⟨open_, fun _ => id⟩⟩).2

end Writer

end VersionStore
