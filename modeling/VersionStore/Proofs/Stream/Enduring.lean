import VersionStore.Proofs.Content.Lasting
import VersionStore.Proofs.Stream.Guards

namespace VersionStore

/-!
# Conditions that endure writers

A writer edits tables when it is opened, stores parts and is closed. What endures such
edits of the file that it has open endures whatever is done with the writer.
-/

open Tables

namespace Writer

open VersionStore.Action

variable
  {setting : Setting}
  {rows contents : Int → Prop}
  {holds : Tables → Prop}

/-- A writer touches nothing that must not be touched. -/
structure Respects (rows contents : Int → Prop) (writer : Writer) (tables : Tables) : Prop where
  row : rows writer.fileId
  content : contents writer.fileId
  tail :
    ∀ id,
      writer.tail = some id →
      ∀ part ∈ tables.parts,
        part.id = id →
        contents part.fileId

section Storing

variable (endures : EnduresStoring rows contents holds)

include endures

/-- A condition that endures edits endures the storing of a buffer. -/
theorem storeBuffer_endures
    (writer : Writer) :
    Works setting (fun tables => holds tables ∧ writer.Respects rows contents tables)
      (storeBuffer writer) (fun _ => holds) fun _ => holds := by
  refine .ite (fun _ => .pure fun _ before => before.1) fun _ => ?_
  cases isTail : writer.tail with
  | some id =>
      exact .update fun tables before =>
        endures.replaced tables id _ (before.2.tail id isTail) before.1
  | none =>
      exact .update fun tables before =>
        endures.stored tables
          { id := tables.lastPartId + 1, fileId := writer.fileId, offset := writer.offset,
            length := writer.buffer.size, data := writer.buffer }
          before.2.content rfl before.1

/-- A condition that endures edits endures the close of a writer. -/
theorem complete_endures
    (now : Int)
    (writer : Writer) :
    Works setting (fun tables => holds tables ∧ writer.Respects rows contents tables)
      (complete now writer) (fun _ => holds) fun _ => holds := by
  refine .assuming (rows writer.fileId) (fun _ before => before.2.row) fun touched => ?_
  refine .bind (fun _ => holds) (storeBuffer_endures endures writer) fun _ => ?_
  refine .bind (fun _ => holds) (.update fun tables => ?_) fun _ => Txn.requireEntry?_keeps _ _
  exact endures.recorded tables writer.fileId _ _ _ touched

end Storing

/-- Where a writer begins: behind a live file that no one writes to, or on a new one. -/
inductive Begins (setting : Setting) (holds : Tables → Prop) (writer : Writer) (tables : Tables) :
    Prop where
  | resumed {path : String} {entry : Entry} {guard : Guard} {watchdog : Option Watchdog}
      (member : entry ∈ tables.entries)
      (isFile : entry.isDirectory = false)
      (live : entry.isDeleted = false)
      (free : ¬setting.busy entry.id)
      (isWriter :
        writer = { resuming path entry.id guard (tables.contents entry.id) with watchdog })
  | created {path : String} {entry : Entry} {guard : Guard} {watchdog : Option Watchdog}
      {before : Tables}
      (earlier : holds before)
      (isFile : entry.isDirectory = false)
      (live : entry.isDeleted = false)
      (isTables : tables = (before.addEntry entry).2)
      (isWriter : writer = { fresh path (before.lastEntryId + 1) guard with watchdog })

/-- A writer begins on a live file. -/
theorem Begins.hasLive
    {writer : Writer}
    {tables : Tables}
    (begins : writer.Begins setting holds tables) :
    tables.HasLive writer.fileId := by
  cases begins with
  | @resumed _ entry _ _ member _ live _ isWriter =>
      subst isWriter
      exact ⟨entry, member, (resuming_fileId _ _ _ _).symm, live⟩
  | created _ _ live isTables isWriter =>
      subst isTables isWriter
      exact ⟨_, List.mem_append_right _ (List.mem_singleton_self _), rfl, live⟩

/-- A condition that endures edits endures the start of a writer. -/
theorem start_endures
    (endures : Endures rows contents holds)
    (fresh :
      ∀ tables,
        holds tables →
        rows (tables.lastEntryId + 1) ∧ contents (tables.lastEntryId + 1))
    (claimed : ∀ id, rows id → ¬setting.held id → contents id)
    (now : Int)
    (path : CleanPath)
    (append : Bool) :
    Opens setting holds (start now path append) fun writer tables =>
      holds tables ∧ (rows writer.fileId ∧ contents writer.fileId) ∧
        writer.Begins setting holds tables := by
  have creating :
      Opens setting holds (create now path) fun writer tables =>
        holds tables ∧ (rows writer.fileId ∧ contents writer.fileId) ∧
          writer.Begins setting holds tables := by
    refine .bind (fun _ => holds) (.require (fun _ _ _ stays => stays) fun _ _ _ => trivial)
      fun parent => ?_
    refine .bind (fun _ => holds) (.entryAt? fun _ stays => stays) fun found => ?_
    refine .bind (fun _ => holds) (.require (fun _ _ _ stays => stays) fun _ _ _ => trivial)
      fun directory => ?_
    simp only [throw_bind]
    refine .ite (fun _ => .throw) fun _ => ?_
    refine .bind
      (fun id tables =>
        ∃ before,
          holds before ∧ id = before.lastEntryId + 1 ∧
            tables = (before.createEntry directory.id path.name false now).2)
      (.insert fun before stays => ⟨before, stays, rfl, rfl⟩) fun id => ?_
    refine .lockId fun guard _ _ => .pure ?_
    rintro _ ⟨before, stays, rfl, rfl⟩
    exact ⟨rfl, rfl, endures.added before _ rfl rfl stays, fresh before stays,
      .created stays rfl rfl rfl rfl⟩
  refine .bind
    (fun found tables =>
      holds tables ∧ ∀ entry, found = some entry → entry ∈ tables.entries ∧ entry.isDeleted = false)
    (.entryAt? fun tables before => ⟨before, fun entry => mem_of_lookup?⟩) fun found => ?_
  cases found with
  | none =>
      exact creating.asking fun _ before => before.1
  | some entry =>
      simp only [throw_bind]
      refine .assuming (rows entry.id) (fun tables before => ?_) fun row => ?_
      · obtain ⟨member, live⟩ := before.2 entry rfl
        exact endures.touchable tables before.1 entry member (.inl live)
      refine .ite (fun _ => .throw) fun isFile => .ite (fun _ => ?_) fun _ =>
        .ite (fun _ => .throw) fun _ => ?_
      · refine .lockId fun guard idle free => .bind
          (fun contents tables =>
            (holds tables ∧ entry ∈ tables.entries ∧ entry.isDeleted = false) ∧
              contents = tables.contents entry.id)
          (.query fun tables before => ⟨⟨before.1, before.2 entry rfl⟩, rfl⟩) fun contents =>
            .pure ?_
        rintro tables ⟨⟨before, member, live⟩, rfl⟩
        refine ⟨resuming_fileId _ _ _ _, resuming_guard _ _ _ _, before, ?_,
          .resumed member (Bool.eq_false_iff.mpr isFile) live idle rfl⟩
        rw [resuming_fileId]
        exact ⟨row, claimed _ row free⟩
      · have deleted : Keeps setting holds (Txn.deleteExisting now entry) :=
          Txn.deleteExisting_endures endures.toEnduresRemoving now row (claimed _ row)
        refine .bind (fun _ => holds) (deleted.loosely.asking fun _ before => before.1)
          fun gone => ?_
        exact .ite (fun _ => .throw) fun _ => creating

/-- A condition that endures edits endures the opening of a writer. -/
theorem openPath_endures
    {store : Store}
    (endures : Endures rows contents holds)
    (fresh :
      ∀ tables,
        holds tables →
        rows (tables.lastEntryId + 1) ∧ contents (tables.lastEntryId + 1))
    (claimed : ∀ id, rows id → ¬setting.held id → contents id)
    (steady : store.Steady)
    (fits : store.Fits setting)
    (before : holds store.tables)
    (now : Int)
    (text : String)
    (append : Bool) :
    Leaves store
      (Takes store fun writer tables =>
        holds tables ∧ (rows writer.fileId ∧ contents writer.fileId) ∧
          writer.Begins setting holds tables)
      ((openPath now text append).runOn store) := by
  refine leaves_openPath now text append steady fits before
    (fun path _ => start_endures endures fresh claimed now path append) ?_
  rintro writer watchdog tables ⟨stays, touches, begins⟩
  refine ⟨stays, touches, ?_⟩
  cases begins with
  | resumed member isFile live free isWriter =>
      subst isWriter
      exact .resumed member isFile live free rfl
  | created earlier isFile live isTables isWriter =>
      subst isWriter
      exact .created earlier isFile live isTables rfl

/-- A use of a writer keeps what endures edits, when the writer respects it, and it leaves the
tables that a scope may go back to. -/
theorem tables_run
    (endures : EnduresStoring rows contents holds)
    {writer : Writer}
    {store : Store}
    (steady : store.Steady)
    (before : holds store.tables)
    (respects : writer.isClosed = false → writer.Respects rows contents store.tables)
    (now : Int)
    (use : WriterUse) :
    holds ((use.run now).runOn writer store).2.2.tables ∧
      ((use.run now).runOn writer store).2.2.savepoints = store.savepoints := by
  have stable :
      Stable now fun writer left =>
        left.Steady ∧ (holds left.tables ∧ left.savepoints = store.savepoints) ∧
          (writer.isClosed = false → writer.Respects rows contents left.tables) := by
    constructor
    case steady =>
      exact fun _ _ before _ => before.1
    case watched =>
      rintro writer store watchdog ⟨steady, kept, respects⟩
      exact ⟨steady, kept, fun open_ => ⟨(respects open_).row, (respects open_).content,
        (respects open_).tail⟩⟩
    case buffered =>
      rintro writer store data ⟨steady, kept, respects⟩ open_ -
      exact ⟨steady, kept, fun _ => ⟨(respects open_).row, (respects open_).content,
        (respects open_).tail⟩⟩
    case stored =>
      rintro writer store ⟨steady, ⟨before, saved⟩, respects⟩ open_ full -
      have leaves := (storeBuffer_endures endures writer).leaves steady .idle
        ⟨before, respects open_⟩
      refine ⟨leaves.steady, ⟨leaves.tables before fun _ _ _ after => after.2,
        leaves.savepoints.trans saved⟩, fun _ => ?_⟩
      refine ⟨(respects open_).row, (respects open_).content, fun id isTail => ?_⟩
      have some_ : writer.buffer.isEmpty = false := by
        have positive := partSize_pos
        rw [← full] at positive
        simpa [ByteArray.isEmpty] using positive.ne'
      simp [emptied, some_] at isTail
    case refused =>
      rintro writer store fault ⟨steady, ⟨before, saved⟩, respects⟩ open_ failed
      have leaves := (storeBuffer_endures endures writer).leaves steady .idle
        ⟨before, respects open_⟩
      refine ⟨leaves.steady, ⟨leaves.tables before fun _ _ _ after => after.2,
        leaves.savepoints.trans saved⟩, fun _ => ?_⟩
      rw [(leaves.undone fault failed).1]
      exact respects open_
    case closed =>
      rintro writer store guard ⟨steady, ⟨before, saved⟩, respects⟩ noResult held
      have open_ : writer.isClosed = false := by
        simp [isClosed, noResult, held]
      have leaves := (complete_endures endures now writer).leaves steady .idle
        ⟨before, respects open_⟩
      refine ⟨leaves.steady.withLocks (leaves.steady.sane.release guard),
        ⟨leaves.tables before fun _ _ _ after => after.2, leaves.savepoints.trans saved⟩,
        fun absurd => ?_⟩
      simp [isClosed] at absurd
  exact (stable.run use writer store ⟨steady, ⟨before, rfl⟩, respects⟩).2.1

/-- A use of a writer keeps what holds of all tables and endures edits, when the writer respects
it. -/
theorem all_run
    (endures : EnduresStoring rows contents holds)
    {writer : Writer}
    {store : Store}
    (steady : store.Steady)
    (all : store.All holds)
    (respects : writer.isClosed = false → writer.Respects rows contents store.tables)
    (now : Int)
    (use : WriterUse) :
    ((use.run now).runOn writer store).2.2.All holds := by
  obtain ⟨tables, saved⟩ := tables_run endures steady all.tables respects now use
  exact ⟨tables, saved ▸ all.saved⟩

/-- A writer that goes on behind some parts knows one of them as the last. -/
theorem exists_of_resuming_tail
    {path : String}
    {fileId id : Int}
    {guard : Guard}
    {contents : List Content}
    (isTail : (resuming path fileId guard contents).tail = some id) :
    ∃ content ∈ contents, content.id = id := by
  unfold resuming at isTail
  dsimp only at isTail
  split at isTail
  · cases isTail
  · rename_i last isLast
    split at isTail
    · cases isTail
      exact ⟨last, List.mem_of_getLast? isLast, rfl⟩
    · cases isTail

/-- A writer forgets the part at the end of its file once it has stored it. -/
theorem tail_run
    (writer : Writer)
    {store : Store}
    (steady : store.Steady)
    (now : Int)
    (use : WriterUse) :
    ((use.run now).runOn writer store).2.1.tail = writer.tail ∨
      ((use.run now).runOn writer store).2.1.tail = none := by
  have stable :
      Stable now fun after left =>
        left.Steady ∧ (after.tail = writer.tail ∨ after.tail = none) := by
    constructor
    case steady =>
      exact fun _ _ before _ => before.1
    case watched =>
      exact fun _ _ _ before => before
    case buffered =>
      exact fun _ _ _ before _ _ => before
    case stored =>
      rintro after left ⟨steady, same⟩ - - -
      refine ⟨((storeBuffer_uniform after).continues_streaming steady).steady, ?_⟩
      unfold emptied
      dsimp only
      split
      · exact same
      · exact .inr rfl
    case refused =>
      rintro after left fault ⟨steady, same⟩ - -
      exact ⟨((storeBuffer_uniform after).continues_streaming steady).steady, same⟩
    case closed =>
      rintro after left guard ⟨steady, same⟩ - -
      have continues := (complete_uniform now after).continues_streaming steady
      exact ⟨continues.steady.withLocks (continues.steady.sane.release guard), same⟩
  exact (stable.run use writer store ⟨steady, .inl rfl⟩).2

end Writer

end VersionStore
