import VersionStore.Proofs.Session.Fresh
import VersionStore.Proofs.Session.Shelved

namespace VersionStore

/-!
# Files that are being written

A lock for writing is held by a writer, and a writer is opened on a live file. The file stays out
of the trash as long as it is locked, and the lock is gone when it may go there, even where a
close took the lock away from its writer. So whatever happens in a session, no one writes to a
version in the trash.
-/

open Tables VersionStore.Action

namespace LockTable

variable {table locked : LockTable} {guard : Guard} {id other : Int}

/-- A lock for writing was there before another one was given, or it is that one. -/
theorem exclusive_of_lock?
    {exclusive : Bool}
    (given : table.lock? other exclusive = some (guard, locked))
    (isHeld : locked.hold? id = some .exclusive) :
    table.hold? id = some .exclusive ∨ exclusive = true ∧ id = other := by
  obtain ⟨-, -, hold, next, rfl⟩ := lock?_eq_some_iff.mp given
  rw [hold?_put] at isHeld
  split at isHeld
  case isFalse =>
    exact .inl isHeld
  case isTrue same =>
    cases isHeld
    cases exclusive with
    | true =>
        exact .inr ⟨rfl, same⟩
    | false =>
        cases held : table.hold? other with
        | none =>
            rw [held] at next
            cases next
        | some hold =>
            rw [held] at next
            cases hold <;> cases next

/-- A lock for writing was there before a guard was let go. -/
theorem exclusive_of_release
    (isHeld : (table.release guard).hold? id = some .exclusive) :
    table.hold? id = some .exclusive := by
  unfold release at isHeld
  split at isHeld
  · rw [hold?_unlock] at isHeld
    split at isHeld
    · unfold lessHold? at isHeld
      split at isHeld <;> cases isHeld
    · exact isHeld
  · exact isHeld

end LockTable

/-- A file that has a row is no directory, where ids tell rows apart. -/
theorem Tables.Listed.fileId
    {tables : Tables}
    (listed : tables.Listed)
    {id : Int}
    (file : tables.HasFile id) :
    tables.FileId id := by
  obtain ⟨entry, member, rfl, isFile⟩ := file
  refine ⟨listed.row_le entry member, fun other otherMember same => ?_⟩
  rw [listed.row_eq otherMember member same]
  exact isFile

namespace Session

variable {session : Session} {strict : Prop} {now : Int} {event : Event} {id : Int}

/-- Opening a reader locks nothing for writing. -/
theorem exclusive_of_holdReader
    {opening : Action Reader}
    (opened : Reader.Opened session.store (opening.runOn session.store))
    (isHeld : (session.holdReader opening).store.locks.hold? id = some .exclusive) :
    session.store.locks.hold? id = some .exclusive := by
  rw [holdReader_store] at isHeld
  rcases outcome : (opening.runOn session.store).1 with fault | reader
  · rwa [(opened.failed fault outcome).hold?] at isHeld
  · obtain ⟨guard, given, taken, locks, -⟩ := opened.done reader outcome
    rw [locks.hold?] at isHeld
    exact (LockTable.exclusive_of_lock? taken isHeld).resolve_right fun absurd =>
      Bool.false_ne_true absurd.1

/-- A lock for writing was there before, or it is that of a writer that was opened. -/
theorem exclusive_origin
    (sound : session.Sound strict)
    (feasible : session.Feasible event)
    (isHeld : (session.after now event).store.locks.hold? id = some .exclusive) :
    session.store.locks.hold? id = some .exclusive ∨
      ∃ text append writer,
        event = .openWriter text append ∧
          ((Writer.openPath now text append).runOn session.store).1 = .ok writer ∧
            writer.fileId = id := by
  have steady := sound.steady
  have rescoped
      {left : Store}
      (rescopes : session.store.Rescopes left)
      (isHeld : left.locks.hold? id = some .exclusive) :
      session.store.locks.hold? id = some .exclusive := by
    rwa [rescopes.locks] at isHeld
  have continued
      {left : Store}
      (continues : session.store.Continues left)
      (isHeld : left.locks.hold? id = some .exclusive) :
      session.store.locks.hold? id = some .exclusive := by
    rwa [continues.locks.hold?] at isHeld
  change (session.perform now event).store.locks.hold? id = some .exclusive at isHeld
  cases event with
  | begin =>
      exact .inl (rescoped (.of_begin steady) isHeld)
  | nest =>
      exact .inl (rescoped (.of_nest steady feasible) isHeld)
  | finish kept =>
      exact .inl (rescoped (.of_finish steady feasible kept) isHeld)
  | inside call =>
      exact .inl (continued (call.continues_inside steady now) isHeld)
  | whole call =>
      exact .inl (continued (call.continues_whole steady now) isHeld)
  | ask question =>
      exact .inl (continued (question.passes_ask steady trivial) isHeld)
  | openWriter text append =>
      have coherent := sound.all.tables.coherent
      have leaves :=
        Writer.openPath_edits steady ⟨coherent.ids, coherent.id_le⟩ now text append
      change (session.holdWriter _).store.locks.hold? id = some .exclusive at isHeld
      rw [holdWriter_store] at isHeld
      rcases outcome : ((Writer.openPath now text append).runOn session.store).1 with fault | writer
      · rw [(leaves.undone fault outcome).2.hold?] at isHeld
        exact .inl isHeld
      · obtain ⟨-, ⟨guard, given, taken, locks, -⟩, -⟩ := leaves.done writer outcome
        rw [locks.hold?] at isHeld
        exact (LockTable.exclusive_of_lock? taken isHeld).imp_right fun isNew =>
          ⟨text, append, writer, rfl, outcome, isNew.2.symm⟩
  | useWriter index use =>
      change (session.onWriter index (use.run now)).store.locks.hold? id = _ at isHeld
      cases found : session.writers[index]? with
      | none =>
          rw [onWriter_none found] at isHeld
          exact .inl isHeld
      | some writer =>
          rw [onWriter_eq found] at isHeld
          have used := Writer.used_run writer steady now use
          rcases used.locks with ⟨-, -, locks⟩ | ⟨guard, -, -, locks⟩
          · exact .inl (locks.hold? id ▸ isHeld)
          · exact .inl (LockTable.exclusive_of_release (locks.hold? id ▸ isHeld))
  | openReader text =>
      exact .inl (exclusive_of_holdReader (Reader.opened_openPath steady text) isHeld)
  | openReaderOf entry =>
      exact .inl (exclusive_of_holdReader (Reader.opened_openEntry steady entry) isHeld)
  | useReader index use =>
      change (session.onReader index use.run).store.locks.hold? id = _ at isHeld
      unfold onReader at isHeld
      cases found : session.readers[index]? with
      | none =>
          rw [found] at isHeld
          exact .inl isHeld
      | some reader =>
          rw [found] at isHeld
          dsimp only at isHeld
          rcases Reader.used_run reader steady use with ⟨-, _, -, left⟩ | ⟨guard, -, -, left⟩
          · rw [left] at isHeld
            exact .inl isHeld
          · rw [left] at isHeld
            exact .inl (LockTable.exclusive_of_release isHeld)
  | drain paused =>
      cases paused with
      | true | false =>
          exact .inl isHeld
  | resume =>
      exact .inl isHeld
  | close | reopen config timed =>
      cases isHeld

/-- What is locked for writing is a file, and it is not in the trash. -/
def WritesFiles (session : Session) : Prop :=
  ∀ id,
    session.store.locks.hold? id = some .exclusive →
    session.store.All (Unshelved id) ∧ session.store.All (FileId id)

namespace WritesFiles

/-- What is locked for writing goes on to be a file that is not in the trash. -/
theorem after
    (writes : session.WritesFiles)
    (sound : session.Sound strict)
    (possible : session.Possible event) :
    (session.after now event).WritesFiles := by
  intro id isHeld
  rcases exclusive_origin sound possible.feasible isHeld with
    wasHeld | ⟨text, append, writer, rfl, isOpened, rfl⟩
  · obtain ⟨unshelved, file⟩ := writes id wasHeld
    exact ⟨all_unshelved_after sound (by simp [wasHeld]) unshelved now possible,
      all_always (endures_fileId id) sound.steady file now possible.feasible⟩
  · have coherent := sound.all.tables.coherent
    have listed : session.store.tables.Listed := ⟨coherent.ids, coherent.id_le⟩
    have leaves := Writer.openPath_edits sound.steady listed now text append
    obtain ⟨-, -, opens⟩ := leaves.done writer isOpened
    change (session.holdWriter _).store.All _ ∧ (session.holdWriter _).store.All _
    rw [holdWriter_store]
    exact ⟨all_unshelved_opened sound isOpened,
      leaves.all_done isOpened ((opens.edited.listed listed).fileId opens.file)⟩

/-- Whatever happened in a session on a new store, no one writes to what is in the trash. -/
theorem of_reachable
    {config : Config}
    (named : ∀ root ∈ config.roots, IsName root)
    (distinct : config.roots.Nodup)
    {timed : Bool}
    {since : Int}
    (reachable : Reachable (fun _ _ _ => True) (start config timed since) session) :
    session.WritesFiles := by
  induction reachable with
  | refl =>
      exact fun _ isHeld => nomatch isHeld
  | tail before step inductionHypothesis =>
      obtain ⟨possible, -⟩ := step
      exact inductionHypothesis.after (Modest.of_reachable named distinct before).1 possible

/-- No version in the trash is locked for writing. -/
theorem hold?_trashed
    (writes : session.WritesFiles)
    {version : Entry}
    (member : version ∈ session.store.tables.entries)
    (isDeleted : version.isDeleted = true) :
    session.store.locks.hold? version.id ≠ some .exclusive := by
  intro isHeld
  obtain ⟨unshelved, file⟩ := writes version.id isHeld
  have isFile := file.tables.isFile version member rfl
  have live := unshelved.tables.live version member rfl
  rw [isTrashedFile, isDeleted, isFile] at live
  cases live

end WritesFiles

end Session

end VersionStore
