import VersionStore.Proofs.Content.Edited
import VersionStore.Proofs.Session.Edited

namespace VersionStore

/-!
# Ids that are new

A file gets an id that nothing in a session has to do with yet: no part is of it, and no writer
has it open, not even one that outlived a close. It can therefore be read as soon as it is there,
because locks are refused only when a close has begun.
-/

open Tables VersionStore.Action

/-- Locks that are given or let go do not make a table pause. -/
theorem LockTable.paused_of_lock?
    {table locked : LockTable}
    {id : Int}
    {exclusive : Bool}
    {guard : Guard}
    (given : table.lock? id exclusive = some (guard, locked)) :
    locked.paused = table.paused := by
  obtain ⟨-, -, _, -, rfl⟩ := lock?_eq_some_iff.mp given
  rfl

theorem LockTable.paused_release
    (table : LockTable)
    (guard : Guard) :
    (table.release guard).paused = table.paused := by
  unfold release unlock
  split
  · split <;> rfl
  · rfl

/-- A store that gives no locks is about to close. -/
def Store.Heeds (store : Store) : Prop :=
  store.locks.paused = true → store.closing = true

/-- Nothing else matters to that. -/
theorem Store.Heeds.congr
    {store left : Store}
    (heeds : store.Heeds)
    (closing : left.closing = store.closing)
    (paused : left.locks.paused = store.locks.paused) :
    left.Heeds := by
  intro isPaused
  rw [closing]
  exact heeds (paused ▸ isPaused)

namespace Session

variable {session : Session}

/-- Opening a reader does not make a store pause. -/
theorem heeds_holdReader
    {opening : Action Reader}
    (heeds : session.store.Heeds)
    (opened : Reader.Opened session.store (opening.runOn session.store)) :
    (session.holdReader opening).store.Heeds := by
  rw [holdReader_store]
  refine heeds.congr opened.closing ?_
  rcases outcome : (opening.runOn session.store).1 with fault | reader
  · exact (opened.failed fault outcome).paused
  · obtain ⟨guard, given, taken, locks, -⟩ := opened.done reader outcome
    exact locks.paused.trans (LockTable.paused_of_lock? taken)

/-- Opening a writer does not make a store pause. -/
theorem heeds_holdWriter
    (steady : session.store.Steady)
    (heeds : session.store.Heeds)
    (now : Int)
    (text : String)
    (append : Bool) :
    (session.holdWriter (Writer.openPath now text append)).store.Heeds := by
  have gives := endures_gave session.store.tables.lastEntryId
  have leaves :=
    Writer.openPath_endures gives.toEndures gives.fresh (fun _ _ _ => trivial) steady .idle
      le_rfl now text append
  rw [holdWriter_store]
  refine heeds.congr leaves.closing ?_
  rcases outcome : ((Writer.openPath now text append).runOn session.store).1 with fault | writer
  · exact (leaves.undone fault outcome).2.paused
  · obtain ⟨-, ⟨guard, given, taken, locks, -⟩, -⟩ := leaves.done writer outcome
    exact locks.paused.trans (LockTable.paused_of_lock? taken)

/-- A store that gives no locks goes on to be about to close. -/
theorem heeds_after
    (steady : session.store.Steady)
    (heeds : session.store.Heeds)
    (now : Int)
    {event : Event}
    (feasible : session.Feasible event) :
    (session.after now event).store.Heeds := by
  have rescoped
      {left : Store}
      (rescopes : session.store.Rescopes left) :
      left.Heeds :=
    heeds.congr rescopes.closing (congrArg LockTable.paused rescopes.locks)
  have continued
      {left : Store}
      (continues : session.store.Continues left) :
      left.Heeds :=
    heeds.congr continues.closing continues.locks.paused
  change (session.perform now event).store.Heeds
  cases event with
  | begin =>
      exact rescoped (.of_begin steady)
  | nest =>
      exact rescoped (.of_nest steady feasible)
  | finish kept =>
      exact rescoped (.of_finish steady feasible kept)
  | inside call =>
      exact continued (call.continues_inside steady now)
  | whole call =>
      exact continued (call.continues_whole steady now)
  | ask question =>
      exact continued (question.passes_ask steady trivial)
  | openWriter text append =>
      exact heeds_holdWriter steady heeds now text append
  | useWriter index use =>
      change (session.onWriter index (use.run now)).store.Heeds
      cases found : session.writers[index]? with
      | none =>
          rw [onWriter_none found]
          exact heeds
      | some writer =>
          rw [onWriter_eq found]
          have used := Writer.used_run writer steady now use
          refine heeds.congr used.closing ?_
          rcases used.locks with ⟨-, -, locks⟩ | ⟨guard, -, -, locks⟩
          · exact locks.paused
          · exact locks.paused.trans (LockTable.paused_release _ guard)
  | openReader text =>
      exact heeds_holdReader heeds (Reader.opened_openPath steady text)
  | openReaderOf entry =>
      exact heeds_holdReader heeds (Reader.opened_openEntry steady entry)
  | useReader index use =>
      change (session.onReader index use.run).store.Heeds
      unfold onReader
      cases session.readers[index]? with
      | none =>
          exact heeds
      | some reader =>
          rcases Reader.used_run reader steady use with ⟨-, _, -, left⟩ | ⟨guard, -, -, left⟩
          · dsimp only
            rw [left]
            exact heeds
          · dsimp only
            rw [left]
            exact heeds.congr rfl (LockTable.paused_release _ guard)
  | drain paused | close =>
      exact fun _ => rfl
  | resume =>
      exact fun paused => (Bool.false_ne_true paused).elim
  | reopen config timed =>
      exact fun paused => (Bool.false_ne_true paused).elim

/-- The lock table and the streams of a session agree, nothing in it has to do with ids that were
not given yet, and locks are refused only when a close has begun. -/
structure Modest (session : Session) : Prop where
  accounted : session.Accounted
  ordered : session.store.All Ordered
  allotted : session.store.All Allotted
  writer : ∀ writer ∈ session.writers, session.store.All (Gave writer.fileId)
  heeds : session.store.Heeds

namespace Modest

/-- A new store has no parts and no writers. -/
theorem start
    (config : Config)
    (timed : Bool)
    (now : Int) :
    (Session.start config timed now).Modest where
  accounted := .start config timed now
  ordered := (Orderly.start config timed now).tailed.ordered
  allotted := by
    refine ⟨fun part member => ?_, fun _ member => absurd member List.not_mem_nil⟩
    change part ∈ (seed config.roots now).parts at member
    rw [(bare_seed config.roots now).1] at member
    exact absurd member List.not_mem_nil
  writer _ member := absurd member List.not_mem_nil
  heeds paused := (Bool.false_ne_true paused).elim

/-- A writer that was opened has a file open that is there. -/
theorem opened
    {strict : Prop}
    (sound : session.Sound strict)
    {now : Int}
    {text : String}
    {append : Bool}
    {writer : Writer}
    (isOpened : ((Writer.openPath now text append).runOn session.store).1 = .ok writer) :
    ((Writer.openPath now text append).runOn session.store).2.All (Gave writer.fileId) := by
  have coherent := sound.all.tables.coherent
  have listed : session.store.tables.Listed := ⟨coherent.ids, coherent.id_le⟩
  have leaves := Writer.openPath_edits sound.steady listed now text append
  obtain ⟨-, -, opens⟩ := leaves.done writer isOpened
  obtain ⟨entry, member, isFile, -⟩ := opens.file
  refine leaves.all_done isOpened ?_
  rw [Gave, ← isFile]
  exact (opens.edited.listed listed).row_le entry member

/-- A session goes on to have nothing to do with ids that were not given yet. -/
theorem after
    {strict : Prop}
    (modest : session.Modest)
    (sound : session.Sound strict)
    (now : Int)
    {event : Event}
    (possible : session.Possible event) :
    (session.after now event).Modest where
  accounted := modest.accounted.after now possible.feasible
  ordered := all_always endures_ordered sound.steady modest.ordered now possible.feasible
  allotted := by
    have coherent := sound.all.tables.coherent
    have listed : session.store.tables.Listed := ⟨coherent.ids, coherent.id_le⟩
    refine all_made sound modest.allotted possible (fun call _ tables makes => ?_)
      (fun text append _ tables edited => ?_) fun index use writer _ found => ?_
    · refine makes.preserves (fun _ _ edited edit => edit.allotted (edited.listed listed))
        (fun id paths => ?_) modest.allotted.tables
      obtain ⟨targets, links, isResult⟩ := setLinks_eq id paths session.store.tables
      rw [isResult]
      exact modest.allotted.tables
    · exact edited.preserves (fun _ _ edited edit => edit.allotted (edited.listed listed))
        modest.allotted.tables
    · have gave := modest.writer writer (List.mem_of_getElem? found)
      obtain ⟨⟨-, allotted⟩, savepoints⟩ :=
        Writer.tables_run (stores_allotted session.store.tables.lastEntryId) sound.steady
          ⟨le_rfl, modest.allotted.tables⟩
          (fun _ => ⟨trivial, gave.tables, fun _ _ part member _ =>
            modest.allotted.tables part member⟩)
          now use
      exact ⟨allotted, savepoints ▸ modest.allotted.saved⟩
  writer writer member := by
    rcases writer_origin sound.steady now member with
      ⟨old, oldMember, sameFile, -, -⟩ | ⟨text, append, rfl, isOpened⟩
    · rw [sameFile]
      exact all_always (endures_gave old.fileId) sound.steady (modest.writer old oldMember) now
        possible.feasible
    · change (session.holdWriter (Writer.openPath now text append)).store.All _
      rw [holdWriter_store]
      exact opened sound isOpened
  heeds := heeds_after sound.steady modest.heeds now possible.feasible

/-- Whatever happened in a session on a new store, nothing in it has to do with ids that were not
given yet. -/
theorem of_reachable
    {config : Config}
    (named : ∀ root ∈ config.roots, IsName root)
    (distinct : config.roots.Nodup)
    {timed : Bool}
    {since : Int}
    (reachable : Reachable (fun _ _ _ => True) (Session.start config timed since) session) :
    session.Sound False ∧ session.Modest := by
  induction reachable with
  | refl =>
      exact ⟨.start named distinct timed since, start config timed since⟩
  | tail _ step before =>
      obtain ⟨possible, -⟩ := step
      exact ⟨before.1.after possible fun absurd => absurd.elim, before.2.after before.1 _ possible⟩

/-- Parts and entries are numbered. -/
theorem numbered
    {strict : Prop}
    (modest : session.Modest)
    (sound : session.Sound strict) :
    session.store.tables.Numbered :=
  have coherent := sound.all.tables.coherent
  modest.allotted.tables.numbered modest.ordered.tables ⟨coherent.ids, coherent.id_le⟩

/-- Nobody writes to a file whose id was not given yet. -/
theorem hold?_ne_exclusive
    (modest : session.Modest)
    {id : Int}
    (fresh : session.store.tables.lastEntryId < id) :
    session.store.locks.hold? id ≠ some .exclusive := by
  intro held
  have tally := modest.accounted.tally id
  have noWriter : holders Writer.guard session.writers ⟨id, session.store.locks.generation⟩ = 0 := by
    refine holders_eq_zero fun writer member isHeld => ?_
    have isFile : id = writer.fileId := (modest.accounted.writer writer member _ isHeld).1
    have gave : writer.fileId ≤ session.store.tables.lastEntryId :=
      (modest.writer writer member).tables
    omega
  rw [held, noWriter] at tally
  simp [VersionStore.tally] at tally

/-- A file whose id was not given yet is lent as long as no close has begun. -/
theorem lends
    (modest : session.Modest)
    (staying : session.store.closing = false)
    {locks : LockTable}
    (same : session.store.locks.Same locks)
    {id : Int}
    (fresh : session.store.tables.lastEntryId < id) :
    locks.lock? id false ≠ none := by
  have running : locks.paused = false := by
    rw [same.paused]
    refine Bool.eq_false_iff.mpr fun paused => ?_
    rw [modest.heeds paused] at staying
    cases staying
  have free := modest.hold?_ne_exclusive fresh
  rw [← same.hold?] at free
  rw [LockTable.lock?, running, if_neg Bool.false_ne_true]
  cases held : locks.hold? id with
  | none =>
      exact Option.some_ne_none _
  | some hold =>
      cases hold with
      | shared readers =>
          exact Option.some_ne_none _
      | exclusive =>
          exact absurd held free

end Modest

end Session

end VersionStore
