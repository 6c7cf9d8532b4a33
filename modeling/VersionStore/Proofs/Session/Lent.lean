import VersionStore.Proofs.Session.Feeding
import VersionStore.Proofs.Session.Fresh
import VersionStore.Proofs.Stream.Cursor

namespace VersionStore

/-!
# Files that are new to everyone

A reader is of a file whose id was given, as a writer is. So no one holds a lock on an id that was
not given yet, and a file that gets it can be locked at once.
-/

open Tables VersionStore.Action

namespace Reader

variable {store : Store} {reader : Reader}

/-- Inside the gate an action succeeds outside of all scopes. -/
theorem succeeds_inside
    (steady : store.Steady)
    {action : Action α}
    {value : α}
    (succeeds : ((reading action).runOn store).1 = .ok value) :
    store.savepoints = [] ∧
      (action.runOn { store with entered := true, connected := true }).1 = .ok value := by
  rw [reading, runOn_bind, runOn_enter steady.toAlone] at succeeds
  by_cases entered : store.entered = true
  · rw [if_pos entered] at succeeds
    cases succeeds
  by_cases closed : store.closed = true
  · rw [if_neg entered, if_pos closed] at succeeds
    cases succeeds
  rw [if_neg entered, if_neg closed] at succeeds
  dsimp only at succeeds
  rw [runOn_leaveAfter] at succeeds
  exact ⟨steady.outside entered, succeeds⟩

/-- A reader over an entry is one of it. -/
theorem entry_of_ofEntry
    (alone : store.Alone)
    {entry : Entry}
    (isReader : ((ofEntry entry).runOn store).1 = .ok reader) :
    reader.entry = entry := by
  rw [ofEntry, lock, runOn_bind, runOn_lockId] at isReader
  cases taken : store.locks.lock? entry.id false with
  | none =>
      rw [taken] at isReader
      cases isReader
  | some pair =>
      have aloneAfter : ({ store with locks := pair.2 } : Store).Alone :=
        ⟨alone.damage, alone.writable, alone.others⟩
      rw [taken] at isReader
      dsimp only at isReader
      rw [runOn_bind, runOn_query aloneAfter] at isReader
      cases isReader
      rfl

/-- A reader is opened outside of all scopes, on a file that is there. -/
theorem OpenedOn.member
    (opened : reader.OpenedOn store)
    (steady : store.Steady) :
    store.savepoints = [] ∧ reader.entry ∈ store.tables.entries := by
  have alone : ({ store with entered := true, connected := true } : Store).Alone :=
    ⟨steady.damage, steady.writable, steady.others⟩
  rcases opened with ⟨text, isReader⟩ | ⟨entry, isReader⟩
  · rw [openPath, runOn_bind, Txn.clean, runOn_ofExcept] at isReader
    cases isPath : CleanPath.ofText text with
    | error fault =>
        rw [isPath] at isReader
        cases isReader
    | ok path =>
        rw [isPath] at isReader
        obtain ⟨outside, inside⟩ := succeeds_inside steady isReader
        refine ⟨outside, ?_⟩
        rw [runOn_bind, Store.runOn_requireFile alone outside] at inside
        dsimp only at inside
        cases found : store.tables.lookupAt? path with
        | none =>
            rw [found] at inside
            cases inside
        | some row =>
            rw [found] at inside
            dsimp only at inside
            by_cases isDirectory : row.isDirectory = true
            · rw [if_pos isDirectory] at inside
              cases inside
            · rw [if_neg isDirectory] at inside
              rw [entry_of_ofEntry alone inside]
              exact List.mem_of_find?_eq_some found
  · unfold openEntry at isReader
    simp only [throw_bind] at isReader
    split at isReader
    · cases isReader
    obtain ⟨outside, inside⟩ := succeeds_inside steady isReader
    refine ⟨outside, ?_⟩
    rw [runOn_bind, runOn_query alone,
      noting_of_outside { store with entered := true, connected := true } outside] at inside
    dsimp only at inside
    cases found : store.tables.entry? entry.id with
    | none =>
        rw [found] at inside
        cases inside
    | some row =>
        rw [found] at inside
        rw [entry_of_ofEntry alone inside]
        exact List.mem_of_find?_eq_some found

end Reader

namespace Session

variable {session : Session}

/-- A reader that is held by whoever opened it has been there, or was opened just now. -/
theorem reader_origin
    (steady : session.store.Steady)
    (now : Int)
    {event : Event}
    {reader : Reader}
    (member : reader ∈ (session.after now event).readers) :
    (∃ old ∈ session.readers, reader.entry = old.entry) ∨
      reader.OpenedOn session.store ∧
        (session.after now event).store.tables = session.store.tables ∧
          (session.after now event).store.savepoints = session.store.savepoints := by
  have held {opening : Action Reader}
      (opens : Reader.Opened session.store (opening.runOn session.store))
      (isOpened :
        ∀ reader, (opening.runOn session.store).1 = .ok reader → reader.OpenedOn session.store)
      (isHeld : reader ∈ (session.holdReader opening).readers) :
      (∃ old ∈ session.readers, reader.entry = old.entry) ∨
        reader.OpenedOn session.store ∧
          (session.holdReader opening).store.tables = session.store.tables ∧
            (session.holdReader opening).store.savepoints = session.store.savepoints := by
    rw [holdReader_store]
    unfold holdReader at isHeld
    rcases ran : opening.runOn session.store with ⟨fault | opened, left⟩
    · rw [ran] at isHeld
      exact .inl ⟨reader, isHeld, rfl⟩
    · rw [ran] at isHeld
      rcases List.mem_append.mp isHeld with old | new
      · exact .inl ⟨reader, old, rfl⟩
      · cases List.mem_singleton.mp new
        exact .inr ⟨isOpened reader (by rw [ran]), ran ▸ opens.tables, ran ▸ opens.savepoints⟩
  cases event with
  | openReader text =>
      exact held (Reader.opened_openPath steady text) (fun _ isReader => .inl ⟨text, isReader⟩)
        member
  | openReaderOf entry =>
      exact held (Reader.opened_openEntry steady entry) (fun _ isReader => .inr ⟨entry, isReader⟩)
        member
  | useReader index use =>
      change reader ∈ (session.onReader index use.run).readers at member
      unfold onReader at member
      cases found : session.readers[index]? with
      | none =>
          rw [found] at member
          exact .inl ⟨reader, member, rfl⟩
      | some old =>
          rw [found] at member
          rcases List.mem_or_eq_of_mem_set member with other | rfl
          · exact .inl ⟨reader, other, rfl⟩
          · refine .inl ⟨old, List.mem_of_getElem? found, ?_⟩
            rcases Reader.used_run old steady use with ⟨fixed, -⟩ | ⟨_, -, fixed, -⟩
            · exact congrArg (·.2.1) fixed
            · exact congrArg (·.2.1) fixed
  | openWriter text append =>
      change reader ∈ (session.holdWriter _).readers at member
      unfold holdWriter at member
      rcases ran : (Writer.openPath now text append).runOn session.store with ⟨_ | _, left⟩ <;>
        rw [ran] at member <;>
          exact .inl ⟨reader, member, rfl⟩
  | useWriter index use =>
      change reader ∈ (session.onWriter index (use.run now)).readers at member
      unfold onWriter at member
      cases found : session.writers[index]? <;> rw [found] at member <;>
        exact .inl ⟨reader, member, rfl⟩
  | _ =>
      exact .inl ⟨reader, member, rfl⟩

/-- Every reader is of a file whose id was given. -/
def ReadsGiven (session : Session) : Prop :=
  ∀ reader ∈ session.readers, session.store.All (Gave reader.entry.id)

/-- Every reader goes on to be of a file whose id was given. -/
theorem ReadsGiven.after
    {strict : Prop}
    (reads : session.ReadsGiven)
    (sound : session.Sound strict)
    (now : Int)
    {event : Event}
    (feasible : session.Feasible event) :
    (session.after now event).ReadsGiven := by
  intro reader member
  rcases reader_origin sound.steady now member with
    ⟨old, oldMember, sameEntry⟩ | ⟨opened, sameTables, sameSavepoints⟩
  · rw [sameEntry]
    exact all_always (endures_gave old.entry.id) sound.steady (reads old oldMember) now feasible
  · obtain ⟨outside, isEntry⟩ := opened.member sound.steady
    refine ⟨?_, ?_⟩
    · rw [sameTables]
      exact sound.all.tables.coherent.id_le reader.entry isEntry
    · rw [sameSavepoints, outside]
      exact fun _ member => absurd member List.not_mem_nil

/-- Whatever happened in a session on a new store, its readers are of files whose ids were
given. -/
theorem ReadsGiven.of_reachable
    {config : Config}
    (named : ∀ root ∈ config.roots, IsName root)
    (distinct : config.roots.Nodup)
    {timed : Bool}
    {since : Int}
    (reachable : Reachable (fun _ _ _ => True) (Session.start config timed since) session) :
    session.ReadsGiven := by
  induction reachable with
  | refl =>
      exact fun _ member => absurd member List.not_mem_nil
  | tail before step inductionHypothesis =>
      obtain ⟨possible, -⟩ := step
      exact inductionHypothesis.after (Modest.of_reachable named distinct before).1 _
        possible.feasible

/-- No one has a file open whose id was not given yet. -/
theorem Modest.unopened
    (modest : session.Modest)
    (reads : session.ReadsGiven)
    {id : Int}
    (fresh : session.store.tables.lastEntryId < id) :
    session.Unopened id where
  writer writer member isFile := by
    have gave : writer.fileId ≤ session.store.tables.lastEntryId := (modest.writer writer member).tables
    omega
  reader reader member isFile := by
    have gave : reader.entry.id ≤ session.store.tables.lastEntryId := (reads reader member).tables
    omega

/-- A file whose id was not given yet can be locked as long as no close has begun. -/
theorem Modest.grants
    (modest : session.Modest)
    (reads : session.ReadsGiven)
    (idle : session.store.Idle)
    (staying : session.store.closing = false) :
    session.store.locks.Grants (session.store.tables.lastEntryId < ·) := by
  have running : session.store.locks.paused = false :=
    Bool.eq_false_iff.mpr fun paused => Bool.false_ne_true (staying.symm.trans (modest.heeds paused))
  have grants := Unopened.grants modest.accounted ⟨idle.outside, idle.opened, staying, running⟩
  exact ⟨running, fun id fresh => grants.free id (modest.unopened reads fresh)⟩

end Session

end VersionStore
