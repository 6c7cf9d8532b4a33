import VersionStore.Proofs.Session.Uniform
import VersionStore.Proofs.Stream.Writing
import VersionStore.Proofs.Stream.Opening

namespace VersionStore

/-!
# The locks of streams

A stream takes one lock when it is opened and lets it go when it is closed. Nothing else
that is done with streams changes what the lock table says.
-/

open VersionStore.Action

/-! ## Taking a lock -/

/-- What is left of a store after a stream was opened on it, or was not. -/
structure Store.Lends (store : Store) (exclusive : Bool) (holds : σ → Guard → Prop)
    (left : Except Fault σ × Store) : Prop where
  steady : left.2.Steady
  config : left.2.config = store.config
  timed : left.2.timed = store.timed
  savepoints : left.2.savepoints = store.savepoints
  refused : ∀ fault, left.1 = .error fault → store.locks.Same left.2.locks
  lent :
    ∀ stream,
      left.1 = .ok stream →
      ∃ guard given,
        store.locks.lock? guard.id exclusive = some (guard, given) ∧
          given.Same left.2.locks ∧ holds stream guard

namespace Action

variable
  {store left : Store}
  {exclusive : Bool}
  {holds : σ → Guard → Prop}

/-- An action that opens a stream with a lock, or fails and takes none. -/
def Acquires (exclusive : Bool) (holds : σ → Guard → Prop) (action : Action σ) : Prop :=
  ∀ store : Store,
    store.Ready →
    (∀ fault,
      (action.runOn store).1 = .error fault →
      store.Undergoes (action.runOn store).2) ∧
    ∀ stream,
      (action.runOn store).1 = .ok stream →
      ∃ guard given,
        store.locks.lock? guard.id exclusive = some (guard, given) ∧
          holds stream guard ∧
            Store.Undergoes { store with locks := given } (action.runOn store).2

namespace Acquires

/-- Nothing is opened. -/
theorem throw
    (fault : Fault) :
    Acquires exclusive holds (MonadExcept.throw fault) :=
  fun _ ready => ⟨fun _ _ => ready.undergoes, fun _ isStream => nomatch isStream⟩

/-- A case distinction. -/
theorem ite
    {condition : Prop}
    [Decidable condition]
    {yes no : Action σ}
    (positive : Acquires exclusive holds yes)
    (negative : Acquires exclusive holds no) :
    Acquires exclusive holds (if condition then yes else no) := by
  split
  · exact positive
  · exact negative

/-- Work, and the opening of a stream after it. -/
theorem bind
    {action : Action α}
    {next : α → Action σ}
    (uniform : Uniform action)
    (acquires : ∀ value, Acquires exclusive holds (next value)) :
    Acquires exclusive holds (action >>= next) := by
  intro store ready
  obtain ⟨outcome, tables, gives⟩ := uniform store.view
  obtain ⟨-, -, undergoes⟩ := gives store ready.shows
  rw [runOn_bind]
  rcases ran : action.runOn store with ⟨fault | value, middle⟩
  · rw [ran] at undergoes
    exact ⟨fun _ _ => undergoes, fun _ isStream => nomatch isStream⟩
  · rw [ran] at undergoes
    dsimp only at undergoes ⊢
    obtain ⟨failed, opened⟩ := acquires value middle undergoes.ready
    refine ⟨fun fault isFault => undergoes.trans (failed fault isFault), ?_⟩
    intro stream isStream
    obtain ⟨guard, given, taken, held, after⟩ := opened stream isStream
    obtain ⟨first, takenFirst, same⟩ := undergoes.locks.lock? taken
    refine ⟨guard, first, takenFirst, held, .trans ?_ after⟩
    have sane : middle.locks.Sane := undergoes.ready.sane
    refine ⟨undergoes.ready.withLocks (sane.lock? taken), undergoes.rest, same, undergoes.kept⟩

/-- A lock, and a stream that is made with it. -/
theorem lockId
    {id : Int}
    {refusal : Fault}
    {make : Guard → Action σ}
    (makes :
      ∀ guard (store : Store),
        guard.id = id →
        store.Ready →
        ∃ stream left,
          (make guard).runOn store = (.ok stream, left) ∧
            holds stream guard ∧ store.Undergoes left) :
    Acquires exclusive holds (Action.lockId id exclusive refusal >>= make) := by
  intro store ready
  rw [runOn_bind, runOn_lockId]
  cases taken : store.locks.lock? id exclusive with
  | none =>
      exact ⟨fun _ _ => ready.undergoes, fun _ isStream => nomatch isStream⟩
  | some pair =>
      obtain ⟨guard, given⟩ := pair
      have sane : store.locks.Sane := ready.sane
      have isId : guard.id = id := by
        obtain ⟨-, rfl, -⟩ := LockTable.lock?_eq_some_iff.mp taken
        rfl
      obtain ⟨stream, left, made, held, undergoes⟩ :=
        makes guard { store with locks := given } isId (ready.withLocks (sane.lock? taken))
      dsimp only
      rw [made]
      refine ⟨fun _ isFault => (nomatch isFault), fun _ isStream => ?_⟩
      cases isStream
      exact ⟨guard, given, isId ▸ taken, held, undergoes⟩

/-- What is opened in a scope of its own. -/
theorem lends_writing
    {action : Action σ}
    (acquires : Acquires exclusive holds action)
    (steady : store.Steady) :
    store.Lends exclusive holds ((writing action).runOn store) := by
  have refused (fault : Fault) : store.Lends exclusive holds (.error fault, store) :=
    ⟨steady, rfl, rfl, rfl, fun _ _ => .refl _, fun _ isStream => nomatch isStream⟩
  have leaves {locks : LockTable} {after : Store}
      (outside : store.savepoints = [])
      (undergoes : Store.Undergoes { store.entering with locks } after) :
      after.Steady ∧ after.config = store.config ∧ after.timed = store.timed ∧
        after.savepoints = [store.tables] := by
    have timed := congrArg (fun store : Store => store.timed) undergoes.rest
    have savepoints : after.savepoints = [store.tables] :=
      undergoes.savepoints.trans (congrArg (store.tables :: ·) outside)
    refine ⟨{ undergoes.ready with gate := ?_ }, undergoes.config, timed, savepoints⟩
    rw [undergoes.entered, savepoints]
    rfl
  have inside (outside : store.savepoints = []) :
      ∃ locks, Store.Undergoes { store.entering with locks } (action.runOn store.entering).2 := by
    obtain ⟨failed, opened⟩ := acquires store.entering { steady.entering outside with gate := rfl }
    cases outcome : (action.runOn store.entering).1 with
    | error fault =>
        exact ⟨store.locks, failed fault outcome⟩
    | ok stream =>
        obtain ⟨-, given, -, -, undergoes⟩ := opened stream outcome
        exact ⟨given, undergoes⟩
  rw [runOn_writing]
  split
  · exact refused _
  rw [runOn_streaming steady fun outside => ?_]
  · by_cases entered : store.entered = true
    · rw [if_pos entered]
      exact refused _
    rw [if_neg entered]
    by_cases closed : store.closed = true
    · rw [if_pos closed]
      exact refused _
    rw [if_neg closed]
    have outside := steady.outside entered
    obtain ⟨locks, undergoes⟩ := inside outside
    obtain ⟨left, config, timed, savepoints⟩ := leaves outside undergoes
    obtain ⟨failed, opened⟩ := acquires store.entering { steady.entering outside with gate := rfl }
    generalize action.runOn store.entering = result at *
    obtain ⟨outcome, after⟩ := result
    obtain ⟨endedConfig, endedLocks, -, -⟩ := after.ended_same outcome.isOk store.tables
    refine ⟨left.ended savepoints _, endedConfig.trans config, (after.ended_place _ _).1.trans timed,
      ?_, ?_, ?_⟩
    · rw [outside]
      exact Store.ended_savepoints left.toAlone _ _
    · rintro fault rfl
      dsimp only
      rw [endedLocks]
      exact (failed fault rfl).locks
    · rintro stream rfl
      obtain ⟨guard, given, taken, held, undergone⟩ := opened stream rfl
      dsimp only
      rw [endedLocks]
      exact ⟨guard, given, taken, undergone.locks, held⟩
  · obtain ⟨locks, undergoes⟩ := inside outside
    obtain ⟨left, -, -, savepoints⟩ := leaves outside undergoes
    exact ⟨left.toAlone, savepoints⟩

end Acquires

end Action

/-! ## Opening -/

variable {store : Store}

/-- A path that is cleaned before a stream is opened. -/
theorem Store.lends_clean
    {exclusive : Bool}
    {holds : σ → Guard → Prop}
    (steady : store.Steady)
    {text : String}
    {next : CleanPath → Action σ}
    (lends : ∀ path, store.Lends exclusive holds ((next path).runOn store)) :
    store.Lends exclusive holds ((Txn.clean text >>= next).runOn store) := by
  rw [runOn_bind, Txn.clean, runOn_ofExcept]
  cases CleanPath.ofText text with
  | error fault =>
      exact ⟨steady, rfl, rfl, rfl, fun _ _ => .refl _, fun _ isStream => by cases isStream⟩
  | ok path =>
      exact lends path

namespace Writer

/-- A writer has the lock on its file, and was not closed. -/
def Holds (writer : Writer) (guard : Guard) : Prop :=
  writer.guard = some guard ∧ guard.id = writer.fileId ∧ writer.result = none

/-- A writer that is not closed has a lock. -/
theorem guard_of_open
    {writer : Writer}
    (open_ : writer.isClosed = false) :
    ∃ guard, writer.guard = some guard := by
  simpa [isClosed, Option.isSome_iff_exists] using (Bool.or_eq_false_iff.mp open_).2

/-- A new file is written to under a lock that no one shares. -/
theorem acquires_create
    (now : Int)
    (path : CleanPath) :
    Acquires true Holds (create now path) := by
  refine .bind (.require _ _) fun parent => .bind (Txn.entryAt?_uniform parent) fun found =>
    .bind (.require _ _) fun directory => ?_
  refine .ite (.throw _) (.bind (.insert _ _) fun id => ?_)
  exact .lockId fun guard store isId ready => ⟨_, _, rfl, ⟨rfl, isId, rfl⟩, ready.undergoes⟩

/-- A writer that goes on behind some parts was not closed. -/
theorem resuming_result
    (path : String)
    (fileId : Int)
    (guard : Guard)
    (contents : List Content) :
    (resuming path fileId guard contents).result = none := by
  unfold resuming
  dsimp only
  split
  · rfl
  · split <;> rfl

/-- A writer is opened with a lock that no one shares. -/
theorem acquires_start
    (now : Int)
    (path : CleanPath)
    (append : Bool) :
    Acquires true Holds (start now path append) := by
  refine .bind (Txn.entryAt?_uniform path) fun found => ?_
  cases found with
  | none =>
      exact acquires_create now path
  | some entry =>
      refine .ite (.throw _) (.ite (.lockId fun guard store isId ready => ?_) ?_)
      · rw [runOn_bind, runOn_query ready.alone]
        refine ⟨_, _, rfl, ?_, ready.noting (by simp)⟩
        refine ⟨resuming_guard _ _ _ _, ?_, resuming_result _ _ _ _⟩
        rw [resuming_fileId]
        exact isId
      · refine .ite (.throw _) (.bind (Txn.deleteExisting_uniform now entry) fun _ => ?_)
        exact .ite (.throw _) (acquires_create now path)

/-- A writer that is opened on a path. -/
theorem lends_openPath
    (steady : store.Steady)
    (now : Int)
    (text : String)
    (append : Bool) :
    store.Lends true Holds ((openPath now text append).runOn store) := by
  refine Store.lends_clean steady fun path => ?_
  have lends := Acquires.lends_writing (acquires_start now path append) steady
  rw [runOn_bind]
  rcases ran : (writing (start now path append)).runOn store with ⟨fault | writer, left⟩
  · rw [ran] at lends
    exact ⟨lends.steady, lends.config, lends.timed, lends.savepoints,
      fun _ _ => lends.refused fault rfl, fun _ isWriter => nomatch isWriter⟩
  · rw [ran] at lends
    dsimp only
    rw [runOn_bind, runOn_get]
    refine ⟨lends.steady, lends.config, lends.timed, lends.savepoints,
      fun _ isFault => (nomatch isFault), fun _ isWriter => ?_⟩
    cases isWriter
    exact lends.lent writer rfl

/-- A writer that was opened just now has the watchdog that its store gives. -/
theorem watchdog_openPath
    {writer : Writer}
    (steady : store.Steady)
    {now : Int}
    {text : String}
    {append : Bool}
    (opened : ((openPath now text append).runOn store).1 = .ok writer) :
    writer.watchdog = Watchdog.ofStore? store := by
  rw [openPath, runOn_bind, Txn.clean, runOn_ofExcept] at opened
  cases isPath : CleanPath.ofText text with
  | error fault =>
      rw [isPath] at opened
      cases opened
  | ok path =>
      have lends := Acquires.lends_writing (acquires_start now path append) steady
      rw [isPath] at opened
      dsimp only at opened
      rw [runOn_bind] at opened
      rcases ran : (writing (start now path append)).runOn store with ⟨fault | started, left⟩
      · rw [ran] at opened
        cases opened
      · rw [ran] at opened lends
        cases opened
        rw [Watchdog.ofStore?, Watchdog.ofStore?, lends.timed, lends.config]

/-! ## Using a writer -/

/-- What a use leaves of a writer and of its store. The lock goes when the writer is closed,
and then for good. -/
structure Used (before : Writer) (store : Store) (writer : Writer) (left : Store) : Prop where
  steady : left.Steady
  config : left.config = store.config
  closing : left.closing = store.closing
  closed : left.closed = store.closed
  savepoints : left.savepoints = store.savepoints
  fileId : writer.fileId = before.fileId
  locks :
    writer.guard = before.guard ∧ writer.result = before.result ∧
        store.locks.Same left.locks ∨
      ∃ guard,
        before.guard = some guard ∧ writer.guard = none ∧
          (store.locks.release guard).Same left.locks

/-- A buffer is stored uniformly. -/
theorem storeBuffer_uniform
    (writer : Writer) :
    Uniform (storeBuffer writer) := by
  refine .ite (.pure _) ?_
  cases writer.tail with
  | none =>
      exact .update _ _
  | some id =>
      exact .update _ _

/-- A file is completed uniformly. -/
theorem complete_uniform
    (now : Int)
    (writer : Writer) :
    Uniform (complete now writer) :=
  .bind (storeBuffer_uniform writer) fun _ => .bind (.update _ _) fun _ =>
    Txn.requireEntry?_uniform _ _

/-- Every use of a writer leaves its lock or lets it go. -/
theorem used_run
    (before : Writer)
    (steady : store.Steady)
    (now : Int)
    (use : WriterUse) :
    Used before store ((use.run now).runOn before store).2.1
      ((use.run now).runOn before store).2.2 := by
  have streamed {writer writer' : Writer} {left : Store} {action : Action Unit}
      (used : Used before store writer left)
      (uniform : Uniform action)
      (same : writer'.fileId = writer.fileId ∧ writer'.guard = writer.guard ∧
        writer'.result = writer.result) :
      Used before store writer' ((streaming action).runOn left).2 := by
    have continues := uniform.continues_streaming used.steady
    refine ⟨continues.steady, continues.config.trans used.config,
      continues.closing.trans used.closing, continues.closed.trans used.closed,
      continues.savepoints.trans used.savepoints, same.1.trans used.fileId, ?_⟩
    rw [same.2.1, same.2.2]
    rcases used.locks with ⟨held, open_, locks⟩ | ⟨guard, held, gone, locks⟩
    · exact .inl ⟨held, open_, locks.trans continues.locks⟩
    · exact .inr ⟨guard, held, gone, locks.trans continues.locks⟩
  have stable : Stable now (Used before store) := by
    constructor
    case steady =>
      exact fun _ _ used _ => used.steady
    case watched =>
      exact fun _ _ _ used =>
        ⟨used.steady, used.config, used.closing, used.closed, used.savepoints, used.fileId,
          used.locks⟩
    case buffered =>
      exact fun _ _ _ used _ _ =>
        ⟨used.steady, used.config, used.closing, used.closed, used.savepoints, used.fileId,
          used.locks⟩
    case stored =>
      exact fun writer _ used _ _ _ => streamed used (storeBuffer_uniform writer) ⟨rfl, rfl, rfl⟩
    case refused =>
      exact fun writer _ _ used _ _ => streamed used (storeBuffer_uniform writer) ⟨rfl, rfl, rfl⟩
    case closed =>
      intro writer left guard used _ held
      have continues := (complete_uniform now writer).continues_streaming used.steady
      refine ⟨continues.steady.withLocks (continues.steady.sane.release guard),
        continues.config.trans used.config, continues.closing.trans used.closing,
        continues.closed.trans used.closed, continues.savepoints.trans used.savepoints, used.fileId,
        .inr ⟨guard, ?_, rfl, ?_⟩⟩
      · rcases used.locks with ⟨same, -⟩ | ⟨_, -, gone, -⟩
        · rw [← same, held]
        · rw [held] at gone
          cases gone
      · rcases used.locks with ⟨-, -, locks⟩ | ⟨_, -, gone, -⟩
        · exact (locks.trans continues.locks).released guard
        · rw [held] at gone
          cases gone
  exact stable.run use before store ⟨steady, rfl, rfl, rfl, rfl, rfl, .inl ⟨rfl, rfl, .refl _⟩⟩

/-- However a writer is used, its store remains where it is. -/
theorem remains_run
    (before : Writer)
    (steady : store.Steady)
    (now : Int)
    (use : WriterUse) :
    store.Remains ((use.run now).runOn before store).2.2 := by
  have stable : Stable now fun _ left => store.Remains left := by
    constructor
    case steady =>
      exact fun _ _ remains _ => remains.steady
    case watched =>
      exact fun _ _ _ remains => remains
    case buffered =>
      exact fun _ _ _ remains _ _ => remains
    case stored =>
      exact fun writer _ remains _ _ _ =>
        remains.trans ((storeBuffer_uniform writer).remains_streaming remains.steady)
    case refused =>
      exact fun writer _ _ remains _ _ =>
        remains.trans ((storeBuffer_uniform writer).remains_streaming remains.steady)
    case closed =>
      intro writer left guard remains _ _
      have completed :=
        remains.trans ((complete_uniform now writer).remains_streaming remains.steady)
      exact { completed with
        steady := completed.steady.withLocks (completed.steady.sane.release guard) }
  exact stable.run use before store (.refl steady)

/-- A closed writer stays closed and does nothing to its store. -/
theorem run_closed
    {writer : Writer}
    (closed : writer.isClosed = true)
    (now : Int)
    (use : WriterUse)
    (store : Store) :
    ((use.run now).runOn writer store).2.1.isClosed = true ∧
      ((use.run now).runOn writer store).2.2 = store := by
  have stable : Stable now fun writer left => writer.isClosed = true ∧ left = store := by
    constructor
    case watched =>
      exact fun _ _ _ before => before
    case closed =>
      intro writer _ guard before noResult held
      simp [isClosed, noResult, held] at before
    all_goals
      intro writer _ _ before
      simp_all
  exact stable.run use writer store ⟨closed, rfl⟩

end Writer

end VersionStore
