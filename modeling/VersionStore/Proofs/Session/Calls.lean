import VersionStore.Proofs.Action.Scopes
import VersionStore.Proofs.Session.Basic

namespace VersionStore

/-!
# Calls and questions from outside

A call that is made on a store is the same call in a transaction of its own. What the
call keeps inside a transaction it therefore keeps outside as well. Questions leave a
store as it was.
-/

/-- What an operation leaves of a store that it may change the tables of. -/
structure Store.Passes (store : Store) (holds : Tables → Prop) (left : Store) : Prop where
  steady : left.Steady
  config : left.config = store.config
  closing : left.closing = store.closing
  closed : left.closed = store.closed
  savepoints : left.savepoints = store.savepoints
  locks : store.locks.Same left.locks
  tables : holds left.tables

namespace Action

variable {store : Store} {holds : Tables → Prop}

/-- An action that only looks at a store on which no scope is open. Locks that it takes it
lets go again. -/
def Looks (action : Action α) : Prop :=
  ∀ store : Store,
    store.Alone →
    store.savepoints = [] →
    store.locks.Sane →
    ∃ locks, store.locks.Same locks ∧ (action.runOn store).2 = { store with locks }

namespace Looks

/-- A value alone is no change. -/
theorem pure
    (value : α) :
    Looks (Pure.pure value) :=
  fun store _ _ _ => ⟨store.locks, .refl _, rfl⟩

/-- A failure alone is no change. -/
theorem throw
    (fault : Fault) :
    Looks (MonadExcept.throw fault : Action α) :=
  fun store _ _ _ => ⟨store.locks, .refl _, rfl⟩

/-- An outcome that is handed on is no change. -/
theorem ofExcept
    (outcome : Except Fault α) :
    Looks (MonadExcept.ofExcept outcome) := by
  intro store _ _ _
  rw [runOn_ofExcept]
  exact ⟨store.locks, .refl _, rfl⟩

/-- Asking for a value is no change. -/
theorem require
    (fault : Fault)
    (value? : Option α) :
    Looks (Action.require fault value?) := by
  cases value? with
  | none =>
      exact .throw fault
  | some value =>
      exact .pure value

/-- One look and another. -/
theorem bind
    {action : Action α}
    {next : α → Action β}
    (first : Looks action)
    (second : ∀ value, Looks (next value)) :
    Looks (action >>= next) := by
  intro store alone outside sane
  obtain ⟨locks, same, isLeft⟩ := first store alone outside sane
  rw [runOn_bind]
  rcases ran : action.runOn store with ⟨fault | value, left⟩
  · rw [ran] at isLeft
    exact ⟨locks, same, isLeft⟩
  · rw [ran] at isLeft
    dsimp only at isLeft ⊢
    subst isLeft
    obtain ⟨after, sameAfter, isAfter⟩ :=
      second value { store with locks } ⟨alone.damage, alone.writable, alone.others⟩ outside
        (same.sane sane)
    exact ⟨after, same.trans sameAfter, isAfter⟩

/-- A question. -/
theorem query
    (question : Tables → α)
    (first : TableName) :
    Looks (Action.query question first) := by
  intro store alone outside _
  rw [runOn_query alone, noting_of_outside store outside]
  exact ⟨store.locks, .refl _, rfl⟩

/-- The entry at a path has to be there. -/
theorem requireEntry
    (path : CleanPath) :
    Looks (Txn.requireEntry path) :=
  .bind (.query _ _) fun _ => .require _ _

/-- The file at a path has to be there. -/
theorem requireFile
    (path : CleanPath) :
    Looks (Txn.requireFile path) := by
  refine .bind (.requireEntry path) fun entry => ?_
  simp only [throw_bind]
  split
  · exact .throw _
  · exact .pure _

/-- A look under a lock. -/
theorem locked
    {entry : Entry}
    {exclusive : Bool}
    {action : Action α}
    (looks : Looks action) :
    Looks (Action.locked entry exclusive action) := by
  intro store alone outside sane
  rw [runOn_locked]
  cases given : store.locks.lock? entry.id exclusive with
  | none =>
      exact ⟨store.locks, .refl _, rfl⟩
  | some pair =>
      obtain ⟨guard, taken⟩ := pair
      obtain ⟨locks, same, isLeft⟩ :=
        looks { store with locks := taken } ⟨alone.damage, alone.writable, alone.others⟩ outside
          (sane.lock? given)
      dsimp only
      rw [isLeft]
      exact ⟨locks.release guard, .release sane given same, rfl⟩

end Looks

/-! ## From outside -/

/-- An action that only looks, done inside the gate, leaves the tables. -/
theorem passes_reading
    (steady : store.Steady)
    (before : holds store.tables)
    {action : Action α}
    (looks : Looks action) :
    store.Passes holds ((reading action).runOn store).2 := by
  have refused : store.Passes holds store :=
    ⟨steady, rfl, rfl, rfl, rfl, .refl _, before⟩
  rw [reading, runOn_bind, runOn_enter steady.toAlone]
  by_cases entered : store.entered = true
  · rw [if_pos entered]
    exact refused
  rw [if_neg entered]
  by_cases closed : store.closed = true
  · rw [if_pos closed]
    exact refused
  rw [if_neg closed]
  have outside := steady.outside entered
  dsimp only
  rw [runOn_leaveAfter]
  obtain ⟨locks, same, isLeft⟩ :=
    looks { store with entered := true, connected := true }
      ⟨steady.damage, steady.writable, steady.others⟩ outside steady.sane
  rw [isLeft]
  refine ⟨⟨⟨steady.damage, steady.writable, steady.others⟩, ?_, steady.free, steady.idle,
    same.sane steady.sane, steady.unwritten, steady.outermost⟩, rfl, rfl, rfl, rfl, same, before⟩
  simp [outside]

/-- A question is answered when the gate is free. -/
theorem runOn_reading_query
    (steady : store.Steady)
    (outside : store.savepoints = [])
    (open_ : store.closed = false)
    (question : Tables → α)
    (first : TableName) :
    ((reading (query question first)).runOn store).1 = .ok (question store.tables) := by
  rw [runOn_reading ⟨steady, outside, open_⟩]
  dsimp only
  rw [runOn_query]
  exact ⟨steady.damage, steady.writable, steady.others⟩

/-- Entering the gate leaves the tables. -/
theorem tables_enter
    {entered : Store}
    (ran : enter.runOn store = (.ok ⟨⟩, entered)) :
    entered.tables = store.tables := by
  rw [enter, runOn_bind, runOn_get] at ran
  dsimp only at ran
  split at ran
  · cases ran
  · split at ran
    · cases ran
    · split at ran
      · split at ran
        · cases ran
        · cases ran
          rfl
      · cases ran
        rfl

/-- An answer to a question is what holds of the tables, whatever keeps others from asking. -/
theorem eq_of_runOn_reading_query
    {question : Tables → α}
    {first : TableName}
    {value : α}
    (answered : ((reading (query question first)).runOn store).1 = .ok value) :
    value = question store.tables := by
  rw [reading, runOn_bind] at answered
  rcases ran : enter.runOn store with ⟨fault | ⟨⟩, entered⟩
  · rw [ran] at answered
    cases answered
  · rw [ran] at answered
    dsimp only at answered
    rw [runOn_leaveAfter, query, runOn_bind, runOn_get] at answered
    dsimp only at answered
    rw [← tables_enter ran]
    split at answered
    · cases answered
    · exact (Except.ok.inj answered).symm

/-- Cleaning a path first changes nothing. -/
theorem passes_clean
    (steady : store.Steady)
    (before : holds store.tables)
    {text : String}
    {next : CleanPath → Action α}
    (passes : ∀ path, store.Passes holds ((next path).runOn store).2) :
    store.Passes holds ((Txn.clean text >>= next).runOn store).2 := by
  rw [runOn_bind, Txn.clean, runOn_ofExcept]
  cases CleanPath.ofText text with
  | ok path =>
      exact passes path
  | error fault =>
      exact ⟨steady, rfl, rfl, rfl, rfl, .refl _, before⟩

/-- What an action gives may be ignored. -/
theorem runOn_ignoring
    (action : Action α)
    (store : Store) :
    (ignoring action).runOn store =
      ((action.runOn store).1.map fun _ => (), (action.runOn store).2) := by
  rw [ignoring, runOn_bind]
  rcases action.runOn store with ⟨fault | value, left⟩ <;> rfl

/-- Ignoring what a transaction gives is ignoring it inside. -/
theorem runOn_writing_ignoring
    (action : Action α)
    (store : Store) :
    (ignoring (writing action)).runOn store = (writing (ignoring action)).runOn store := by
  have inScope :
      ∀ store : Store,
        (transaction (ignoring action)).runOn store =
          (((transaction action).runOn store).1.map fun _ => (),
            ((transaction action).runOn store).2) := by
    intro store
    rw [runOn_transaction, runOn_transaction, runOn_ignoring]
    rcases action.runOn _ with ⟨outcome, left⟩
    have same : (outcome.map fun _ => ()).isOk = outcome.isOk := by
      cases outcome <;> rfl
    dsimp only
    rw [same]
    rcases (endScope outcome.isOk).runOn left with ⟨_ | _, after⟩ <;> rfl
  rw [runOn_ignoring, runOn_writing, runOn_writing]
  cases store.closing with
  | true =>
      rfl
  | false =>
      rw [if_neg Bool.false_ne_true, if_neg Bool.false_ne_true]
      simp only [streaming, reading, runOn_bind]
      rcases enter.runOn store with ⟨fault | value, left⟩
      · rfl
      · dsimp only
        rw [runOn_leaveAfter, runOn_leaveAfter, inScope]

/-- An action whose value is ignored does what it does. -/
theorem Works.ignoring_iff
    {setting : Setting}
    {pre : Tables → Prop}
    {failed : Fault → Tables → Prop}
    {action : Action α} :
    Works setting pre (ignoring action) (fun _ => holds) failed ↔
      Works setting pre action (fun _ => holds) failed := by
  unfold Works
  refine forall_congr' fun store => forall_congr' fun _ => forall_congr' fun _ => ?_
  rw [runOn_ignoring]
  rcases action.runOn store with ⟨fault | value, left⟩ <;> rfl

/-- What leaves a store with its scopes and locks passes it on. -/
theorem Leaves.passes
    {post : α → LockTable → Tables → Prop}
    {left : Except Fault α × Store}
    (leaves : Leaves store post left)
    (before : holds store.tables)
    (promised :
      ∀ value locks tables,
        post value locks tables →
        store.locks.Same locks ∧ holds tables) :
    store.Passes holds left.2 := by
  refine ⟨leaves.steady, leaves.config, leaves.closing, leaves.closed, leaves.savepoints, ?_, ?_⟩ <;>
    cases outcome : left.1 with
    | ok value =>
        have after := promised value _ _ (leaves.done value outcome).2
        first | exact after.1 | exact after.2
    | error fault =>
        obtain ⟨same, locks⟩ := leaves.undone fault outcome
        first | exact locks | rwa [same]

/-- What an action keeps in a scope it keeps in a scope of its own. -/
theorem Works.passes
    {setting : Setting}
    {pre : Tables → Prop}
    {failed : Fault → Tables → Prop}
    {action : Action α}
    (works : Works setting pre action (fun _ => holds) failed)
    (steady : store.Steady)
    (fits : store.Fits setting)
    (enough : pre store.tables)
    (before : holds store.tables) :
    store.Passes holds ((streaming action).runOn store).2 :=
  (works.leaves steady fits enough).passes before fun _ _ _ after => after

/-- What an action keeps in a transaction it keeps in a transaction of its own. -/
theorem passes_writing
    {setting : Setting}
    {pre : Tables → Prop}
    {failed : Fault → Tables → Prop}
    {action : Action α}
    (steady : store.Steady)
    (fits : store.Fits setting)
    (works : Works setting pre action (fun _ => holds) failed)
    (enough : pre store.tables)
    (before : holds store.tables) :
    store.Passes holds ((writing action).runOn store).2 :=
  (leaves_writing steady (works.leaves steady fits enough)).passes before
    fun _ _ _ after => after

end Action

namespace Call

open VersionStore.Action

variable {store : Store} {holds pre : Tables → Prop}

/-- What a call keeps inside a transaction it keeps by itself. -/
theorem passes_whole
    {setting : Setting}
    {now : Int}
    {call : Call}
    {failed : Fault → Tables → Prop}
    (steady : store.Steady)
    (fits : store.Fits setting)
    (works : Works setting pre (call.inside now) (fun _ => holds) failed)
    (enough : pre store.tables)
    (before : holds store.tables) :
    store.Passes holds ((call.whole now).runOn store).2 := by
  cases call with
  | stat text =>
      rw [whole, runOn_ignoring]
      exact passes_clean steady before fun path =>
        passes_reading steady before (.query _ _)
  | list text =>
      rw [whole, runOn_ignoring]
      refine passes_clean steady before fun path => passes_reading steady before ?_
      refine .bind (.requireEntry path) fun entry => ?_
      simp only [throw_bind]
      split
      · exact .throw _
      · exact .query _ _
  | snapshot text source? time? =>
      rw [inside] at works
      rw [whole, runOn_ignoring, Store.snapshot, runOn_bind, runOn_attempt]
      dsimp only
      rw [runOn_pure]
      exact passes_writing steady fits works enough before
  | sweep select? =>
      rw [inside, Works.ignoring_iff] at works
      have thorough :
          Works setting pre
            (do
              let counts ← Txn.sweep select?
              if select?.isSome then claim .entries
              return counts)
            (fun _ => holds) failed := by
        refine .bind (fun _ => holds) works fun counts => ?_
        refine .ite (fun _ => ?_) fun _ => .pure fun _ stays => stays
        exact .bind (fun _ => holds) (.claim fun _ stays => stays) fun _ =>
          .pure fun _ stays => stays
      rw [whole, runOn_ignoring, Store.sweep]
      exact passes_writing steady fits thorough enough before
  | makeDirectories | write | writeFrom | delete | deleteEntry | copy | moveTo
  | setLastModified | setWritable | setLinks | prune | pruneHistory | recover =>
      rw [inside, Works.ignoring_iff] at works
      rw [whole, runOn_ignoring]
      exact passes_writing steady fits works enough before

end Call

namespace Question

open VersionStore.Action

/-- A question leaves the tables. -/
theorem passes_ask
    {store : Store}
    {holds : Tables → Prop}
    (steady : store.Steady)
    (before : holds store.tables)
    (question : Question) :
    store.Passes holds (question.ask.runOn store).2 := by
  cases question with
  | directoryPath id =>
      rw [ask, runOn_ignoring]
      exact passes_reading steady before (.query _ _)
  | listOf id =>
      rw [ask, runOn_ignoring]
      exact passes_reading steady before (.query _ _)
  | history root directory name directories count =>
      rw [ask, runOn_ignoring]
      exact passes_reading steady before (.query _ _)
  | searchHistory root directory name count select =>
      rw [ask, runOn_ignoring]
      exact passes_reading steady before (.query _ _)
  | linksFrom text =>
      rw [ask, runOn_ignoring]
      refine passes_clean steady before fun path => passes_reading steady before ?_
      refine .bind (.query _ _) fun found => ?_
      cases found with
      | some entry =>
          exact .query _ _
      | none =>
          exact .pure _
  | linksTo text =>
      rw [ask, runOn_ignoring]
      exact passes_clean steady before fun path => passes_reading steady before (.query _ _)
  | verify text =>
      rw [ask, runOn_ignoring]
      exact passes_clean steady before fun path =>
        passes_reading steady before (.bind (.requireFile path) fun entry => .query _ _)
  | copyOut text accept =>
      rw [ask, runOn_ignoring]
      refine passes_clean steady before fun path => passes_reading steady before ?_
      refine .bind (.requireFile path) fun entry => .locked (.bind (.query _ _) fun contents => ?_)
      split
      · exact .pure _
      · exact .throw _

end Question

end VersionStore
