import VersionStore.Proofs.Action.Locks
import VersionStore.Proofs.Action.Run

namespace VersionStore

/-!
# What actions do inside a scope

`Action.Works` says what an action does to the tables of a store on which a scope is
open: where a condition holds before it, another one holds after it, one for success
and one for failure. All else about the store stays: the savepoints, the tables that
are kept, and what the lock table says about each id.

Some files may be busy: someone else holds them for writing all along. Where an
action gets a lock, the file is not busy.
-/

/-- What stays the same while the work of a scope is done. -/
structure Setting where
  /-- Whether deleted entries go to the trash. -/
  history : Bool
  /-- The files that someone else writes to. -/
  busy : Int → Prop
  /-- The files that someone else has open. -/
  held : Int → Prop := fun _ => False

namespace Store

/-- A store is as a setting says. -/
structure Fits (setting : Setting) (store : Store) : Prop where
  history : store.config.keepHistory = setting.history
  busy : ∀ id, setting.busy id → store.locks.hold? id = some .exclusive
  held : ∀ id, setting.held id → store.locks.hold? id ≠ none

/-- A store inside a scope, with its database to itself. -/
structure InScope (setting : Setting) (store : Store) : Prop
    extends store.Alone, store.Fits setting where
  opened : store.savepoints ≠ []
  free : store.access ≠ .stuck
  sane : store.locks.Sane

/-- A store without its tables, its accesses and its locks. -/
def frame (store : Store) : Store :=
  { store with tables := {}, access := .idle, locks := {} }

/-- What the work inside a scope leaves as it was. Where it changed the tables, it also
noted that it wrote. -/
structure Alike (before after : Store) : Prop where
  frame : after.frame = before.frame
  locks : before.locks.Same after.locks
  free : before.access ≠ .stuck → after.access ≠ .stuck
  noted : before.access = .writing → after.access = .writing
  wrote : before.access ≠ .stuck → after.tables ≠ before.tables → after.access = .writing

namespace Alike

variable {before middle after : Store}

/-- A store is like itself. -/
theorem refl
    (store : Store) :
    store.Alike store where
  frame := rfl
  locks := .refl _
  free := id
  noted := id
  wrote _ changed := (changed rfl).elim

/-- Likeness passes on. -/
theorem trans
    (first : before.Alike middle)
    (second : middle.Alike after) :
    before.Alike after where
  frame := second.frame.trans first.frame
  locks := first.locks.trans second.locks
  free free := second.free (first.free free)
  noted noted := second.noted (first.noted noted)
  wrote free changed := by
    by_cases same : middle.tables = before.tables
    · apply second.wrote (first.free free)
      rwa [same]
    · exact second.noted (first.wrote free same)

/-- The savepoints stay. -/
theorem savepoints
    (alike : before.Alike after) :
    after.savepoints = before.savepoints := by
  have same := congrArg Store.savepoints alike.frame
  exact same

/-- The tables that are kept stay. -/
theorem kept
    (alike : before.Alike after) :
    after.kept = before.kept := by
  have same := congrArg Store.kept alike.frame
  exact same

/-- The configuration stays. -/
theorem config
    (alike : before.Alike after) :
    after.config = before.config := by
  have same := congrArg Store.config alike.frame
  exact same

/-- A store goes on having its database to itself. -/
theorem alone
    (alike : before.Alike after)
    (alone : before.Alone) :
    after.Alone where
  damage := (congrArg (fun store : Store => store.damage) alike.frame).trans alone.damage
  writable := (congrArg (fun store : Store => store.readOnly) alike.frame).trans alone.writable
  others := (congrArg (fun store : Store => store.others) alike.frame).trans alone.others

/-- The scope goes on. -/
theorem inScope
    {setting : Setting}
    (alike : before.Alike after)
    (inScope : before.InScope setting) :
    after.InScope setting where
  toAlone := alike.alone inScope.toAlone
  opened := by
    rw [alike.savepoints]
    exact inScope.opened
  free := alike.free inScope.free
  history := by
    rw [alike.config]
    exact inScope.history
  sane := alike.locks.sane inScope.sane
  busy id busy := by
    rw [alike.locks.hold? id]
    exact inScope.busy id busy
  held id held := by
    rw [alike.locks.hold? id]
    exact inScope.held id held

end Alike

/-- A scope goes on while one more lock is held. -/
theorem InScope.locked
    {setting : Setting}
    {store : Store}
    (inScope : store.InScope setting)
    {id : Int}
    {exclusive : Bool}
    {guard : Guard}
    {locks : LockTable}
    (given : store.locks.lock? id exclusive = some (guard, locks)) :
    InScope setting { store with locks } :=
  { inScope with
    sane := inScope.sane.lock? given
    busy := by
      intro other busy
      have held := inScope.busy other busy
      have different : other ≠ id := by
        rintro rfl
        exact LockTable.hold?_ne_exclusive_of_lock? given held
      obtain ⟨-, -, hold, -, rfl⟩ := LockTable.lock?_eq_some_iff.mp given
      rw [LockTable.hold?_put, if_neg different]
      exact held
    held := by
      intro other held
      obtain ⟨-, -, hold, -, rfl⟩ := LockTable.lock?_eq_some_iff.mp given
      rw [LockTable.hold?_put]
      split
      · exact Option.some_ne_none _
      · exact inScope.held other held }

/-- A scope inside a scope. -/
theorem InScope.nested
    {setting : Setting}
    {store : Store}
    (inScope : store.InScope setting) :
    InScope setting { store with savepoints := store.tables :: store.savepoints } :=
  { inScope with opened := by simp }

/-- What is done under a lock leaves no trace of it once the lock is let go. -/
theorem Alike.unlocked
    {setting : Setting}
    {store left : Store}
    {id : Int}
    {exclusive : Bool}
    {guard : Guard}
    {locks : LockTable}
    (alike : Alike { store with locks } left)
    (inScope : store.InScope setting)
    (given : store.locks.lock? id exclusive = some (guard, locks)) :
    store.Alike { left with locks := left.locks.release guard } :=
  ⟨alike.frame, .release inScope.sane given alike.locks, alike.free, alike.noted, alike.wrote⟩

/-- Noting an access inside a scope changes the access only. -/
theorem alike_noting
    {setting : Setting}
    {store : Store}
    (inScope : store.InScope setting)
    {access : Access}
    (free : access ≠ .stuck) :
    store.Alike (store.noting access) := by
  have opened : store.savepoints.isEmpty = false := by
    simpa using inScope.opened
  rw [noting, opened]
  refine ⟨rfl, .refl _, ?_, ?_, fun _ changed => (changed rfl).elim⟩
  · intro before
    change store.access.max access ≠ .stuck
    unfold Access.max
    split
    · exact free
    · exact before
  · intro writing
    change store.access.max access = .writing
    rw [writing]
    cases access with
    | stuck =>
        exact (free rfl).elim
    | idle | reading | writing =>
        rfl

/-- Changing the tables inside a scope changes nothing else but the access. -/
theorem alike_withTables
    {setting : Setting}
    {store : Store}
    (inScope : store.InScope setting)
    (tables : Tables) :
    store.Alike ((store.noting .writing).withTables tables) := by
  have opened : store.savepoints.isEmpty = false := by
    simpa using inScope.opened
  have reached : store.access.max .writing = .writing := by
    have free := inScope.free
    cases access : store.access with
    | stuck =>
        exact (free access).elim
    | idle | reading | writing =>
        rfl
  have shape :
      (store.noting .writing).withTables tables =
        { store with access := .writing, tables } := by
    simp [noting, withTables, opened, reached]
  rw [shape]
  exact ⟨rfl, .refl _, fun _ => by simp, fun _ => rfl, fun _ _ => rfl⟩

end Store

namespace Action

/-- What holds of the tables after an outcome. -/
def Ends
    (post : α → Tables → Prop)
    (failed : Fault → Tables → Prop) :
    Except Fault α → Tables → Prop
  | .ok value, tables => post value tables
  | .error fault, tables => failed fault tables

/-- What an action does to the tables inside a scope. -/
def Works
    (setting : Setting)
    (pre : Tables → Prop)
    (action : Action α)
    (post : α → Tables → Prop)
    (failed : Fault → Tables → Prop) :
    Prop :=
  ∀ store : Store,
    store.InScope setting →
    pre store.tables →
    store.Alike (action.runOn store).2 ∧
      Ends post failed (action.runOn store).1 (action.runOn store).2.tables

/-- A scope inside a scope ends with what was done in it, or as if nothing had been. -/
theorem ends_transaction
    {setting : Setting}
    {store : Store}
    (inScope : store.InScope setting)
    {action : Action α}
    {post : α → Tables → Prop}
    {failed : Fault → Tables → Prop}
    (works :
      let nested : Store := { store with savepoints := store.tables :: store.savepoints }
      nested.Alike (action.runOn nested).2 ∧
        Ends post failed (action.runOn nested).1 (action.runOn nested).2.tables) :
    store.Alike ((Action.transaction action).runOn store).2 ∧
      Ends post (fun fault tables => tables = store.tables ∧ ∃ after, failed fault after)
        ((Action.transaction action).runOn store).1
        ((Action.transaction action).runOn store).2.tables := by
  obtain ⟨next, outer, around⟩ := List.exists_cons_of_ne_nil inScope.opened
  obtain ⟨alike, ended⟩ := works
  rw [Action.transaction, runOn_bind, runOn_beginScope]
  dsimp only
  rw [runOn_bind, runOn_attempt]
  generalize ran : action.runOn { store with savepoints := store.tables :: store.savepoints } = result
    at alike ended
  obtain ⟨outcome, left⟩ := result
  have saved : left.savepoints = store.tables :: next :: outer := by
    rw [alike.savepoints, around]
  have sameFrame : { left with savepoints := next :: outer }.frame = store.frame := by
    have same := congrArg (fun store : Store => { store with savepoints := next :: outer }) alike.frame
    rw [← around] at same ⊢
    exact same
  dsimp only
  rw [runOn_bind]
  cases outcome with
  | error fault =>
      change _ ∧ _
      rw [show endScope (Except.isOk (Except.error fault : Except Fault α)) = rollbackScope from rfl,
        runOn_rollbackScope_inner saved]
      exact ⟨⟨sameFrame, alike.locks, alike.free, alike.noted, fun _ changed => (changed rfl).elim⟩,
        rfl, _, ended⟩
  | ok value =>
      rw [show endScope (Except.isOk (Except.ok value : Except Fault α)) = commitScope from rfl,
        runOn_commitScope_inner saved]
      exact ⟨⟨sameFrame, alike.locks, alike.free, alike.noted, alike.wrote⟩, ended⟩

namespace Works

variable
  {setting : Setting}
  {pre : Tables → Prop}
  {failed : Fault → Tables → Prop}

/-! ## Composition -/

/-- A value alone. -/
theorem pure
    {value : α}
    {post : α → Tables → Prop}
    (holds : ∀ tables, pre tables → post value tables) :
    Works setting pre (Pure.pure value) post failed :=
  fun store _ before => ⟨.refl store, holds store.tables before⟩

/-- A failure alone. -/
theorem throw
    {fault : Fault}
    {post : α → Tables → Prop}
    (holds : ∀ tables, pre tables → failed fault tables) :
    Works setting pre (MonadExcept.throw fault) post failed :=
  fun store _ before => ⟨.refl store, holds store.tables before⟩

/-- One action and what follows it. -/
theorem bind
    {action : Action α}
    {next : α → Action β}
    {post : β → Tables → Prop}
    (middle : α → Tables → Prop)
    (first : Works setting pre action middle failed)
    (second : ∀ value, Works setting (middle value) (next value) post failed) :
    Works setting pre (action >>= next) post failed := by
  intro store inScope before
  obtain ⟨alike, ended⟩ := first store inScope before
  rw [runOn_bind]
  rcases ran : action.runOn store with ⟨fault | value, left⟩
  · rw [ran] at alike ended
    exact ⟨alike, ended⟩
  · rw [ran] at alike ended
    obtain ⟨alikeAfter, endedAfter⟩ := second value left (alike.inScope inScope) ended
    exact ⟨alike.trans alikeAfter, endedAfter⟩

/-- More may be asked before and less promised after. -/
theorem weaken
    {action : Action α}
    {pre' : Tables → Prop}
    {post post' : α → Tables → Prop}
    {failed' : Fault → Tables → Prop}
    (works : Works setting pre' action post' failed')
    (stronger : ∀ tables, pre tables → pre' tables)
    (weaker : ∀ value tables, post' value tables → post value tables)
    (weakerFailure : ∀ fault tables, failed' fault tables → failed fault tables) :
    Works setting pre action post failed := by
  intro store inScope before
  obtain ⟨alike, ended⟩ := works store inScope (stronger _ before)
  refine ⟨alike, ?_⟩
  rcases ran : action.runOn store with ⟨fault | value, left⟩
  · rw [ran] at ended
    exact weakerFailure fault _ ended
  · rw [ran] at ended
    exact weaker value _ ended

/-- More may be asked before. -/
theorem asking
    {action : Action α}
    {pre' : Tables → Prop}
    {post : α → Tables → Prop}
    (works : Works setting pre' action post failed)
    (stronger : ∀ tables, pre tables → pre' tables) :
    Works setting pre action post failed :=
  works.weaken stronger (fun _ _ holds => holds) fun _ _ holds => holds

/-- Less may be promised after. -/
theorem promising
    {action : Action α}
    {post post' : α → Tables → Prop}
    (works : Works setting pre action post' failed)
    (weaker : ∀ value tables, post' value tables → post value tables) :
    Works setting pre action post failed :=
  works.weaken (fun _ holds => holds) weaker fun _ _ holds => holds

/-- How an action fails may be left open. -/
theorem loosely
    {action : Action α}
    {post : α → Tables → Prop}
    (works : Works setting pre action post failed) :
    Works setting pre action post fun _ _ => True :=
  works.weaken (fun _ holds => holds) (fun _ _ holds => holds) fun _ _ _ => trivial

/-- What never fails fails in no particular way. -/
theorem surely
    {action : Action α}
    {post : α → Tables → Prop}
    (works : Works setting pre action post fun _ _ => False) :
    Works setting pre action post failed :=
  works.weaken (fun _ holds => holds) (fun _ _ holds => holds) fun _ _ absurd => absurd.elim

/-- What an action does in two respects it does in both. -/
theorem both
    {action : Action α}
    {pre' : Tables → Prop}
    {post post' : α → Tables → Prop}
    {failed' : Fault → Tables → Prop}
    (first : Works setting pre action post failed)
    (second : Works setting pre' action post' failed') :
    Works setting (fun tables => pre tables ∧ pre' tables) action
      (fun value tables => post value tables ∧ post' value tables)
      fun fault tables => failed fault tables ∧ failed' fault tables := by
  intro store inScope before
  obtain ⟨alike, ended⟩ := first store inScope before.1
  obtain ⟨-, ended'⟩ := second store inScope before.2
  refine ⟨alike, ?_⟩
  rcases ran : action.runOn store with ⟨fault | value, left⟩
  · rw [ran] at ended ended'
    exact ⟨ended, ended'⟩
  · rw [ran] at ended ended'
    exact ⟨ended, ended'⟩

/-- The tables before may be given a name. -/
theorem named
    {action : Action α}
    {post : α → Tables → Prop}
    (works : ∀ start, pre start → Works setting (· = start) action post failed) :
    Works setting pre action post failed :=
  fun store inScope before => works store.tables before store inScope rfl

/-- Something that is there before may be given a name. -/
theorem choosing
    {β : Type}
    {action : Action α}
    {pre' : β → Tables → Prop}
    {post : α → Tables → Prop}
    (works : ∀ chosen, Works setting (pre' chosen) action post failed) :
    Works setting (fun tables => ∃ chosen, pre' chosen tables) action post failed := by
  rintro store inScope ⟨chosen, before⟩
  exact works chosen store inScope before

/-- What holds anyway may be used. -/
theorem assuming
    {action : Action α}
    {post : α → Tables → Prop}
    (fact : Prop)
    (holds : ∀ tables, pre tables → fact)
    (works : fact → Works setting pre action post failed) :
    Works setting pre action post failed :=
  fun store inScope before => works (holds _ before) store inScope before

/-- An action that gives a value which is known, and what follows it. -/
theorem known
    {action : Action α}
    {next : α → Action β}
    {middle : Tables → Prop}
    {post : β → Tables → Prop}
    (value : α)
    (works :
      Works setting pre action (fun result tables => result = value ∧ middle tables) failed)
    (following : Works setting middle (next value) post failed) :
    Works setting pre (action >>= next) post failed := by
  refine .bind _ works fun result => ?_
  refine .assuming (result = value) (fun _ after => after.1) ?_
  rintro rfl
  exact following.asking fun _ after => after.2

/-- A case distinction. -/
theorem ite
    {condition : Prop}
    [Decidable condition]
    {yes no : Action α}
    {post : α → Tables → Prop}
    (positive : condition → Works setting pre yes post failed)
    (negative : ¬condition → Works setting pre no post failed) :
    Works setting pre (if condition then yes else no) post failed := by
  by_cases holds : condition
  · rw [if_pos holds]
    exact positive holds
  · rw [if_neg holds]
    exact negative holds

/-! ## Building blocks -/

/-- A question leaves the tables. -/
theorem query
    {question : Tables → α}
    {first : TableName}
    {post : α → Tables → Prop}
    (holds : ∀ tables, pre tables → post (question tables) tables) :
    Works setting pre (Action.query question first) post failed := by
  intro store inScope before
  rw [runOn_query inScope.toAlone]
  refine ⟨Store.alike_noting inScope (by simp), ?_⟩
  simpa [Ends] using holds _ before

/-- Making ready for a change leaves the tables. -/
theorem claim
    {table : TableName}
    {post : PUnit → Tables → Prop}
    (holds : ∀ tables, pre tables → post ⟨⟩ tables) :
    Works setting pre (Action.claim table) post failed := by
  intro store inScope before
  rw [runOn_claim inScope.toAlone]
  refine ⟨Store.alike_noting inScope (by simp), ?_⟩
  simpa [Ends] using holds _ before

/-- A change of the tables. -/
theorem update
    {change : Tables → Tables}
    {first : TableName}
    {post : PUnit → Tables → Prop}
    (holds : ∀ tables, pre tables → post ⟨⟩ (change tables)) :
    Works setting pre (Action.update change first) post failed := by
  intro store inScope before
  rw [runOn_update inScope.toAlone]
  exact ⟨Store.alike_withTables inScope _, holds _ before⟩

/-- A change of the tables that gives a value. -/
theorem insert
    {change : Tables → α × Tables}
    {first : TableName}
    {post : α → Tables → Prop}
    (holds : ∀ tables, pre tables → post (change tables).1 (change tables).2) :
    Works setting pre (Action.insert change first) post failed := by
  intro store inScope before
  rw [runOn_insert inScope.toAlone]
  exact ⟨Store.alike_withTables inScope _, holds _ before⟩

/-- A new directory row. -/
theorem addDirectory
    {id : Int}
    {path : String}
    {post : PUnit → Tables → Prop}
    (holds :
      ∀ tables,
        pre tables →
        Ends (fun after _ => post ⟨⟩ after) (fun fault _ => failed fault tables)
          (tables.addDirectory id path) tables) :
    Works setting pre (Action.addDirectory id path) post failed := by
  intro store inScope before
  have added := holds _ before
  rw [runOn_addDirectory inScope.toAlone]
  rcases outcome : store.tables.addDirectory id path with fault | tables
  · rw [outcome] at added
    refine ⟨Store.alike_noting inScope (by simp), ?_⟩
    simpa [Ends] using added
  · rw [outcome] at added
    exact ⟨Store.alike_withTables inScope _, added⟩

/-- A look at the whole store. -/
theorem get
    {next : Store → Action β}
    {post : β → Tables → Prop}
    (works :
      ∀ store : Store,
        store.InScope setting →
        Works setting (fun tables => pre tables ∧ tables = store.tables) (next store) post failed) :
    Works setting pre (MonadState.get >>= next) post failed := by
  intro store inScope before
  rw [runOn_bind]
  exact works store inScope store inScope ⟨before, rfl⟩

/-- An outcome that is handed on. -/
theorem ofExcept
    {outcome : Except Fault α}
    {post : α → Tables → Prop}
    (holds : ∀ tables, pre tables → Ends post failed outcome tables) :
    Works setting pre (MonadExcept.ofExcept outcome) post failed := by
  intro store _ before
  rw [runOn_ofExcept]
  exact ⟨.refl store, holds _ before⟩

/-- A value that has to be there. -/
theorem require
    {fault : Fault}
    {value? : Option α}
    {post : α → Tables → Prop}
    (present : ∀ value, value? = some value → ∀ tables, pre tables → post value tables)
    (absent : value? = none → ∀ tables, pre tables → failed fault tables) :
    Works setting pre (Action.require fault value?) post failed := by
  cases value? with
  | none =>
      exact .throw (absent rfl)
  | some value =>
      exact .pure (present value rfl)

/-! ## Scopes within the scope, and locks -/

/-- An attempt hands the failure over. -/
theorem attempt
    {action : Action α}
    {post : α → Tables → Prop}
    {failedInside : Fault → Tables → Prop}
    (works : Works setting pre action post failedInside) :
    Works setting pre (Action.attempt action) (Ends post failedInside) failed := by
  intro store inScope before
  rw [runOn_attempt]
  exact works store inScope before

/-- The failure of an inner scope undoes what was done in it. -/
theorem transaction
    {action : Action α}
    {post : α → Tables → Prop}
    {failedInside : Fault → Tables → Prop}
    (works : Works setting pre action post failedInside)
    (undone :
      ∀ fault start after,
        pre start →
        failedInside fault after →
        failed fault start) :
    Works setting pre (Action.transaction action) post failed := by
  intro store inScope before
  obtain ⟨alikeAfter, endedAfter⟩ := ends_transaction inScope (works _ inScope.nested before)
  refine ⟨alikeAfter, ?_⟩
  rcases ran : (Action.transaction action).runOn store with ⟨fault | value, left⟩
  · rw [ran] at endedAfter
    obtain ⟨same, after, isFailed⟩ := endedAfter
    rw [same]
    exact undone fault _ after before isFailed
  · rw [ran] at endedAfter
    exact endedAfter

/-- Work under a lock. A file that could be locked is not busy, and no one has it open when
the lock is not to be shared. -/
theorem lockedAlone
    {entry : Entry}
    {exclusive : Bool}
    {action : Action α}
    {post : α → Tables → Prop}
    (works :
      ¬setting.busy entry.id →
      (exclusive = true → ¬setting.held entry.id) →
      Works setting pre action post failed)
    (refused : ∀ tables, pre tables → failed (.inUse entry.name) tables) :
    Works setting pre (Action.locked entry exclusive action) post failed := by
  intro store inScope before
  rw [runOn_locked]
  cases given : store.locks.lock? entry.id exclusive with
  | none =>
      exact ⟨.refl store, refused _ before⟩
  | some pair =>
      obtain ⟨guard, locks⟩ := pair
      have idle : ¬setting.busy entry.id := fun busy =>
        LockTable.hold?_ne_exclusive_of_lock? given (inScope.busy _ busy)
      have alone (isExclusive : exclusive = true) : ¬setting.held entry.id := by
        subst isExclusive
        exact fun held => inScope.held _ held (LockTable.hold?_of_lock?_exclusive given)
      obtain ⟨alike, ended⟩ := works idle alone _ (inScope.locked given) before
      exact ⟨alike.unlocked inScope given, ended⟩

/-- Work under a lock. A file that could be locked is not busy. -/
theorem locked
    {entry : Entry}
    {exclusive : Bool}
    {action : Action α}
    {post : α → Tables → Prop}
    (works : ¬setting.busy entry.id → Works setting pre action post failed)
    (refused : ∀ tables, pre tables → failed (.inUse entry.name) tables) :
    Works setting pre (Action.locked entry exclusive action) post failed :=
  .lockedAlone (fun idle _ => works idle) refused

end Works

end Action

end VersionStore
