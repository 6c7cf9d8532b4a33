import VersionStore.Proofs.Action.Scopes

namespace VersionStore

/-!
# Locks that are granted

A lock table that is not paused gives every lock on a file that nobody holds, and it does so
as long as it holds what it held. `Action.Yields` says of an action that it succeeds on the
stores with such a table, and `Action.Retains` the same of one that keeps a lock in the end.
-/

namespace LockTable

/-- Locks are given, and some files are not held. -/
structure Grants (free : Int → Prop) (table : LockTable) : Prop where
  running : table.paused = false
  free : ∀ id, free id → table.hold? id = none

variable {free : Int → Prop} {table other : LockTable}

/-- A file that is not held can be locked. -/
theorem Grants.lock?
    (grants : table.Grants free)
    {id : Int}
    (isFree : free id)
    (exclusive : Bool) :
    ∃ guard locked, table.lock? id exclusive = some (guard, locked) := by
  have next : ∃ hold, nextHold? exclusive (table.hold? id) = some hold := by
    rw [grants.free id isFree]
    cases exclusive <;> exact ⟨_, rfl⟩
  obtain ⟨hold, next⟩ := next
  exact ⟨_, _, lock?_eq_some_iff.mpr ⟨grants.running, rfl, hold, next, rfl⟩⟩

/-- A table that holds the same grants the same. -/
theorem Grants.same
    (grants : table.Grants free)
    (same : table.Same other) :
    other.Grants free where
  running := same.paused.trans grants.running
  free id isFree := (same.hold? id).trans (grants.free id isFree)

end LockTable

namespace Action

variable
  {setting : Setting}
  {free : Int → Prop}
  {pre : Tables → Prop}

/-- In a scope of a store that grants some locks an action succeeds, and gives all locks back. -/
def Yields
    (setting : Setting)
    (free : Int → Prop)
    (pre : Tables → Prop)
    (action : Action α)
    (post : α → Tables → Prop) :
    Prop :=
  ∀ store : Store,
    store.InScope setting →
    store.locks.Grants free →
    pre store.tables →
    ∃ value left,
      action.runOn store = (.ok value, left) ∧ store.Alike left ∧ post value left.tables

namespace Yields

/-- What never fails succeeds. -/
theorem of_works
    {action : Action α}
    {post : α → Tables → Prop}
    (works : Works setting pre action post fun _ _ => False) :
    Yields setting free pre action post := by
  intro store inScope grants before
  obtain ⟨alike, ended⟩ := works store inScope before
  rcases ran : action.runOn store with ⟨fault | value, left⟩
  · rw [ran] at ended
    exact ended.elim
  · rw [ran] at alike ended
    exact ⟨value, left, rfl, alike, ended⟩

/-- What is known of an action anyway holds when it succeeds. -/
theorem knowing
    {action : Action α}
    {pre' : Tables → Prop}
    {post post' : α → Tables → Prop}
    {failed : Fault → Tables → Prop}
    (yields : Yields setting free pre action post)
    (works : Works setting pre' action post' failed)
    (stronger : ∀ tables, pre tables → pre' tables) :
    Yields setting free pre action fun value tables => post value tables ∧ post' value tables := by
  intro store inScope grants before
  obtain ⟨value, left, ran, alike, after⟩ := yields store inScope grants before
  obtain ⟨-, ended⟩ := works store inScope (stronger _ before)
  rw [ran] at ended
  exact ⟨value, left, ran, alike, after, ended⟩

/-- Work under a lock that is granted. -/
theorem locked
    {entry : Entry}
    {exclusive : Bool}
    {action : Action α}
    {post : α → Tables → Prop}
    (isFree : free entry.id)
    (works : Works setting pre action post fun _ _ => False) :
    Yields setting free pre (Action.locked entry exclusive action) post := by
  intro store inScope grants before
  obtain ⟨guard, locked, given⟩ := grants.lock? isFree exclusive
  obtain ⟨alike, ended⟩ := works _ (inScope.locked given) before
  rw [runOn_locked, given]
  dsimp only
  rcases ran : action.runOn { store with locks := locked } with ⟨fault | value, left⟩
  · rw [ran] at ended
    exact ended.elim
  · rw [ran] at alike ended
    exact ⟨value, { left with locks := left.locks.release guard }, rfl,
      alike.unlocked inScope given, ended⟩

end Yields

/-- In a scope of a store that grants some locks an action succeeds, and may hold a lock on. -/
def Retains
    (setting : Setting)
    (free : Int → Prop)
    (pre : Tables → Prop)
    (action : Action α)
    (post : α → Tables → Prop) :
    Prop :=
  ∀ store : Store,
    store.InScope setting →
    store.locks.Grants free →
    pre store.tables →
    ∃ (value : α) (locks : LockTable) (left : Store),
      action.runOn store = (.ok value, left) ∧
        locks.Sane ∧ Store.Alike { store with locks } left ∧ post value left.tables

namespace Retains

variable {post : α → Tables → Prop}

/-- What follows from the condition may be used. -/
theorem assuming
    {action : Action α}
    (fact : Prop)
    (holds : ∀ tables, pre tables → fact)
    (retains : fact → Retains setting free pre action post) :
    Retains setting free pre action post :=
  fun store inScope grants before => retains (holds _ before) store inScope grants before

/-- The tables at the beginning have a name. -/
theorem named
    {action : Action α}
    (retains : ∀ start, pre start → Retains setting free (· = start) action post) :
    Retains setting free pre action post :=
  fun store inScope grants before => retains _ before store inScope grants rfl

/-- What more is asked for. -/
theorem asking
    {action : Action α}
    {pre' : Tables → Prop}
    (retains : Retains setting free pre' action post)
    (stronger : ∀ tables, pre tables → pre' tables) :
    Retains setting free pre action post :=
  fun store inScope grants before => retains store inScope grants (stronger _ before)

/-- What less is promised. -/
theorem promising
    {action : Action α}
    {post' : α → Tables → Prop}
    (retains : Retains setting free pre action post')
    (weaker : ∀ value tables, post' value tables → post value tables) :
    Retains setting free pre action post := by
  intro store inScope grants before
  obtain ⟨value, locks, left, ran, sane, alike, after⟩ := retains store inScope grants before
  exact ⟨value, locks, left, ran, sane, alike, weaker _ _ after⟩

/-- One action and what follows it. -/
theorem bind
    {action : Action β}
    {next : β → Action α}
    (middle : β → Tables → Prop)
    (yields : Yields setting free pre action middle)
    (retains : ∀ value, Retains setting free (middle value) (next value) post) :
    Retains setting free pre (action >>= next) post := by
  intro store inScope grants before
  obtain ⟨value, between, ran, alike, reached⟩ := yields store inScope grants before
  obtain ⟨result, locks, left, ranNext, sane, alikeNext, after⟩ :=
    retains value between (alike.inScope inScope) (grants.same alike.locks) reached
  refine ⟨result, locks, left, ?_, sane, ?_, after⟩
  · rw [runOn_bind, ran]
    exact ranNext
  · have alikeOnce : Store.Alike { store with locks } { between with locks } :=
      ⟨alike.frame, .refl _, alike.free, alike.noted, alike.wrote⟩
    exact alikeOnce.trans alikeNext

/-- An action of which everything is known, and what follows it. -/
theorem known
    {before : Tables}
    {action : Action β}
    {next : β → Action α}
    (value : β)
    (left : Tables)
    (works :
      Works setting (· = before) action (fun result tables => result = value ∧ tables = left)
        fun _ _ => False)
    (retains : Retains setting free (· = left) (next value) post) :
    Retains setting free (· = before) (action >>= next) post := by
  refine .bind _ (.of_works works) fun result => ?_
  refine .assuming (result = value) (fun _ same => same.1) ?_
  rintro rfl
  exact retains.asking fun _ same => same.2

/-- A lock that is granted, and what follows. -/
theorem lockId
    {id : Int}
    {exclusive : Bool}
    {refusal : Fault}
    {next : Guard → Action α}
    (isFree : free id)
    (works : ∀ guard, Works setting pre (next guard) post fun _ _ => False) :
    Retains setting free pre (Action.lockId id exclusive refusal >>= next) post := by
  intro store inScope grants before
  obtain ⟨guard, locked, given⟩ := grants.lock? isFree exclusive
  obtain ⟨alike, ended⟩ := works guard _ (inScope.locked given) before
  rw [runOn_bind, runOn_lockId, given]
  rcases ran : (next guard).runOn { store with locks := locked } with ⟨fault | value, left⟩
  · rw [ran] at ended
    exact ended.elim
  · rw [ran] at alike ended
    exact ⟨value, locked, left, ran, inScope.sane.lock? given, alike, ended⟩

end Retains

/-! ## One result -/

/-- An action that comes to one result has it in a scope that is open. -/
theorem Works.result
    {store : Store}
    {action : Action α}
    {result : α × Tables}
    (works :
      Works setting (· = store.tables) action (fun value tables => (value, tables) = result)
        fun _ _ => False)
    (inScope : store.InScope setting) :
    (action.runOn store).1 = .ok result.1 ∧
      (action.runOn store).2.tables = result.2 ∧ store.Alike (action.runOn store).2 := by
  obtain ⟨alike, ended⟩ := works store inScope rfl
  rcases ran : action.runOn store with ⟨fault | value, left⟩
  · rw [ran] at ended
    exact ended.elim
  · rw [ran] at ended alike
    have isResult : (value, left.tables) = result := ended
    rw [← isResult]
    exact ⟨rfl, rfl, alike⟩

/-! ## In a transaction of its own -/

section Writing

variable
  {action : Action α}
  {store left : Store}

/-- On a store that is open and in no scope, what succeeds in a first scope succeeds in a
transaction of its own. -/
theorem runOn_writing_ok
    {value : α}
    {locks : LockTable}
    (idle : store.Idle)
    (staying : store.closing = false)
    (ran : action.runOn store.entering = (.ok value, left))
    (sane : locks.Sane)
    (alike : Store.Alike { store.entering with locks } left) :
    ∃ after,
      (writing action).runOn store = (.ok value, after) ∧
        after.Idle ∧ after.tables = left.tables := by
  have inside : { store.entering with locks }.Steady :=
    (idle.entering idle.outside).withLocks sane
  have steady : left.Steady := inside.alike (List.cons_ne_nil _ _) alike
  have savepoints : left.savepoints = [store.tables] := by
    rw [alike.savepoints]
    exact congrArg (store.tables :: ·) idle.outside
  obtain ⟨-, -, -, sameClosed⟩ := left.ended_same true store.tables
  refine ⟨left.ended true store.tables, ?_, ⟨steady.ended savepoints true, ?_, ?_⟩, rfl⟩
  · rw [runOn_writing, if_neg (by simp [staying])]
    exact runOn_streaming_ok idle ran steady.toAlone savepoints
  · exact Store.ended_savepoints steady.toAlone _ _
  · have framed := congrArg (fun store : Store => store.closed) alike.frame
    exact sameClosed.trans (framed.trans idle.opened)

variable
  {post : α → Tables → Prop}
  (idle : store.Idle)
  (staying : store.closing = false)
  (fits : store.Fits setting)

include idle staying fits

/-- An action ends in a transaction of its own as it ends in a scope, but a failure leaves the
tables as they were. -/
theorem Works.ends_writing
    {failed : Fault → Tables → Prop}
    (works : Works setting pre action post failed)
    (before : pre store.tables) :
    ((writing action).runOn store).2.Idle ∧
      ((writing action).runOn store).2.closing = false ∧
        Ends post (fun fault tables => tables = store.tables ∧ ∃ after, failed fault after)
          ((writing action).runOn store).1 ((writing action).runOn store).2.tables := by
  have inScope : store.entering.InScope setting :=
    (idle.entering idle.outside).inScope (List.cons_ne_nil _ _) fits.entering
  obtain ⟨alike, ended⟩ := works store.entering inScope before
  have leaves := leaves_writing idle.toSteady (works.leaves idle.toSteady fits before)
  refine ⟨⟨leaves.steady, leaves.savepoints.trans idle.outside, leaves.closed.trans idle.opened⟩,
    leaves.closing.trans staying, ?_⟩
  cases outcome : ((writing action).runOn store).1 with
  | ok value =>
      exact (leaves.done value outcome).2.2
  | error fault =>
      have savepoints : (action.runOn store.entering).2.savepoints = [store.tables] := by
        rw [alike.savepoints]
        exact congrArg (store.tables :: ·) idle.outside
      have free : store.entered = false := idle.entered_eq idle.outside
      have ran := outcome
      rw [runOn_writing, if_neg (by simp [staying]),
        runOn_streaming idle.toSteady fun _ => ⟨alike.alone inScope.toAlone, savepoints⟩,
        if_neg (by simp [free]), if_neg (by simp [idle.opened])] at ran
      dsimp only at ran
      rw [ran] at ended
      exact ⟨(leaves.undone fault outcome).1, _, ended⟩

/-- An action that never fails succeeds in a transaction of its own. -/
theorem Works.runs_writing
    (works : Works setting pre action post fun _ _ => False)
    (before : pre store.tables) :
    ∃ value left,
      (writing action).runOn store = (.ok value, left) ∧ left.Idle ∧ post value left.tables := by
  obtain ⟨alike, ended⟩ :=
    works store.entering ((idle.entering idle.outside).inScope (List.cons_ne_nil _ _) fits.entering)
      before
  rcases ran : action.runOn store.entering with ⟨fault | value, left⟩
  · rw [ran] at ended
    exact ended.elim
  · rw [ran] at alike ended
    obtain ⟨after, isResult, resting, same⟩ := runOn_writing_ok idle staying ran idle.sane alike
    exact ⟨value, after, isResult, resting, same ▸ ended⟩

/-- An action that comes to one result has it in a transaction of its own. -/
theorem Works.result_writing
    {result : α × Tables}
    (works :
      Works setting (· = store.tables) action (fun value tables => (value, tables) = result)
        fun _ _ => False) :
    ((writing action).runOn store).1 = .ok result.1 ∧
      ((writing action).runOn store).2.tables = result.2 ∧
        ((writing action).runOn store).2.Idle ∧
          ((writing action).runOn store).2.closing = false := by
  obtain ⟨resting, stays, ended⟩ := works.ends_writing idle staying fits rfl
  rcases ran : (writing action).runOn store with ⟨fault | value, left⟩
  · rw [ran] at ended
    obtain ⟨-, -, absurd⟩ := ended
    exact absurd.elim
  · rw [ran] at ended resting stays
    have isResult : (value, left.tables) = result := ended
    rw [← isResult]
    exact ⟨rfl, rfl, resting, stays⟩

/-- An action whose locks are granted succeeds in a transaction of its own. -/
theorem Retains.runs_writing
    (retains : Retains setting free pre action post)
    (grants : store.locks.Grants free)
    (before : pre store.tables) :
    ∃ value left,
      (writing action).runOn store = (.ok value, left) ∧ left.Idle ∧ post value left.tables := by
  obtain ⟨value, locks, left, ran, sane, alike, reached⟩ :=
    retains store.entering
      ((idle.entering idle.outside).inScope (List.cons_ne_nil _ _) fits.entering) grants before
  obtain ⟨after, isResult, resting, same⟩ := runOn_writing_ok idle staying ran sane alike
  exact ⟨value, after, isResult, resting, same ▸ reached⟩

end Writing

end Action

end VersionStore
