import VersionStore.Proofs.Action.Granting

namespace VersionStore

/-!
# When actions succeed

What an action comes to inside a scope depends on the tables and on the locks that it is
given. `Action.Decides` says of an action exactly when it succeeds, next to what it does
then.
-/

namespace LockTable

/-- A lock on an id would be given. -/
def gives (table : LockTable) (id : Int) (exclusive : Bool) : Bool :=
  (table.lock? id exclusive).isSome

/-- Tables that answer alike give the same locks. -/
theorem Same.gives
    {first second : LockTable}
    (same : first.Same second) :
    second.gives = first.gives := by
  funext id exclusive
  unfold LockTable.gives LockTable.lock?
  rw [same.paused, same.hold?]
  split <;> simp

/-- A lock is no obstacle to locks on other ids. -/
theorem gives_of_lock?
    {table locked : LockTable}
    {id : Int}
    {exclusive : Bool}
    {guard : Guard}
    (given : table.lock? id exclusive = some (guard, locked))
    {other : Int}
    (different : other ≠ id) :
    locked.gives other = table.gives other := by
  obtain ⟨-, -, hold, -, rfl⟩ := lock?_eq_some_iff.mp given
  funext exclusive'
  unfold gives lock?
  rw [hold?_put, if_neg different]
  change Option.isSome (if table.paused then _ else _) = _
  split <;> simp

/-- Where a lock for writing is given, one for reading is. -/
theorem gives_shared
    {table : LockTable}
    {id : Int}
    (given : table.gives id true = true) :
    table.gives id false = true := by
  unfold LockTable.gives LockTable.lock? at given ⊢
  split at given
  · cases given
  · rename_i running
    rw [if_neg running]
    cases held : table.hold? id with
    | none =>
        rfl
    | some hold =>
        rw [held] at given
        cases hold <;> cases given

/-- A lock for writing is given where no one has the file open. -/
theorem gives_exclusive_iff
    {table : LockTable}
    (running : table.paused = false)
    (id : Int) :
    table.gives id true = true ↔ table.hold? id = none := by
  rw [gives, lock?, running, if_neg Bool.false_ne_true, Option.isSome_map]
  cases table.hold? id with
  | none =>
      exact iff_of_true rfl rfl
  | some hold =>
      cases hold <;> exact iff_of_false Bool.false_ne_true (Option.some_ne_none _)

/-- A lock for reading is given where no one writes to the file. -/
theorem gives_shared_iff
    {table : LockTable}
    (running : table.paused = false)
    (id : Int) :
    table.gives id false = true ↔ table.hold? id ≠ some .exclusive := by
  rw [gives, lock?, running, if_neg Bool.false_ne_true, Option.isSome_map]
  cases table.hold? id with
  | none =>
      exact iff_of_true rfl nofun
  | some hold =>
      cases hold with
      | shared readers =>
          exact iff_of_true rfl nofun
      | exclusive =>
          exact iff_of_false Bool.false_ne_true (absurd rfl ·)

/-- Locks that are granted are given. -/
theorem Grants.gives
    {table : LockTable}
    {free : Int → Prop}
    (grants : table.Grants free)
    {id : Int}
    (isFree : free id)
    (exclusive : Bool) :
    table.gives id exclusive = true := by
  obtain ⟨guard, locked, given⟩ := grants.lock? isFree exclusive
  rw [LockTable.gives, given]
  rfl

end LockTable

namespace Action

/-- Inside a scope of a store that gives certain locks an action succeeds exactly when it is
able to, and has an effect then. -/
def Decides
    (setting : Setting)
    (gives : Int → Bool → Bool)
    (pre : Tables → Prop)
    (action : Action α)
    (able : Prop)
    (post : α → Tables → Prop) :
    Prop :=
  ∀ store : Store,
    store.InScope setting →
    store.locks.gives = gives →
    pre store.tables →
    store.Alike (action.runOn store).2 ∧
      Ends (fun value tables => able ∧ post value tables) (fun _ _ => ¬able)
        (action.runOn store).1 (action.runOn store).2.tables

namespace Decides

variable
  {setting : Setting}
  {gives : Int → Bool → Bool}
  {pre : Tables → Prop}
  {able able' : Prop}

/-- Work without locks decides when its failure says why. -/
theorem of_works
    {action : Action α}
    {post : α → Tables → Prop}
    (works :
      Works setting pre action (fun value tables => able ∧ post value tables) fun _ _ => ¬able) :
    Decides setting gives pre action able post :=
  fun store inScope _ before => works store inScope before

/-- What is able to always fails. -/
theorem throw
    {fault : Fault}
    {post : α → Tables → Prop}
    (unable : ¬able) :
    Decides setting gives pre (MonadExcept.throw fault) able post :=
  .of_works (.throw fun _ _ => unable)

/-- What always fails is never able to. -/
theorem never
    {action : Action α}
    {post : α → Tables → Prop}
    (fails : Works setting pre action (fun _ _ => False) fun _ _ => True) :
    Decides setting gives pre action False post :=
  .of_works (fails.weaken (fun _ before => before) (fun _ _ absurd => absurd.elim)
    fun _ _ _ => id)

/-- One action and what follows it. -/
theorem bind
    {action : Action α}
    {next : α → Action β}
    {post : β → Tables → Prop}
    (middle : α → Tables → Prop)
    (first : Decides setting gives pre action able middle)
    (second : able → ∀ value, Decides setting gives (middle value) (next value) able' post) :
    Decides setting gives pre (action >>= next) (able ∧ able') post := by
  intro store inScope given before
  obtain ⟨alike, ended⟩ := first store inScope given before
  rw [runOn_bind]
  rcases ran : action.runOn store with ⟨fault | value, left⟩
  · rw [ran] at alike ended
    exact ⟨alike, fun both => ended both.1⟩
  · rw [ran] at alike ended
    obtain ⟨isAble, reached⟩ := ended
    obtain ⟨alikeAfter, endedAfter⟩ :=
      second isAble value left (alike.inScope inScope) (alike.locks.gives.trans given) reached
    dsimp only
    refine ⟨alike.trans alikeAfter, ?_⟩
    rcases ranNext : (next value).runOn left with ⟨fault | result, last⟩
    · rw [ranNext] at endedAfter
      exact fun both => endedAfter both.2
    · rw [ranNext] at endedAfter
      exact ⟨⟨isAble, endedAfter.1⟩, endedAfter.2⟩

/-- The same condition may be put in other words. -/
theorem exactly
    {action : Action α}
    {post : α → Tables → Prop}
    (decides : Decides setting gives pre action able post)
    (same : able ↔ able') :
    Decides setting gives pre action able' post := by
  rwa [← propext same]

/-- The tables before may be given a name. -/
theorem named
    {action : Action α}
    {post : α → Tables → Prop}
    (decides : ∀ start, pre start → Decides setting gives (· = start) action able post) :
    Decides setting gives pre action able post :=
  fun store inScope given before => decides store.tables before store inScope given rfl

/-- What follows from the condition may be used. -/
theorem assuming
    {action : Action α}
    {post : α → Tables → Prop}
    (fact : Prop)
    (holds : ∀ tables, pre tables → fact)
    (decides : fact → Decides setting gives pre action able post) :
    Decides setting gives pre action able post :=
  fun store inScope given before => decides (holds _ before) store inScope given before

/-- More may be asked before, and less promised after. -/
theorem weaken
    {action : Action α}
    {pre' : Tables → Prop}
    {post post' : α → Tables → Prop}
    (decides : Decides setting gives pre' action able post')
    (stronger : ∀ tables, pre tables → pre' tables)
    (weaker : ∀ value tables, post' value tables → post value tables) :
    Decides setting gives pre action able post := by
  intro store inScope given before
  obtain ⟨alike, ended⟩ := decides store inScope given (stronger _ before)
  refine ⟨alike, ?_⟩
  rcases ran : action.runOn store with ⟨fault | value, left⟩
  · rw [ran] at ended
    exact ended
  · rw [ran] at ended
    exact ⟨ended.1, weaker value _ ended.2⟩

/-- An action of which everything is known, and what follows it. -/
theorem known
    {before : Tables}
    {action : Action β}
    {next : β → Action α}
    {post : α → Tables → Prop}
    (value : β)
    (left : Tables)
    (works :
      Works setting (· = before) action (fun result tables => result = value ∧ tables = left)
        fun _ _ => False)
    (decides : Decides setting gives (· = left) (next value) able post) :
    Decides setting gives (· = before) (action >>= next) able post := by
  have first :
      Decides setting gives (· = before) action True fun result tables =>
        result = value ∧ tables = left :=
    .of_works (works.weaken (fun _ same => same) (fun _ _ known => ⟨trivial, known⟩)
      fun _ _ absurd => absurd.elim)
  refine exactly (.bind _ first fun _ result => ?_) (iff_of_eq (true_and able))
  refine .assuming (result = value) (fun _ known => known.1) ?_
  rintro rfl
  exact decides.weaken (fun _ known => known.2) fun _ _ after => after

/-- What is known of an action anyway holds when it succeeds. -/
theorem knowing
    {action : Action α}
    {pre' : Tables → Prop}
    {post post' : α → Tables → Prop}
    {failed : Fault → Tables → Prop}
    (decides : Decides setting gives pre action able post)
    (works : Works setting pre' action post' failed)
    (stronger : ∀ tables, pre tables → pre' tables) :
    Decides setting gives pre action able fun value tables =>
      post value tables ∧ post' value tables := by
  intro store inScope given before
  obtain ⟨alike, ended⟩ := decides store inScope given before
  obtain ⟨-, known⟩ := works store inScope (stronger _ before)
  refine ⟨alike, ?_⟩
  rcases ran : action.runOn store with ⟨fault | value, left⟩
  · rw [ran] at ended
    exact ended
  · rw [ran] at ended known
    exact ⟨ended.1, ended.2, known⟩

/-- Work under a lock needs the lock. Meanwhile the same locks on other files are given. -/
theorem locked
    {entry : Entry}
    {exclusive : Bool}
    {action : Action α}
    {post : α → Tables → Prop}
    (decides :
      gives entry.id exclusive = true →
      ∀ gives' : Int → Bool → Bool,
        (∀ other, other ≠ entry.id → gives' other = gives other) →
        Decides setting gives' pre action able post) :
    Decides setting gives pre (Action.locked entry exclusive action)
      (gives entry.id exclusive = true ∧ able) post := by
  rintro store inScope rfl before
  rw [runOn_locked]
  cases given : store.locks.lock? entry.id exclusive with
  | none =>
      refine ⟨.refl store, fun both => ?_⟩
      rw [LockTable.gives, given] at both
      exact Bool.false_ne_true both.1
  | some pair =>
      obtain ⟨guard, locks⟩ := pair
      have isGiven : store.locks.gives entry.id exclusive = true := by
        rw [LockTable.gives, given]
        rfl
      obtain ⟨alike, ended⟩ :=
        decides isGiven locks.gives (fun _ different => LockTable.gives_of_lock? given different) _
          (inScope.locked given) rfl before
      refine ⟨alike.unlocked inScope given, ?_⟩
      dsimp only
      rcases ran : action.runOn { store with locks } with ⟨fault | value, left⟩
      · rw [ran] at ended
        exact fun both => ended both.2
      · rw [ran] at ended
        exact ⟨⟨isGiven, ended.1⟩, ended.2⟩

/-- Nothing follows a lock that is not given. -/
theorem lockId_refused
    {id : Int}
    {exclusive : Bool}
    {refusal : Fault}
    {next : Guard → Action α}
    {post : α → Tables → Prop}
    (refused : gives id exclusive = false) :
    Decides setting gives pre (Action.lockId id exclusive refusal >>= next) False post := by
  rintro store - rfl -
  rw [runOn_bind, runOn_lockId, Option.isNone_iff_eq_none.mp (Option.isSome_eq_false_iff.mp refused)]
  exact ⟨.refl store, fun absurd => absurd⟩

/-- An attempt in a scope of its own always ends, and changes something only where the action is
able to succeed. -/
theorem attempted
    {before : Tables}
    {action : Action α}
    {post : α → Tables → Prop}
    (decides : Decides setting gives (· = before) action able post) :
    Decides setting gives (· = before) (Action.attempt (Action.transaction action)) True
      (Ends (fun value tables => able ∧ post value tables) fun _ tables =>
        ¬able ∧ tables = before) := by
  rintro store inScope given rfl
  obtain ⟨alike, ended⟩ :=
    ends_transaction inScope (decides _ inScope.nested given rfl)
  rw [runOn_attempt]
  refine ⟨alike, trivial, ?_⟩
  rcases ran : (Action.transaction action).runOn store with ⟨fault | value, left⟩
  · rw [ran] at ended
    obtain ⟨same, _, unable⟩ := ended
    exact ⟨unable, same⟩
  · rw [ran] at ended
    exact ended

/-- Where the locks are granted that an action needs it succeeds. -/
theorem yields
    {free : Int → Prop}
    {needs : (Int → Bool → Bool) → Prop}
    {action : Action α}
    {post : α → Tables → Prop}
    (decides : ∀ gives, Decides setting gives pre action (needs gives) post)
    (granted : ∀ table : LockTable, table.Grants free → needs table.gives) :
    Yields setting free pre action post := by
  intro store inScope grants before
  obtain ⟨alike, ended⟩ := decides store.locks.gives store inScope rfl before
  rcases ran : action.runOn store with ⟨fault | value, left⟩
  · rw [ran] at ended
    exact absurd (granted store.locks grants) ended
  · rw [ran] at alike ended
    exact ⟨value, left, rfl, alike, ended.2⟩

/-- What always succeeds where certain locks are given succeeds in a transaction of its own. -/
theorem runs_writing
    {store : Store}
    {action : Action α}
    {post : α → Tables → Prop}
    (decides : Decides setting store.locks.gives pre action True post)
    (idle : store.Idle)
    (staying : store.closing = false)
    (fits : store.Fits setting)
    (before : pre store.tables) :
    ∃ value left,
      (writing action).runOn store = (.ok value, left) ∧ left.Idle ∧ post value left.tables := by
  obtain ⟨alike, ended⟩ :=
    decides store.entering
      ((idle.entering idle.outside).inScope (List.cons_ne_nil _ _) fits.entering) rfl before
  rcases ran : action.runOn store.entering with ⟨fault | value, left⟩
  · rw [ran] at ended
    exact absurd trivial ended
  · rw [ran] at alike ended
    obtain ⟨after, isResult, resting, same⟩ := runOn_writing_ok idle staying ran idle.sane alike
    exact ⟨value, after, isResult, resting, same ▸ ended.2⟩

/-- What is not able to whatever locks are given always fails. -/
theorem fails
    {needs : (Int → Bool → Bool) → Prop}
    {action : Action α}
    {post : α → Tables → Prop}
    (decides : ∀ gives, Decides setting gives pre action (needs gives) post)
    (unable : ∀ gives, ¬needs gives) :
    Works setting pre action (fun _ _ => False) fun _ _ => True := by
  intro store inScope before
  obtain ⟨alike, ended⟩ := decides store.locks.gives store inScope rfl before
  refine ⟨alike, ?_⟩
  rcases ran : action.runOn store with ⟨fault | value, left⟩
  · trivial
  · rw [ran] at ended
    exact unable _ ended.1

end Decides

end Action

end VersionStore
