import VersionStore.Store.Basic

namespace VersionStore

/-!
# Running actions

What comes of running an action on a store, by the way the action is put
together. On a store that has its database to itself no question and no change is
turned away.
-/

/-- Nothing outside a store keeps it from reading and changing its database. -/
structure Store.Alone (store : Store) : Prop where
  damage : store.damage = none
  writable : store.readOnly = false
  others : store.others = .idle

/-- What succeeded with a value is a success. -/
theorem eq_ok_of_toOption
    {outcome : Except ε α}
    {value : α}
    (isSome : outcome.toOption = some value) :
    outcome = .ok value := by
  cases outcome with
  | ok other =>
      cases isSome
      rfl
  | error fault =>
      cases isSome

namespace Action

/-! ## Building blocks -/

/-- Running what follows an action starts where the action left the store. -/
theorem runOn_bind
    (action : Action α)
    (next : α → Action β)
    (store : Store) :
    (action >>= next).runOn store =
      match action.runOn store with
      | (.ok value, left) => (next value).runOn left
      | (.error fault, left) => (.error fault, left) := by
  simp only [runOn, Id.run, ExceptT.run, bind, ExceptT.bind, ExceptT.mk, StateT.bind,
    StateT.run]
  rcases action store with ⟨fault | value, left⟩ <;> rfl

/-- A value alone does nothing. -/
@[simp] theorem runOn_pure
    (value : α)
    (store : Store) :
    (pure value : Action α).runOn store = (.ok value, store) :=
  rfl

/-- A failure alone does nothing. -/
@[simp] theorem runOn_throw
    (fault : Fault)
    (store : Store) :
    (throw fault : Action α).runOn store = (.error fault, store) :=
  rfl

/-- Nothing follows a failure. -/
@[simp] theorem throw_bind
    (fault : Fault)
    (next : α → Action β) :
    (throw fault : Action α) >>= next = throw fault :=
  rfl

/-- Looking at a store gives the store. -/
@[simp] theorem runOn_get
    (store : Store) :
    (get : Action Store).runOn store = (.ok store, store) :=
  rfl

/-- A store that is set takes the place of the one before. -/
@[simp] theorem runOn_set
    (next store : Store) :
    (set next : Action PUnit).runOn store = (.ok ⟨⟩, next) :=
  rfl

/-- A change of the whole store takes place. -/
@[simp] theorem runOn_modify
    (change : Store → Store)
    (store : Store) :
    (modify change : Action PUnit).runOn store = (.ok ⟨⟩, change store) :=
  rfl

/-- A change of the whole store takes place and gives its value. -/
@[simp] theorem runOn_modifyGet
    (change : Store → α × Store)
    (store : Store) :
    (modifyGet change : Action α).runOn store = (.ok (change store).1, (change store).2) :=
  rfl

/-- An outcome that is handed on does nothing. -/
@[simp] theorem runOn_ofExcept
    (outcome : Except Fault α)
    (store : Store) :
    (ofExcept outcome : Action α).runOn store = (outcome, store) := by
  cases outcome <;> rfl

/-- An attempt does what its action does and never fails. -/
@[simp] theorem runOn_attempt
    (action : Action α)
    (store : Store) :
    (attempt action).runOn store = (.ok (action.runOn store).1, (action.runOn store).2) :=
  rfl

/-- Leaving the gate opens it for the next. -/
@[simp] theorem runOn_leave
    (store : Store) :
    leave.runOn store = (.ok ⟨⟩, { store with entered := false }) :=
  rfl

/-- Letting a guard go changes the lock table only. -/
@[simp] theorem runOn_release
    (guard : Guard)
    (store : Store) :
    (release guard).runOn store = (.ok ⟨⟩, { store with locks := store.locks.release guard }) :=
  rfl

/-- Beginning a scope remembers the tables. -/
@[simp] theorem runOn_beginScope
    (store : Store) :
    beginScope.runOn store =
      (.ok ⟨⟩, { store with savepoints := store.tables :: store.savepoints }) :=
  rfl

/-- The work of an inner scope is kept for the scope around it. -/
theorem runOn_commitScope_inner
    {store : Store}
    {saved next : Tables}
    {outer : List Tables}
    (open_ : store.savepoints = saved :: next :: outer) :
    commitScope.runOn store = (.ok ⟨⟩, { store with savepoints := next :: outer }) := by
  rw [commitScope, runOn_bind, runOn_get]
  dsimp only
  rw [open_]
  rfl

/-- The work of an inner scope is undone. -/
theorem runOn_rollbackScope_inner
    {store : Store}
    {saved next : Tables}
    {outer : List Tables}
    (open_ : store.savepoints = saved :: next :: outer) :
    rollbackScope.runOn store =
      (.ok ⟨⟩, { store with tables := saved, savepoints := next :: outer }) := by
  rw [rollbackScope, runOn_modify, open_]

/-- A lock is given or refused by the lock table. -/
theorem runOn_lockId
    (id : Int)
    (exclusive : Bool)
    (refusal : Fault)
    (store : Store) :
    (lockId id exclusive refusal).runOn store =
      match store.locks.lock? id exclusive with
      | some (guard, locks) => (.ok guard, { store with locks })
      | none => (.error refusal, store) := by
  rw [lockId, runOn_bind, runOn_get]
  dsimp only
  cases given : store.locks.lock? id exclusive with
  | none =>
      rfl
  | some pair =>
      rfl

/-- An action runs with its lock and lets it go, or the lock is refused. -/
theorem runOn_locked
    (entry : Entry)
    (exclusive : Bool)
    (action : Action α)
    (store : Store) :
    (locked entry exclusive action).runOn store =
      match store.locks.lock? entry.id exclusive with
      | some (guard, locks) =>
          let (outcome, left) := action.runOn { store with locks }
          (outcome, { left with locks := left.locks.release guard })
      | none => (.error (.inUse entry.name), store) := by
  rw [locked, lock, runOn_bind, runOn_lockId]
  cases given : store.locks.lock? entry.id exclusive with
  | none =>
      rfl
  | some pair =>
      dsimp only
      rw [runOn_bind, runOn_attempt]
      dsimp only
      rw [runOn_bind, runOn_release]
      exact runOn_ofExcept _ _

/-! ## A store that has its database to itself -/

section Alone

variable {store : Store}

/-- Nothing keeps such a store from changing its database. -/
theorem refusal?_of_alone
    (alone : store.Alone) :
    store.refusal? = none := by
  rw [Store.refusal?, alone.damage, alone.writable, alone.others]
  rfl

/-- Nothing keeps such a store from reading its database. -/
theorem unreadable?_of_alone
    (alone : store.Alone)
    (table : TableName) :
    store.unreadable? table = none := by
  rw [Store.unreadable?, alone.damage, alone.others]
  rfl

/-- Noting an access leaves the tables. -/
@[simp] theorem noting_tables
    (store : Store)
    (access : Access) :
    (store.noting access).tables = store.tables := by
  unfold Store.noting
  split <;> rfl

/-- Outside of scopes no access is noted. -/
theorem noting_of_outside
    (store : Store)
    (outside : store.savepoints = [])
    (access : Access) :
    store.noting access = store := by
  simp [Store.noting, outside]

/-- A question is answered. -/
theorem runOn_query
    (alone : store.Alone)
    (question : Tables → α)
    (first : TableName) :
    (query question first).runOn store = (.ok (question store.tables), store.noting .reading) := by
  rw [query, runOn_bind, runOn_get]
  dsimp only
  rw [unreadable?_of_alone alone]
  rfl

/-- A change may begin. -/
theorem runOn_claim
    (alone : store.Alone)
    (table : TableName) :
    (claim table).runOn store = (.ok ⟨⟩, store.noting .writing) := by
  rw [claim, runOn_bind, runOn_get]
  dsimp only
  rw [refusal?_of_alone alone]
  rfl

/-- A change takes place and gives its value. -/
theorem runOn_insert
    (alone : store.Alone)
    (change : Tables → α × Tables)
    (first : TableName) :
    (insert change first).runOn store =
      (.ok (change store.tables).1,
        (store.noting .writing).withTables (change store.tables).2) := by
  rw [insert, runOn_bind, runOn_claim alone]
  dsimp only
  rw [runOn_modifyGet, noting_tables]

/-- A change takes place. -/
theorem runOn_update
    (alone : store.Alone)
    (change : Tables → Tables)
    (first : TableName) :
    (update change first).runOn store =
      (.ok ⟨⟩, (store.noting .writing).withTables (change store.tables)) := by
  rw [update, runOn_bind, runOn_claim alone]
  dsimp only
  rw [runOn_modify, noting_tables]

/-- A directory row is added unless its id is taken. -/
theorem runOn_addDirectory
    (alone : store.Alone)
    (id : Int)
    (path : String) :
    (addDirectory id path).runOn store =
      match store.tables.addDirectory id path with
      | .ok tables => (.ok ⟨⟩, (store.noting .writing).withTables tables)
      | .error fault => (.error fault, store.noting .writing) := by
  rw [addDirectory, runOn_bind, runOn_claim alone]
  dsimp only
  rw [runOn_bind, runOn_get]
  dsimp only
  rw [runOn_bind, runOn_ofExcept, noting_tables]
  cases added : store.tables.addDirectory id path <;> rfl

end Alone

end Action

end VersionStore
