import VersionStore.Proofs.Action.Scopes

namespace VersionStore

/-!
# What an action depends on

The work of a transaction sees the tables, the configuration and what the lock table
says. Which scopes are open around it makes no difference: it gives the same value or
failure, and leaves the same tables, inside any of them and outside of all.

`Action.Uniform` says so of one action. It is closed under the ways in which actions are
put together, scopes of their own and locks included.
-/

namespace Store

variable {store before middle after : Store} {locks : LockTable} {tables saved : Tables}

/-- A store whose gate is taken exactly while a scope is open. -/
def gated (store : Store) : Store :=
  { store with entered := !store.savepoints.isEmpty }

/-- A store that is steady but for its gate. -/
def Ready (store : Store) : Prop :=
  store.gated.Steady

/-- A store without what the work of a transaction may change. -/
def rest (store : Store) : Store :=
  { store.frame with kept := {} }

/-- What work leaves as it was, also outside of every scope. -/
structure Undergoes (before after : Store) : Prop where
  ready : after.Ready
  rest : after.rest = before.rest
  locks : before.locks.Same after.locks
  kept : before.savepoints ≠ [] → after.kept = before.kept

namespace Ready

/-- A ready store has its database to itself. -/
theorem alone
    (ready : store.Ready) :
    store.Alone :=
  ⟨ready.damage, ready.writable, ready.others⟩

/-- A ready store goes through nothing and is ready. -/
theorem undergoes
    (ready : store.Ready) :
    store.Undergoes store :=
  ⟨ready, rfl, .refl _, fun _ => rfl⟩

/-- A store is ready whatever its locks are. -/
theorem withLocks
    (ready : store.Ready)
    (sane : locks.Sane) :
    Ready { store with locks } :=
  Steady.withLocks ready sane

/-- A scope that begins leaves a store ready. -/
theorem begun
    (ready : store.Ready) :
    Ready { store with savepoints := store.tables :: store.savepoints } := by
  by_cases outside : store.savepoints = []
  · have entering := Steady.entering ready outside
    exact { entering with gate := rfl }
  · have nested := Steady.nested ready outside
    exact { nested with gate := rfl }

/-- What is done in an open scope is as in any other. -/
theorem alike
    (ready : before.Ready)
    (opened : before.savepoints ≠ [])
    (alike : before.Alike after) :
    before.Undergoes after := by
  have gated : before.gated.Alike after.gated := by
    refine ⟨?_, alike.locks, alike.free, alike.noted, alike.wrote⟩
    have same := congrArg Store.gated alike.frame
    exact same
  refine ⟨Steady.alike ready opened gated, ?_, alike.locks, fun _ => alike.kept⟩
  have same := congrArg (fun store : Store => { store with kept := {} }) alike.frame
  exact same

/-- A ready store whose scope is open is in it. -/
theorem inScope
    (ready : store.Ready)
    (opened : store.savepoints ≠ []) :
    store.InScope (store.setting fun _ => False) where
  toAlone := ready.alone
  toFits := .idle
  opened := opened
  free := ready.free
  sane := ready.sane

/-- Noting an access is no change of anything else. -/
theorem noting
    (ready : store.Ready)
    {access : Access}
    (free : access ≠ .stuck) :
    store.Undergoes (store.noting access) := by
  by_cases outside : store.savepoints = []
  · rw [Action.noting_of_outside store outside]
    exact ready.undergoes
  · exact ready.alike outside (alike_noting (ready.inScope outside) free)

/-- A change of the tables changes what is kept only outside of every scope. -/
theorem changed
    (ready : store.Ready)
    (tables : Tables) :
    store.Undergoes ((store.noting .writing).withTables tables) := by
  by_cases outside : store.savepoints = []
  · have shape :
        (store.noting .writing).withTables tables = { store with tables, kept := tables } := by
      simp [Store.noting, withTables, outside]
    rw [shape]
    refine ⟨?_, rfl, .refl _, fun opened => (opened outside).elim⟩
    refine { ready with unwritten := fun _ => ⟨rfl, ?_⟩, outermost := ?_ }
    · change ∀ saved ∈ store.savepoints, saved = tables
      rw [outside]
      exact fun _ member => absurd member List.not_mem_nil
    · change ∀ saved, store.savepoints.getLast? = some saved → saved = tables
      simp [outside]
  · exact ready.alike outside (alike_withTables (ready.inScope outside) tables)

end Ready

namespace Undergoes

/-- Going through one thing and another. -/
theorem trans
    (first : before.Undergoes middle)
    (second : middle.Undergoes after) :
    before.Undergoes after where
  ready := second.ready
  rest := second.rest.trans first.rest
  locks := first.locks.trans second.locks
  kept opened := by
    have same := congrArg Store.savepoints first.rest
    change middle.savepoints = before.savepoints at same
    rw [second.kept (by rwa [same]), first.kept opened]

/-- The open scopes stay. -/
theorem savepoints
    (undergoes : before.Undergoes after) :
    after.savepoints = before.savepoints := by
  have same := congrArg Store.savepoints undergoes.rest
  exact same

/-- The configuration stays. -/
theorem config
    (undergoes : before.Undergoes after) :
    after.config = before.config := by
  have same := congrArg Store.config undergoes.rest
  exact same

/-- A store stays open, or closed. -/
theorem closed
    (undergoes : before.Undergoes after) :
    after.closed = before.closed := by
  have same := congrArg (fun store : Store => store.closed) undergoes.rest
  exact same

/-- A close has begun, or it has not. -/
theorem closing
    (undergoes : before.Undergoes after) :
    after.closing = before.closing := by
  have same := congrArg (fun store : Store => store.closing) undergoes.rest
  exact same

/-- The gate stays as it is. -/
theorem entered
    (undergoes : before.Undergoes after) :
    after.entered = before.entered := by
  have same := congrArg (fun store : Store => store.entered) undergoes.rest
  exact same

/-- Outside of every scope the tables are kept. -/
theorem kept_eq_tables
    (undergoes : before.Undergoes after)
    (outside : before.savepoints = []) :
    after.kept = after.tables := by
  have closed : after.gated.savepoints = [] := by
    change after.savepoints = []
    rw [undergoes.savepoints, outside]
  exact (undergoes.ready.tables_eq_kept closed).symm

/-- A scope ends with the work done in it or without, and is gone. -/
theorem endScope
    (within : Undergoes { store with savepoints := store.tables :: store.savepoints } after)
    (kept : Bool) :
    ∃ left,
      (Action.endScope kept).runOn after = (.ok ⟨⟩, left) ∧
        store.Undergoes left ∧
          left.tables = if kept then after.tables else store.tables := by
  have around : after.savepoints = store.tables :: store.savepoints :=
    within.savepoints
  have unblocked := isBlocked_of_alone within.ready.alone
  have restored :
      ∀ left : Store,
        left.rest = { after.rest with savepoints := store.savepoints } →
        left.rest = store.rest := by
    intro left isLeft
    rw [isLeft, within.rest]
    rfl
  by_cases outside : store.savepoints = []
  · rw [outside] at around
    have ended := Steady.ended within.ready around kept
    refine ⟨_, Action.runOn_endScope_outermost within.ready.alone around kept, ?_⟩
    cases kept with
    | true =>
        refine ⟨⟨ended, restored _ ?_, within.locks, fun opened => (opened outside).elim⟩, rfl⟩
        rw [outside]
        rfl
    | false =>
        have undone : after.undone store.tables =
            { after with tables := store.tables, savepoints := [], access := .idle } := by
          simp [Store.undone, unblocked]
        rw [ended_false (Steady.toAlone within.ready)] at ended
        rw [if_neg Bool.false_ne_true, if_neg Bool.false_ne_true, undone]
        refine ⟨⟨ended, restored _ ?_, within.locks, fun opened => (opened outside).elim⟩, rfl⟩
        rw [outside]
        rfl
  · obtain ⟨next, others, outer⟩ := List.exists_cons_of_ne_nil outside
    have sameKept : after.kept = store.kept :=
      within.kept (List.cons_ne_nil _ _)
    rw [outer] at around
    cases kept with
    | true =>
        have unnested := Steady.unnested within.ready around (.inl rfl)
        refine ⟨_, Action.runOn_commitScope_inner around,
          ⟨{ unnested with gate := rfl }, restored _ ?_, within.locks, fun _ => sameKept⟩, rfl⟩
        rw [outer]
        rfl
    | false =>
        have unnested := Steady.unnested within.ready around (.inr rfl)
        refine ⟨_, Action.runOn_rollbackScope_inner around,
          ⟨{ unnested with gate := rfl }, restored _ ?_, within.locks, fun _ => sameKept⟩, rfl⟩
        rw [outer]
        rfl

end Undergoes

/-- What the work of a transaction sees of a store. -/
structure View where
  config : Config
  locks : LockTable
  tables : Tables

/-- A ready store on which work sees a view. -/
structure Shows (store : Store) (view : View) : Prop where
  ready : store.Ready
  config : store.config = view.config
  locks : view.locks.Same store.locks
  tables : store.tables = view.tables

/-- What a store is seen as. -/
def view (store : Store) : View where
  config := store.config
  locks := store.locks
  tables := store.tables

/-- A ready store shows its own view. -/
theorem Ready.shows
    (ready : store.Ready) :
    store.Shows store.view :=
  ⟨ready, rfl, .refl _, rfl⟩

/-- After work a store shows the tables that the work left. -/
theorem Undergoes.shows
    {view : View}
    (undergoes : before.Undergoes after)
    (shows : before.Shows view)
    (left : after.tables = tables) :
    after.Shows { view with tables } where
  ready := undergoes.ready
  config := undergoes.config.trans shows.config
  locks := shows.locks.trans undergoes.locks
  tables := left

end Store

namespace Action

open Store (View)

variable {view : View} {outcome : Except Fault α} {tables : Tables}

/-- An action has an outcome and leaves tables, whatever store shows the view. -/
def Gives (view : View) (action : Action α) (outcome : Except Fault α) (tables : Tables) :
    Prop :=
  ∀ store : Store,
    store.Shows view →
    (action.runOn store).1 = outcome ∧
      (action.runOn store).2.tables = tables ∧
        store.Undergoes (action.runOn store).2

/-- What comes of an action depends on the view alone. -/
def Uniform (action : Action α) : Prop :=
  ∀ view, ∃ outcome tables, Gives view action outcome tables

namespace Gives

/-- An action whose failure ends what was to follow. -/
theorem bind_error
    {action : Action α}
    {next : α → Action β}
    {fault : Fault}
    (first : Gives view action (.error fault) tables) :
    Gives view (action >>= next) (.error fault) tables := by
  intro store shows
  obtain ⟨gave, left, undergoes⟩ := first store shows
  rw [runOn_bind]
  rcases ran : action.runOn store with ⟨outcome, after⟩
  rw [ran] at gave left undergoes
  dsimp only at gave left undergoes
  rw [gave]
  exact ⟨rfl, left, undergoes⟩

/-- An action and what follows it. -/
theorem bind_ok
    {action : Action α}
    {next : α → Action β}
    {value : α}
    {outcome : Except Fault β}
    {final : Tables}
    (first : Gives view action (.ok value) tables)
    (second : Gives { view with tables } (next value) outcome final) :
    Gives view (action >>= next) outcome final := by
  intro store shows
  obtain ⟨gave, left, undergoes⟩ := first store shows
  rw [runOn_bind]
  rcases ran : action.runOn store with ⟨result, after⟩
  rw [ran] at gave left undergoes
  dsimp only at gave left undergoes
  rw [gave]
  obtain ⟨gaveNext, leftNext, undergoesNext⟩ := second after (undergoes.shows shows left)
  exact ⟨gaveNext, leftNext, undergoes.trans undergoesNext⟩

/-- An attempt hands the outcome over. -/
theorem attempt
    {action : Action α}
    (gives : Gives view action outcome tables) :
    Gives view (Action.attempt action) (.ok outcome) tables := by
  intro store shows
  obtain ⟨gave, left, undergoes⟩ := gives store shows
  rw [runOn_attempt]
  exact ⟨congrArg Except.ok gave, left, undergoes⟩

/-- A scope of its own keeps the tables of a success. -/
theorem transaction
    {action : Action α}
    (gives : Gives view action outcome tables) :
    Gives view (Action.transaction action) outcome
      (if outcome.isOk then tables else view.tables) := by
  intro store shows
  obtain ⟨gave, left, undergoes⟩ :=
    gives { store with savepoints := store.tables :: store.savepoints }
      ⟨shows.ready.begun, shows.config, shows.locks, shows.tables⟩
  obtain ⟨after, ended, undergone, isTables⟩ := undergoes.endScope outcome.isOk
  rw [runOn_transaction]
  rcases ran : action.runOn _ with ⟨result, within⟩
  rw [ran] at gave left ended isTables
  dsimp only at gave left ended isTables ⊢
  rw [gave, ended]
  refine ⟨rfl, ?_, undergone⟩
  rw [isTables, left, shows.tables]

end Gives

namespace Uniform

/-! ## Composition -/

/-- A value alone. -/
theorem pure
    (value : α) :
    Uniform (Pure.pure value) :=
  fun view => ⟨.ok value, view.tables, fun _ shows => ⟨rfl, shows.tables, shows.ready.undergoes⟩⟩

/-- A failure alone. -/
theorem throw
    (fault : Fault) :
    Uniform (MonadExcept.throw fault : Action α) :=
  fun view => ⟨.error fault, view.tables,
    fun _ shows => ⟨rfl, shows.tables, shows.ready.undergoes⟩⟩

/-- An outcome that is handed on. -/
theorem ofExcept
    (outcome : Except Fault α) :
    Uniform (MonadExcept.ofExcept outcome) := by
  cases outcome with
  | ok value =>
      exact .pure value
  | error fault =>
      exact .throw fault

/-- A value that has to be there. -/
theorem require
    (fault : Fault)
    (value? : Option α) :
    Uniform (Action.require fault value?) := by
  cases value? with
  | none =>
      exact .throw fault
  | some value =>
      exact .pure value

/-- One action and what follows it. -/
theorem bind
    {action : Action α}
    {next : α → Action β}
    (first : Uniform action)
    (second : ∀ value, Uniform (next value)) :
    Uniform (action >>= next) := by
  intro view
  obtain ⟨outcome, tables, gives⟩ := first view
  cases outcome with
  | error fault =>
      exact ⟨.error fault, tables, gives.bind_error⟩
  | ok value =>
      obtain ⟨outcome, final, givesNext⟩ := second value { view with tables }
      exact ⟨outcome, final, gives.bind_ok givesNext⟩

/-- A case distinction. -/
theorem ite
    {condition : Prop}
    [Decidable condition]
    {yes no : Action α}
    (positive : Uniform yes)
    (negative : Uniform no) :
    Uniform (if condition then yes else no) := by
  split
  · exact positive
  · exact negative

/-- An attempt. -/
theorem attempt
    {action : Action α}
    (uniform : Uniform action) :
    Uniform (Action.attempt action) := by
  intro view
  obtain ⟨outcome, tables, gives⟩ := uniform view
  exact ⟨_, _, gives.attempt⟩

/-- A scope of its own. -/
theorem transaction
    {action : Action α}
    (uniform : Uniform action) :
    Uniform (Action.transaction action) := by
  intro view
  obtain ⟨outcome, tables, gives⟩ := uniform view
  exact ⟨_, _, gives.transaction⟩

/-! ## Building blocks -/

/-- A question. -/
theorem query
    (question : Tables → α)
    (first : TableName) :
    Uniform (Action.query question first) := by
  intro view
  refine ⟨.ok (question view.tables), view.tables, fun store shows => ?_⟩
  rw [runOn_query shows.ready.alone, shows.tables]
  refine ⟨rfl, ?_, shows.ready.noting (by simp)⟩
  rw [noting_tables, shows.tables]

/-- A change of the tables that gives a value. -/
theorem insert
    (change : Tables → α × Tables)
    (first : TableName) :
    Uniform (Action.insert change first) := by
  intro view
  refine ⟨.ok (change view.tables).1, (change view.tables).2, fun store shows => ?_⟩
  rw [runOn_insert shows.ready.alone, shows.tables]
  exact ⟨rfl, rfl, shows.ready.changed _⟩

/-- A change of the tables. -/
theorem update
    (change : Tables → Tables)
    (first : TableName) :
    Uniform (Action.update change first) := by
  intro view
  refine ⟨.ok ⟨⟩, change view.tables, fun store shows => ?_⟩
  rw [runOn_update shows.ready.alone, shows.tables]
  exact ⟨rfl, rfl, shows.ready.changed _⟩

/-- A new directory row. -/
theorem addDirectory
    (id : Int)
    (path : String) :
    Uniform (Action.addDirectory id path) := by
  intro view
  cases added : view.tables.addDirectory id path with
  | error fault =>
      refine ⟨.error fault, view.tables, fun store shows => ?_⟩
      rw [runOn_addDirectory shows.ready.alone, shows.tables, added]
      refine ⟨rfl, ?_, shows.ready.noting (by simp)⟩
      rw [noting_tables, shows.tables]
  | ok tables =>
      refine ⟨.ok ⟨⟩, tables, fun store shows => ?_⟩
      rw [runOn_addDirectory shows.ready.alone, shows.tables, added]
      exact ⟨rfl, rfl, shows.ready.changed _⟩

/-- A look at a store that finds what every store with the view has. -/
theorem get
    {next : Store → Action β}
    (looking : View → Action β)
    (same : ∀ view store, store.Shows view → next store = looking view)
    (uniform : ∀ view, Uniform (looking view)) :
    Uniform (MonadState.get >>= next) := by
  intro view
  obtain ⟨outcome, tables, gives⟩ := uniform view view
  refine ⟨outcome, tables, fun store shows => ?_⟩
  rw [runOn_bind, runOn_get]
  dsimp only
  rw [same view store shows]
  exact gives store shows

/-- Work under a lock. -/
theorem locked
    {action : Action α}
    (entry : Entry)
    (exclusive : Bool)
    (uniform : Uniform action) :
    Uniform (Action.locked entry exclusive action) := by
  intro view
  cases given : view.locks.lock? entry.id exclusive with
  | none =>
      refine ⟨.error (.inUse entry.name), view.tables, fun store shows => ?_⟩
      have refused : store.locks.lock? entry.id exclusive = none := by
        cases taken : store.locks.lock? entry.id exclusive with
        | none =>
            rfl
        | some pair =>
            obtain ⟨locks, isGiven, -⟩ := shows.locks.lock? taken
            rw [given] at isGiven
            cases isGiven
      rw [runOn_locked, refused]
      exact ⟨rfl, shows.tables, shows.ready.undergoes⟩
  | some pair =>
      obtain ⟨guard, held⟩ := pair
      obtain ⟨outcome, tables, gives⟩ := uniform { view with locks := held }
      refine ⟨outcome, tables, fun store shows => ?_⟩
      obtain ⟨locks, taken, same⟩ := shows.locks.symm.lock? given
      have sane : store.locks.Sane := shows.ready.sane
      obtain ⟨gave, left, undergoes⟩ :=
        gives { store with locks }
          ⟨shows.ready.withLocks (sane.lock? taken), shows.config, same.symm, shows.tables⟩
      rw [runOn_locked, taken]
      have released := LockTable.Same.release sane taken undergoes.locks
      exact ⟨gave, left, undergoes.ready.withLocks (released.sane sane), undergoes.rest, released,
        undergoes.kept⟩

end Uniform

end Action

end VersionStore
