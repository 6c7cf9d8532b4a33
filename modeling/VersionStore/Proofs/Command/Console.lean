import VersionStore.Command.Console
import VersionStore.Proofs.Host.Presenting
import VersionStore.Proofs.Store.Standing

namespace VersionStore

/-!
# Commands step by step

A command works on the host in steps and prints. What it comes to on a host does not depend on what
was printed before. From step to step a store that stands open is found as it was left; the first
step may have to connect it, which is no matter to a change.
-/

namespace Host

/-- A change finds a store standing open, connected or not. -/
structure Awaits (host : Host) (id : StoreId) (store : Store) : Prop where
  there : id < host.stores.size
  idle : (host.found id).Idle
  staying : (host.found id).closing = false
  online : (host.found id).online = store

/-- A store that stands open is found as it was left. -/
structure Stands (host : Host) (id : StoreId) (store : Store) : Prop where
  there : id < host.stores.size
  kept : host.store id = store
  found : host.found id = store
  standing : store.Standing

variable
  {host : Host}
  {id : StoreId}
  {store left : Store}

/-- A change finds a store that is awaited standing open. -/
theorem Awaits.standing
    (awaits : host.Awaits id store) :
    store.Standing :=
  awaits.online ▸ awaits.idle.standing_online awaits.staying

/-- A change is to such a store what it is to the one that is connected. -/
theorem Awaits.writing
    (awaits : host.Awaits id store)
    (action : Action α) :
    (Action.writing action).runOn (host.found id) = (Action.writing action).runOn store := by
  rw [awaits.idle.writing_online awaits.staying, awaits.online]

/-- A store that is left standing open is found as it was left. -/
theorem Awaits.keep
    (awaits : host.Awaits id store)
    (standing : left.Standing)
    (sameFile : left.file = store.file) :
    (host.keep id left).Stands id left := by
  have presents : host.Presents id (host.found id).tables := ⟨awaits.there, awaits.idle, rfl⟩
  refine ⟨?_, ?_, presents.found_keep standing.toIdle standing.connected ?_, standing⟩
  · obtain ⟨files, kept⟩ := host.keep_eq id left
    rw [kept, Array.size_setIfInBounds]
    exact awaits.there
  · rw [store_keep_self, if_pos awaits.there]
  · rw [sameFile, ← awaits.online]
    rfl

/-- A store that is found standing open is awaited. -/
theorem Stands.awaits
    (stands : host.Stands id store) :
    host.Awaits id store where
  there := stands.there
  idle := stands.found.symm ▸ stands.standing.toIdle
  staying := stands.found.symm ▸ stands.standing.staying
  online := by
    rw [stands.found, Store.online, ← stands.standing.connected]

/-- Its tables are presented. -/
theorem Stands.presents
    (stands : host.Stands id store) :
    host.Presents id store.tables :=
  ⟨stands.there, stands.found.symm ▸ stands.standing.toIdle, congrArg Store.tables stands.found⟩

end Host

namespace HostAction

/-- Where tables are presented it is told what is at a path. -/
theorem stat_tells
    {id : StoreId}
    {text : String}
    {path : CleanPath}
    (isPath : CleanPath.ofText text = .ok path)
    (tables : Tables) :
    Tells id tables (HostAction.on id (Store.stat text)) (tables.lookupAt? path) := by
  rw [Store.stat, Txn.clean, isPath]
  refine .reading fun store alone outside same => ?_
  rw [Txn.entryAt?, Action.runOn_query alone, Action.noting_of_outside store outside, ← same]
  rfl

end HostAction

namespace ConsoleAction

variable
  {action : ConsoleAction α}
  {next : α → ConsoleAction β}
  {host middle left : Host}
  {outcome : Except Failure β}
  {value : α}
  {failure : Failure}
  {id : StoreId}

/-- What an action comes to on a host, and what it leaves of it. It prints nothing. -/
def Comes (action : ConsoleAction α) (host : Host) (outcome : Except Failure α) (left : Host) :
    Prop :=
  ∀ output, Id.run (StateT.run (ExceptT.run action) ⟨host, output⟩) = (outcome, ⟨left, output⟩)

/-- Running what follows an action starts where the action left the console. -/
theorem run_bind
    (action : ConsoleAction α)
    (next : α → ConsoleAction β)
    (console : Console) :
    Id.run (StateT.run (ExceptT.run (action >>= next)) console) =
      match Id.run (StateT.run (ExceptT.run action) console) with
      | (.ok value, left) => Id.run (StateT.run (ExceptT.run (next value)) left)
      | (.error failure, left) => (.error failure, left) := by
  simp only [Id.run, ExceptT.run, bind, ExceptT.bind, ExceptT.mk, StateT.bind, StateT.run]
  rcases action console with ⟨failure | value, left⟩ <;> rfl

/-- A look at the console. -/
theorem run_get
    (console : Console) :
    Id.run (StateT.run (ExceptT.run (get : ConsoleAction Console)) console) =
      (.ok console, console) :=
  rfl

/-- Another console takes the place of the one before. -/
theorem run_set
    (after console : Console) :
    Id.run (StateT.run (ExceptT.run (set after : ConsoleAction PUnit)) console) =
      (.ok ⟨⟩, after) :=
  rfl

namespace Comes

/-- A value alone. -/
theorem pure
    (value : α)
    (host : Host) :
    Comes (Pure.pure value) host (.ok value) host :=
  fun _ => rfl

/-- A failure alone. -/
theorem throw
    (failure : Failure)
    (host : Host) :
    Comes (MonadExcept.throw failure : ConsoleAction α) host (.error failure) host :=
  fun _ => rfl

/-- One action and what follows it. -/
theorem bind
    (first : Comes action host (.ok value) middle)
    (second : Comes (next value) middle outcome left) :
    Comes (action >>= next) host outcome left := by
  intro output
  rw [run_bind, first output]
  exact second output

/-- Nothing follows a failure. -/
theorem stops
    (failed : Comes action host (.error failure) left) :
    Comes (action >>= next) host (.error failure) left := by
  intro output
  rw [run_bind, failed output]

/-- A failure is the cause of another one. -/
theorem within
    {outcome : Except Failure α}
    (comes : Comes action host outcome left)
    (message : String) :
    Comes (ConsoleAction.within message action) host (outcome.mapError (·.within message))
      left := by
  intro output
  have shape :
      ExceptT.run (ConsoleAction.within message action) =
        ExceptT.run action >>= fun outcome =>
          match outcome with
          | .ok value => Pure.pure (.ok value)
          | .error failure =>
              ExceptT.run (MonadExcept.throw (failure.within message) : ConsoleAction α) := by
    simp only [ConsoleAction.within, ExceptT.run, tryCatch, tryCatchThe, MonadExceptOf.tryCatch,
      ExceptT.tryCatch, ExceptT.mk]
    congr 1
    funext outcome
    cases outcome <;> rfl
  rw [shape, StateT.run_bind, Id.run_bind, comes output]
  cases outcome <;> rfl

/-- Work on the host. -/
theorem onHost
    {action : HostAction α}
    {outcome : Except Fault α}
    (ran : action.runOn host = (outcome, left)) :
    Comes (ConsoleAction.onHost action) host (outcome.mapError .ofFault) left := by
  intro output
  rw [ConsoleAction.onHost, run_bind, run_get]
  dsimp only
  rw [ran]
  dsimp only
  rw [run_bind, run_set]
  cases outcome <;> rfl

/-- Work on a store. -/
theorem onStore
    {action : Action α}
    {outcome : Except Fault α}
    {store : Store}
    (ran : action.runOn (host.found id) = (outcome, store)) :
    Comes (ConsoleAction.onStore id action) host (outcome.mapError .ofFault)
      (host.keep id store) :=
  .onHost (congrArg (fun left => (left.1, host.keep id left.2)) ran)

/-- Work on a stream of a store. A failure is handed over as a value. -/
theorem onStream
    {action : StreamAction σ α}
    {stream after : σ}
    {outcome : Except Fault α}
    {store : Store}
    (ran : action.runOn stream (host.found id) = (outcome, after, store)) :
    Comes (ConsoleAction.onHost (HostAction.onStream id stream action)) host
      (.ok (outcome, after)) (host.keep id store) := by
  have onStream :
      (HostAction.onStream id stream action).runOn host =
        (.ok (outcome, after), host.keep id store) :=
    congrArg (fun left => (Except.ok (left.1, left.2.1), host.keep id left.2.2)) ran
  exact .onHost onStream

end Comes

/-- An action fails, and a store is left standing open with some tables. -/
def Halts (action : ConsoleAction α) (host : Host) (id : StoreId) (tables : Tables) : Prop :=
  ∃ failure left store,
    Comes action host (.error failure) left ∧ left.Stands id store ∧ store.tables = tables

namespace Halts

variable {tables : Tables}

/-- Nothing follows. -/
theorem stops
    (halts : Halts action host id tables) :
    Halts (action >>= next) host id tables := by
  obtain ⟨failure, left, store, comes, stands, same⟩ := halts
  exact ⟨failure, left, store, comes.stops, stands, same⟩

/-- What follows an action fails. -/
theorem behind
    (first : Comes action host (.ok value) middle)
    (halts : Halts (next value) middle id tables) :
    Halts (action >>= next) host id tables := by
  obtain ⟨failure, left, store, comes, stands, same⟩ := halts
  exact ⟨failure, left, store, first.bind comes, stands, same⟩

/-- The failure is the cause of another one. -/
theorem within
    (halts : Halts action host id tables)
    (message : String) :
    Halts (ConsoleAction.within message action) host id tables := by
  obtain ⟨failure, left, store, comes, stands, same⟩ := halts
  exact ⟨failure.within message, left, store, comes.within message, stands, same⟩

end Halts

/-! ## Changes of a store that is awaited -/

/-- What a change of a store that is awaited comes to. The store stands open after it. -/
theorem comes_change
    {action : Action α}
    {outcome : Except Fault α}
    {store : Store}
    {tables : Tables}
    {locks : LockTable}
    (awaits : host.Awaits id store)
    (same : action.runOn (host.found id) = action.runOn store)
    (ran : action.runOn store = (outcome, store.holding tables locks))
    (sane : locks.Sane) :
    ∃ left,
      Comes (onStore id action) host (outcome.mapError .ofFault) left ∧
        left.Stands id (store.holding tables locks) :=
  ⟨_, .onStore (same.trans ran), awaits.keep (awaits.standing.holding sane) rfl⟩

/-- A change of which it is known when it succeeds does so, or it fails and changes nothing. -/
theorem comes_decided
    {action : Action α}
    {able : Prop}
    {post : α → Tables → Prop}
    {store : Store}
    (awaits : host.Awaits id store)
    (decides :
      Action.Decides (store.setting fun _ => False) store.locks.gives (· = store.tables) action able
        post) :
    (¬able ∧ Halts (onStore id (Action.writing action)) host id store.tables) ∨
      able ∧
        ∃ value left tables locks,
          Comes (onStore id (Action.writing action)) host (.ok value) left ∧
            left.Stands id (store.holding tables locks) ∧
              store.locks.Same locks ∧ post value tables := by
  have standing := awaits.standing
  have asOne := awaits.writing action
  rcases standing.decides decides .idle rfl with
    ⟨isAble, value, tables, locks, ran, same, after⟩ | ⟨unable, fault, locks, ran, same⟩
  · rw [← standing.writing_eq] at ran
    obtain ⟨left, comes, stands⟩ := comes_change awaits asOne ran (same.sane standing.sane)
    exact .inr ⟨isAble, value, left, tables, locks, comes, stands, same, after⟩
  · rw [← standing.writing_eq] at ran
    obtain ⟨left, comes, stands⟩ := comes_change awaits asOne ran (same.sane standing.sane)
    exact .inl ⟨unable, _, left, _, comes, stands, rfl⟩

end ConsoleAction

end VersionStore
