import VersionStore.Proofs.Action.Works

namespace VersionStore

/-!
# Scopes from outside

What becomes of a store when a scope begins and ends, and when an action runs in a scope
of its own. Between two operations a store is steady. It may be in a scope then, and what
it works on is what it keeps unless it wrote since its outermost scope began.
-/

namespace Store

/-- A store between two operations: it has its database to itself, and the gate is taken
exactly while a scope is open. -/
structure Steady (store : Store) : Prop extends store.Alone where
  gate : store.entered = !store.savepoints.isEmpty
  free : store.access ≠ .stuck
  idle : store.savepoints = [] → store.access = .idle
  sane : store.locks.Sane
  /-- What was not written to is as it is kept. -/
  unwritten :
    store.access ≠ .writing →
    store.tables = store.kept ∧ ∀ saved ∈ store.savepoints, saved = store.kept
  /-- The outermost scope began with what is kept. -/
  outermost : ∀ saved, store.savepoints.getLast? = some saved → saved = store.kept

/-- A store is open, and no scope is open on it. -/
structure Idle (store : Store) : Prop extends store.Steady where
  outside : store.savepoints = []
  opened : store.closed = false

/-- Something holds of the tables of a store and of those it remembers. -/
structure All (holds : Tables → Prop) (store : Store) : Prop where
  tables : holds store.tables
  saved : ∀ saved ∈ store.savepoints, holds saved

/-- The store in a first scope. -/
def entering (store : Store) : Store :=
  { store with entered := true, connected := true, savepoints := store.tables :: store.savepoints }

/-- The store after its outermost scope, which began with the given tables. -/
def ended (store : Store) (kept : Bool) (saved : Tables) : Store :=
  { (if kept then store.settled else store.undone saved) with entered := false }

/-- The setting of a scope while some files are busy or open. -/
def setting (store : Store) (busy : Int → Prop) (held : Int → Prop := fun _ => False) :
    Setting where
  history := store.config.keepHistory
  busy := busy
  held := held

variable {store before after : Store} {holds : Tables → Prop} {setting : Setting}

/-- A store is as it says when nothing is known to be open. -/
theorem Fits.idle :
    store.Fits (store.setting fun _ => False) :=
  ⟨rfl, fun _ absurd => absurd.elim, fun _ absurd => absurd.elim⟩

/-- A store is in its first scope as it was. -/
theorem Fits.entering
    (fits : store.Fits setting) :
    store.entering.Fits setting :=
  ⟨fits.history, fits.busy, fits.held⟩

/-- No one is inside the gate of a store on which no scope is open. -/
theorem Steady.entered_eq
    (steady : store.Steady)
    (outside : store.savepoints = []) :
    store.entered = false := by
  rw [steady.gate, outside]
  rfl

/-- A store that is alone is not in the way of itself. -/
theorem isBlocked_of_alone
    (alone : store.Alone) :
    store.isBlocked = false := by
  rw [isBlocked, alone.others]
  simp

/-- What a store comes to when its outermost scope is undone. -/
theorem ended_false
    (alone : store.Alone)
    (saved : Tables) :
    store.ended false saved =
      { store with tables := saved, savepoints := [], access := .idle, entered := false } := by
  simp [Store.ended, undone, isBlocked_of_alone alone]

/-- What has nothing to do with scopes stays at the end of one. -/
theorem ended_same
    (store : Store)
    (kept : Bool)
    (saved : Tables) :
    (store.ended kept saved).config = store.config ∧
      (store.ended kept saved).locks = store.locks ∧
      (store.ended kept saved).closing = store.closing ∧
      (store.ended kept saved).closed = store.closed := by
  unfold Store.ended undone
  cases kept with
  | true =>
      exact ⟨rfl, rfl, rfl, rfl⟩
  | false =>
      simp only [Bool.false_eq_true, if_false]
      split <;> exact ⟨rfl, rfl, rfl, rfl⟩

/-- The end of a scope does not change whether a store has time to keep, nor where it is kept. -/
theorem ended_place
    (store : Store)
    (kept : Bool)
    (saved : Tables) :
    (store.ended kept saved).timed = store.timed ∧
      (store.ended kept saved).file = store.file ∧
      (store.ended kept saved).connected = store.connected := by
  unfold Store.ended undone
  cases kept with
  | true =>
      exact ⟨rfl, rfl, rfl⟩
  | false =>
      simp only [Bool.false_eq_true, if_false]
      split <;> exact ⟨rfl, rfl, rfl⟩

/-- The end of the outermost scope leaves no scope. -/
theorem ended_savepoints
    (alone : store.Alone)
    (kept : Bool)
    (saved : Tables) :
    (store.ended kept saved).savepoints = [] := by
  cases kept with
  | true =>
      rfl
  | false =>
      rw [ended_false alone]

namespace Steady

/-- Outside of every scope a store keeps what it works on. -/
theorem tables_eq_kept
    (steady : store.Steady)
    (outside : store.savepoints = []) :
    store.tables = store.kept := by
  have idle := steady.idle outside
  exact (steady.unwritten (by simp [idle])).1

/-- What is kept is what is worked on, or what the outermost scope began with. -/
theorem kept_mem
    (steady : store.Steady) :
    store.kept = store.tables ∨ store.kept ∈ store.savepoints := by
  cases last : store.savepoints.getLast? with
  | none =>
      exact .inl (steady.tables_eq_kept (List.getLast?_eq_none_iff.mp last)).symm
  | some saved =>
      right
      rw [← steady.outermost saved last]
      exact List.mem_of_getLast? last

/-- No scope is open while the gate is free. -/
theorem outside
    (steady : store.Steady)
    (left : ¬store.entered = true) :
    store.savepoints = [] := by
  have gate := steady.gate
  rw [Bool.eq_false_iff.mpr left] at gate
  simpa using gate

/-- A scope is open while the gate is taken. -/
theorem entered
    (steady : store.Steady)
    (opened : store.savepoints ≠ []) :
    store.entered = true := by
  rw [steady.gate]
  simpa using opened

/-- An open scope of a steady store is a scope to work in. -/
theorem inScope
    (steady : store.Steady)
    (opened : store.savepoints ≠ [])
    (fits : store.Fits setting) :
    store.InScope setting where
  toAlone := steady.toAlone
  toFits := fits
  opened := opened
  free := steady.free
  sane := steady.sane

/-- A store is steady in its first scope. -/
theorem entering
    (steady : store.Steady)
    (outside : store.savepoints = []) :
    store.entering.Steady where
  damage := steady.damage
  writable := steady.writable
  others := steady.others
  gate := rfl
  free := steady.free
  idle closed := (List.cons_ne_nil _ _ closed).elim
  sane := steady.sane
  unwritten _ := by
    have same := steady.tables_eq_kept outside
    simp [Store.entering, outside, same]
  outermost saved last := by
    simp only [Store.entering, outside, List.getLast?_singleton, Option.some.injEq] at last
    rw [← last]
    exact steady.tables_eq_kept outside

/-- Work in an open scope leaves a store steady. -/
theorem alike
    (steady : before.Steady)
    (opened : before.savepoints ≠ [])
    (alike : before.Alike after) :
    after.Steady where
  toAlone := alike.alone steady.toAlone
  gate := by
    have same := congrArg (fun store : Store => store.entered) alike.frame
    change after.entered = before.entered at same
    rw [same, alike.savepoints]
    exact steady.gate
  free := alike.free steady.free
  idle closed := by
    rw [alike.savepoints] at closed
    exact (opened closed).elim
  sane := alike.locks.sane steady.sane
  unwritten notWritten := by
    have same : after.tables = before.tables := by
      by_contra changed
      exact notWritten (alike.wrote steady.free changed)
    rw [same, alike.kept, alike.savepoints]
    exact steady.unwritten fun wrote => notWritten (alike.noted wrote)
  outermost := by
    rw [alike.savepoints, alike.kept]
    exact steady.outermost

/-- A steady store stays steady when its locks change. -/
theorem withLocks
    (steady : store.Steady)
    {locks : LockTable}
    (sane : locks.Sane) :
    { store with locks }.Steady :=
  { steady with sane }

/-- A store is steady after its outermost scope. -/
theorem ended
    (steady : store.Steady)
    {saved : Tables}
    (outermost : store.savepoints = [saved])
    (kept : Bool) :
    (store.ended kept saved).Steady := by
  cases kept with
  | true =>
      refine ⟨⟨steady.damage, steady.writable, steady.others⟩, rfl, nofun, fun _ => rfl,
        steady.sane, fun _ => ⟨?_, nofun⟩, nofun⟩
      change store.tables = if store.access = .writing then store.tables else store.kept
      split
      · rfl
      · rename_i notWritten
        exact (steady.unwritten notWritten).1
  | false =>
      rw [ended_false steady.toAlone]
      refine ⟨⟨steady.damage, steady.writable, steady.others⟩, rfl, nofun, fun _ => rfl,
        steady.sane, fun _ => ⟨?_, nofun⟩, nofun⟩
      exact steady.outermost saved (by rw [outermost]; rfl)

/-- A store is steady in a scope within a scope. -/
theorem nested
    (steady : store.Steady)
    (opened : store.savepoints ≠ []) :
    { store with savepoints := store.tables :: store.savepoints }.Steady where
  toAlone := ⟨steady.damage, steady.writable, steady.others⟩
  gate := steady.entered opened
  free := steady.free
  idle closed := (List.cons_ne_nil _ _ closed).elim
  sane := steady.sane
  unwritten notWritten := by
    obtain ⟨same, saved⟩ := steady.unwritten notWritten
    refine ⟨same, fun other member => ?_⟩
    rcases List.mem_cons.mp member with rfl | outer
    · exact same
    · exact saved other outer
  outermost saved last := by
    obtain ⟨next, outer, around⟩ := List.exists_cons_of_ne_nil opened
    apply steady.outermost saved
    dsimp only at last
    rw [around] at last ⊢
    simpa using last

/-- A store is steady after a scope within a scope, kept or not. -/
theorem unnested
    (steady : store.Steady)
    {saved next : Tables}
    {outer : List Tables}
    (around : store.savepoints = saved :: next :: outer)
    {tables : Tables}
    (left : tables = store.tables ∨ tables = saved) :
    { store with tables, savepoints := next :: outer }.Steady where
  toAlone := ⟨steady.damage, steady.writable, steady.others⟩
  gate := steady.entered (by simp [around])
  free := steady.free
  idle closed := (List.cons_ne_nil _ _ closed).elim
  sane := steady.sane
  unwritten notWritten := by
    obtain ⟨same, each⟩ := steady.unwritten notWritten
    rw [around] at each
    refine ⟨?_, fun other member => each other (List.mem_cons_of_mem _ member)⟩
    rcases left with rfl | rfl
    · exact same
    · exact each tables (by simp)
  outermost other last := by
    apply steady.outermost other
    rw [around]
    simpa using last

end Steady

namespace All

/-- What holds of all tables holds of those that are kept. -/
theorem kept
    (steady : store.Steady)
    (all : store.All holds) :
    holds store.kept := by
  rcases steady.kept_mem with same | member
  · rw [same]
    exact all.tables
  · exact all.saved _ member

/-- What holds of all tables holds of each of them, the kept ones included. -/
theorem each
    (steady : store.Steady)
    (all : store.All holds) :
    ∀ tables ∈ store.tables :: store.kept :: store.savepoints, holds tables := by
  intro tables isTables
  rcases List.mem_cons.mp isTables with rfl | isTables
  · exact all.tables
  rcases List.mem_cons.mp isTables with rfl | isTables
  · exact all.kept steady
  · exact all.saved tables isTables

/-- What holds of all tables holds of all of them in a first scope. -/
theorem entering
    (all : store.All holds) :
    store.entering.All holds where
  tables := all.tables
  saved saved member := by
    rcases List.mem_cons.mp member with rfl | outer
    · exact all.tables
    · exact all.saved saved outer

/-- Work in a scope has to mind the tables it works on only. -/
theorem alike
    (all : before.All holds)
    (alike : before.Alike after)
    (tables : holds after.tables) :
    after.All holds where
  tables := tables
  saved := by
    rw [alike.savepoints]
    exact all.saved

/-- What holds of all tables holds of all of them after the outermost scope. -/
theorem ended
    (alone : store.Alone)
    (all : store.All holds)
    (kept : Bool)
    {saved : Tables}
    (start : holds saved) :
    (store.ended kept saved).All holds := by
  cases kept with
  | true =>
      exact ⟨all.tables, nofun⟩
  | false =>
      rw [ended_false alone]
      exact ⟨start, nofun⟩

/-- What holds of all tables holds of all of them in a scope within a scope. -/
theorem nested
    (all : store.All holds) :
    { store with savepoints := store.tables :: store.savepoints }.All holds :=
  ⟨all.tables, all.entering.saved⟩

/-- What holds of all tables holds of all of them after a scope within a scope. -/
theorem unnested
    (all : store.All holds)
    {saved next : Tables}
    {outer : List Tables}
    (around : store.savepoints = saved :: next :: outer)
    {tables : Tables}
    (left : tables = store.tables ∨ tables = saved) :
    { store with tables, savepoints := next :: outer }.All holds where
  tables := by
    rcases left with rfl | rfl
    · exact all.tables
    · exact all.saved _ (by simp [around])
  saved other member := all.saved other (by
    rw [around]
    exact List.mem_cons_of_mem _ member)

end All

end Store

namespace Action

variable {store : Store}

/-! ## Running through the gate -/

/-- The gate is entered unless someone is inside or the store is closed. -/
theorem runOn_enter
    (alone : store.Alone) :
    enter.runOn store =
      if store.entered then (.error .reentered, store)
      else if store.closed then (.error .closed, store)
      else (.ok ⟨⟩, { store with entered := true, connected := true }) := by
  rw [enter, runOn_bind, runOn_get]
  dsimp only
  cases store.entered <;> cases store.closed <;> cases store.connected <;>
    simp [alone.damage]

/-- A scope of a transaction begins unless a close has begun or the gate is not free. -/
theorem runOn_beginWriting
    (alone : store.Alone) :
    beginWriting.runOn store =
      if store.closing then (.error .closed, store)
      else if store.entered then (.error .reentered, store)
      else if store.closed then (.error .closed, store)
      else (.ok ⟨⟩, store.entering) := by
  rw [beginWriting, runOn_bind, refuseClosing, runOn_bind, runOn_get]
  dsimp only
  by_cases closing : store.closing = true
  · rw [if_pos closing, if_pos closing]
    rfl
  · rw [if_neg closing, if_neg closing, runOn_pure]
    dsimp only
    rw [runOn_bind, runOn_enter alone]
    by_cases entered : store.entered = true
    · rw [if_pos entered, if_pos entered]
    · rw [if_neg entered, if_neg entered]
      by_cases closed : store.closed = true
      · rw [if_pos closed, if_pos closed]
      · rw [if_neg closed, if_neg closed]
        rfl

/-- The outermost scope ends as it is asked to. -/
theorem runOn_endScope_outermost
    (alone : store.Alone)
    {saved : Tables}
    (outermost : store.savepoints = [saved])
    (kept : Bool) :
    (endScope kept).runOn store =
      (.ok ⟨⟩, if kept then store.settled else store.undone saved) := by
  cases kept with
  | true =>
      rw [show endScope true = commitScope from rfl, commitScope, runOn_bind, runOn_get]
      dsimp only
      rw [outermost]
      simp [Store.isBlocked_of_alone alone]
  | false =>
      rw [show endScope false = rollbackScope from rfl, rollbackScope, runOn_modify, outermost]
      rfl

/-- Whatever comes of an action, the gate is left after it. -/
theorem runOn_leaveAfter
    (action : Action α)
    (store : Store) :
    (leaveAfter action).runOn store =
      ((action.runOn store).1, { (action.runOn store).2 with entered := false }) := by
  rw [leaveAfter, runOn_bind, runOn_attempt]
  dsimp only
  rw [runOn_bind, runOn_leave]
  exact runOn_ofExcept _ _

/-- An action inside the gate of an idle store gives what it gives behind the gate, which it leaves
again. -/
theorem runOn_reading
    (idle : store.Idle)
    (action : Action α) :
    (reading action).runOn store =
      ((action.runOn { store with entered := true, connected := true }).1,
        { (action.runOn { store with entered := true, connected := true }).2 with
          entered := false }) := by
  have gate : store.entered = false := idle.entered_eq idle.outside
  rw [reading, runOn_bind, runOn_enter idle.toAlone, gate, idle.opened,
    if_neg Bool.false_ne_true, if_neg Bool.false_ne_true]
  dsimp only
  rw [runOn_leaveAfter]

/-- The end of a transaction ends its scope and frees the gate. -/
theorem runOn_endWriting
    (alone : store.Alone)
    {saved : Tables}
    (outermost : store.savepoints = [saved])
    (kept : Bool) :
    (endWriting kept).runOn store = (.ok ⟨⟩, store.ended kept saved) := by
  rw [endWriting, runOn_leaveAfter, runOn_endScope_outermost alone outermost]
  rfl

/-- A transaction begins a scope, does its work there and ends the scope. -/
theorem runOn_transaction
    (action : Action α)
    (store : Store) :
    (transaction action).runOn store =
      let (outcome, left) :=
        action.runOn { store with savepoints := store.tables :: store.savepoints }
      match (endScope outcome.isOk).runOn left with
      | (.ok _, after) => (outcome, after)
      | (.error fault, after) => (.error fault, after) := by
  rw [transaction, runOn_bind, runOn_beginScope]
  dsimp only
  rw [runOn_bind, runOn_attempt]
  dsimp only
  rw [runOn_bind]
  rcases (endScope _).runOn _ with ⟨fault | _, after⟩
  · rfl
  · exact runOn_ofExcept _ _

/-- An action in a scope of its own begins it, does its work and ends it. -/
theorem runOn_streaming
    (steady : store.Steady)
    {action : Action α}
    (works :
      store.savepoints = [] →
      (action.runOn store.entering).2.Alone ∧
        (action.runOn store.entering).2.savepoints = [store.tables]) :
    (streaming action).runOn store =
      if store.entered then (.error .reentered, store)
      else if store.closed then (.error .closed, store)
      else
        ((action.runOn store.entering).1,
          (action.runOn store.entering).2.ended (action.runOn store.entering).1.isOk
            store.tables) := by
  rw [streaming, reading, runOn_bind, runOn_enter steady.toAlone]
  by_cases entered : store.entered = true
  · rw [if_pos entered, if_pos entered]
  rw [if_neg entered, if_neg entered]
  by_cases closed : store.closed = true
  · rw [if_pos closed, if_pos closed]
  rw [if_neg closed, if_neg closed]
  have outside : store.savepoints = [] := by
    have gate := steady.gate
    rw [Bool.eq_false_iff.mpr entered] at gate
    simpa using gate
  obtain ⟨alone, savepoints⟩ := works outside
  dsimp only
  rw [runOn_leaveAfter, runOn_transaction]
  have inner :
      ({ ({ store with entered := true, connected := true } : Store) with
        savepoints := store.tables :: store.savepoints } : Store) = store.entering := rfl
  dsimp only at inner ⊢
  rw [inner]
  rcases ran : action.runOn store.entering with ⟨outcome, left⟩
  rw [ran] at alone savepoints
  dsimp only
  rw [runOn_endScope_outermost alone savepoints]
  rfl

/-- A change of the store does nothing once a close has begun, and otherwise is an action in a
scope of its own. -/
theorem runOn_writing
    (action : Action α)
    (store : Store) :
    (writing action).runOn store =
      if store.closing then (.error .closed, store) else (streaming action).runOn store := by
  rw [writing, runOn_bind, refuseClosing, runOn_bind, runOn_get]
  dsimp only
  cases store.closing <;> rfl

/-! ## What a scope of its own leaves -/

/-- What is left of a store after an operation that either succeeded or had no effect. -/
structure Leaves (store : Store) (post : α → LockTable → Tables → Prop)
    (left : Except Fault α × Store) : Prop where
  steady : left.2.Steady
  config : left.2.config = store.config
  closing : left.2.closing = store.closing
  closed : left.2.closed = store.closed
  savepoints : left.2.savepoints = store.savepoints
  done :
    ∀ value,
      left.1 = .ok value →
      store.savepoints = [] ∧ post value left.2.locks left.2.tables
  undone :
    ∀ fault,
      left.1 = .error fault →
      left.2.tables = store.tables ∧ store.locks.Same left.2.locks

namespace Leaves

variable
  {post : α → LockTable → Tables → Prop}
  {left : Except Fault α × Store}
  {holds : Tables → Prop}

/-- A refusal leaves everything. -/
theorem refused
    (steady : store.Steady)
    (fault : Fault) :
    Leaves store post (.error fault, store) :=
  ⟨steady, rfl, rfl, rfl, rfl, nofun, fun _ _ => ⟨rfl, .refl _⟩⟩

/-- What holds of the tables after a success holds of all tables. -/
theorem all_done
    (leaves : Leaves store post left)
    {value : α}
    (isDone : left.1 = .ok value)
    (tables : holds left.2.tables) :
    left.2.All holds where
  tables := tables
  saved := by
    rw [leaves.savepoints, (leaves.done value isDone).1]
    nofun

/-- What holds of all tables before a failure holds of them after it. -/
theorem all_undone
    (leaves : Leaves store post left)
    {fault : Fault}
    (isUndone : left.1 = .error fault)
    (all : store.All holds) :
    left.2.All holds where
  tables := by
    rw [(leaves.undone fault isUndone).1]
    exact all.tables
  saved := by
    rw [leaves.savepoints]
    exact all.saved

/-- What holds of the tables before and is promised after holds of the tables. -/
theorem tables
    (leaves : Leaves store post left)
    (before : holds store.tables)
    (promised : ∀ value locks tables, post value locks tables → holds tables) :
    holds left.2.tables := by
  cases outcome : left.1 with
  | ok value =>
      exact promised value _ _ (leaves.done value outcome).2
  | error fault =>
      rw [(leaves.undone fault outcome).1]
      exact before

/-- What holds of all tables before and is promised after holds of all tables. -/
theorem all
    (leaves : Leaves store post left)
    (all : store.All holds)
    (promised : ∀ value locks tables, post value locks tables → holds tables) :
    left.2.All holds where
  tables := leaves.tables all.tables promised
  saved := by
    rw [leaves.savepoints]
    exact all.saved

end Leaves

/-- An action in a scope of its own has its effect when it succeeds, and none but on locks when
it fails. -/
theorem leaves_streaming
    (steady : store.Steady)
    {action : Action α}
    {post : α → LockTable → Tables → Prop}
    (works :
      store.savepoints = [] →
      ∃ locks : LockTable,
        locks.Sane ∧
          Store.Alike { store.entering with locks } (action.runOn store.entering).2 ∧
          (∀ value,
            (action.runOn store.entering).1 = .ok value →
            post value (action.runOn store.entering).2.locks
              (action.runOn store.entering).2.tables) ∧
          ∀ fault,
            (action.runOn store.entering).1 = .error fault →
            store.locks.Same (action.runOn store.entering).2.locks) :
    Leaves store post ((streaming action).runOn store) := by
  have inside :
      store.savepoints = [] →
      (action.runOn store.entering).2.Steady ∧
        (action.runOn store.entering).2.savepoints = [store.tables] ∧
        (action.runOn store.entering).2.frame = store.entering.frame := by
    intro outside
    obtain ⟨locks, sane, alike, -, -⟩ := works outside
    have opened : ({ store.entering with locks } : Store).savepoints ≠ [] :=
      List.cons_ne_nil _ _
    refine ⟨((steady.entering outside).withLocks sane).alike opened alike, ?_, alike.frame⟩
    rw [alike.savepoints]
    exact congrArg (store.tables :: ·) outside
  rw [runOn_streaming steady fun outside => ⟨(inside outside).1.toAlone, (inside outside).2.1⟩]
  by_cases entered : store.entered = true
  · rw [if_pos entered]
    exact .refused steady _
  rw [if_neg entered]
  by_cases closed : store.closed = true
  · rw [if_pos closed]
    exact .refused steady _
  rw [if_neg closed]
  have outside := steady.outside entered
  obtain ⟨leftSteady, savepoints, frame⟩ := inside outside
  obtain ⟨-, -, -, done, undone⟩ := works outside
  rcases ran : action.runOn store.entering with ⟨outcome, left⟩
  rw [ran] at leftSteady savepoints frame done undone
  have sameConfig := congrArg (fun store : Store => store.config) frame
  have sameClosing := congrArg (fun store : Store => store.closing) frame
  have sameClosed := congrArg (fun store : Store => store.closed) frame
  obtain ⟨endedConfig, endedLocks, endedClosing, endedClosed⟩ :=
    left.ended_same outcome.isOk store.tables
  refine ⟨leftSteady.ended savepoints _, endedConfig.trans sameConfig,
    endedClosing.trans sameClosing, endedClosed.trans sameClosed, ?_, ?_, ?_⟩
  · rw [outside]
    exact Store.ended_savepoints leftSteady.toAlone _ _
  · rintro value rfl
    refine ⟨outside, ?_⟩
    rw [endedLocks]
    exact done value rfl
  · rintro fault rfl
    rw [endedLocks]
    refine ⟨?_, undone fault rfl⟩
    change (left.ended false store.tables).tables = store.tables
    rw [Store.ended_false leftSteady.toAlone]

/-- An action that may be refused leaves what it leaves when it is not. -/
theorem leaves_writing
    (steady : store.Steady)
    {action : Action α}
    {post : α → LockTable → Tables → Prop}
    (leaves : Leaves store post ((streaming action).runOn store)) :
    Leaves store post ((writing action).runOn store) := by
  rw [runOn_writing]
  split
  · exact .refused steady _
  · exact leaves

/-- Work in a scope of its own leaves the locks. -/
theorem Works.leaves
    {setting : Setting}
    {pre : Tables → Prop}
    {action : Action α}
    {post : α → Tables → Prop}
    {failed : Fault → Tables → Prop}
    (works : Works setting pre action post failed)
    (steady : store.Steady)
    (fits : store.Fits setting)
    (before : pre store.tables) :
    Leaves store (fun value locks tables => store.locks.Same locks ∧ post value tables)
      ((streaming action).runOn store) := by
  refine leaves_streaming steady fun outside => ⟨store.locks, steady.sane, ?_⟩
  have inScope : store.entering.InScope setting :=
    (steady.entering outside).inScope (List.cons_ne_nil _ _) fits.entering
  obtain ⟨alike, ended⟩ := works store.entering inScope before
  refine ⟨alike, fun value isValue => ⟨alike.locks, ?_⟩, fun _ _ => alike.locks⟩
  rw [isValue] at ended
  exact ended

/-- What an action does in a scope it does in one of its own on an idle store. -/
theorem runOn_streaming_ok
    (idle : store.Idle)
    {action : Action α}
    {value : α}
    {left : Store}
    (ran : action.runOn store.entering = (.ok value, left))
    (alone : left.Alone)
    (savepoints : left.savepoints = [store.tables]) :
    (streaming action).runOn store = (.ok value, left.ended true store.tables) := by
  have free : store.entered = false := idle.entered_eq idle.outside
  rw [runOn_streaming idle.toSteady fun _ => by rw [ran]; exact ⟨alone, savepoints⟩,
    if_neg (by simp [free]), if_neg (by simp [idle.opened]), ran]
  rfl

/-- Work that cannot fail succeeds in a scope of its own while no scope is open. -/
theorem Works.exists_ok
    {setting : Setting}
    {pre : Tables → Prop}
    {action : Action α}
    {post : α → Tables → Prop}
    (works : Works setting pre action post fun _ _ => False)
    (steady : store.Steady)
    (fits : store.Fits setting)
    (before : pre store.tables)
    (outside : store.savepoints = [])
    (opened : store.closed = false) :
    ∃ value, ((streaming action).runOn store).1 = .ok value := by
  have inScope : store.entering.InScope setting :=
    (steady.entering outside).inScope (List.cons_ne_nil _ _) fits.entering
  obtain ⟨alike, ended⟩ := works store.entering inScope before
  have savepoints : (action.runOn store.entering).2.savepoints = [store.tables] := by
    rw [alike.savepoints]
    exact congrArg (store.tables :: ·) outside
  rcases ran : action.runOn store.entering with ⟨fault | value, left⟩
  · rw [ran] at ended
    exact ended.elim
  · rw [ran] at alike savepoints
    exact ⟨value, congrArg Prod.fst (runOn_streaming_ok ⟨steady, outside, opened⟩ ran
      (alike.alone inScope.toAlone) savepoints)⟩

/-- Work that cannot fail has its effect in a scope of its own on an idle store. -/
theorem Works.runs_streaming
    {setting : Setting}
    {pre : Tables → Prop}
    {action : Action α}
    {post : α → Tables → Prop}
    (works : Works setting pre action post fun _ _ => False)
    (idle : store.Idle)
    (fits : store.Fits setting)
    (before : pre store.tables) :
    ∃ value left,
      (streaming action).runOn store = (.ok value, left) ∧
        left.Idle ∧ left.closing = store.closing ∧ store.locks.Same left.locks ∧
          post value left.tables := by
  obtain ⟨value, succeeds⟩ := works.exists_ok idle.toSteady fits before idle.outside idle.opened
  have leaves := works.leaves idle.toSteady fits before
  obtain ⟨outside, same, after⟩ := leaves.done value succeeds
  exact ⟨value, _, Prod.ext succeeds rfl,
    ⟨leaves.steady, leaves.savepoints.trans outside, leaves.closed.trans idle.opened⟩,
    leaves.closing, same, after⟩

end Action

end VersionStore
