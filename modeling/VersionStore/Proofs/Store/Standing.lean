import VersionStore.Proofs.Store.Resting

namespace VersionStore

/-!
# Stores that stand open

A store stands open while it is connected, nothing is under way on it and no close has begun,
whatever its tables are like. What is done to it leaves it so, with other tables and locks and
nothing else. To who changes it, a store that only waits to be connected is as good.
-/

open VersionStore.Action

namespace Store

/-- A store is open and connected, nothing is under way on it and no close has begun. -/
structure Standing (store : Store) : Prop extends store.Idle where
  connected : store.connected = true
  staying : store.closing = false

/-- The store once it is connected with its database. -/
def online (store : Store) : Store :=
  { store with connected := true }

variable {store left : Store} {tables : Tables} {locks : LockTable}

/-- An idle store stands open once it is connected. -/
theorem Idle.standing_online
    (idle : store.Idle)
    (staying : store.closing = false) :
    store.online.Standing :=
  { idle with connected := rfl, staying := staying }

/-- Who enters the gate of an idle store finds it connected. -/
theorem Idle.writing_online
    (idle : store.Idle)
    (staying : store.closing = false)
    (action : Action α) :
    (writing action).runOn store = (writing action).runOn store.online := by
  have free : store.entered = false := idle.entered_eq idle.outside
  have opened := idle.opened
  have alone : store.online.Alone := ⟨idle.damage, idle.writable, idle.others⟩
  rw [runOn_writing, runOn_writing, if_neg (by simp [staying]), if_neg (by simp [online, staying]),
    streaming, reading, runOn_bind, runOn_bind, runOn_enter idle.toAlone, runOn_enter alone]
  simp only [online, free, opened, Bool.false_eq_true, if_false]

namespace Standing

/-- A store stands open whatever tables and locks it holds. -/
theorem holding
    (standing : store.Standing)
    (sane : locks.Sane) :
    (store.holding tables locks).Standing where
  damage := standing.damage
  writable := standing.writable
  others := standing.others
  gate := standing.gate
  free := standing.free
  idle := standing.idle
  sane := sane
  unwritten _ := ⟨rfl, by
    rw [Store.holding, standing.outside]
    exact fun _ member => absurd member List.not_mem_nil⟩
  outermost saved isLast := by
    rw [Store.holding, standing.outside] at isLast
    cases isLast
  outside := standing.outside
  opened := standing.opened
  connected := standing.connected
  staying := standing.staying

/-- Nothing changes when a store holds what it held. -/
theorem holding_self
    (standing : store.Standing) :
    store.holding store.tables store.locks = store := by
  have isKept := standing.tables_eq_kept standing.outside
  cases store
  cases isKept
  rfl

/-- What is done in a scope of its own leaves other tables and locks, the tables only if it
succeeds. -/
theorem runOn_streaming_eq
    (standing : store.Standing)
    {action : Action α}
    {outcome : Except Fault α}
    (ran : action.runOn store.entering = (outcome, left))
    (alike : Store.Alike { store.entering with locks } left) :
    (streaming action).runOn store =
      (outcome, store.holding (if outcome.isOk then left.tables else store.tables) left.locks) := by
  have free : store.entered = false := standing.entered_eq standing.outside
  have alone : ({ store.entering with locks } : Store).Alone :=
    ⟨standing.damage, standing.writable, standing.others⟩
  have savepoints : left.savepoints = [store.tables] := by
    rw [alike.savepoints]
    exact congrArg (store.tables :: ·) standing.outside
  have works :
      store.savepoints = [] →
      (action.runOn store.entering).2.Alone ∧
        (action.runOn store.entering).2.savepoints = [store.tables] := by
    rw [ran]
    exact fun _ => ⟨alike.alone alone, savepoints⟩
  rw [runOn_streaming standing.toSteady works, if_neg (by simp [free]),
    if_neg (by simp [standing.opened]), ran]
  exact congrArg _ (standing.ended_eq standing.connected alike _)

variable
  {setting : Setting}
  {pre : Tables → Prop}
  {action : Action α}
  {post : α → Tables → Prop}
  (standing : store.Standing)

include standing

/-- The store is a scope to work in. -/
theorem inScope
    (fits : store.Fits setting) :
    store.entering.InScope setting :=
  (standing.entering standing.outside).inScope (List.cons_ne_nil _ _) fits.entering

/-- Work that cannot fail is done in a scope of its own. -/
theorem streams
    (works : Works setting pre action post fun _ _ => False)
    (fits : store.Fits setting)
    (before : pre store.tables) :
    ∃ value tables locks,
      (streaming action).runOn store = (.ok value, store.holding tables locks) ∧
        locks.Sane ∧ post value tables := by
  obtain ⟨alike, ended⟩ := works store.entering (standing.inScope fits) before
  rcases ran : action.runOn store.entering with ⟨fault | value, left⟩
  · rw [ran] at ended
    exact ended.elim
  · rw [ran] at alike ended
    exact ⟨value, left.tables, left.locks, standing.runOn_streaming_eq ran alike,
      alike.locks.sane standing.sane, ended⟩

/-- A change by itself is what it is in a scope of its own. -/
theorem writing_eq
    (action : Action α) :
    (writing action).runOn store = (streaming action).runOn store := by
  rw [runOn_writing, if_neg (by simp [standing.staying])]

/-- An action that may hold a lock on is done in a scope of its own when its locks are granted. -/
theorem retains
    {free : Int → Prop}
    (retains : Retains setting free pre action post)
    (fits : store.Fits setting)
    (grants : store.locks.Grants free)
    (before : pre store.tables) :
    ∃ value tables locks,
      (streaming action).runOn store = (.ok value, store.holding tables locks) ∧
        locks.Sane ∧ post value tables := by
  obtain ⟨value, locks, left, ran, sane, alike, after⟩ :=
    retains store.entering (standing.inScope fits) grants before
  exact ⟨value, left.tables, left.locks, standing.runOn_streaming_eq ran alike,
    alike.locks.sane sane, after⟩

/-- An action of which it is known when it succeeds does so in a scope of its own, and a failure
leaves the tables. -/
theorem decides
    {able : Prop}
    (decides : Decides setting store.locks.gives pre action able post)
    (fits : store.Fits setting)
    (before : pre store.tables) :
    (able ∧
      ∃ value tables locks,
        (streaming action).runOn store = (.ok value, store.holding tables locks) ∧
          store.locks.Same locks ∧ post value tables) ∨
      ¬able ∧
        ∃ fault locks,
          (streaming action).runOn store = (.error fault, store.holding store.tables locks) ∧
            store.locks.Same locks := by
  obtain ⟨alike, ended⟩ := decides store.entering (standing.inScope fits) rfl before
  rcases ran : action.runOn store.entering with ⟨fault | value, left⟩
  · rw [ran] at alike ended
    exact .inr ⟨ended, fault, left.locks, standing.runOn_streaming_eq ran alike, alike.locks⟩
  · rw [ran] at alike ended
    exact .inl ⟨ended.1, value, left.tables, left.locks, standing.runOn_streaming_eq ran alike,
      alike.locks, ended.2⟩

end Standing

end Store

end VersionStore
