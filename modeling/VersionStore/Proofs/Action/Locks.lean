import Mathlib.Data.List.Basic
import VersionStore.LockTable

namespace VersionStore.LockTable

/-!
# How a lock table answers

The order in which a lock table keeps its holds is of no account: what it says
about each id is. Taking a lock and letting it go again leaves a table that
answers as it did before, provided no id is held by zero readers.
-/

/-- Two tables that answer every question alike. -/
structure Same (first second : LockTable) : Prop where
  paused : second.paused = first.paused
  generation : second.generation = first.generation
  hold? : ∀ id, second.hold? id = first.hold? id

/-- No id is held by zero readers. -/
def Sane (table : LockTable) : Prop :=
  ∀ id, table.hold? id ≠ some (.shared 0)

namespace Same

/-- A table answers as itself. -/
theorem refl
    (table : LockTable) :
    table.Same table :=
  ⟨rfl, rfl, fun _ => rfl⟩

/-- Answering alike passes on from table to table. -/
theorem trans
    {first second third : LockTable}
    (before : first.Same second)
    (after : second.Same third) :
    first.Same third where
  paused := after.paused.trans before.paused
  generation := after.generation.trans before.generation
  hold? id := (after.hold? id).trans (before.hold? id)

/-- Answering alike has no direction. -/
theorem symm
    {first second : LockTable}
    (same : first.Same second) :
    second.Same first where
  paused := same.paused.symm
  generation := same.generation.symm
  hold? id := (same.hold? id).symm

/-- Sanity is a matter of the answers only. -/
theorem sane
    {first second : LockTable}
    (same : first.Same second)
    (sane : first.Sane) :
    second.Sane := by
  intro id
  rw [same.hold? id]
  exact sane id

end Same

/-! ## Answers after one change -/

/-- The first hold of a list answers for its own id. -/
private theorem lookup_cons_eq_ite
    (key other : Int)
    (hold : Hold)
    (rest : List (Int × Hold)) :
    ((key, hold) :: rest).lookup other = if other = key then some hold else rest.lookup other := by
  by_cases asked : other = key
  · simp [asked]
  · have different : (other == key) = false :=
      beq_false_of_ne asked
    simp [List.lookup_cons, different, asked]

/-- A list of holds says nothing about an id that was filtered out. -/
private theorem lookup_filter_ne
    (holds : List (Int × Hold))
    (id other : Int) :
    (holds.filter (·.1 != id)).lookup other =
      if other = id then none else holds.lookup other := by
  induction holds with
  | nil =>
      simp
  | cons first rest inductionHypothesis =>
      obtain ⟨key, hold⟩ := first
      rw [lookup_cons_eq_ite]
      by_cases gone : key = id
      · subst key
        rw [List.filter_cons_of_neg (by simp), inductionHypothesis]
        split <;> rfl
      · rw [List.filter_cons_of_pos (by simp [gone]), lookup_cons_eq_ite, inductionHypothesis]
        by_cases asked : other = key
        · subst other
          simp [gone]
        · simp [asked]

/-- Erasing an id leaves the answers about all others. -/
@[simp] theorem hold?_erase
    (table : LockTable)
    (id other : Int) :
    (table.erase id).hold? other = if other = id then none else table.hold? other := by
  simp [LockTable.hold?, erase, lookup_filter_ne]

/-- Putting a hold changes the answer about its id only. -/
@[simp] theorem hold?_put
    (table : LockTable)
    (id other : Int)
    (hold : Hold) :
    (table.put id hold).hold? other = if other = id then some hold else table.hold? other := by
  by_cases asked : other = id
  · simp [LockTable.hold?, put, asked]
  · simp [LockTable.hold?, put, lookup_cons_eq_ite, asked, lookup_filter_ne]

/-- The hold that is left when one holder goes. -/
def lessHold? : Option Hold → Option Hold
  | some (.shared (readers + 2)) => some (.shared (readers + 1))
  | _ => none

/-- Letting a holder go changes the answer about its id only. -/
theorem hold?_unlock
    (table : LockTable)
    (id other : Int) :
    (table.unlock id).hold? other =
      if other = id then lessHold? (table.hold? id) else table.hold? other := by
  unfold unlock lessHold?
  split <;> simp_all

/-- An id is held for writing as long as one writer holds it. -/
theorem lessHold?_nextHold?
    {exclusive : Bool}
    {before : Option Hold}
    {hold : Hold}
    (sane : before ≠ some (.shared 0))
    (next : nextHold? exclusive before = some hold) :
    lessHold? (some hold) = before := by
  cases before with
  | none =>
      cases exclusive <;> cases next <;> rfl
  | some held =>
      cases held with
      | exclusive =>
          cases next
      | shared readers =>
          cases exclusive with
          | true =>
              cases next
          | false =>
              cases next
              cases readers with
              | zero =>
                  exact (sane rfl).elim
              | succ fewer =>
                  rfl

/-- What it takes to be given a lock, and what is then given. -/
theorem lock?_eq_some_iff
    {table locked : LockTable}
    {id : Int}
    {exclusive : Bool}
    {guard : Guard} :
    table.lock? id exclusive = some (guard, locked) ↔
      table.paused = false ∧
        guard = ⟨id, table.generation⟩ ∧
          ∃ hold, nextHold? exclusive (table.hold? id) = some hold ∧
            locked = table.put id hold := by
  unfold lock?
  cases paused : table.paused with
  | true =>
      simp
  | false =>
      cases next : nextHold? exclusive (table.hold? id) with
      | none =>
          simp
      | some hold =>
          simp [eq_comm]

/-- Nobody else holds an id that is locked for writing. -/
theorem hold?_of_lock?_exclusive
    {table locked : LockTable}
    {id : Int}
    {guard : Guard}
    (given : table.lock? id true = some (guard, locked)) :
    table.hold? id = none := by
  rw [lock?_eq_some_iff] at given
  obtain ⟨-, -, hold, next, -⟩ := given
  cases before : table.hold? id with
  | none =>
      rfl
  | some held =>
      rw [before] at next
      cases held <;> cases next

/-- Nobody writes to an id that could be locked. -/
theorem hold?_ne_exclusive_of_lock?
    {table locked : LockTable}
    {id : Int}
    {exclusive : Bool}
    {guard : Guard}
    (given : table.lock? id exclusive = some (guard, locked)) :
    table.hold? id ≠ some .exclusive := by
  rw [lock?_eq_some_iff] at given
  obtain ⟨-, -, hold, next, -⟩ := given
  intro held
  rw [held] at next
  cases next

/-- Putting a hold with a holder keeps a table sane. -/
theorem Sane.put
    {table : LockTable}
    (sane : table.Sane)
    {hold : Hold}
    (held : hold ≠ .shared 0)
    (id : Int) :
    (table.put id hold).Sane := by
  intro other
  rw [hold?_put]
  split
  · simpa using held
  · exact sane other

/-- A hold that was just taken has a holder. -/
theorem nextHold?_ne_shared_zero
    {exclusive : Bool}
    {before : Option Hold}
    {hold : Hold}
    (next : nextHold? exclusive before = some hold) :
    hold ≠ .shared 0 := by
  rintro rfl
  cases before with
  | none =>
      cases exclusive <;> cases next
  | some held =>
      cases held <;> cases exclusive <;> cases next

/-- Giving a lock keeps a table sane. -/
theorem Sane.lock?
    {table locked : LockTable}
    (sane : table.Sane)
    {id : Int}
    {exclusive : Bool}
    {guard : Guard}
    (given : table.lock? id exclusive = some (guard, locked)) :
    locked.Sane := by
  rw [lock?_eq_some_iff] at given
  obtain ⟨-, -, hold, next, rfl⟩ := given
  exact sane.put (nextHold?_ne_shared_zero next) id

/-- Letting a guard go keeps a table sane. -/
theorem Sane.release
    {table : LockTable}
    (sane : table.Sane)
    (guard : Guard) :
    (table.release guard).Sane := by
  unfold LockTable.release
  split
  · intro id
    rw [hold?_unlock]
    split
    · unfold lessHold?
      split <;> simp
    · exact sane id
  · exact sane

/-- A lock that was taken and let go leaves no trace in the answers. -/
theorem Same.release
    {table locked left : LockTable}
    (sane : table.Sane)
    {id : Int}
    {exclusive : Bool}
    {guard : Guard}
    (given : table.lock? id exclusive = some (guard, locked))
    (same : locked.Same left) :
    table.Same (left.release guard) := by
  rw [lock?_eq_some_iff] at given
  obtain ⟨-, rfl, hold, next, rfl⟩ := given
  have current : left.generation = table.generation := same.generation
  have held : left.hold? id = some hold := by
    rw [same.hold?, hold?_put, if_pos rfl]
  rw [LockTable.release, if_pos current]
  refine ⟨?_, ?_, ?_⟩
  · rw [show (left.unlock id).paused = left.paused by unfold unlock; split <;> rfl]
    exact same.paused
  · rw [show (left.unlock id).generation = left.generation by unfold unlock; split <;> rfl]
    exact current
  · intro other
    rw [hold?_unlock, held, lessHold?_nextHold? (sane id) next]
    by_cases asked : other = id
    · rw [if_pos asked, asked]
    · rw [if_neg asked, same.hold?, hold?_put, if_neg asked]

/-- Letting a guard go is a matter of the answers. -/
theorem Same.released
    {first second : LockTable}
    (same : first.Same second)
    (guard : Guard) :
    (first.release guard).Same (second.release guard) := by
  have unlocked (table : LockTable) (id : Int) :
      (table.unlock id).paused = table.paused ∧
        (table.unlock id).generation = table.generation := by
    unfold unlock
    split <;> exact ⟨rfl, rfl⟩
  unfold LockTable.release
  rw [same.generation]
  split
  · refine ⟨?_, ?_, fun other => ?_⟩
    · rw [(unlocked second _).1, (unlocked first _).1, same.paused]
    · rw [(unlocked second _).2, (unlocked first _).2, same.generation]
    · rw [hold?_unlock, hold?_unlock, same.hold?, same.hold?]
  · exact same

/-- Tables that answer alike give the same locks. -/
theorem Same.lock?
    {first second locked : LockTable}
    (same : first.Same second)
    {id : Int}
    {exclusive : Bool}
    {guard : Guard}
    (given : second.lock? id exclusive = some (guard, locked)) :
    ∃ before, first.lock? id exclusive = some (guard, before) ∧ before.Same locked := by
  rw [lock?_eq_some_iff] at given
  obtain ⟨running, rfl, hold, next, rfl⟩ := given
  rw [same.hold?] at next
  refine ⟨first.put id hold, lock?_eq_some_iff.mpr ⟨?_, ?_, hold, next, rfl⟩,
    ⟨same.paused, same.generation, fun other => ?_⟩⟩
  · rw [← same.paused]
    exact running
  · rw [same.generation]
  · rw [hold?_put, hold?_put, same.hold?]

/-- A table is idle when it holds no id. -/
theorem isIdle_iff
    (table : LockTable) :
    table.isIdle = true ↔ ∀ id, table.hold? id = none := by
  unfold isIdle LockTable.hold?
  cases table.holds with
  | nil =>
      simp
  | cons first rest =>
      simp only [List.isEmpty_cons, Bool.false_eq_true, false_iff, not_forall]
      exact ⟨first.1, by simp⟩

end VersionStore.LockTable
