import Mathlib.Data.Finset.Card
import Mathlib.Data.List.Nodup
import VersionStore.Proofs.Action.Locks

namespace VersionStore

/-!
# Counting guards

What a lock table says about an id is a count of the guards that are out for it. A guard
counts from when it is taken until it is let go, or until the table is cleared: a guard
from before a clearing can be let go at any later time, but then nothing is counted down,
whoever holds the id by then.
-/

/-! ## Counting holders -/

/-- The numbers of writers and of readers that a hold stands for. -/
def tally : Option Hold → Nat × Nat
  | none => (0, 0)
  | some (.shared readers) => (0, readers)
  | some .exclusive => (1, 0)

namespace LockTable

variable {table locked : LockTable} {id : Int} {guard : Guard}

/-- A lock for writing is one more writer, where there was nobody. -/
theorem tally_lock?_exclusive
    (given : table.lock? id true = some (guard, locked))
    (other : Int) :
    tally (table.hold? id) = (0, 0) ∧
      tally (locked.hold? other) = if other = id then (1, 0) else tally (table.hold? other) := by
  have free := hold?_of_lock?_exclusive given
  rw [lock?_eq_some_iff] at given
  obtain ⟨-, -, hold, next, rfl⟩ := given
  rw [free] at next
  cases next
  refine ⟨by rw [free]; rfl, ?_⟩
  rw [hold?_put]
  split <;> rfl

/-- A lock for reading is one more reader, where there was no writer. -/
theorem tally_lock?_shared
    (given : table.lock? id false = some (guard, locked))
    (other : Int) :
    (tally (table.hold? id)).1 = 0 ∧
      tally (locked.hold? other) =
        if other = id then (0, (tally (table.hold? id)).2 + 1) else tally (table.hold? other) := by
  rw [lock?_eq_some_iff] at given
  obtain ⟨-, -, hold, next, rfl⟩ := given
  rw [hold?_put]
  cases held : table.hold? id with
  | none =>
      rw [held] at next
      cases next
      exact ⟨rfl, by split <;> rfl⟩
  | some before =>
      rw [held] at next
      cases before with
      | exclusive =>
          cases next
      | shared readers =>
          cases next
          exact ⟨rfl, by split <;> rfl⟩

/-- A guard that is given belongs to the table that gave it. -/
theorem guard_of_lock?
    {exclusive : Bool}
    (given : table.lock? id exclusive = some (guard, locked)) :
    guard = ⟨id, table.generation⟩ ∧ locked.generation = table.generation := by
  rw [lock?_eq_some_iff] at given
  obtain ⟨-, isGuard, hold, -, rfl⟩ := given
  exact ⟨isGuard, rfl⟩

/-- Letting a guard go is no clearing. -/
theorem generation_release
    (table : LockTable)
    (guard : Guard) :
    (table.release guard).generation = table.generation := by
  unfold release unlock
  repeat' split
  all_goals rfl

/-- Letting a writer go leaves nobody. -/
theorem tally_release_writer
    (guard : Guard)
    (id : Int)
    (writing : guard = ⟨id, table.generation⟩ → 0 < (tally (table.hold? id)).1) :
    tally ((table.release guard).hold? id) =
      if guard = ⟨id, table.generation⟩ then (0, 0) else tally (table.hold? id) := by
  unfold release
  split
  · rename_i current
    rw [hold?_unlock]
    by_cases asked : id = guard.id
    · have isGuard : guard = ⟨id, table.generation⟩ := by
        rw [asked, current]
      rw [if_pos asked, if_pos isGuard, ← asked]
      rcases held : table.hold? id with _ | (readers | _)
      · rfl
      · have absurd := writing isGuard
        rw [held] at absurd
        cases absurd
      · rfl
    · rw [if_neg asked, if_neg fun same => asked (congrArg Guard.id same).symm]
  · rename_i older
    rw [if_neg fun same => older (congrArg Guard.generation same).symm]

/-- Letting a reader go leaves one reader less. -/
theorem tally_release_reader
    (guard : Guard)
    (id : Int)
    (reading : guard = ⟨id, table.generation⟩ → 0 < (tally (table.hold? id)).2) :
    tally ((table.release guard).hold? id) =
      ((tally (table.hold? id)).1,
        (tally (table.hold? id)).2 - if guard = ⟨id, table.generation⟩ then 1 else 0) := by
  unfold release
  split
  · rename_i current
    rw [hold?_unlock]
    by_cases asked : id = guard.id
    · have isGuard : guard = ⟨id, table.generation⟩ := by
        rw [asked, current]
      rw [if_pos asked, if_pos isGuard, ← asked]
      have some_ := reading isGuard
      rcases held : table.hold? id with _ | (readers | _)
      · rfl
      · rcases readers with _ | _ | readers
        · rw [held] at some_
          cases some_
        · rfl
        · rfl
      · rw [held] at some_
        cases some_
    · rw [if_neg asked, if_neg fun same => asked (congrArg Guard.id same).symm]
      rfl
  · rename_i older
    rw [if_neg fun same => older (congrArg Guard.generation same).symm]
    rfl

/-- There is one writer at most, and none besides readers. -/
theorem tally_apart
    (hold? : Option Hold) :
    (tally hold?).1 ≤ 1 ∧ (0 < (tally hold?).1 → (tally hold?).2 = 0) := by
  rcases hold? with _ | (readers | _) <;> simp [tally]

/-- The only holder for writing holds alone. -/
theorem tally_of_writer
    {hold? : Option Hold}
    (writing : 0 < (tally hold?).1) :
    tally hold? = (1, 0) := by
  rcases hold? with _ | (readers | _)
  · cases writing
  · cases writing
  · rfl

/-- Putting a hold leaves every id in the table once. -/
theorem nodup_put
    (distinct : (table.holds.map Prod.fst).Nodup)
    (id : Int)
    (hold : Hold) :
    ((table.put id hold).holds.map Prod.fst).Nodup := by
  refine List.nodup_cons.mpr ⟨?_, distinct.sublist (List.filter_sublist.map _)⟩
  simp

/-- Letting a guard go leaves every id in the table once. -/
theorem nodup_release
    (distinct : (table.holds.map Prod.fst).Nodup)
    (guard : Guard) :
    ((table.release guard).holds.map Prod.fst).Nodup := by
  unfold release unlock
  repeat' split
  · exact nodup_put distinct _ _
  · exact distinct.sublist (List.filter_sublist.map _)
  · exact distinct

/-- A lock is given when nobody writes, and when nobody reads either if it is to be
exclusive, unless the table is paused. -/
theorem isSome_lock?_iff
    (sane : table.Sane)
    {exclusive : Bool} :
    (table.lock? id exclusive).isSome ↔
      table.paused = false ∧ (tally (table.hold? id)).1 = 0 ∧
        (exclusive = true → (tally (table.hold? id)).2 = 0) := by
  unfold lock?
  cases table.paused with
  | true =>
      simp
  | false =>
      rcases held : table.hold? id with _ | (readers | _)
      · simp [nextHold?, tally]
      · have some_ : readers ≠ 0 := fun zero => sane id (zero ▸ held)
        cases exclusive <;> simp [nextHold?, tally, some_]
      · simp [nextHold?, tally]

end LockTable

/-! ## A table and its guards -/

/-- A guard that a table gave out. -/
structure Taken where
  guard : Guard
  exclusive : Bool
  /-- Whether the guard was let go. A guard does this once. -/
  released : Bool := false
  /-- Whether the table was cleared since. A guard knows nothing of this itself. -/
  cleared : Bool := false

namespace Taken

/-- Whether a guard counts: it was not let go, and the table was not cleared since. -/
def isLive (taken : Taken) : Bool :=
  !taken.released && !taken.cleared

/-- Whether a guard counts for an id, in one of the two ways. -/
def holds (id : Int) (exclusive : Bool) (taken : Taken) : Bool :=
  taken.isLive && taken.guard.id == id && taken.exclusive == exclusive

end Taken

/-- A lock table and all guards it ever gave out, in the order in which they were taken. -/
structure Locker where
  table : LockTable := {}
  taken : List Taken := []

namespace Locker

/-- What can be done with a lock table and its guards. -/
inductive Event where
  | lock (id : Int) (exclusive : Bool)
  | release (index : Nat)
  | drop (index : Nat)
  | pause
  | resume
  | clear

/-- Let a guard go, unless that was done before. -/
def releaseOnce (locker : Locker) (index : Nat) : Locker :=
  match locker.taken[index]? with
  | some taken =>
      if taken.released then
        locker
      else
        { table := locker.table.release taken.guard
          taken := locker.taken.set index { taken with released := true } }
  | none => locker

/-- Do one thing. A guard that is released is dropped right after. -/
def perform (locker : Locker) : Event → Locker
  | .lock id exclusive =>
      match locker.table.lock? id exclusive with
      | some (guard, table) => { table, taken := locker.taken ++ [{ guard, exclusive }] }
      | none => locker
  | .release index => (locker.releaseOnce index).releaseOnce index
  | .drop index => locker.releaseOnce index
  | .pause => { locker with table := locker.table.pause }
  | .resume => { locker with table := locker.table.resume }
  | .clear =>
      { table := locker.table.clear
        taken := locker.taken.map fun taken => { taken with cleared := true } }

/-- Do one thing after the other. -/
def run (locker : Locker) (events : List Event) : Locker :=
  events.foldl perform locker

/-- The number of guards that count for an id, in one of the two ways. -/
def live (locker : Locker) (id : Int) (exclusive : Bool) : Nat :=
  locker.taken.countP (Taken.holds id exclusive)

/-- The table of a locker says how many guards are held, and which of them it gave out
before it was cleared last. -/
structure Counted (locker : Locker) : Prop where
  generation :
    ∀ taken ∈ locker.taken,
      taken.guard.generation ≤ locker.table.generation ∧
        (taken.cleared = true ↔ taken.guard.generation ≠ locker.table.generation)
  sane : locker.table.Sane
  distinct : (locker.table.holds.map Prod.fst).Nodup
  tally : ∀ id, tally (locker.table.hold? id) = (locker.live id true, locker.live id false)

variable {locker : Locker} {index : Nat} {taken : Taken}

/-! ## What one step does to the count -/

/-- A guard that was just taken counts for its id. -/
theorem live_append
    (table : LockTable)
    (guard : Guard)
    (held : Bool)
    (id : Int)
    (exclusive : Bool) :
    live { table, taken := locker.taken ++ [{ guard, exclusive := held }] } id exclusive =
      locker.live id exclusive + if id = guard.id ∧ held = exclusive then 1 else 0 := by
  simp [live, List.countP_append, List.countP_singleton, Taken.holds, Taken.isLive,
    @eq_comm _ guard.id]

/-- No guard counts after a clearing. -/
theorem live_clear
    (id : Int)
    (exclusive : Bool) :
    (locker.perform .clear).live id exclusive = 0 := by
  simp [live, perform, Taken.holds, Taken.isLive]

/-- A guard that is let go counted if it is of the table's generation, and counts no more. -/
theorem Counted.live_set
    (counted : locker.Counted)
    (found : locker.taken[index]? = some taken)
    (unreleased : taken.released = false)
    (table : LockTable)
    (id : Int)
    (exclusive : Bool) :
    (taken.guard = ⟨id, locker.table.generation⟩ → 0 < locker.live id taken.exclusive) ∧
      live { table, taken := locker.taken.set index { taken with released := true } } id exclusive =
        locker.live id exclusive -
          if taken.guard = ⟨id, locker.table.generation⟩ ∧ taken.exclusive = exclusive then 1
          else 0 := by
  obtain ⟨inside, isTaken⟩ := List.getElem?_eq_some_iff.mp found
  obtain ⟨-, cleared⟩ := counted.generation taken (List.mem_of_getElem? found)
  have counts (held : Bool) :
      taken.holds id held = true ↔
        taken.guard = ⟨id, locker.table.generation⟩ ∧ taken.exclusive = held := by
    obtain ⟨⟨given, generation⟩, way, released, clearedSince⟩ := taken
    cases unreleased
    cases clearedSince <;> simp_all [Taken.holds, Taken.isLive]
  refine ⟨fun isGuard => ?_, ?_⟩
  · exact List.countP_pos_iff.mpr
      ⟨taken, List.mem_of_getElem? found, (counts taken.exclusive).mpr ⟨isGuard, rfl⟩⟩
  · unfold live
    rw [List.countP_set inside, isTaken]
    simp only [counts exclusive]
    simp [Taken.holds, Taken.isLive]

namespace Counted

/-! ## The count is kept -/

/-- A table that gave out nothing counts nothing. -/
theorem new :
    ({} : Locker).Counted where
  generation _ member := absurd member List.not_mem_nil
  sane _ := nofun
  distinct := List.nodup_nil
  tally _ := rfl

variable (counted : locker.Counted)

include counted

/-- Letting a guard go counts it down, if it is still counted. -/
theorem releaseOnce
    (index : Nat) :
    (locker.releaseOnce index).Counted := by
  unfold Locker.releaseOnce
  split
  case h_2 =>
    exact counted
  case h_1 taken found =>
  split
  case isTrue =>
    exact counted
  case isFalse unreleased =>
  have unreleased : taken.released = false :=
    Bool.eq_false_iff.mpr unreleased
  have generation := LockTable.generation_release locker.table taken.guard
  refine ⟨fun other member => ?_, counted.sane.release taken.guard, ?_, fun id => ?_⟩
  · rw [generation]
    rcases List.mem_or_eq_of_mem_set member with earlier | rfl
    · exact counted.generation other earlier
    · exact counted.generation taken (List.mem_of_getElem? found)
  · exact LockTable.nodup_release counted.distinct taken.guard
  · obtain ⟨counts, -⟩ := counted.live_set found unreleased locker.table id true
    have left (exclusive : Bool) :=
      (counted.live_set found unreleased (locker.table.release taken.guard) id exclusive).2
    have before := counted.tally id
    rw [left, left]
    cases way : taken.exclusive with
    | true =>
        rw [way] at counts
        rw [LockTable.tally_release_writer taken.guard id
          (fun isGuard => by rw [before]; exact counts isGuard)]
        by_cases isGuard : taken.guard = ⟨id, locker.table.generation⟩
        · have alone : VersionStore.tally (locker.table.hold? id) = (1, 0) :=
            LockTable.tally_of_writer (by rw [before]; exact counts isGuard)
          rw [before] at alone
          obtain ⟨writers, readers⟩ := Prod.mk.inj alone
          simp [isGuard, writers, readers]
        · simp [isGuard, before]
    | false =>
        rw [way] at counts
        rw [LockTable.tally_release_reader taken.guard id
          (fun isGuard => by rw [before]; exact counts isGuard), before]
        simp

/-- A lock that is given is one more guard to count. -/
theorem lock
    (id : Int)
    (exclusive : Bool) :
    (locker.perform (.lock id exclusive)).Counted := by
  simp only [perform]
  split
  case h_2 =>
    exact counted
  case h_1 guard table given =>
  obtain ⟨rfl, generation⟩ := LockTable.guard_of_lock? given
  refine ⟨fun other member => ?_, counted.sane.lock? given, ?_, fun other => ?_⟩
  · rw [generation]
    rcases List.mem_append.mp member with earlier | isNew
    · exact counted.generation other earlier
    · rw [List.mem_singleton.mp isNew]
      exact ⟨Nat.le_refl _, by simp⟩
  · obtain ⟨-, -, hold, -, rfl⟩ := LockTable.lock?_eq_some_iff.mp given
    exact LockTable.nodup_put counted.distinct id hold
  · have before := counted.tally id
    rw [live_append, live_append]
    cases exclusive with
    | true =>
        obtain ⟨free, next⟩ := LockTable.tally_lock?_exclusive given other
        rw [next]
        rw [free] at before
        obtain ⟨writers, readers⟩ := Prod.mk.inj before
        split
        · rename_i asked
          subst asked
          simp [← writers, ← readers]
        · rename_i asked
          simp [asked, counted.tally other]
    | false =>
        obtain ⟨free, next⟩ := LockTable.tally_lock?_shared given other
        rw [next]
        rw [before] at free ⊢
        split
        · rename_i asked
          subst asked
          simp only at free
          simp [free]
        · rename_i asked
          simp [asked, counted.tally other]

/-- Every step keeps the count. -/
theorem perform
    (event : Event) :
    (locker.perform event).Counted := by
  cases event with
  | lock id exclusive =>
      exact counted.lock id exclusive
  | release index =>
      exact (counted.releaseOnce index).releaseOnce index
  | drop index =>
      exact counted.releaseOnce index
  | pause =>
      exact ⟨counted.generation, counted.sane, counted.distinct, counted.tally⟩
  | resume =>
      exact ⟨counted.generation, counted.sane, counted.distinct, counted.tally⟩
  | clear =>
      refine ⟨fun other member => ?_, fun _ => nofun, List.nodup_nil, fun id => ?_⟩
      · obtain ⟨taken, earlier, rfl⟩ := List.mem_map.mp member
        obtain ⟨atMost, -⟩ := counted.generation taken earlier
        exact ⟨Nat.le_succ_of_le atMost, by
          simp only [true_iff]
          exact (Nat.lt_succ_of_le atMost).ne⟩
      · rw [live_clear, live_clear]
        rfl

/-- All steps together keep the count. -/
theorem run
    (events : List Event) :
    (locker.run events).Counted := by
  induction events generalizing locker with
  | nil =>
      exact counted
  | cons event rest inductionHypothesis =>
      exact inductionHypothesis (counted.perform event)

/-! ## What the count tells -/

end Counted

end Locker

end VersionStore
