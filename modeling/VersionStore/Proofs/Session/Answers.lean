import VersionStore.Proofs.Content.Retiring
import VersionStore.Proofs.Session.LiveTree
import VersionStore.Proofs.Stream.Cursor

namespace VersionStore

/-!
# Answers about the live tree

Entries, listings and bytes are asked for by path. What is answered comes from the live entries
and from the parts of the files among them. A store therefore answers what it answered as long as
its live tree stays and its locks do.
-/

open VersionStore.Action Tables

/-- The live tree is what it was, and all that was there is there, with its parts and links. -/
structure Tables.SameTree (before after : Tables) : Prop where
  found : ∀ path, after.lookupAt? path = before.lookupAt? path
  listed : ∀ id, after.listing id = before.listing id
  stays : ∀ entry ∈ before.entries, entry ∈ after.entries ∧ Untouched entry.id before after

/-- Where nothing changes the tree stays. -/
theorem Tables.SameTree.refl
    (tables : Tables) :
    tables.SameTree tables :=
  ⟨fun _ => rfl, fun _ => rfl, fun entry member => ⟨member, .refl entry.id tables⟩⟩

namespace Store

/-- What one store answers about the live tree another one answers, down to refusals: the entry at
a path, what a directory lists, and the bytes of a file, whatever takes them in. -/
structure AnswersAlike (store left : Store) : Prop where
  stat : ∀ text, ((Store.stat text).runOn left).1 = ((Store.stat text).runOn store).1
  list : ∀ text, ((Store.list text).runOn left).1 = ((Store.list text).runOn store).1
  copyOut :
    ∀ {σ : Type} (text : String) (put : σ → ByteArray → Except IoFault σ) (start : σ),
      ((Store.copyOut text put start).runOn left).1 =
        ((Store.copyOut text put start).runOn store).1

variable {store left : Store}

/-- Two stores that give the same locks answer alike under a lock when they do once it is taken. -/
theorem locked_alike
    (same : store.locks.Same left.locks)
    {entry : Entry}
    {exclusive : Bool}
    {action : Action α}
    (inside :
      ∀ taken other,
        (action.runOn { left with locks := other }).1 =
          (action.runOn { store with locks := taken }).1) :
    ((locked entry exclusive action).runOn left).1 =
      ((locked entry exclusive action).runOn store).1 := by
  have given := congrFun (congrFun same.gives entry.id) exclusive
  unfold LockTable.gives at given
  rw [runOn_locked, runOn_locked]
  cases taken : store.locks.lock? entry.id exclusive with
  | none =>
      rw [taken, Option.isSome_none, Option.isSome_eq_false_iff, Option.isNone_iff_eq_none] at given
      rw [given]
  | some pair =>
      rw [taken, Option.isSome_some, Option.isSome_iff_exists] at given
      obtain ⟨other, isTaken⟩ := given
      rw [isTaken]
      exact inside pair.2 other.2

section Behind

variable
  (steady : store.Steady)
  (steadyLeft : left.Steady)
  (savepoints : left.savepoints = store.savepoints)
  (closed : left.closed = store.closed)

include steady steadyLeft savepoints closed

/-- Behind a clean path and the gate two stores answer alike when they do once they are inside. -/
theorem reading_alike
    {text : String}
    {ask : CleanPath → Action α}
    (inside :
      ∀ path,
        store.savepoints = [] →
        ((ask path).runOn { left with entered := true, connected := true }).1 =
          ((ask path).runOn { store with entered := true, connected := true }).1) :
    ((Txn.clean text >>= fun path => reading (ask path)).runOn left).1 =
      ((Txn.clean text >>= fun path => reading (ask path)).runOn store).1 := by
  have gate : left.entered = store.entered := by
    rw [steadyLeft.gate, steady.gate, savepoints]
  rw [runOn_bind, runOn_bind, Txn.clean, runOn_ofExcept, runOn_ofExcept]
  cases CleanPath.ofText text with
  | error fault =>
      rfl
  | ok path =>
      dsimp only
      rw [reading, runOn_bind, runOn_bind, runOn_enter steadyLeft.toAlone,
        runOn_enter steady.toAlone]
      by_cases entered : store.entered = true
      · rw [if_pos (gate.trans entered), if_pos entered]
      rw [if_neg (gate ▸ entered), if_neg entered]
      by_cases isClosed : store.closed = true
      · rw [if_pos (closed.trans isClosed), if_pos isClosed]
      rw [if_neg (closed ▸ isClosed), if_neg isClosed]
      dsimp only
      rw [runOn_leaveAfter, runOn_leaveAfter]
      exact inside path (steady.outside entered)

/-- While the live tree and the locks stay, so does what a store answers about it. -/
theorem answersAlike_of_sameTree
    (locks : store.locks.Same left.locks)
    (ordered : store.tables.Ordered)
    (orderedLeft : left.tables.Ordered)
    (sameTree : store.tables.SameTree left.tables) :
    store.AnswersAlike left := by
  have alone {other : Store} (othersSteady : other.Steady) (taken : LockTable) :
      ({ other with entered := true, connected := true, locks := taken } : Store).Alone :=
    ⟨othersSteady.damage, othersSteady.writable, othersSteady.others⟩
  refine ⟨fun text => ?stat, fun text => ?list, fun text put start => ?copyOut⟩ <;>
    refine reading_alike steady steadyLeft savepoints closed fun path outside => ?_
  case stat =>
    rw [Session.runOn_entryAt? (alone steadyLeft _), Session.runOn_entryAt? (alone steady _)]
    exact congrArg Except.ok (sameTree.found path)
  case list =>
    rw [Session.runOn_listAt (alone steadyLeft _), Session.runOn_listAt (alone steady _)]
    dsimp only
    rw [sameTree.found]
    cases store.tables.lookupAt? path with
    | none =>
        rfl
    | some entry =>
        dsimp only
        rw [sameTree.listed]
  case copyOut =>
    rw [runOn_bind, runOn_bind, runOn_requireFile (alone steadyLeft _) (savepoints.trans outside),
      runOn_requireFile (alone steady _) outside]
    dsimp only
    rw [sameTree.found]
    cases found : store.tables.lookupAt? path with
    | none =>
        rfl
    | some entry =>
        dsimp only
        cases entry.isDirectory with
        | true =>
            rfl
        | false =>
            have contents : left.tables.contents entry.id = store.tables.contents entry.id :=
              orderedLeft.contents_congr ordered
                (sameTree.stays entry (mem_of_lookup? found).1).2.pieces
            simp only [Bool.false_eq_true, if_false]
            have same :
                ({ store with entered := true, connected := true } : Store).locks.Same
                  ({ left with entered := true, connected := true } : Store).locks :=
              locks
            refine locked_alike same fun taken other => ?_
            rw [runOn_bind, runOn_bind, runOn_query (alone steadyLeft other),
              runOn_query (alone steady taken)]
            dsimp only
            rw [contents]
            cases putAll put start (store.tables.contents entry.id) <;> rfl

end Behind

end Store

end VersionStore
