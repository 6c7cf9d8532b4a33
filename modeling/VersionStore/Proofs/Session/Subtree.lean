import VersionStore.Proofs.Session.Tree
import VersionStore.Proofs.Tree.Subtree

namespace VersionStore

/-!
# Directories that are moved in a session

Whatever happened in a session before, a directory that is moved takes its subtree along, be it
inside a scope that is open or in one of its own. What cannot be moved is refused, and a refusal
changes nothing.
-/

open VersionStore.Action

/-- What comes of moving an entry in a store: it is moved, a directory with its subtree, or it is
refused and nothing changes. -/
structure Store.Relocates
    (store : Store)
    (targetText sourceText : String)
    (time : Int)
    (run : Except Fault Entry × Store) :
    Prop where
  moved :
    ∀ moved,
      run.1 = .ok moved →
      Txn.Relocates store.tables targetText sourceText time moved run.2.tables
  undone : ∀ fault, run.1 = .error fault → run.2.tables = store.tables
  refused :
    ∀ source target,
      CleanPath.ofText sourceText = .ok source →
      CleanPath.ofText targetText = .ok target →
      store.tables.Unmovable source target →
      ∃ fault, run.1 = .error fault ∧ run.2.tables = store.tables

/-- What succeeds by moving an entry and changes nothing else is refused where an entry cannot be
moved. -/
theorem Store.Relocates.of_outcome
    {store : Store}
    {targetText sourceText : String}
    {time : Int}
    {run : Except Fault Entry × Store}
    (moved :
      ∀ moved,
        run.1 = .ok moved →
        Txn.Relocates store.tables targetText sourceText time moved run.2.tables)
    (undone : ∀ fault, run.1 = .error fault → run.2.tables = store.tables) :
    store.Relocates targetText sourceText time run where
  moved := moved
  undone := undone
  refused source target isSource isTarget unmovable := by
    cases outcome : run.1 with
    | error fault =>
        exact ⟨fault, rfl, undone fault outcome⟩
    | ok result =>
        obtain ⟨first, second, entry, isFirst, isSecond, -, movable, -⟩ := moved result outcome
        rw [isSource] at isFirst
        rw [isTarget] at isSecond
        cases isFirst
        cases isSecond
        exact (movable unmovable).elim

namespace Session

variable {session : Session}

/-- Whatever happened in a session on a new store, moving a directory moves its subtree. -/
theorem relocates_of_reachable
    {config : Config}
    (named : ∀ root ∈ config.roots, IsName root)
    (distinct : config.roots.Nodup)
    {timed : Bool}
    {since : Int}
    (reachable : Reachable (fun _ _ _ => True) (start config timed since) session)
    (now : Int)
    (target source : String)
    (time? : Option Int) :
    (session.store.savepoints ≠ [] →
      session.store.Relocates target source (time?.getD now)
        ((Txn.moveTo now target source time?).runOn session.store)) ∧
      session.store.Relocates target source (time?.getD now)
        ((Store.moveTo now target source time?).runOn session.store) := by
  have sound : session.Sound False :=
    Sound.of_reachable (.start named distinct timed since) (fun absurd => absurd.elim) reachable
  have works :=
    @Txn.moveTo_relocates (session.store.setting fun _ => False) _ _ now target source time? _
      sound.all.tables
  refine ⟨fun opened => ?_, ?_⟩
  · obtain ⟨-, ended⟩ := works session.store (sound.steady.inScope opened .idle) rfl
    refine .of_outcome (fun moved isMoved => ?_) fun fault isFault => ?_
    · rw [isMoved] at ended
      exact ended
    · rw [isFault] at ended
      exact ended
  · have leaves := leaves_writing sound.steady (works.leaves sound.steady .idle rfl)
    exact .of_outcome (fun moved isMoved => (leaves.done moved isMoved).2.2)
      fun fault isFault => (leaves.undone fault isFault).1

/-- A directory is moved, and a version in the trash of a directory in it is listed behind the new
path. -/
theorem relocates_trash :
    let session :=
      ((start {} false 0).after 1 (.whole (.write "home/a/b/f" ⟨#[1]⟩ none none))).after 2
        (.whole (.delete "home/a/b/f"))
    ∃ moved left,
      (Store.moveTo 3 "home/z" "home/a" none).runOn session.store = (.ok moved, left) ∧
        left.tables.lookupAt? ⟨[⟨"home", by decide⟩, ⟨"a", by decide⟩]⟩ = none ∧
          left.tables.lookupAt? ⟨[⟨"home", by decide⟩, ⟨"z", by decide⟩]⟩ = some moved ∧
            ∃ version ∈ session.store.tables.entries,
              version.isDeleted = true ∧
                ∃ rest,
                  left.tables.Lists
                    (CleanPath.joinNames (⟨"home", by decide⟩ :: ⟨"z", by decide⟩ :: rest))
                    version := by
  intro session
  have written :
      Step (fun _ _ _ => True) (start {} false 0)
        ((start {} false 0).after 1 (.whole (.write "home/a/b/f" ⟨#[1]⟩ none none))) :=
    .event trivial trivial
  have reachable : Reachable (fun _ _ _ => True) (start {} false 0) session :=
    (Relation.ReflTransGen.single written).tail (.event trivial trivial)
  have succeeds : ((Store.moveTo 3 "home/z" "home/a" none).runOn session.store).1.isOk = true := by
    decide +kernel
  have relocates :=
    (relocates_of_reachable (by decide) (by decide) reachable 3 "home/z" "home/a" none).2
  rcases ran : (Store.moveTo 3 "home/z" "home/a" none).runOn session.store with ⟨_ | moved, left⟩
  · rw [ran] at succeeds
    cases succeeds
  rw [ran] at relocates
  obtain ⟨source, target, entry, isSource, isTarget, found, -, isMoved⟩ := relocates.moved moved rfl
  have sourceIs : CleanPath.ofText "home/a" = .ok ⟨[⟨"home", by decide⟩, ⟨"a", by decide⟩]⟩ := by
    decide
  have targetIs : CleanPath.ofText "home/z" = .ok ⟨[⟨"home", by decide⟩, ⟨"z", by decide⟩]⟩ := by
    decide
  cases sourceIs.symm.trans isSource
  cases targetIs.symm.trans isTarget
  have isFive :
      (session.store.tables.lookupAt? ⟨[⟨"home", by decide⟩, ⟨"a", by decide⟩]⟩).all
        (fun entry => entry.id == 5 && entry.isDirectory) = true := by
    decide +kernel
  rw [found, Option.all_some, Bool.and_eq_true, beq_iff_eq] at isFive
  have subtree := isMoved isFive.2
  have holds :
      session.store.tables.entries.any (fun row => row.id == 6 && row.directoryId == 5) = true := by
    decide +kernel
  have trashed :
      session.store.tables.entries.any (fun row =>
        row.directoryId == 6 && Tables.isTrashedFile row) = true := by
    decide +kernel
  obtain ⟨inner, innerMember, isInner⟩ := List.any_eq_true.mp holds
  obtain ⟨version, member, isVersion⟩ := List.any_eq_true.mp trashed
  simp only [Bool.and_eq_true, beq_iff_eq] at isInner isVersion
  have below : session.store.tables.Below entry.id version.directoryId := by
    rw [isFive.1, isVersion.1, ← isInner.1]
    exact .step innerMember (by rw [isInner.1]; decide) (isInner.2 ▸ .self)
  obtain ⟨rest, -, lists⟩ := subtree.listed version member isVersion.2 below
  have deleted := isVersion.2
  rw [Tables.isTrashedFile, Bool.and_eq_true] at deleted
  exact ⟨moved, left, rfl, subtree.left [], subtree.arrived, version, member, deleted.1, rest, lists⟩

end Session

end VersionStore
