import VersionStore.Proofs.Session.Tree
import VersionStore.Proofs.Tree.Garbage

namespace VersionStore

/-!
# Integrity of the directories

Every entry, live or in the trash, should lie in a directory that has a row, because what
does not is never listed, recovered or swept again. A session keeps its tables so unless
it deletes a directory for good that holds nothing but trash: the check that a directory
is empty minds live entries only.
-/

namespace Session

open VersionStore.Action

variable {session : Session}

/-- A call in a transaction that strands others leaves them without a directory. -/
theorem Sound.not_integral_of_inside
    (sound : session.Sound True)
    (opened : session.store.savepoints ≠ [])
    {now : Int}
    {call : Call}
    (strands : session.Strands now (.inside call)) :
    ¬(session.after now (.inside call)).store.tables.Integral := by
  obtain ⟨lost, strands, succeeds⟩ := strands
  have inScope : session.store.InScope (session.store.setting fun _ => False) :=
    sound.steady.inScope opened .idle
  obtain ⟨-, ended⟩ :=
    call.inside_strands _ now lost session.store.tables sound.all.tables.coherent strands
      session.store inScope rfl
  cases outcome : ((call.inside now).runOn session.store).1 with
  | ok value =>
      rw [outcome] at ended
      exact ended
  | error fault =>
      rw [outcome] at succeeds
      exact (Bool.false_ne_true succeeds).elim

/-- A call by itself that strands others leaves them without a directory. -/
theorem Sound.not_integral_of_whole
    (sound : session.Sound True)
    {now : Int}
    {call : Call}
    (strands : session.Strands now (.whole call)) :
    ¬(session.after now (.whole call)).store.tables.Integral := by
  obtain ⟨lost, strands, succeeds⟩ := strands
  have works :=
    call.inside_strands (session.store.setting fun _ => False) now lost
      session.store.tables sound.all.tables.coherent strands
  have leaves := leaves_writing sound.steady
    (works.leaves sound.steady .idle rfl)
  rw [← call.whole_of_strands strands] at leaves
  cases outcome : ((call.whole now).runOn session.store).1 with
  | ok value =>
      exact (leaves.done value outcome).2.2
  | error fault =>
      rw [outcome] at succeeds
      exact (Bool.false_ne_true succeeds).elim

/-- An event keeps the tables integral unless it strands others. -/
theorem Sound.integral_after_iff
    (sound : session.Sound True)
    {now : Int}
    {event : Event}
    (possible : session.Possible event) :
    (session.after now event).store.tables.Integral ↔ ¬session.Strands now event := by
  constructor
  · intro integral strands
    cases event with
    | inside call =>
        exact sound.not_integral_of_inside possible.1 strands integral
    | whole call =>
        exact sound.not_integral_of_whole strands integral
    | _ =>
        exact strands
  · intro fine
    exact (sound.after possible fun _ => fine).all.tables.integral trivial

/-- As long as no directory that holds nothing but trash is deleted for good, every entry of a
session on a new store lies in a directory with a row, and the whole trash is listed. The
first time such a directory is deleted this ends. -/
theorem integral_of_reachable
    {config : Config}
    (named : ∀ root ∈ config.roots, IsName root)
    (distinct : config.roots.Nodup)
    {timed : Bool}
    {since : Int}
    (reachable :
      Reachable (fun session now event => ¬session.Strands now event)
        (start config timed since) session) :
    (∀ tables ∈ session.store.tables :: session.store.kept :: session.store.savepoints,
      tables.Integral ∧
        ∀ entry ∈ tables.entries,
          entry.isDeleted = true →
          ∃ directory, ⟨directory, entry⟩ ∈ tables.trash) ∧
      ∀ now event,
        session.Possible event →
        ((session.after now event).store.tables.Integral ↔ ¬session.Strands now event) := by
  have sound : session.Sound True :=
    Sound.of_reachable (.start named distinct timed since) (fun _ _ _ _ _ fine => fine) reachable
  refine ⟨fun tables member => ?_, fun now event possible => sound.integral_after_iff possible⟩
  have isSound : tables.Sound True session.known := by
    rcases List.mem_cons.mp member with rfl | member
    · exact sound.all.tables
    · rcases List.mem_cons.mp member with rfl | member
      · exact sound.all.kept sound.steady
      · exact sound.all.saved tables member
  refine ⟨isSound.integral trivial, fun entry member deleted => ?_⟩
  exact Txn.exists_mem_trash isSound.coherent (isSound.integral trivial) member deleted

/-- A session in which a directory that holds nothing but a snapshot is deleted for good. -/
theorem strands_delete :
    let session :=
      ((start { keepHistory := false } false 0).after 1
        (.whole (.makeDirectories "home/d"))).after 2
          (.whole (.snapshot "home/d/f" (some (.ofBytes .empty)) none))
    session.store.tables.Integral ∧ session.Strands 3 (.whole (.delete "home/d")) := by
  intro session
  have made :
      Step (fun session now event => ¬session.Strands now event)
        (start { keepHistory := false } false 0)
        ((start { keepHistory := false } false 0).after 1 (.whole (.makeDirectories "home/d"))) :=
    .event trivial fun strands => strands.2.1
  have stored :
      Step (fun session now event => ¬session.Strands now event)
        ((start { keepHistory := false } false 0).after 1 (.whole (.makeDirectories "home/d")))
        session :=
    .event trivial fun strands => strands.2.1
  obtain ⟨integral, breaks⟩ :=
    integral_of_reachable (by decide) (by decide) (.tail (.single made) stored)
  have broken : ¬(session.after 3 (.whole (.delete "home/d"))).store.tables.Integral := by
    unfold Tables.Integral
    decide +kernel
  refine ⟨(integral _ (by simp)).1, ?_⟩
  by_contra fine
  exact broken ((breaks 3 (.whole (.delete "home/d")) trivial).mpr fine)

end Session

end VersionStore
