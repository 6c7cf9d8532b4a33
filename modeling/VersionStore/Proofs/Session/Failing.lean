import VersionStore.Proofs.Content.Failing
import VersionStore.Proofs.Content.Lasting
import VersionStore.Proofs.Session.Enduring

namespace VersionStore

/-!
# Failing calls of a session

A call that fails in a transaction gives its fault to whoever runs the transaction, who may
go on and keep what was done so far. A call of whatever kind leaves nothing half done then,
unless it was its source that failed.
-/

open Tables VersionStore.Action

namespace Session

variable {session : Session}

/-- In a transaction that is open in a session on a new store, a call that fails leaves all
tables as they were, unless the fault cut it off. In a scope of its own it leaves them so
whatever the fault. -/
theorem spared_of_reachable
    {config : Config}
    (named : ∀ root ∈ config.roots, IsName root)
    (distinct : config.roots.Nodup)
    {timed : Bool}
    {since : Int}
    (reachable : Reachable (fun _ _ _ => True) (start config timed since) session)
    (opened : session.store.savepoints ≠ [])
    (now : Int)
    (call : Call)
    (fault : Fault) :
    (((call.inside now).runOn session.store).1 = .error fault →
      ¬call.CutBy fault →
      ((call.inside now).runOn session.store).2.tables = session.store.tables) ∧
      (((transaction (call.inside now)).runOn session.store).1 = .error fault →
        ((transaction (call.inside now)).runOn session.store).2.tables = session.store.tables) := by
  have sound : session.Sound False :=
    Sound.of_reachable (.start named distinct timed since) (fun absurd => absurd.elim) reachable
  have inScope : session.store.InScope (session.store.setting fun _ => False) :=
    sound.steady.inScope opened .idle
  constructor
  · intro fails whole
    obtain ⟨-, ended⟩ := call.inside_spares now sound.all.tables session.store inScope rfl
    rw [fails] at ended
    exact ended.resolve_right whole
  · intro fails
    -- What the call leaves in its scope does not matter, only that it is inside a scope.
    have works :
        Works (session.store.setting fun _ => False) (· = session.store.tables) (call.inside now)
          (fun _ _ => True) fun _ _ => True :=
      (call.inside_spares now sound.all.tables).loosely
    have undone :
        Works (session.store.setting fun _ => False) (· = session.store.tables)
          (transaction (call.inside now)) (fun _ _ => True)
          fun _ tables => tables = session.store.tables :=
      works.transaction fun _ _ _ same _ => same
    obtain ⟨-, ended⟩ := undone session.store inScope rfl
    rw [fails] at ended
    exact ended

/-- A file is in the way to a new directory, and nothing is changed. -/
theorem spared_makeDirectories :
    let session :=
      ((start {} false 0).after 1 (.whole (.write "home/a" ⟨#[1]⟩ none none))).after 2 .begin
    (((Call.makeDirectories "home/a/b").inside 3).runOn session.store).1 =
        .error (.invalidDestination "home/a") ∧
      (((Call.makeDirectories "home/a/b").inside 3).runOn session.store).2.tables =
        session.store.tables := by
  intro session
  have written :
      Step (fun _ _ _ => True) (start {} false 0)
        ((start {} false 0).after 1 (.whole (.write "home/a" ⟨#[1]⟩ none none))) :=
    .event trivial trivial
  have reachable : Reachable (fun _ _ _ => True) (start {} false 0) session :=
    (Relation.ReflTransGen.single written).tail (.event trivial trivial)
  have opened : session.store.savepoints.isEmpty = false := by
    decide +kernel
  have fails :
      (((Call.makeDirectories "home/a/b").inside 3).runOn session.store).1 =
        .error (.invalidDestination "home/a") := by
    decide +kernel
  obtain ⟨spared, -⟩ :=
    spared_of_reachable (by decide) (by decide) reachable (by simpa using opened) 3
      (.makeDirectories "home/a/b") (.invalidDestination "home/a")
  exact ⟨fails, spared fails id⟩

/-- A source fails after a byte, and the file that was to be replaced is gone. -/
theorem not_spared_writeFrom :
    let session :=
      ((start {} false 0).after 1 (.whole (.write "home/a" ⟨#[1, 2]⟩ none none))).after 2 .begin
    let source : Source := ⟨[.bytes ⟨#[3]⟩], some ⟨.other, "reader failed", []⟩⟩
    let left := ((Call.writeFrom "home/a" source none none).inside 3).runOn session.store
    Reachable (fun _ _ _ => True) (start {} false 0) session ∧
      session.store.savepoints ≠ [] ∧
        left.1 = .error (.io ⟨.other, "reader failed", []⟩) ∧
          left.2.tables ≠ session.store.tables := by
  intro session source left
  have written :
      Step (fun _ _ _ => True) (start {} false 0)
        ((start {} false 0).after 1 (.whole (.write "home/a" ⟨#[1, 2]⟩ none none))) :=
    .event trivial trivial
  have reachable : Reachable (fun _ _ _ => True) (start {} false 0) session :=
    (Relation.ReflTransGen.single written).tail (.event trivial trivial)
  have opened : session.store.savepoints.isEmpty = false := by
    decide +kernel
  have changed :
      left.2.tables.entries.length = 6 ∧ session.store.tables.entries.length = 5 := by
    decide +kernel
  refine ⟨reachable, by simpa using opened, by decide +kernel, fun same => ?_⟩
  rw [same] at changed
  exact absurd (changed.1.symm.trans changed.2) (by decide)

end Session

end VersionStore
