import VersionStore.Proofs.Action.Granting
import VersionStore.Proofs.Session.LiveTree
import VersionStore.Proofs.Session.Tree
import VersionStore.Proofs.Tree.Chain

namespace VersionStore

/-!
# Directories that are made in a session

Whatever happened in a session before, making the directories along a path makes exactly those that
are missing, be it in a scope that is open or in one of its own. Once it succeeded, doing it again
for the path or for one on the way to it does nothing.
-/

open VersionStore.Action Tables

namespace Txn

variable {setting : Setting} {strict : Prop} {known : List Entry} {before : Tables}

/-- Making the directories along a text is making those along its clean path. -/
theorem makeDirectories_chains
    (now : Int)
    (sound : before.Sound strict known)
    {text : String}
    {path : CleanPath}
    (isPath : CleanPath.ofText text = .ok path) :
    Works setting (· = before)
      (makeDirectories now text)
      (Chained strict known now before path.names)
      fun fault tables =>
        tables = before ∧
          ∃ above, before.Blocks path above ∧ fault = .invalidDestination above.text := by
  have cleaned : makeDirectories now text = makeDirectoriesAt now path := by
    rw [makeDirectories, clean, isPath]
    rfl
  rw [cleaned]
  exact makeDirectoriesAt_chains now sound path

end Txn

/-- What comes of making the directories along a path in a store, with the calls that make and look
up: those that are missing are made, or the first file in the way is named. -/
structure Store.Chains
    (store : Store)
    (make : Int → String → Action Int)
    (stat : String → Action (Option Entry))
    (now : Int)
    (path : CleanPath)
    (run : Except Fault Int × Store) :
    Prop where
  made :
    ∀ id,
      run.1 = .ok id →
      store.tables.Makes now path run.2.tables ∧ run.2.tables.trash = store.tables.trash
  /-- The id that is given is that of the directory at the path. -/
  given :
    ∀ id,
      run.1 = .ok id →
      ∃ entry, run.2.tables.lookupAt? path = some entry ∧ entry.id = id
  /-- Any text that leads there, or to a place on the way, leads to what is there now. -/
  again :
    ∀ id,
      run.1 = .ok id →
      ∀ later text above,
        CleanPath.ofText text = .ok above →
        above.names <+: path.names →
        ∃ entry,
          run.2.tables.lookupAt? above = some entry ∧
            ((stat text).runOn run.2).1 = .ok (some entry) ∧
              ((make later text).runOn run.2).1 = .ok entry.id ∧
                ((make later text).runOn run.2).2.tables = run.2.tables
  refused :
    ∀ fault,
      run.1 = .error fault →
      run.2.tables = store.tables ∧
        ∃ above, store.tables.Blocks path above ∧ fault = .invalidDestination above.text
  blocked :
    ∀ above,
      store.tables.Blocks path above →
      run.1 = .error (.invalidDestination above.text)

/-- Where every call ends with a chain of directories or an obstacle, so does one after the other. -/
theorem Store.Chains.of_runOn
    {strict : Prop}
    {known : List Entry}
    {make : Int → String → Action Int}
    {stat : String → Action (Option Entry)}
    (Fine : Store → Prop)
    (makes :
      ∀ {store text path} now,
        Fine store →
        store.tables.Sound strict known →
        CleanPath.ofText text = .ok path →
        Fine ((make now text).runOn store).2 ∧
          Ends (Txn.Chained strict known now store.tables path.names)
            (fun fault tables =>
              tables = store.tables ∧
                ∃ above, store.tables.Blocks path above ∧ fault = .invalidDestination above.text)
            ((make now text).runOn store).1 ((make now text).runOn store).2.tables)
    (answers :
      ∀ {store text path},
        Fine store →
        CleanPath.ofText text = .ok path →
        ((stat text).runOn store).1 = .ok (store.tables.lookupAt? path))
    {store : Store}
    (fine : Fine store)
    (sound : store.tables.Sound strict known)
    (now : Int)
    {text : String}
    {path : CleanPath}
    (isPath : CleanPath.ofText text = .ok path) :
    store.Chains make stat now path ((make now text).runOn store) := by
  obtain ⟨fineAfter, ended⟩ := makes now fine sound isPath
  rcases ran : (make now text).runOn store with ⟨fault | id, left⟩
  · rw [ran] at ended
    obtain ⟨unchanged, above, blocks, isFault⟩ := ended
    refine ⟨nofun, nofun, nofun, ?_, fun other blocksToo => ?_⟩
    · intro _ isRun
      cases isRun
      exact ⟨unchanged, above, blocks, isFault⟩
    · rw [blocksToo.unique blocks, isFault]
  · rw [ran] at ended fineAfter
    have chained : Txn.Chained strict known now store.tables path.names id left.tables := ended
    have coherent := chained.sound.coherent
    refine ⟨fun _ _ => ⟨chained.makes, chained.makes.trash_eq sound.coherent⟩, ?_, ?_, nofun, ?_⟩
    · intro _ isRun
      cases isRun
      obtain ⟨entry, here, same, -⟩ := chained.here
      exact ⟨entry, coherent.lookupAt?_eq_some_iff.mpr here, same⟩
    · intro _ _ later spelled above leads along
      have stands := chained.makes.stands.along along
      obtain ⟨entry, found, -⟩ := stands above List.prefix_rfl
      obtain ⟨-, endedAgain⟩ := makes later fineAfter chained.sound leads
      refine ⟨entry, found, (answers fineAfter leads).trans (congrArg _ found), ?_⟩
      rcases again : (make later spelled).runOn left with ⟨fault | other, after⟩
      · rw [again] at endedAgain
        obtain ⟨-, file, blocks, -⟩ := endedAgain
        exact (stands.not_blocks blocks).elim
      · rw [again] at endedAgain
        have chainedAgain :
            Txn.Chained strict known later left.tables above.names other after.tables :=
          endedAgain
        have unchanged := chainedAgain.eq_of_missing coherent stands.missing
        obtain ⟨reached, here, same, -⟩ := chainedAgain.here
        rw [unchanged] at here
        have isReached := coherent.at_unique here (coherent.lookupAt?_eq_some_iff.mp found)
        exact ⟨by rw [← same, isReached], unchanged⟩
    · intro above blocks
      exact (chained.makes.not_blocks sound.coherent coherent blocks).elim

namespace Session

variable {session : Session}

/-- Whatever happened in a session on a new store, making the directories along a path makes exactly
those that are missing, and nothing when a file is in the way. -/
theorem chains_of_reachable
    {config : Config}
    (named : ∀ root ∈ config.roots, IsName root)
    (distinct : config.roots.Nodup)
    {timed : Bool}
    {since : Int}
    (reachable : Reachable (fun _ _ _ => True) (start config timed since) session)
    (now : Int)
    {text : String}
    {path : CleanPath}
    (isPath : CleanPath.ofText text = .ok path) :
    (session.store.savepoints ≠ [] →
      session.store.Chains Txn.makeDirectories Txn.stat now path
        ((Txn.makeDirectories now text).runOn session.store)) ∧
      (session.store.savepoints = [] →
        session.store.closing = false →
        session.store.closed = false →
        session.store.Chains Store.makeDirectories Store.stat now path
          ((Store.makeDirectories now text).runOn session.store)) := by
  have sound : session.Sound False :=
    Sound.of_reachable (.start named distinct timed since) (fun absurd => absurd.elim) reachable
  refine ⟨fun opened => ?_, fun outside staying open_ => ?_⟩
  · refine .of_runOn (·.InScope (session.store.setting fun _ => False)) ?_ ?_
      (sound.steady.inScope opened .idle) sound.all.tables now isPath
    · intro store text path now inScope soundHere isPath
      obtain ⟨alike, ended⟩ :=
        Txn.makeDirectories_chains now soundHere isPath store inScope rfl
      exact ⟨alike.inScope inScope, ended⟩
    · intro store text path inScope isPath
      rw [Txn.stat, runOn_bind, Txn.clean, runOn_ofExcept, isPath]
      exact runOn_entryAt? inScope.toAlone path
  · refine .of_runOn (fun store => store.Idle ∧ store.closing = false) ?_ ?_
      ⟨⟨sound.steady, outside, open_⟩, staying⟩ sound.all.tables now isPath
    · intro store text path now fine soundHere isPath
      obtain ⟨idle, notClosing, ended⟩ :=
        Works.ends_writing fine.1 fine.2 .idle
          (Txn.makeDirectories_chains now soundHere isPath) rfl
      refine ⟨⟨idle, notClosing⟩, ?_⟩
      rw [Store.makeDirectories]
      cases outcome : ((writing (Txn.makeDirectories now text)).runOn store).1 with
      | ok id =>
          rw [outcome] at ended
          exact ended
      | error fault =>
          rw [outcome] at ended
          obtain ⟨unchanged, -, -, blocked⟩ := ended
          exact ⟨unchanged, blocked⟩
    · intro store text path fine isPath
      rw [Store.stat, runOn_bind, Txn.clean, runOn_ofExcept, isPath]
      exact runOn_reading_query fine.1.toSteady fine.1.outside fine.1.opened _ _

/-- A directory is made again where one was deleted, which stays in the trash under the same path. -/
theorem chains_deleted :
    let session :=
      ((start {} false 0).after 1 (.whole (.makeDirectories "home/d"))).after 2
        (.whole (.delete "home/d"))
    let path : CleanPath := ⟨[⟨"home", by decide⟩, ⟨"d", by decide⟩, ⟨"e", by decide⟩]⟩
    let run := (Store.makeDirectories 3 "/home//d/./e").runOn session.store
    session.store.tables.trash.map (·.path) = ["home/d"] ∧
      (session.store.tables.missing path).map (·.text) = ["home/d", "home/d/e"] ∧
        run.1 = .ok 7 ∧
          session.store.Chains Store.makeDirectories Store.stat 3 path run := by
  intro session path run
  have reachable : Reachable (fun _ _ _ => True) (start {} false 0) session :=
    (Relation.ReflTransGen.single (.event trivial trivial)).tail (.event trivial trivial)
  have free : session.store.savepoints.isEmpty = true ∧ session.store.closed = false ∧
      session.store.closing = false := by
    decide +kernel
  have isPath : CleanPath.ofText "/home//d/./e" = .ok path := by
    decide
  have trashed : session.store.tables.trash.map (·.path) = ["home/d"] := by
    decide +kernel
  have missing : (session.store.tables.missing path).map (·.text) = ["home/d", "home/d/e"] := by
    decide +kernel
  have given : run.1.toOption = some 7 := by
    decide +kernel
  exact ⟨trashed, missing, eq_ok_of_toOption given,
    (chains_of_reachable (by decide) (by decide) reachable 3 isPath).2
      (List.isEmpty_iff.mp free.1) free.2.2 free.2.1⟩

end Session

end VersionStore
