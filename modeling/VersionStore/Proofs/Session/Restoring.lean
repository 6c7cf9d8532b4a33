import VersionStore.Proofs.Content.Restoring
import VersionStore.Proofs.Session.Replacing
import VersionStore.Proofs.Session.WrittenFiles

namespace VersionStore

/-!
# Versions that are restored in a session

Whatever happened in a session before, on a store that is open entries are restored one after the
other, each as those before it left the tables, be it in a scope that is open or in one of their
own. No lock is in the way but those on files at the paths that entries are restored to.
-/

open VersionStore.Action Tables

/-- What comes of restoring entries in a store: they are handled in order, every one is counted,
and what was in the trash is there as it was. -/
structure Store.Recovers
    (store : Store)
    (now : Int)
    (target : CleanPath)
    (infos : List TrashEntry)
    (run : Except Fault (Nat × Nat) × Store) :
    Prop where
  restores :
    ∃ restored failed,
      run.1 = .ok (restored, failed) ∧
        restored + failed = infos.length ∧
          Txn.Restores store.config.keepHistory store.InUse now target (infos.length == 1)
            store.tables infos (restored, failed) run.2.tables
  trash :
    ∀ entry ∈ store.tables.entries,
      entry.isDeleted = true →
      entry ∈ run.2.tables.entries ∧ Untouched entry.id store.tables run.2.tables

/-- Entries that were restored are all counted, and leave the trash as it was. -/
theorem Store.Recovers.of_restores
    {store left : Store}
    {now : Int}
    {target : CleanPath}
    {infos : List TrashEntry}
    {counts : Nat × Nat}
    (restores :
      Txn.Restores store.config.keepHistory store.InUse now target (infos.length == 1)
        store.tables infos counts left.tables) :
    store.Recovers now target infos (.ok counts, left) where
  restores := ⟨counts.1, counts.2, rfl, restores.count, restores⟩
  trash _ member isDeleted := restores.trash_stays member isDeleted

namespace Session

variable
  {session : Session}
  {strict : Prop}
  {text : String}
  {target : CleanPath}
  {infos : List TrashEntry}

/-- An open store gives locks on files that no one has open, and on versions in the trash. -/
theorem lends
    (modest : session.Modest)
    (writes : session.WritesFiles)
    (staying : session.store.closing = false) :
    session.store.tables.Lends session.store.locks.gives session.store.InUse := by
  have running : session.store.locks.paused = false :=
    Bool.eq_false_iff.mpr fun paused =>
      Bool.false_ne_true (staying.symm.trans (modest.heeds paused))
  refine ⟨fun id => ?_, fun version member isDeleted => ?_, fun id => LockTable.gives_shared⟩
  · rw [LockTable.gives_exclusive_iff running, Store.InUse, not_not]
  · exact (LockTable.gives_shared_iff running version.id).mpr
      (writes.hold?_trashed member isDeleted)

/-- In a scope of an open store entries are restored. -/
theorem recovers_inside
    (sound : session.Sound strict)
    (modest : session.Modest)
    (writes : session.WritesFiles)
    (staying : session.store.closing = false)
    (opened : session.store.savepoints ≠ [])
    (now : Int)
    (isPath : CleanPath.ofText text = .ok target)
    (called : ∀ info ∈ infos, IsName info.entry.name) :
    session.store.Recovers now target infos
      ((Txn.recover now text infos).runOn session.store) := by
  have decides :=
    @Txn.recover_restores (session.store.setting (fun _ => False) session.store.InUse)
      session.store.locks.gives strict _ _ _ _ now text isPath called sound.all.tables
      (modest.numbered sound) (lends modest writes staying)
  obtain ⟨-, ended⟩ :=
    decides session.store (sound.steady.inScope opened session.store.fits_inUse) rfl rfl
  rcases ran : (Txn.recover now text infos).runOn session.store with ⟨fault | counts, left⟩
  · rw [ran] at ended
    exact absurd trivial ended
  · rw [ran] at ended
    exact .of_restores ended.2

/-- On an open store entries are restored in a scope of their own. -/
theorem recovers_whole
    (sound : session.Sound strict)
    (modest : session.Modest)
    (writes : session.WritesFiles)
    (staying : session.store.closing = false)
    (outside : session.store.savepoints = [])
    (open_ : session.store.closed = false)
    (now : Int)
    (isPath : CleanPath.ofText text = .ok target)
    (called : ∀ info ∈ infos, IsName info.entry.name) :
    session.store.Recovers now target infos
      ((Store.recover now text infos).runOn session.store) := by
  have decides :=
    @Txn.recover_restores (session.store.setting (fun _ => False) session.store.InUse)
      session.store.locks.gives strict _ _ _ _ now text isPath called sound.all.tables
      (modest.numbered sound) (lends modest writes staying)
  have idle : session.store.Idle := ⟨sound.steady, outside, open_⟩
  obtain ⟨counts, left, ran, -, restores⟩ :=
    decides.runs_writing idle staying session.store.fits_inUse rfl
  rw [Store.recover, ran]
  exact .of_restores restores

/-- Whatever happened in a session on a new store, while the store is open entries with names are
restored to a path one after the other, be it in a scope that is open or in one of their own. -/
theorem recovers_of_reachable
    {config : Config}
    (named : ∀ root ∈ config.roots, IsName root)
    (distinct : config.roots.Nodup)
    {timed : Bool}
    {since : Int}
    (reachable : Reachable (fun _ _ _ => True) (start config timed since) session)
    (staying : session.store.closing = false)
    (now : Int)
    (isPath : CleanPath.ofText text = .ok target)
    (called : ∀ info ∈ infos, IsName info.entry.name) :
    (session.store.savepoints ≠ [] →
      session.store.Recovers now target infos
        ((Txn.recover now text infos).runOn session.store)) ∧
      (session.store.savepoints = [] →
        session.store.closed = false →
        session.store.Recovers now target infos
          ((Store.recover now text infos).runOn session.store)) := by
  obtain ⟨sound, modest⟩ := Modest.of_reachable named distinct reachable
  have writes := WritesFiles.of_reachable named distinct reachable
  exact ⟨fun opened => recovers_inside sound modest writes staying opened now isPath called,
    fun outside open_ =>
      recovers_whole sound modest writes staying outside open_ now isPath called⟩

/-- A deleted file is restored twice, and the second time it takes the place of the first. Nothing
comes of an id that was never given. -/
theorem recovers_twice :
    let session :=
      ((start {} false 0).after 1 (.whole (.write "home/a" ⟨#[1]⟩ none none))).after 2
        (.whole (.delete "home/a"))
    let infos : List TrashEntry :=
      [5, 5, 9].map fun id => ⟨"home", { (default : Entry) with id, name := "a" }⟩
    ∃ left version row,
      (Store.recover 3 "home" infos).runOn session.store = (.ok (2, 1), left) ∧
        session.store.tables.trashed? 5 = some version ∧
          version ∈ left.tables.entries ∧
            Untouched version.id session.store.tables left.tables ∧
              left.tables.trashed? 6 = some row ∧ row.lastDeleted = 3 := by
  intro session infos
  have reachable : Reachable (fun _ _ _ => True) (start {} false 0) session :=
    (Relation.ReflTransGen.single (.event trivial trivial)).tail (.event trivial trivial)
  have isPath : CleanPath.ofText "home" = .ok ⟨[⟨"home", by decide⟩]⟩ := by
    decide
  have free : session.store.savepoints.isEmpty = true ∧ session.store.closed = false ∧
      session.store.closing = false := by
    decide +kernel
  have recovers :=
    (recovers_of_reachable (by decide) (by decide) reachable free.2.2 3 isPath
      (show ∀ info ∈ infos, IsName info.entry.name by decide)).2
        (List.isEmpty_iff.mp free.1) free.2.1
  have counted :
      ((Store.recover 3 "home" infos).runOn session.store).1.toOption = some (2, 1) := by
    decide +kernel
  have replaced :
      (((Store.recover 3 "home" infos).runOn session.store).2.tables.trashed? 6).map
        (·.lastDeleted) = some 3 := by
    decide +kernel
  have stood : (session.store.tables.trashed? 5).isSome = true := by
    decide +kernel
  obtain ⟨version, isVersion⟩ := Option.isSome_iff_exists.mp stood
  obtain ⟨member, -, isDeleted⟩ := mem_of_trashed? isVersion
  rcases ran : (Store.recover 3 "home" infos).runOn session.store with ⟨fault | counts, left⟩
  · rw [ran] at counted
    cases counted
  rw [ran] at recovers counted replaced
  obtain ⟨row, isRow, deleted⟩ := Option.map_eq_some_iff.mp replaced
  obtain ⟨stays, untouched⟩ := recovers.trash version member isDeleted
  cases Option.some.inj counted
  exact ⟨left, version, row, rfl, isVersion, stays, untouched, isRow, deleted⟩

end Session

end VersionStore
