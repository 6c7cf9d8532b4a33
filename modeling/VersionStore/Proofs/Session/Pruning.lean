import VersionStore.Proofs.Session.Sweeping
import VersionStore.Proofs.Tree.Pruning
import VersionStore.Proofs.Tree.TrashDirectories

namespace VersionStore

/-!
# Pruning versions of a session

Where history was kept all along, entries of listings may be pruned at any time after they were
listed, also when what they stand for was moved or pruned since, or other entries stand for it too.
What an entry was listed with still tells a file from a directory, as ids are never given out twice.
-/

open Tables Txn VersionStore.Action

namespace Session

variable
  {session earlier : Session}
  {all : Bool}
  {infos : List TrashEntry}

/-! ## Entries that were shown -/

/-- A store showed an entry when it was asked about its trash outside of every transaction. -/
structure Showed (store : Store) (info : TrashEntry) : Prop where
  outside : store.savepoints = []
  listed :
    ∃ listing,
      info ∈ listing ∧
        ((∃ root directory name directories count,
            ((Store.history root directory name directories count).runOn store).1 = .ok listing) ∨
          ∃ root directory name count select,
            ((Store.searchHistory root directory name count select).runOn store).1 = .ok listing)

/-- An event leaves it to the session to remember entries. -/
theorem known_perform
    (now : Int)
    (event : Event) :
    (session.perform now event).known = session.known := by
  cases event with
  | openWriter text append =>
      rw [perform, holdWriter]
      split <;> rfl
  | openReader text =>
      rw [perform, holdReader]
      split <;> rfl
  | openReaderOf entry =>
      rw [perform, holdReader]
      split <;> rfl
  | useWriter index use =>
      rw [perform, onWriter]
      split <;> rfl
  | useReader index use =>
      rw [perform, onReader]
      split <;> rfl
  | _ =>
      rfl

/-- A session does not forget entries. -/
theorem known_subset_of_reachable
    {allowed : Session → Int → Event → Prop}
    (reachable : Reachable allowed earlier session) :
    earlier.known ⊆ session.known := by
  induction reachable with
  | refl =>
      exact List.Subset.refl _
  | tail _ step inductionHypothesis =>
      obtain ⟨-, -⟩ := step
      refine List.Subset.trans inductionHypothesis ?_
      rw [after, remembering, known_perform]
      exact List.subset_append_right _ _

/-- What a session showed it knows. -/
theorem Sound.knows_showed
    {strict : Prop}
    (sound : session.Sound strict)
    {info : TrashEntry}
    (showed : Showed session.store info) :
    info.entry ∈ session.known := by
  obtain ⟨outside, listing, member, answered⟩ := showed
  have coherent := sound.all.tables.coherent
  refine sound.remembered ?_
  rw [← sound.steady.tables_eq_kept outside]
  rcases answered with
    ⟨root, directory, name, directories, count, answered⟩ |
      ⟨root, directory, name, count, select, answered⟩
  · rw [eq_of_runOn_reading_query answered] at member
    exact mem_entries_of_history coherent member
  · rw [eq_of_runOn_reading_query answered] at member
    exact mem_entries_of_searchHistory coherent member

/-! ## Pruning -/

/-- Pruning a store removes exactly the files that entries name, and there is nothing left to do for
the same entries then. -/
structure Prunes (all : Bool) (infos : List TrashEntry) (prune : Action (Nat × Nat))
    (store : Store) : Prop where
  exact :
    ∃ named counts,
      (prune.runOn store).1 = .ok counts ∧
        PrunedTo store.tables all infos named counts (prune.runOn store).2.tables
  again :
    let left := (prune.runOn store).2
    (prune.runOn left).1 = .ok (0, 0) ∧ (prune.runOn left).2.tables = left.tables

/-- Pruning is exact where it comes to what a sweep comes to, on every store that it leads to. -/
theorem Prunes.of_runOn
    {known : List Entry}
    {store : Store}
    {prune : Action (Nat × Nat)}
    (sound : store.tables.Sound True known)
    (agrees : ∀ info ∈ infos, Agrees info.entry store.tables)
    (Fine : Store → Prop)
    (fine : Fine store)
    (result :
      let select? : Option Selector := some fun _ trashed => isMeant all infos trashed
      ∀ before : Store,
        before.tables.Sound True known →
        Fine before →
        (prune.runOn before).1 = .ok (sweepTables select? before.tables).1 ∧
          (prune.runOn before).2.tables = (sweepTables select? before.tables).2 ∧
          Fine (prune.runOn before).2) :
    Prunes all infos prune store := by
  have coherent := sound.coherent
  have integral := sound.integral trivial
  obtain ⟨succeeds, tables, left⟩ := result store sound fine
  constructor
  case exact =>
    have prunedTo := sweepTables_prunedTo coherent integral all agrees
    dsimp only at prunedTo
    rw [← tables] at prunedTo
    exact ⟨_, _, succeeds, prunedTo⟩
  case again =>
    have nothing := sweepTables_again coherent integral (some (isMeant all infos))
    have soundLeft : (prune.runOn store).2.tables.Sound True known := by
      rw [tables]
      exact sound.sweepTables _
    obtain ⟨succeedsAgain, tablesAgain, -⟩ := result _ soundLeft left
    dsimp only [Option.map_some] at nothing
    rw [tables, nothing] at succeedsAgain tablesAgain
    exact ⟨succeedsAgain, tablesAgain.trans tables.symm⟩

/-- In a session on a new store that kept its history all along, entries that were listed at any
time are pruned exactly, in a transaction or by themselves. What that leaves by itself is kept. -/
theorem prunes_of_reachable
    {config : Config}
    (named : ∀ root ∈ config.roots, IsName root)
    (distinct : config.roots.Nodup)
    {timed : Bool}
    {since : Int}
    (reachable :
      Reachable (fun session _ _ => session.store.config.keepHistory = true)
        (start config timed since) session)
    (listed :
      ∀ info ∈ infos,
        ∃ earlier,
          Reachable (fun session _ _ => session.store.config.keepHistory = true)
              (start config timed since) earlier ∧
            Reachable (fun session _ _ => session.store.config.keepHistory = true) earlier
                session ∧
              Showed earlier.store info)
    (all : Bool) :
    (session.store.savepoints ≠ [] →
      Prunes all infos (Txn.pruneHistory infos all) session.store) ∧
      (IsOpen session.store →
        Prunes all infos (Store.pruneHistory infos all) session.store ∧
          ((Store.pruneHistory infos all).runOn session.store).2.kept =
            ((Store.pruneHistory infos all).runOn session.store).2.tables) := by
  have sound : session.Sound True := .of_keeping (.start named distinct timed since) reachable
  have agrees : ∀ info ∈ infos, Agrees info.entry session.store.tables := by
    intro info member
    obtain ⟨earlier, before, later, showed⟩ := listed info member
    have soundBefore : earlier.Sound True :=
      .of_keeping (.start named distinct timed since) before
    exact sound.all.tables.knows.kind info.entry
      (known_subset_of_reachable later (soundBefore.knows_showed showed))
  refine ⟨fun opened => ?_, fun isOpen => ?_⟩
  · let setting := session.store.setting fun _ => False
    refine .of_runOn sound.all.tables agrees (·.InScope setting) ?_ fun before known inScope => ?_
    · exact sound.steady.inScope opened .idle
    · obtain ⟨succeeds, tables, alike⟩ := (pruneHistory_sweeps known all infos).result inScope
      exact ⟨succeeds, tables, alike.inScope inScope⟩
  · have idle := (isOpen_iff sound.steady).mp isOpen
    have result (before : Store) (known : before.tables.Sound True session.known)
        (fine : before.Idle ∧ before.closing = false) :=
      (pruneHistory_sweeps known all infos).result_writing fine.1 fine.2 .idle
    refine ⟨.of_runOn sound.all.tables agrees _ idle result, ?_⟩
    obtain ⟨-, -, left, -⟩ := result session.store sound.all.tables idle
    exact (left.toSteady.tables_eq_kept left.outside).symm

/-- Of two versions one was listed, and is pruned once although its directory has another path by
now and the entry is given twice. -/
theorem prunes_moved :
    let session :=
      (((start {} false 0).after 1 (.whole (.write "home/d/f" ⟨#[1]⟩ none none))).after 2
        (.whole (.write "home/d/f" ⟨#[2]⟩ none none))).after 3 (.whole (.delete "home/d/f"))
    let later := session.after 4 (.whole (.moveTo "home/e" "home/d" none))
    let versions := (session.store.tables.entries.filter isTrashedFile).map (⟨"home/d", ·⟩)
    let infos : List TrashEntry := versions.take 1 ++ versions.take 1
    versions.length = 2 ∧ later.store.tables.lookup? "home" "d" = none ∧
      ((Store.pruneHistory infos false).runOn later.store).1.toOption = some (1, 0) ∧
        Prunes false infos (Store.pruneHistory infos false) later.store := by
  intro session later versions infos
  let keeps (session : Session) (_ : Int) (_ : Event) : Prop :=
    session.store.config.keepHistory = true
  have written :
      Step keeps (start {} false 0)
        ((start {} false 0).after 1 (.whole (.write "home/d/f" ⟨#[1]⟩ none none))) :=
    .event trivial rfl
  have replaced :
      Step keeps ((start {} false 0).after 1 (.whole (.write "home/d/f" ⟨#[1]⟩ none none)))
        (((start {} false 0).after 1 (.whole (.write "home/d/f" ⟨#[1]⟩ none none))).after 2
          (.whole (.write "home/d/f" ⟨#[2]⟩ none none))) :=
    .event trivial (by decide +kernel)
  have before : Reachable keeps (start {} false 0) session :=
    ((Relation.ReflTransGen.single written).tail replaced).tail
      (.event trivial (by decide +kernel))
  have moved : Reachable keeps session later :=
    .single (.event trivial (by decide +kernel))
  have free : session.store.savepoints.isEmpty = true ∧ session.store.closed = false := by
    decide +kernel
  have shown :
      ∀ info ∈ infos,
        session.store.tables.directoryPath? info.entry.directoryId = some info.directory ∧
          info.directory = "home/d" ∧ info.entry.name = "f" := by
    decide +kernel
  have outside := List.isEmpty_iff.mp free.1
  have sound : session.Sound True :=
    .of_keeping (.start (by decide) (by decide) false 0) before
  have listed : ∀ info ∈ infos, Showed session.store info := by
    intro info member
    obtain ⟨isPath, here, called⟩ := shown info member
    have isVersion : info ∈ versions := by
      rcases List.mem_append.mp member with isFirst | isFirst
      · exact List.mem_of_mem_take isFirst
      · exact List.mem_of_mem_take isFirst
    obtain ⟨inTable, isTrashed⟩ :
        info.entry ∈ session.store.tables.entries ∧ isTrashedFile info.entry = true := by
      obtain ⟨entry, isEntry, rfl⟩ := List.mem_map.mp isVersion
      exact List.mem_filter.mp isEntry
    have isListed :
        info ∈ Txn.history session.store.tables "home" "home/d" "f" false (-1) :=
      mem_versionsOf_iff.mpr ⟨⟨inTable, isTrashed, isPath⟩, here, called⟩
    exact ⟨outside, _, isListed, .inl ⟨"home", "home/d", "f", false, -1,
      runOn_reading_query sound.steady outside free.2 _ _⟩⟩
  have prunes :=
    (prunes_of_reachable (by decide) (by decide) (before.trans moved)
      (fun info member => ⟨session, before, moved, listed info member⟩) false).2
      ⟨by decide +kernel, by decide +kernel, by decide +kernel⟩
  exact ⟨by decide +kernel, by decide +kernel, by decide +kernel, prunes.1⟩

end Session

end VersionStore
