import VersionStore.Proofs.Session.Tree
import VersionStore.Proofs.Tree.TrashDirectories

namespace VersionStore

/-!
# Listings of the trash

What an open store answers about its trash, whatever happened before. A search shows the newest
version of every file, or all versions of one file, and a count takes the first entries of what is
shown without one. While history is kept, the directories that are listed are those in which a
search finds something.
-/

open Tables VersionStore.Action

namespace Session

variable {session : Session}

/-- What a store answers for each count: everything for a negative one, and else the first entries
of that. -/
def Shows (store : Store) (ask : Int → Action (List TrashEntry)) (shown : List TrashEntry) : Prop :=
  (∀ count < 0, ((ask count).runOn store).1 = .ok shown) ∧
    ∀ count : Nat, ((ask count).runOn store).1 = .ok (shown.take count)

/-- A question to the tables that only takes the first entries for a count. -/
theorem shows_reading
    {store : Store}
    (steady : store.Steady)
    (outside : store.savepoints = [])
    (open_ : store.closed = false)
    {question : Int → Tables → List TrashEntry}
    (limited : ∀ count tables, question count tables = limit count (question (-1) tables)) :
    Shows store (fun count => reading (query (question count)))
      (question (-1) store.tables) := by
  refine ⟨fun count negative => ?_, fun count => ?_⟩
  · rw [runOn_reading_query steady outside open_, limited, limit_of_neg negative]
  · rw [runOn_reading_query steady outside open_, limited, limit, if_neg (by omega),
      Int.toNat_natCast]

/-- Whatever happened in a session, a search without a name shows the newest accepted version of
every file where it looks, and with a name all accepted versions of the file. A history without
directories answers like a search for everything, but not at a root. -/
theorem lists_of_reachable
    {config : Config}
    (named : ∀ root ∈ config.roots, IsName root)
    (distinct : config.roots.Nodup)
    {timed : Bool}
    {since : Int}
    (reachable : Reachable (fun _ _ _ => True) (start config timed since) session)
    (outside : session.store.savepoints = [])
    (open_ : session.store.closed = false)
    (root directory name : String)
    (accepts : TrashEntry → Bool) :
    (∃ found,
      Shows session.store
          (Store.searchHistory root directory name · fun _ info => accepts info) found ∧
        (name = "" →
          (directory = root → '\x00' ∉ root.toList) →
          Txn.Newest
            (fun info =>
              session.store.tables.IsVersion info ∧
                Txn.Searches root directory info.directory ∧ accepts info = true)
            found) ∧
          (name ≠ "" →
            Txn.AllVersions
              (fun info =>
                session.store.tables.IsVersion info ∧
                  info.directory = directory ∧ info.entry.name = name ∧ accepts info = true)
              found)) ∧
      (∀ directories,
        ∃ listed, Shows session.store (Store.history root directory name directories) listed) ∧
        (directory ≠ root ∨ name ≠ "" →
          ∀ count,
            ((Store.history root directory name false count).runOn session.store).1 =
              ((Store.searchHistory root directory name count fun _ _ => true).runOn
                session.store).1) := by
  have sound : session.Sound False :=
    Sound.of_reachable (.start named distinct timed since) (fun absurd => absurd.elim) reachable
  have coherent := sound.all.tables.coherent
  have steady := sound.steady
  have searches :
      Shows session.store (Store.searchHistory root directory name · fun _ info => accepts info)
        (Txn.searchHistory session.store.tables root directory name (-1) fun _ info =>
          accepts info) :=
    shows_reading steady outside open_ fun count tables =>
      Txn.searchHistory_limit tables root directory name count _
  refine ⟨⟨_, searches, fun unnamed plain => ?_, Txn.allVersions_searchHistory coherent⟩,
    fun directories => ?_, fun below count => ?_⟩
  · subst unnamed
    exact Txn.newest_searchHistory coherent plain
  · exact ⟨Txn.history session.store.tables root directory name directories (-1),
      shows_reading steady outside open_ fun count tables =>
        Txn.history_limit tables root directory name directories count⟩
  · rw [Store.history, Store.searchHistory, runOn_reading_query steady outside open_,
      runOn_reading_query steady outside open_, Txn.history_eq_searchHistory _ below]

/-- Of two versions of a file the one that was deleted last is shown. -/
theorem lists_replaced :
    let session :=
      ((start {} false 0).after 1 (.whole (.write "home/d/f" ⟨#[1]⟩ none none))).after 2
        (.whole (.write "home/d/f" ⟨#[2]⟩ none none))
    let later := session.after 3 (.whole (.delete "home/d/f"))
    (later.store.tables.entries.filter isTrashedFile).map (·.lastDeleted) = [2, 3] ∧
      ∃ found,
        Shows later.store (Store.searchHistory "home" "home" "" · fun _ _ => true) found ∧
          ∃ shown ∈ found,
            shown.directory = "home/d" ∧ shown.entry.name = "f" ∧ shown.entry.lastDeleted = 3 := by
  intro session later
  have written :
      Step (fun _ _ _ => True) (start {} false 0)
        ((start {} false 0).after 1 (.whole (.write "home/d/f" ⟨#[1]⟩ none none))) :=
    .event trivial trivial
  have replaced :
      Step (fun _ _ _ => True)
        ((start {} false 0).after 1 (.whole (.write "home/d/f" ⟨#[1]⟩ none none))) session :=
    .event trivial trivial
  have reachable : Reachable (fun _ _ _ => True) (start {} false 0) later :=
    ((Relation.ReflTransGen.single written).tail replaced).tail (.event trivial trivial)
  have free : later.store.savepoints.isEmpty = true ∧ later.store.closed = false := by
    decide +kernel
  have trashed :
      later.store.tables.entries.any (fun entry =>
        isTrashedFile entry && entry.lastDeleted == 3 && entry.name == "f" &&
          later.store.tables.directoryPath? entry.directoryId == some "home/d") = true := by
    decide +kernel
  have bounded : ∀ entry ∈ later.store.tables.entries, entry.lastDeleted ≤ 3 := by
    decide +kernel
  obtain ⟨entry, member, isLast⟩ := List.any_eq_true.mp trashed
  simp only [Bool.and_eq_true, beq_iff_eq] at isLast
  obtain ⟨⟨⟨isTrashed, deleted⟩, isName⟩, isPath⟩ := isLast
  obtain ⟨⟨found, shows, newest, -⟩, -⟩ :=
    lists_of_reachable (by decide) (by decide) reachable (List.isEmpty_iff.mp free.1) free.2 "home"
      "home" "" fun _ => true
  have newest := newest rfl (by decide)
  have isAmong :
      later.store.tables.IsVersion ⟨"home/d", entry⟩ ∧ Txn.Searches "home" "home" "home/d" ∧
        true = true :=
    ⟨⟨member, isTrashed, isPath⟩, .inr (.inr (by decide)), rfl⟩
  obtain ⟨shown, isShown, sameDirectory, sameName⟩ := newest.complete ⟨"home/d", entry⟩ isAmong
  refine ⟨by decide +kernel, found, shows, shown, isShown, sameDirectory, sameName.trans isName, ?_⟩
  have later := newest.newest shown isShown ⟨"home/d", entry⟩ isAmong sameDirectory.symm sameName.symm
  have latest := bounded shown.entry (newest.listed shown isShown).1.member
  dsimp only at later
  omega

/-- Whatever happened in a session that kept its history all along, a listing of directories shows
once each path at which a search finds something, which is where a history of files is not empty.
These are the directories, in the trash or not, at or below the root that hold trashed files. -/
theorem lists_directories_of_reachable
    {config : Config}
    (named : ∀ root ∈ config.roots, IsName root)
    (distinct : config.roots.Nodup)
    {timed : Bool}
    {since : Int}
    (reachable :
      Reachable (fun session _ _ => session.store.config.keepHistory = true)
        (start config timed since) session)
    (outside : session.store.savepoints = [])
    (open_ : session.store.closed = false)
    (root : String) :
    ∃ directories found,
      ((Store.history root root "" true (-1)).runOn session.store).1 = .ok directories ∧
        ((Store.searchHistory root root "" (-1) fun _ _ => true).runOn session.store).1 =
            .ok found ∧
          (directories.map (·.path)).Nodup ∧
            ∀ path,
              (path ∈ directories.map (·.path) ↔ ∃ info ∈ found, info.directory = path) ∧
                (path ∈ directories.map (·.path) →
                  ∃ files,
                    ((Store.history root path "" false (-1)).runOn session.store).1 = .ok files ∧
                      files ≠ []) ∧
                  ('\x00' ∉ root.toList →
                    (path ∈ directories.map (·.path) ↔
                      Txn.Searches root root path ∧ session.store.tables.HoldsVersions path)) := by
  have sound : session.Sound True := by
    refine Sound.of_reachable (.start named distinct timed since) ?_ reachable
    intro _ session now event _ keeps strands
    cases event with
    | inside call | whole call =>
        rw [strands.1] at keeps
        exact Bool.false_ne_true keeps
    | _ =>
        exact strands
  have coherent := sound.all.tables.coherent
  have integral := sound.all.tables.integral trivial
  have steady := sound.steady
  have once : ((Txn.history session.store.tables root root "" true (-1)).map (·.path)).Nodup := by
    rw [Txn.history, if_neg (by decide), if_pos (by simp), limit_of_neg (by decide)]
    exact Txn.nodup_path_firstOfEach [] _
  refine ⟨_, _, runOn_reading_query steady outside open_ _ _,
    runOn_reading_query steady outside open_ _ _, once, fun path => ?_⟩
  rw [Txn.mem_history_directories_iff coherent integral, Txn.exists_mem_searchHistory_iff coherent]
  refine ⟨Iff.rfl, fun listed => ?_, fun plain => ?_⟩
  · exact ⟨_, runOn_reading_query steady outside open_ _ _,
      Txn.history_ne_nil coherent listed.2 root⟩
  · rw [Txn.isUnder_iff_searches plain]

/-- The directory of a file that was deleted is listed although it was deleted too. -/
theorem lists_directories_deleted :
    let session :=
      ((start {} false 0).after 1 (.whole (.write "home/d/f" ⟨#[1]⟩ none none))).after 2
        (.whole (.delete "home/d/f"))
    let later := session.after 3 (.whole (.delete "home/d"))
    later.store.tables.lookup? "home" "d" = none ∧
      ∃ directories,
        ((Store.history "home" "home" "" true (-1)).runOn later.store).1 = .ok directories ∧
          "home/d" ∈ directories.map (·.path) := by
  intro session later
  have written :
      Step (fun session _ _ => session.store.config.keepHistory = true) (start {} false 0)
        ((start {} false 0).after 1 (.whole (.write "home/d/f" ⟨#[1]⟩ none none))) :=
    .event trivial rfl
  have deleted :
      Step (fun session _ _ => session.store.config.keepHistory = true)
        ((start {} false 0).after 1 (.whole (.write "home/d/f" ⟨#[1]⟩ none none))) session :=
    .event trivial (by decide +kernel)
  have reachable :
      Reachable (fun session _ _ => session.store.config.keepHistory = true) (start {} false 0)
        later :=
    ((Relation.ReflTransGen.single written).tail deleted).tail (.event trivial (by decide +kernel))
  have free : later.store.savepoints.isEmpty = true ∧ later.store.closed = false := by
    decide +kernel
  have held :
      later.store.tables.entries.any (fun directory =>
        directory.isDirectory && later.store.tables.directoryPath? directory.id == some "home/d" &&
          later.store.tables.entries.any fun file =>
            isTrashedFile file && file.directoryId == directory.id) = true := by
    decide +kernel
  have holds : later.store.tables.HoldsVersions "home/d" := by
    simpa [HoldsVersions, and_assoc] using held
  obtain ⟨directories, found, listed, -, -, paths⟩ :=
    lists_directories_of_reachable (by decide) (by decide) reachable (List.isEmpty_iff.mp free.1)
      free.2 "home"
  refine ⟨by decide +kernel, directories, listed, ?_⟩
  exact ((paths "home/d").2.2 (by decide)).mpr ⟨.inr (.inr (by decide)), holds⟩

end Session

end VersionStore
