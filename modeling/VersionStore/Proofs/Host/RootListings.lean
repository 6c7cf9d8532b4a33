import VersionStore.Host.RootTrash
import VersionStore.Proofs.Host.Handles
import VersionStore.Proofs.Session.Tree
import VersionStore.Proofs.Tree.TrashDirectories

namespace VersionStore

/-!
# What a root answers about its trash

A root is asked about its trash by a text below it. Where the text leads to is not compared with
the root: a text that climbs out of the root asks about another place of the store, and gets what
is in the trash there. Where a handle is given for the text, the answer stays inside the root.
-/

open Tables VersionStore.Action

/-- A store that is alone on a host and has no file is found as it is. -/
theorem Host.found_single
    {store : Store}
    (connected : store.connected = true)
    (unfiled : store.file = none)
    (others : store.others = .idle) :
    Host.found { stores := #[store] } 0 = store := by
  cases store
  cases connected
  cases unfiled
  cases others
  rfl

namespace Root

variable
  {root other : Root}
  {tables : Tables}
  {path : CleanPath}
  {info : TrashEntry}
  {relative directory name : String}

/-! ## What a root holds -/

/-- A path that a root holds has the root's name before its first separator. -/
theorem Holds.runs
    {path : String}
    (held : root.Holds path) :
    (Path.runs path.toList).head? = some root.text.toList := by
  rcases held with rfl | ⟨after, rfl⟩
  · rw [text, Path.runs_of_notMem root.name.separator_notMem]
    rfl
  · have shape :
        (root.text ++ "/" ++ after).toList =
          root.name.text.toList ++ Path.separator :: after.toList := by
      simp [text, Path.separator]
    rw [shape, Path.runs_append_separator root.name.separator_notMem]
    rfl

/-- A path is held by the roots of one name only. -/
theorem Holds.name_eq
    {path : String}
    (held : root.Holds path)
    (heldToo : other.Holds path) :
    other.name = root.name :=
  Subtype.ext (String.toList_inj.mp (Option.some.inj (heldToo.runs.symm.trans held.runs)))

/-- A root holds what lies in a directory that it holds. -/
theorem Holds.append
    {names : List Name}
    (held : root.Holds (CleanPath.joinNames names))
    (name : Name) :
    root.Holds (CleanPath.joinNames (names ++ [name])) := by
  obtain ⟨rest, inside⟩ := (root.holds_text_iff ⟨names⟩).mp held
  refine (root.holds_text_iff ⟨names ++ [name]⟩).mpr ⟨rest ++ [name], ?_⟩
  dsimp only at inside
  rw [inside, List.cons_append]

/-- A version is held where its directory is. -/
theorem Holds.version
    (coherent : tables.Coherent)
    (isVersion : tables.IsVersion info)
    (held : root.Holds info.directory) :
    root.Holds info.path := by
  obtain ⟨names, name, isDirectory, -, isPath⟩ := isVersion.written coherent
  rw [isDirectory] at held
  rw [isPath]
  exact held.append name

/-- What lies under the path of a root is held by it. -/
theorem holds_of_isUnder
    {path : String}
    (under : isUnder root.text path = true) :
    root.Holds path := by
  have named : root.text.isEmpty = false := by
    rw [← Bool.not_eq_true, String.isEmpty_iff]
    exact root.name.property.1
  simp only [isUnder, named, Bool.false_or, Bool.or_eq_true, beq_iff_eq, Bool.and_eq_true,
    List.isPrefixOf_iff_prefix] at under
  rcases under with same | ⟨-, after, begins⟩
  · exact .inl same
  · refine .inr ⟨String.ofList after, String.toList_inj.mp ?_⟩
    rw [← begins]
    simp

/-! ## Where a listing looks -/

/-- A version at the place that a root is asked about: at a path, directly in the directory of a
path, or anywhere in the root if the path is the root's. -/
def Finds (root : Root) (path : CleanPath) (info : TrashEntry) : Prop :=
  (info.path = path.text ∧ info.directory = path.directory) ∨
    (info.directory = path.text ∧ IsName info.entry.name) ∨
      (path.text = root.text ∧ root.Holds info.path)

/-- A listing is asked for the whole of a path, or for its last name in what comes before it. -/
def Asks (path : CleanPath) (directory name : String) : Prop :=
  (directory = path.text ∧ name = "") ∨ (directory = path.directory ∧ name = path.name)

/-- A root asks for the clean path of a text below it. -/
theorem asks_of_historyPlace
    (asked : root.historyPlace relative = .ok (directory, name)) :
    ∃ path,
      CleanPath.ofText (Path.join root.text relative) = .ok path ∧ Asks path directory name := by
  rw [historyPlace] at asked
  split at asked
  · cases asked
  · next path isPath =>
      split at asked
      · cases asked
        exact ⟨path, isPath, .inl ⟨rfl, rfl⟩⟩
      · cases asked
        exact ⟨path, isPath, .inr ⟨rfl, rfl⟩⟩

/-- Without a name the directory of a path is asked for. -/
theorem Asks.directory_eq
    (asks : Asks path directory "") :
    directory = path.text := by
  rcases asks with ⟨whole, -⟩ | ⟨before, unnamed⟩
  · exact whole
  · rw [before, CleanPath.eq_root_of_name unnamed.symm]
    rfl

/-- With a name the versions at a path are asked for. -/
theorem Asks.finds_versionsOf
    (asks : Asks path directory name)
    (named : name ≠ "")
    (listed : info ∈ tables.versionsOf directory name (-1)) :
    root.Finds path info := by
  obtain ⟨-, isDirectory, isName⟩ := mem_versionsOf_iff.mp listed
  rcases asks with ⟨-, unnamed⟩ | ⟨rfl, rfl⟩
  · exact (named unnamed).elim
  · exact .inl ⟨by rw [TrashEntry.path, isDirectory, isName, CleanPath.join_directory_name named],
      isDirectory⟩

/-- The versions in the directory of a path. -/
theorem Asks.finds_trashIn
    (asks : Asks path directory "")
    (coherent : tables.Coherent)
    (listed : info ∈ tables.trashIn directory (-1)) :
    root.Finds path info := by
  obtain ⟨isVersion, isDirectory⟩ := coherent.mem_trashIn_iff.mp listed
  exact .inr (.inl ⟨isDirectory.trans asks.directory_eq, isVersion.named coherent⟩)

/-- The versions below the root when its path is asked for. -/
theorem Asks.finds_trashUnder
    (asks : Asks path root.text "")
    (coherent : tables.Coherent)
    (listed : info ∈ tables.trashUnder root.text (-1)) :
    root.Finds path info := by
  obtain ⟨isVersion, under⟩ := mem_trashUnder_iff.mp listed
  exact .inr (.inr ⟨asks.directory_eq.symm, (holds_of_isUnder under).version coherent isVersion⟩)

/-- The directories below the root when its path is asked for. -/
theorem Asks.finds_trashDirectories
    (asks : Asks path root.text "")
    (coherent : tables.Coherent)
    (listed : info ∈ tables.trashDirectories root.text (-1)) :
    root.Finds path info := by
  obtain ⟨member, -, -, under, isAbove⟩ := mem_trashDirectories_iff.mp listed
  refine .inr (.inr ⟨asks.directory_eq.symm, ?_⟩)
  cases isPath : tables.directoryPath? info.entry.id with
  | none =>
      rw [isPath, isPlacedUnder, String.isEmpty_iff] at under
      exact (root.name.property.1 under).elim
  | some path =>
      rw [isPath] at under
      rw [TrashEntry.path, ← coherent.path_eq_join member isPath isAbove]
      exact holds_of_isUnder under

/-- A history shows what is at the place that is asked for. -/
theorem Asks.finds_history
    (asks : Asks path directory name)
    (coherent : tables.Coherent)
    {directories : Bool}
    (listed : info ∈ Txn.history tables root.text directory name directories (-1)) :
    root.Finds path info := by
  rcases Txn.listed_of_mem_history listed with
    ⟨named, version⟩ | ⟨rfl, within | ⟨rfl, holding⟩⟩
  · exact asks.finds_versionsOf named version
  · exact asks.finds_trashIn coherent within
  · exact asks.finds_trashDirectories coherent holding

/-- A search shows what is at the place that is asked for. -/
theorem Asks.finds_searchHistory
    (asks : Asks path directory name)
    (coherent : tables.Coherent)
    {select : Txn.Selector}
    (listed : info ∈ Txn.searchHistory tables root.text directory name (-1) select) :
    root.Finds path info := by
  rcases Txn.listed_of_mem_searchHistory listed with
    ⟨named, version⟩ | ⟨rfl, within | ⟨rfl, below⟩⟩
  · exact asks.finds_versionsOf named version
  · exact asks.finds_trashIn coherent within
  · exact asks.finds_trashUnder coherent below

/-- What is found at a place that the root holds is held by the root. -/
theorem Finds.inside
    (finds : root.Finds path info)
    (held : root.Holds path.text) :
    root.Holds info.path := by
  rcases finds with ⟨isPath, -⟩ | ⟨isDirectory, named⟩ | ⟨-, inside⟩
  · exact isPath ▸ held
  · obtain ⟨name, isName⟩ : ∃ name : Name, name.text = info.entry.name := ⟨⟨_, named⟩, rfl⟩
    rw [TrashEntry.path, isDirectory, CleanPath.text, ← isName, CleanPath.join_joinNames]
    exact held.append name
  · exact inside

/-- What is found at a place that the root does not hold is in no directory that it holds. -/
theorem Finds.outside
    (finds : root.Finds path info)
    (elsewhere : ¬root.Holds path.text) :
    ¬root.Holds info.directory := by
  intro held
  rcases finds with ⟨-, isDirectory⟩ | ⟨isDirectory, -⟩ | ⟨isRoot, -⟩
  · rw [isDirectory] at held
    obtain ⟨names⟩ := path
    rcases List.eq_nil_or_concat' names with rfl | ⟨before, last, rfl⟩
    · exact elsewhere held
    · rw [CleanPath.directory, CleanPath.dropLast, List.dropLast_concat] at held
      exact elsewhere (held.append last)
  · exact elsewhere (isDirectory ▸ held)
  · exact elsewhere (.inl isRoot)

/-! ## Asking -/

/-- A question is put to the store of a root when the text has a clean path. -/
theorem runOn_asking
    (root : Root)
    (relative : String)
    (ask : String → String → Action α)
    (host : Host) :
    ((do
      let (directory, name) ← (root.historyPlace relative : Except Fault (String × String))
      HostAction.on root.store (ask directory name) : HostAction α).runOn host).1 =
      match root.historyPlace relative with
      | .ok (directory, name) => ((ask directory name).runOn (host.found root.store)).1
      | .error fault => .error fault := by
  rw [HostAction.runOn_bind]
  rcases root.historyPlace relative with fault | place <;> rfl

/-- An idle store tells its history at the place that a root asks for. -/
theorem runOn_history
    {host : Host}
    (asked : root.historyPlace relative = .ok (directory, name))
    (idle : (host.found root.store).Idle)
    (directories : Bool) :
    ((root.history relative directories).runOn host).1 =
      .ok (Txn.history (host.found root.store).tables root.text directory name directories (-1)) := by
  refine (runOn_asking root relative
    (fun directory name => Store.history root.text directory name directories (-1)) host).trans ?_
  rw [asked]
  exact runOn_reading_query idle.toSteady idle.outside idle.opened _ _

/-- An answer of a root about its trash at a text below it: a history, or a search by any
selector. -/
def Answers (root : Root) (relative : String) (host : Host)
    (outcome : Except Fault (List TrashEntry)) : Prop :=
  (∃ directories, outcome = ((root.history relative directories).runOn host).1) ∨
    ∃ select, outcome = ((root.searchHistory relative select).runOn host).1

/-- An answer shows what is at the place that a clean path asks for, and an idle store answers
whenever the text has a clean path. -/
theorem Answers.finds
    {host : Host}
    {outcome : Except Fault (List TrashEntry)}
    (answers : root.Answers relative host outcome)
    (coherent : (host.found root.store).tables.Coherent) :
    (∀ infos,
      outcome = .ok infos →
      ∃ path,
        CleanPath.ofText (Path.join root.text relative) = .ok path ∧
          ∀ info ∈ infos, root.Finds path info) ∧
      ((host.found root.store).Idle →
        (outcome.isOk = true ↔
          ∃ path, CleanPath.ofText (Path.join root.text relative) = .ok path)) := by
  have able :
      (∃ path, CleanPath.ofText (Path.join root.text relative) = .ok path) ↔
        ∃ place, root.historyPlace relative = .ok place := by
    rw [historyPlace]
    split
    · next refused =>
        simp [refused]
    · next path isPath =>
        refine ⟨fun _ => ?_, fun _ => ⟨path, isPath⟩⟩
        split <;> exact ⟨_, rfl⟩
  -- Both questions are put by way of the place, and differ in what the tables are asked.
  obtain ⟨question, finds, isOutcome⟩ :
      ∃ question : String → String → Tables → List TrashEntry,
        (∀ path directory name,
          Asks path directory name →
          ∀ info ∈ question directory name (host.found root.store).tables, root.Finds path info) ∧
          outcome =
            match root.historyPlace relative with
            | .ok (directory, name) =>
                ((reading (query (question directory name))).runOn (host.found root.store)).1
            | .error fault => .error fault := by
    rcases answers with ⟨directories, isOutcome⟩ | ⟨select, isOutcome⟩
    · exact ⟨fun directory name tables =>
          Txn.history tables root.text directory name directories (-1),
        fun path directory name asks info listed => asks.finds_history coherent listed,
        isOutcome.trans (runOn_asking root relative
          (fun directory name => Store.history root.text directory name directories (-1)) host)⟩
    · exact ⟨fun directory name tables =>
          Txn.searchHistory tables root.text directory name (-1) select,
        fun path directory name asks info listed => asks.finds_searchHistory coherent listed,
        isOutcome.trans (runOn_asking root relative
          (fun directory name => Store.searchHistory root.text directory name (-1) select) host)⟩
  rw [able]
  rcases isPlace : root.historyPlace relative with fault | ⟨directory, name⟩
  · rw [isPlace] at isOutcome
    subst isOutcome
    exact ⟨fun infos absurd => (nomatch absurd), fun _ =>
      ⟨fun absurd => (nomatch absurd), fun ⟨_, absurd⟩ => (nomatch absurd)⟩⟩
  · rw [isPlace] at isOutcome
    refine ⟨fun infos answered => ?_, fun idle => ?_⟩
    · obtain ⟨path, isPath, asks⟩ := asks_of_historyPlace isPlace
      refine ⟨path, isPath, ?_⟩
      rw [eq_of_runOn_reading_query (isOutcome.symm.trans answered)]
      exact finds path directory name asks
    · dsimp only at isOutcome
      rw [runOn_reading_query idle.toSteady idle.outside idle.opened] at isOutcome
      rw [isOutcome]
      exact ⟨fun _ => ⟨_, rfl⟩, fun _ => rfl⟩

/-- Whatever happened in a store, what a root answers about its trash at a text stays inside the
root, and outside of every other, exactly where the root gives a handle for the text. For a text
that leaves the root it answers from directories that the root does not hold. -/
theorem answers_of_reachable
    {config : Config}
    (named : ∀ root ∈ config.roots, IsName root)
    (distinct : config.roots.Nodup)
    {timed : Bool}
    {since : Int}
    {session : Session}
    (reachable :
      Session.Reachable (fun _ _ _ => True) (Session.start config timed since) session)
    {host : Host}
    {root : Root}
    (found : (host.found root.store).tables = session.store.tables)
    {relative : String}
    {outcome : Except Fault (List TrashEntry)}
    (answers : root.Answers relative host outcome) :
    (∀ infos,
      outcome = .ok infos →
      (∀ file,
        FileHandle.ofText root relative = .ok file →
        ∀ info ∈ infos,
          root.Holds info.path ∧ ∀ other : Root, other.Holds info.path → other.name = root.name) ∧
        (∀ fault,
          FileHandle.ofText root relative = .error fault →
          ∀ info ∈ infos, ¬root.Holds info.directory)) ∧
      ((host.found root.store).Idle →
        (outcome.isOk = true ↔
          ∃ path, CleanPath.ofText (Path.join root.text relative) = .ok path)) := by
  have sound : session.Sound False :=
    Session.Sound.of_reachable (.start named distinct timed since) (fun absurd => absurd.elim)
      reachable
  have answered := answers.finds (found ▸ sound.all.tables.coherent)
  refine ⟨fun infos isOk => ?_, answered.2⟩
  obtain ⟨path, isPath, finds⟩ := answered.1 infos isOk
  constructor
  · intro file given info member
    obtain ⟨isRoot, led⟩ := FileHandle.ofText_eq_ok_iff.mp given
    have isFile : path = file.path := Except.ok.inj (isPath.symm.trans led)
    have inside : root.Holds path.text := by
      rw [isFile, ← isRoot]
      exact file.confined.held
    have held := (finds info member).inside inside
    exact ⟨held, fun other heldToo => held.name_eq heldToo⟩
  · intro fault refused info member
    have leads := FileHandle.ofText_leads root relative
    rw [refused] at leads
    exact (finds info member).outside (leads.2 path isPath)

/-- A root is asked about the directory of another one, and shows what was deleted there. -/
theorem answers_beside :
    let session :=
      ((Session.start {} false 0).after 1
        (.whole (.write "internal-backup/f" ⟨#[1]⟩ none none))).after 2
          (.whole (.delete "internal-backup/f"))
    let host : Host := { stores := #[session.store] }
    let home : Root := ⟨0, ⟨"home", by decide⟩, default⟩
    ∃ infos,
      ((home.history "../internal-backup/" false).runOn host).1 = .ok infos ∧
        infos ≠ [] ∧ ∀ info ∈ infos, ¬home.Holds info.directory := by
  intro session host home
  have written :
      Session.Step (fun _ _ _ => True) (Session.start {} false 0)
        ((Session.start {} false 0).after 1
          (.whole (.write "internal-backup/f" ⟨#[1]⟩ none none))) :=
    .event trivial trivial
  have reachable : Session.Reachable (fun _ _ _ => True) (Session.start {} false 0) session :=
    (Relation.ReflTransGen.single written).tail (.event trivial trivial)
  have sound : session.Sound False :=
    Session.Sound.of_reachable (.start (by decide) (by decide) false 0) (fun absurd => absurd.elim)
      reachable
  have free : session.store.savepoints.isEmpty = true ∧ session.store.closed = false := by
    decide +kernel
  have unfiled : session.store.connected = true ∧ session.store.file = none := by
    decide +kernel
  have held :
      session.store.tables.entries.any (fun directory =>
        directory.isDirectory &&
          session.store.tables.directoryPath? directory.id == some "internal-backup" &&
            session.store.tables.entries.any fun file =>
              isTrashedFile file && file.directoryId == directory.id) = true := by
    decide +kernel
  clear_value session
  have holds : session.store.tables.HoldsVersions "internal-backup" := by
    simpa [HoldsVersions, and_assoc] using held
  have isFound : host.found 0 = session.store :=
    Host.found_single unfiled.1 unfiled.2 sound.steady.others
  have idle : (host.found home.store).Idle := by
    rw [isFound]
    exact ⟨sound.steady, List.isEmpty_iff.mp free.1, free.2⟩
  have place : home.historyPlace "../internal-backup/" = .ok ("internal-backup", "") := by
    decide
  have answered :
      ((home.history "../internal-backup/" false).runOn host).1 =
        .ok (Txn.history session.store.tables "home" "internal-backup" "" false (-1)) := by
    rw [runOn_history place idle, isFound]
    rfl
  have refused :
      FileHandle.ofText home "../internal-backup/" =
        .error (.invalidDestination "../internal-backup/") := by
    decide
  have isAnswer :
      home.Answers "../internal-backup/" host
        ((home.history "../internal-backup/" false).runOn host).1 :=
    .inl ⟨false, rfl⟩
  have answers :=
    answers_of_reachable (by decide) (by decide) reachable (congrArg Store.tables isFound) isAnswer
  exact ⟨_, answered, Txn.history_ne_nil sound.all.tables.coherent holds "home",
    (answers.1 _ answered).2 _ refused⟩

end Root

end VersionStore
