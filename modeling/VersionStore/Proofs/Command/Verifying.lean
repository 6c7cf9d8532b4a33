import VersionStore.Command.Listing
import VersionStore.Proofs.Command.Console
import VersionStore.Proofs.Host.RootListings
import VersionStore.Proofs.Path.Following
import VersionStore.Proofs.Session.Fresh
import VersionStore.Proofs.Stream.Giving
import VersionStore.Proofs.Tree.Forest

namespace VersionStore

/-!
# Verifying files by a command

The command goes down a tree by the ids of directories, but every file is found again at a text: the
one that was given, with names put behind it. However that one was spelled, the texts lead to the
files that they are made for. So each file at a path and below it is compared with its row once, in
the order of names, and the report tells which ones differ.
-/

open Tables ConsoleAction

/-! ## Files of a tree -/

namespace Forest

/-- The files of a forest, from the top down. -/
def files (forest : Forest) : List TreePlace :=
  forest.topDown.filter fun place => !place.entry.isDirectory

/-- With a directory come the files below it. -/
theorem files_node_directory
    {place : TreePlace}
    (isDirectory : place.entry.isDirectory = true)
    (below beside : Forest) :
    (node place below beside).files = below.files ++ beside.files := by
  rw [files, topDown, List.cons_append, List.filter_cons_of_neg (by simp [isDirectory]),
    List.filter_append]
  rfl

/-- A file comes with nothing below it. -/
theorem files_node_file
    {place : TreePlace}
    (isFile : place.entry.isDirectory = false)
    (beside : Forest) :
    (node place none beside).files = place :: beside.files := by
  rw [files, topDown, List.cons_append, List.filter_cons_of_pos (by simp [isFile])]
  rfl

end Forest

namespace Tables

/-- The live files at a path and below it, each once, in the order of names. -/
structure FilesAt (tables : Tables) (path : CleanPath) (files : List TreePlace) : Prop where
  mem_iff :
    ∀ place,
      place ∈ files ↔
        place.entry.isDirectory = false ∧
          tables.lookupAt? ⟨path.names ++ place.names⟩ = some place.entry
  once : (files.map fun place => place.entry.id).Nodup
  inOrder : files.Pairwise TreePlace.Parts

variable
  {tables : Tables}
  {path : CleanPath}
  {entry : Entry}
  {forest : Forest}

/-- The files of what lies at a path, if it is a file or there is a forest below it. -/
def filesFrom (entry : Entry) (forest : Forest) : List TreePlace :=
  (⟨[], entry⟩ :: forest.topDown).filter fun place => !place.entry.isDirectory

/-- The files of a live entry are those of the forest below it, or the entry alone. -/
theorem filesAt_filesFrom
    (coherent : tables.Coherent)
    (here : tables.At path.names entry)
    (isForest : tables.IsForest path.names [] (tables.within entry) forest) :
    tables.FilesAt path (filesFrom entry forest) := by
  have mem_iff (place : TreePlace) :
      place ∈ (⟨[], entry⟩ :: forest.topDown : List TreePlace) ↔
        tables.At (path.names ++ place.names) place.entry := by
    rw [List.mem_cons, isForest.mem_iff_at coherent here]
    constructor
    · rintro (rfl | ⟨-, there⟩)
      · exact (List.append_nil path.names).symm ▸ here
      · exact there
    · intro there
      by_cases top : place.names = []
      · left
        obtain ⟨names, other⟩ := place
        cases top
        rw [List.append_nil] at there
        exact congrArg (TreePlace.mk []) (coherent.at_unique there here)
      · exact .inr ⟨top, there⟩
  have ordered := (isForest.ordered coherent (coherent.pairwise_within entry)).pairwise false
  have precedes :
      (⟨[], entry⟩ :: forest.topDown : List TreePlace).Pairwise (TreePlace.Precedes false) := by
    refine List.pairwise_cons.mpr ⟨fun place member => .inl ?_, ordered⟩
    obtain ⟨some_, -⟩ := (isForest.mem_iff_at coherent here).mp member
    exact List.exists_cons_of_ne_nil some_
  refine ⟨fun place => ?_, ?_, ?_⟩
  · rw [filesFrom, List.mem_filter, mem_iff, coherent.lookupAt?_eq_some_iff, and_comm]
    simp
  · refine List.Nodup.map_on (fun first isFirst second isSecond same => ?_)
      ((precedes.imp TreePlace.Precedes.ne).filter _)
    have firstThere := (mem_iff first).mp (List.mem_of_mem_filter isFirst)
    have secondThere := (mem_iff second).mp (List.mem_of_mem_filter isSecond)
    have sameEntry := coherent.entry_eq firstThere.member secondThere.member same
    obtain ⟨firstNames, firstEntry⟩ := first
    obtain ⟨secondNames, secondEntry⟩ := second
    cases sameEntry
    cases List.append_cancel_left (coherent.at_names_unique firstThere secondThere)
    rfl
  · refine (precedes.filter _).imp_of_mem fun {first second} isFirst isSecond precedes => ?_
    refine precedes.resolve_left fun within => ?_
    -- Nothing lies within a file.
    obtain ⟨name, rest, shape⟩ := within
    have firstThere := (mem_iff first).mp (List.mem_of_mem_filter isFirst)
    have secondThere := (mem_iff second).mp (List.mem_of_mem_filter isSecond)
    have split : path.names ++ second.names = path.names ++ first.names ++ [name] ++ rest := by
      simp [shape]
    obtain ⟨next, isNext⟩ := (split ▸ secondThere).of_append
    obtain ⟨holder, above, isDirectory⟩ := coherent.isDirectory_of_at isNext
    rw [coherent.at_unique above firstThere] at isDirectory
    have isFile := List.of_mem_filter isFirst
    rw [isDirectory] at isFile
    cases isFile

end Tables

/-! ## Reports -/

/-- Lines as they are printed. -/
def printed : List String → ByteArray
  | [] => .empty
  | line :: rest => (line ++ "\n").toUTF8 ++ printed rest

/-- Lines are printed one after the other. -/
theorem printed_append
    (first second : List String) :
    printed (first ++ second) = printed first ++ printed second := by
  induction first with
  | nil =>
      exact ByteArray.empty_append.symm
  | cons line rest inductionHypothesis =>
      rw [List.cons_append, printed, printed, inductionHypothesis, ByteArray.append_assoc]

namespace ConsoleAction

/-- What an action prints wherever tables are presented, and what it comes to. They are presented
after it. -/
def Reports (id : StoreId) (tables : Tables) (action : ConsoleAction α) (lines : List String)
    (outcome : Except Failure α) : Prop :=
  ∀ host output,
    host.Presents id tables →
    ∃ left,
      Id.run (StateT.run (ExceptT.run action) ⟨host, output⟩) =
          (outcome, ⟨left, output ++ printed lines⟩) ∧
        left.Presents id tables

namespace Reports

variable
  {id : StoreId}
  {tables : Tables}
  {lines others : List String}
  {value : α}

/-- A value alone. -/
theorem pure
    (value : α) :
    Reports id tables (Pure.pure value) [] (.ok value) :=
  fun host _ presents => ⟨host, by rw [printed, ByteArray.append_empty]; rfl, presents⟩

/-- A failure alone. -/
theorem throw
    (failure : Failure) :
    Reports id tables (MonadExcept.throw failure : ConsoleAction α) [] (.error failure) :=
  fun host _ presents => ⟨host, by rw [printed, ByteArray.append_empty]; rfl, presents⟩

/-- One action and what follows it. -/
theorem bind
    {action : ConsoleAction α}
    {next : α → ConsoleAction β}
    {outcome : Except Failure β}
    (first : Reports id tables action lines (.ok value))
    (second : Reports id tables (next value) others outcome) :
    Reports id tables (action >>= next) (lines ++ others) outcome := by
  intro host output presents
  obtain ⟨middle, ran, presentsMiddle⟩ := first host output presents
  obtain ⟨left, ranNext, presentsLeft⟩ := second middle _ presentsMiddle
  refine ⟨left, ?_, presentsLeft⟩
  rw [run_bind, ran, printed_append, ← ByteArray.append_assoc]
  exact ranNext

/-- What follows an action that prints nothing. -/
theorem follows
    {action : ConsoleAction α}
    {next : α → ConsoleAction β}
    {outcome : Except Failure β}
    (first : Reports id tables action [] (.ok value))
    (second : Reports id tables (next value) lines outcome) :
    Reports id tables (action >>= next) lines outcome :=
  List.nil_append lines ▸ first.bind second

/-- A value that is made of another one. -/
theorem returns
    {action : ConsoleAction α}
    (first : Reports id tables action lines (.ok value))
    (made : α → β) :
    Reports id tables (action >>= fun value => Pure.pure (made value)) lines (.ok (made value)) :=
  List.append_nil lines ▸ first.bind (.pure (made value))

/-- A line. -/
theorem printLine
    (line : String) :
    Reports id tables (ConsoleAction.printLine line) [line] (.ok ⟨⟩) :=
  fun host _ presents => ⟨host, by rw [printed, printed, ByteArray.append_empty]; rfl, presents⟩

/-- A question to a store. -/
theorem onStore
    {action : Action α}
    (tells : HostAction.Tells id tables (HostAction.on id action) value) :
    Reports id tables (ConsoleAction.onStore id action) [] (.ok value) := by
  intro host output presents
  obtain ⟨left, ran, presentsLeft⟩ := tells host presents
  have comes := Comes.onHost ran output
  exact ⟨left, by rw [printed, ByteArray.append_empty]; exact comes, presentsLeft⟩

end Reports

end ConsoleAction

namespace Command

/-! ## Texts of files -/

/-- The text that an entry is found at below another one, at the end of some names. -/
def spelled (base : String) (names : List Name) : String :=
  names.foldl (fun text name => below text name.text) base

/-- One name more is put behind the others. -/
theorem spelled_concat
    (base : String)
    (names : List Name)
    (name : Name) :
    spelled base (names ++ [name]) = below (spelled base names) name.text :=
  List.foldl_append

variable
  {text : String}
  {path : CleanPath}

/-- A name behind a text leads one further. -/
theorem ofText_below
    (isPath : CleanPath.ofText text = .ok path)
    (name : Name) :
    CleanPath.ofText (below text name.text) = .ok ⟨path.names ++ [name]⟩ := by
  rw [CleanPath.ofText_eq_ok_iff] at isPath ⊢
  rw [List.reverse_append, List.reverse_singleton, List.singleton_append, below]
  split
  · next nothing =>
      rw [String.isEmpty_iff.mp nothing] at isPath
      have top : path.names.reverse = [] := (Option.some.inj isPath).symm
      rw [CleanPath.followAll?_name, top]
  · have shape :
        (text ++ "/" ++ name.text).toList =
          text.toList ++ Path.separator :: name.text.toList := by
      simp [Path.separator]
    rw [shape, CleanPath.followAll?_append, isPath]
    exact CleanPath.followAll?_name _ name

/-- Names behind a text lead on from where it leads. -/
theorem ofText_spelled
    (isPath : CleanPath.ofText text = .ok path)
    (names : List Name) :
    CleanPath.ofText (spelled text names) = .ok ⟨path.names ++ names⟩ := by
  induction names generalizing text path with
  | nil =>
      rw [List.append_nil]
      exact isPath
  | cons name rest inductionHypothesis =>
      have further := inductionHypothesis (ofText_below isPath name)
      rwa [List.append_assoc, List.singleton_append] at further

/-! ## Going down -/

/-- Do something at every file, and at those below directories at most `depth` directories deep. -/
def visitEach
    (id : StoreId)
    (visit : σ → String → ConsoleAction σ)
    (depth : Nat)
    (state : σ) :
    List (String × Entry) → ConsoleAction σ
  | [] => return state
  | (path, entry) :: rest => do
      let next ←
        if entry.isDirectory then
          match depth with
          | 0 => pure state
          | depth + 1 => do
              let entries ← onStore id (Store.listOf entry.id)
              visitEach id visit depth state
                (entries.map fun child => (below path child.name, child))
        else visit state path
      visitEach id visit depth next rest
termination_by entries => (depth, entries.length)

/-- A file is visited before what follows it. -/
theorem visitEach_file
    {entry : Entry}
    (isFile : ¬entry.isDirectory = true)
    (id : StoreId)
    (visit : σ → String → ConsoleAction σ)
    (depth : Nat)
    (state : σ)
    (path : String)
    (rest : List (String × Entry)) :
    visitEach id visit depth state ((path, entry) :: rest) =
      visit state path >>= fun next => visitEach id visit depth next rest := by
  cases depth <;> rw [visitEach, if_neg isFile]

/-- What lies in a directory is visited before what follows it. -/
theorem visitEach_directory
    {entry : Entry}
    (isDirectory : entry.isDirectory = true)
    (id : StoreId)
    (visit : σ → String → ConsoleAction σ)
    (depth : Nat)
    (state : σ)
    (path : String)
    (rest : List (String × Entry)) :
    visitEach id visit (depth + 1) state ((path, entry) :: rest) =
      onStore id (Store.listOf entry.id) >>= fun entries =>
        visitEach id visit depth state
            (entries.map fun child => (below path child.name, child)) >>= fun next =>
          visitEach id visit (depth + 1) next rest := by
  rw [visitEach, if_pos isDirectory]

/-- Files are verified one after the other. -/
theorem verifyEach_eq_visitEach
    (id : StoreId)
    (depth : Nat)
    (tally : Tally)
    (entries : List (String × Entry)) :
    verifyEach id depth tally entries = visitEach id (verifyFile id) depth tally entries := by
  fun_induction verifyEach id depth tally entries with
  | case1 =>
      rw [visitEach]
  | case2 tally path entry rest isDirectory following restHypothesis =>
      rw [visitEach, if_pos isDirectory]
      exact bind_congr restHypothesis
  | case3 tally path entry rest isDirectory depth following restHypothesis belowHypothesis =>
      rw [visitEach_directory isDirectory]
      refine bind_congr fun entries => ?_
      rw [belowHypothesis]
      exact bind_congr restHypothesis
  | case4 depth tally path entry rest following isFile restHypothesis =>
      rw [visitEach_file isFile]
      exact bind_congr restHypothesis

/-- What is done at every file may keep more, of which only a part matters. -/
theorem map_visitEach
    {project : σ → τ}
    {visit : σ → String → ConsoleAction σ}
    {plain : τ → String → ConsoleAction τ}
    (same : ∀ state text, project <$> visit state text = plain (project state) text)
    (id : StoreId)
    (depth : Nat)
    (state : σ)
    (entries : List (String × Entry)) :
    project <$> visitEach id visit depth state entries =
      visitEach id plain depth (project state) entries := by
  fun_induction visitEach id visit depth state entries with
  | case1 state =>
      rw [visitEach, map_pure]
  | case2 state path entry rest isDirectory following restHypothesis =>
      rw [visitEach, if_pos isDirectory, pure_bind, pure_bind]
      exact restHypothesis state
  | case3 state path entry rest isDirectory depth following restHypothesis belowHypothesis =>
      rw [visitEach_directory isDirectory, map_bind]
      refine bind_congr fun entries => ?_
      rw [← belowHypothesis, bind_map_left, map_bind]
      exact bind_congr restHypothesis
  | case4 depth state path entry rest following isFile restHypothesis =>
      rw [visitEach_file isFile, ← same, bind_map_left, map_bind]
      exact bind_congr restHypothesis

/-- Do something and note the text that it was done at. -/
def noting
    (visit : σ → String → ConsoleAction σ)
    (noted : List String × σ)
    (text : String) :
    ConsoleAction (List String × σ) := do
  let next ← visit noted.2 text
  return (noted.1 ++ [text], next)

/-- Notes are beside the point. -/
theorem verifyEach_eq_noting
    (id : StoreId)
    (depth : Nat)
    (tally : Tally)
    (noted : List String)
    (entries : List (String × Entry)) :
    verifyEach id depth tally entries =
      Prod.snd <$> visitEach id (noting (verifyFile id)) depth (noted, tally) entries := by
  have same (state : List String × Tally) (text : String) :
      Prod.snd <$> noting (verifyFile id) state text = verifyFile id state.2 text := by
    rw [noting, map_bind]
    simp only [map_pure, bind_pure]
  rw [verifyEach_eq_visitEach, map_visitEach same]

section Visiting

variable
  {id : StoreId}
  {tables : Tables}
  {start names : List Name}
  {entries : List Entry}
  {forest : Forest}
  {base : String}
  {visit : σ → String → ConsoleAction σ}
  {lines : TreePlace → List String}
  {next : σ → TreePlace → σ}

/-- It is told what is in a directory. -/
theorem listOf_tells
    (id : StoreId)
    (tables : Tables)
    (directory : Int) :
    HostAction.Tells id tables (HostAction.on id (Store.listOf directory))
      (tables.listing directory) := by
  refine .reading fun store alone outside same => ?_
  rw [Action.runOn_query alone, Action.noting_of_outside store outside, same]

/-- What is done at the files of a forest is done once at each and in their order, at the texts that
they are spelled with. -/
theorem visitEach_reports
    (isForest : tables.IsForest start names entries forest)
    (visits :
      ∀ state, ∀ place ∈ forest.files,
        Reports id tables (visit state (spelled base place.names)) (lines place)
          (.ok (next state place)))
    {depth : Nat}
    (deep : forest.height ≤ depth)
    (state : σ) :
    Reports id tables
      (visitEach id visit depth state
        (entries.map fun child => (below (spelled base names) child.name, child)))
      (forest.files.flatMap lines) (.ok (forest.files.foldl next state)) := by
  induction isForest generalizing depth state with
  | none =>
      rw [List.map_nil, visitEach]
      exact .pure state
  | @node names name entry rest below beside here inside others insideHypothesis
      othersHypothesis =>
      have called : entry.name = name.text := by
        rw [← List.append_assoc] at here
        obtain ⟨-, -, -, -, -, -, called⟩ := here.of_concat
        exact called
      rw [List.map_cons, called, ← spelled_concat]
      cases isDirectory : entry.isDirectory with
      | false =>
          rw [Tables.within, isDirectory, if_neg Bool.false_ne_true] at inside
          cases inside
          rw [Forest.files_node_file isDirectory] at visits ⊢
          rw [visitEach_file (by simp [isDirectory]), List.flatMap_cons, List.foldl_cons]
          refine (visits state _ List.mem_cons_self).bind (othersHypothesis ?_ ?_ _)
          · exact fun state place member => visits state place (List.mem_cons_of_mem _ member)
          · exact le_trans (le_max_right _ _) deep
      | true =>
          rw [Tables.within, isDirectory, if_pos rfl] at inside insideHypothesis
          rw [Forest.files_node_directory isDirectory] at visits ⊢
          rw [List.flatMap_append, List.foldl_append]
          have shallower : below.height + 1 ≤ depth := le_trans (le_max_left _ _) deep
          obtain ⟨depth, rfl⟩ := Nat.exists_eq_add_of_le' (le_trans (Nat.le_add_left 1 _) shallower)
          rw [visitEach_directory isDirectory]
          refine (Reports.onStore (listOf_tells id tables entry.id)).follows ?_
          refine Reports.bind (insideHypothesis ?_ (Nat.le_of_succ_le_succ shallower) state)
            (othersHypothesis ?_ ?_ _)
          · exact fun state place member => visits state place (List.mem_append_left _ member)
          · exact fun state place member => visits state place (List.mem_append_right _ member)
          · exact le_trans (le_max_right _ _) deep

end Visiting

/-! ## Comparing -/

/-- One file more was compared. -/
def Tally.counting (tally : Tally) (agrees : Prop) [Decidable agrees] : Tally where
  checked := tally.checked + 1
  failed := tally.failed + if agrees then 0 else 1

/-- The files whose bytes are not what their rows say of them. -/
def differing (tables : Tables) (files : List TreePlace) : List TreePlace :=
  files.filter fun place => ¬tables.Records place.entry

/-- The lines that tell which files differ. -/
def failures (tables : Tables) (base : String) (files : List TreePlace) : List String :=
  (differing tables files).map fun place => "FAILED /" ++ spelled base place.names

/-- The line that tells how many files were compared, and how many of them differ. -/
def counts (tally : Tally) : String :=
  toString tally.checked ++ " files checked, " ++ toString tally.failed ++ " failed"

/-- What is told at the end of all comparisons. -/
def report (tally : Tally) : ConsoleAction Unit := do
  printLine (counts tally)
  if tally.failed > 0 then
    fail (toString tally.failed ++ " files failed verification")

/-- The command compares files and reports. -/
theorem verify_eq
    (id : StoreId)
    (text : String) :
    verify id text =
      entryAt id text >>= fun entry =>
        get >>= fun console =>
          verifyEach id ((console.host.store id).tables.directories.length + 1) {}
            [(Path.trim text, entry)] >>= report :=
  rfl

section Comparing

variable
  {id : StoreId}
  {tables : Tables}
  {entry : Entry}
  {files : List TreePlace}

/-- It is told whether the bytes of a file are what its row says of them. -/
theorem verify_tells
    (ordered : tables.Ordered)
    (isPath : CleanPath.ofText text = .ok path)
    (found : tables.lookupAt? path = some entry)
    (isFile : entry.isDirectory = false)
    (id : StoreId) :
    HostAction.Tells id tables (HostAction.on id (Store.verify text))
      (decide (tables.Records entry)) := by
  rw [Store.verify, Txn.clean, isPath]
  refine .reading fun store alone outside same => ?_
  have compared :
      Txn.isIntact entry (tables.contents entry.id) = decide (tables.Records entry) :=
    Bool.eq_iff_iff.mpr ((Txn.isIntact_iff ordered).trans decide_eq_true_iff.symm)
  rw [Txn.verifyAt, Action.runOn_bind, Store.runOn_requireFile alone outside, same, found]
  dsimp only
  rw [isFile, if_neg Bool.false_ne_true]
  dsimp only
  rw [Action.runOn_query alone, Action.noting_of_outside store outside, same, compared]

/-- A file is compared, and a line tells when it differs. -/
theorem verifyFile_reports
    (ordered : tables.Ordered)
    (isPath : CleanPath.ofText text = .ok path)
    (found : tables.lookupAt? path = some entry)
    (isFile : entry.isDirectory = false)
    (tally : Tally) :
    Reports id tables (verifyFile id tally text)
      (if tables.Records entry then [] else ["FAILED /" ++ text])
      (.ok (tally.counting (tables.Records entry))) := by
  rw [verifyFile]
  refine (Reports.onStore (verify_tells ordered isPath found isFile id)).follows ?_
  rw [Tally.counting]
  by_cases agrees : tables.Records entry
  · rw [decide_eq_true agrees, if_pos rfl, if_pos agrees, if_pos agrees]
    exact .pure _
  · rw [decide_eq_false agrees, if_neg Bool.false_ne_true, if_neg agrees, if_neg agrees]
    exact (Reports.printLine _).returns _

/-- Files are noted and counted one after the other. -/
theorem foldl_counting
    (tables : Tables)
    (base : String)
    (files : List TreePlace)
    (texts : List String)
    (tally : Tally) :
    files.foldl
        (fun (noted : List String × Tally) place =>
          (noted.1 ++ [spelled base place.names], noted.2.counting (tables.Records place.entry)))
        (texts, tally) =
      (texts ++ files.map fun place => spelled base place.names,
        ⟨tally.checked + files.length, tally.failed + (differing tables files).length⟩) := by
  induction files generalizing texts tally with
  | nil =>
      simp [differing]
  | cons place rest inductionHypothesis =>
      rw [List.foldl_cons, inductionHypothesis, differing, differing, List.filter_cons]
      by_cases agrees : tables.Records place.entry
      · simp [Tally.counting, agrees, Nat.add_assoc, Nat.add_comm 1]
      · simp [Tally.counting, agrees, Nat.add_assoc, Nat.add_comm 1]

/-- One line for every file that differs. -/
theorem flatMap_failures
    (tables : Tables)
    (base : String)
    (files : List TreePlace) :
    (files.flatMap fun place =>
        if tables.Records place.entry then [] else ["FAILED /" ++ spelled base place.names]) =
      failures tables base files := by
  induction files with
  | nil =>
      rfl
  | cons place rest inductionHypothesis =>
      rw [List.flatMap_cons, inductionHypothesis, failures, failures, differing, differing,
        List.filter_cons]
      by_cases agrees : tables.Records place.entry <;> simp [agrees]

/-- At the end of all comparisons their numbers are told, and it is a failure if files differ. -/
theorem report_reports
    (tally : Tally) :
    Reports id tables (report tally) [counts tally]
      (if tally.failed = 0 then .ok ⟨⟩
        else .error { message := toString tally.failed ++ " files failed verification" }) := by
  rw [← List.append_nil [counts tally]]
  refine (Reports.printLine _).bind ?_
  by_cases all : tally.failed = 0
  · rw [if_pos all, if_neg (by omega)]
    exact .pure _
  · rw [if_neg all, if_pos (Nat.pos_of_ne_zero all)]
    exact .throw _

end Comparing

/-- What verifying at a text comes to where some files are at its path and below it. -/
structure Verifies (id : StoreId) (tables : Tables) (text : String) (path : CleanPath)
    (entry : Entry) (files : List TreePlace) : Prop where
  filesAt : tables.FilesAt path files
  /-- Every file is compared at a text that leads to it. -/
  leads :
    ∀ place ∈ files,
      CleanPath.ofText (spelled (Path.trim text) place.names) = .ok ⟨path.names ++ place.names⟩
  /-- The files are compared in their order, once each, and at nothing else: these are the texts
  that are noted, however much deeper than there are directories one may go. -/
  compares :
    ∀ depth > tables.directories.length,
      Reports id tables
        (visitEach id (noting (verifyFile id)) depth ([], {}) [(Path.trim text, entry)])
        (failures tables (Path.trim text) files)
        (.ok (files.map fun place => spelled (Path.trim text) place.names,
          ⟨files.length, (differing tables files).length⟩))
  /-- Without the notes it is what the command does. -/
  erases :
    ∀ depth,
      Prod.snd <$> visitEach id (noting (verifyFile id)) depth ([], {}) [(Path.trim text, entry)] =
        verifyEach id depth {} [(Path.trim text, entry)]
  reports :
    Reports id tables (verify id text)
      (failures tables (Path.trim text) files ++
        [counts ⟨files.length, (differing tables files).length⟩])
      (if differing tables files = [] then .ok ⟨⟩
        else .error
          { message :=
              toString (differing tables files).length ++ " files failed verification" })

section Verifying

variable
  {id : StoreId}
  {tables : Tables}
  {host : Host}
  {entry : Entry}
  {forest : Forest}

/-- The entry at the path of a text is told, and the store is left with the tables. -/
theorem entryAt_comes
    (presents : host.Presents id tables)
    (isPath : CleanPath.ofText text = .ok path)
    (found : tables.lookupAt? path = some entry) :
    ∃ left,
      Comes (entryAt id text) host (.ok entry) left ∧
        left.Presents id tables ∧ (left.store id).tables = tables := by
  have answers (store : Store) (alone : store.Alone) (outside : store.savepoints = [])
      (same : store.tables = tables) :
      (Txn.entryAt? path).runOn store = (.ok (some entry), store) := by
    rw [Txn.entryAt?, Action.runOn_query alone, Action.noting_of_outside store outside, ← found,
      ← same]
    rfl
  obtain ⟨left, ran, sameTables, presentsLeft⟩ := presents.runOn_reading answers
  have asked : (Store.stat text).runOn (host.found id) = (.ok (some entry), left) := by
    rw [Store.stat, Txn.clean, isPath]
    exact ran
  refine ⟨host.keep id left, (Comes.onStore asked).bind (.pure entry _), presentsLeft, ?_⟩
  rw [Host.store_keep_self, if_pos presents.there, sameTables]

/-- The files of a forest are compared one after the other, at texts that lead to them. -/
theorem visitEach_compares
    (coherent : tables.Coherent)
    (ordered : tables.Ordered)
    (isPath : CleanPath.ofText text = .ok path)
    (here : tables.At path.names entry)
    (isForest : tables.IsForest path.names [] (tables.within entry) forest)
    {depth : Nat}
    (deep : tables.directories.length < depth) :
    let files := filesFrom entry forest
    Reports id tables
      (visitEach id (noting (verifyFile id)) depth ([], {}) [(Path.trim text, entry)])
      (failures tables (Path.trim text) files)
      (.ok (files.map fun place => spelled (Path.trim text) place.names,
        ⟨files.length, (differing tables files).length⟩)) := by
  intro files
  have filesAt := filesAt_filesFrom coherent here isForest
  let base := Path.trim text
  let next (noted : List String × Tally) (place : TreePlace) : List String × Tally :=
    (noted.1 ++ [spelled base place.names], noted.2.counting (tables.Records place.entry))
  let lines (place : TreePlace) : List String :=
    if tables.Records place.entry then [] else ["FAILED /" ++ spelled base place.names]
  have visits (noted : List String × Tally) (place : TreePlace) (member : place ∈ files) :
      Reports id tables (noting (verifyFile id) noted (spelled base place.names)) (lines place)
        (.ok (next noted place)) := by
    obtain ⟨isFile, there⟩ := (filesAt.mem_iff place).mp member
    have leads := ofText_spelled (CleanPath.ofText_trim isPath) place.names
    exact (verifyFile_reports ordered leads there isFile noted.2).returns _
  rw [← flatMap_failures, ← List.nil_append (files.map _), ← Nat.zero_add files.length,
    ← Nat.zero_add (differing tables files).length]
  rw [← foldl_counting tables base files [] {}]
  cases isDirectory : entry.isDirectory with
  | false =>
      have alone : files = [⟨[], entry⟩] := by
        rw [Tables.within, isDirectory, if_neg Bool.false_ne_true] at isForest
        cases isForest
        simp [files, filesFrom, Forest.topDown, isDirectory]
      rw [alone] at visits ⊢
      rw [visitEach_file (by simp [isDirectory])]
      have visited := visits ([], {}) ⟨[], entry⟩ List.mem_cons_self
      refine visited.bind ?_
      rw [visitEach]
      exact .pure _
  | true =>
      have below : files = forest.files := by
        simp [files, filesFrom, Forest.files, isDirectory]
      rw [below] at visits ⊢
      obtain ⟨depth, rfl⟩ := Nat.exists_eq_add_of_le' (Nat.one_le_of_lt deep)
      rw [visitEach_directory isDirectory]
      have shallow := isForest.height_le_of_at coherent here isDirectory
      rw [Tables.within, isDirectory, if_pos rfl] at isForest
      refine (Reports.onStore (listOf_tells id tables entry.id)).follows ?_
      have visited :=
        visitEach_reports isForest visits (Nat.le_of_lt_succ (lt_of_le_of_lt shallow deep)) ([], {})
      refine List.append_nil (forest.files.flatMap lines) ▸ visited.bind ?_
      rw [visitEach]
      exact .pure _

/-- The command compares files and then reports how many differ. -/
theorem verify_reports
    (coherent : tables.Coherent)
    (ordered : tables.Ordered)
    (isPath : CleanPath.ofText text = .ok path)
    (here : tables.At path.names entry)
    (isForest : tables.IsForest path.names [] (tables.within entry) forest) :
    let files := filesFrom entry forest
    Reports id tables (verify id text)
      (failures tables (Path.trim text) files ++
        [counts ⟨files.length, (differing tables files).length⟩])
      (if differing tables files = [] then .ok ⟨⟩
        else .error
          { message :=
              toString (differing tables files).length ++ " files failed verification" }) := by
  intro files host output presents
  obtain ⟨middle, comes, presentsMiddle, same⟩ :=
    entryAt_comes presents isPath (coherent.lookupAt?_eq_some_iff.mpr here)
  let tally : Tally := ⟨files.length, (differing tables files).length⟩
  have compares :
      Reports id tables
        (verifyEach id (tables.directories.length + 1) {} [(Path.trim text, entry)])
        (failures tables (Path.trim text) files) (.ok tally) := by
    rw [verifyEach_eq_noting _ _ _ []]
    exact
      (visitEach_compares coherent ordered isPath here isForest (Nat.lt_succ_self _)).returns
        Prod.snd
  obtain ⟨left, ran, presentsLeft⟩ :=
    compares.bind (report_reports tally) middle output presentsMiddle
  refine ⟨left, ?_, presentsLeft⟩
  rw [verify_eq, run_bind, comes output]
  dsimp only
  rw [run_bind, run_get]
  dsimp only
  rw [same, ran]
  simp only [tally, List.length_eq_zero_iff]

end Verifying

/-- In every state that a store can reach, verifying at a text of a live entry compares every live
file at its path or below it with its row, once each in the order of names, and it fails if one of
them differs. -/
theorem verify_compares_of_reachable
    {config : Config}
    (named : ∀ root ∈ config.roots, IsName root)
    (distinct : config.roots.Nodup)
    {timed : Bool}
    {since : Int}
    {session : Session}
    (reachable :
      Session.Reachable (fun _ _ _ => True) (Session.start config timed since) session)
    (isPath : CleanPath.ofText text = .ok path)
    {entry : Entry}
    (found : session.store.tables.lookupAt? path = some entry)
    (id : StoreId) :
    ∃ files, Verifies id session.store.tables text path entry files := by
  obtain ⟨sound, modest⟩ := Session.Modest.of_reachable named distinct reachable
  have coherent := sound.all.tables.coherent
  have ordered := modest.ordered.tables
  have here := coherent.lookupAt?_eq_some_iff.mp found
  have grown : session.store.tables.At (path.names ++ []) entry := by
    rwa [List.append_nil]
  obtain ⟨forest, isForest⟩ := coherent.exists_isForest grown
  exact ⟨filesFrom entry forest,
    { filesAt := filesAt_filesFrom coherent here isForest
      leads := fun place _ => ofText_spelled (CleanPath.ofText_trim isPath) place.names
      compares := fun depth deep => visitEach_compares coherent ordered isPath here isForest deep
      erases := fun depth => (verifyEach_eq_noting id depth {} [] _).symm
      reports := verify_reports coherent ordered isPath here isForest }⟩

/-- At a winding text of a directory every file below it is compared. One that is still being
written differs from its row. -/
theorem verify_compares_winding :
    let session :=
      ((Session.start {} false 0).after 1
        (.whole (.write "home/a/x" ⟨#[1]⟩ none none))).after 2
          (.openWriter "home/b" false)
    let host : Host := { stores := #[session.store] }
    let home : Name := ⟨"home", by decide⟩
    host.Presents 0 session.store.tables ∧
      ∃ entry files,
        Verifies 0 session.store.tables "//home/./a/../" ⟨[home]⟩ entry files ∧
          ∀ pair ∈ ([([⟨"a", by decide⟩, ⟨"x", by decide⟩], true), ([⟨"b", by decide⟩], false)] :
              List (List Name × Bool)),
            ∃ place ∈ files,
              place.names = pair.1 ∧
                decide (session.store.tables.Records place.entry) = pair.2 := by
  intro session host home
  have written :
      Session.Step (fun _ _ _ => True) (Session.start {} false 0)
        ((Session.start {} false 0).after 1
          (.whole (.write "home/a/x" ⟨#[1]⟩ none none))) :=
    .event trivial trivial
  have reachable : Session.Reachable (fun _ _ _ => True) (Session.start {} false 0) session :=
    (Relation.ReflTransGen.single written).tail (.event trivial trivial)
  have sound : session.Sound False :=
    Session.Sound.of_reachable (.start (by decide) (by decide) false 0) (fun absurd => absurd.elim)
      reachable
  have free : session.store.savepoints.isEmpty = true ∧ session.store.closed = false := by
    decide +kernel
  have unfiled : session.store.connected = true ∧ session.store.file = none := by
    decide +kernel
  have isPath : CleanPath.ofText "//home/./a/../" = .ok ⟨[home]⟩ := by
    decide
  have held : (session.store.tables.lookupAt? ⟨[home]⟩).isSome = true := by
    decide +kernel
  have stored :
      ∀ pair ∈ ([([⟨"a", by decide⟩, ⟨"x", by decide⟩], true), ([⟨"b", by decide⟩], false)] :
          List (List Name × Bool)),
        ∃ entry ∈ session.store.tables.lookupAt? ⟨[home] ++ pair.1⟩,
          entry.isDirectory = false ∧
            decide (session.store.tables.Records entry) = pair.2 := by
    decide +kernel
  clear_value session
  obtain ⟨entry, found⟩ := Option.isSome_iff_exists.mp held
  obtain ⟨files, verifies⟩ :=
    verify_compares_of_reachable (by decide) (by decide) reachable isPath found 0
  have isFound : host.found 0 = session.store :=
    Host.found_single unfiled.1 unfiled.2 sound.steady.others
  refine ⟨⟨Nat.zero_lt_one, ?_, congrArg Store.tables isFound⟩, entry, files, verifies, ?_⟩
  · rw [isFound]
    exact ⟨sound.steady, List.isEmpty_iff.mp free.1, free.2⟩
  · intro pair member
    obtain ⟨row, isRow, isFile, agrees⟩ := stored pair member
    exact ⟨⟨pair.1, row⟩, (verifies.filesAt.mem_iff _).mpr ⟨isFile, isRow⟩, rfl, agrees⟩

end Command

end VersionStore
