import VersionStore.Proofs.Tree.Sweep

namespace VersionStore.Txn

/-!
# The sweep is exact

Where every entry lies in a directory with a row, a sweep leaves exactly what it has to:
all that is live, the trashed files that were not accepted, and the trashed directories
that still have a file below them, at any depth. What it removes it counts. A second sweep
with a selector that minds only the entry it is asked about finds nothing to do.
-/

open Tables

variable {before after tables : Tables} {files gone : List Int}

/-- What a sweep has to leave of some tables, by the files that were accepted. -/
structure Swept (before : Tables) (accepted : List TrashEntry) (counts : Nat × Nat)
    (after : Tables) : Prop where
  entries : after.entries.Sublist before.entries
  /-- All that is live is left. -/
  live : ∀ entry ∈ before.entries, entry.isDeleted = false → entry ∈ after.entries
  /-- Of the trashed files exactly those are left that were not accepted. -/
  files :
    ∀ entry ∈ before.entries,
      isTrashedFile entry = true →
      (entry ∈ after.entries ↔ entry ∉ accepted.map (·.entry))
  /-- Of the trashed directories exactly those are left that have a file below them. -/
  directories :
    ∀ entry ∈ before.entries,
      entry.isDeleted = true →
      entry.isDirectory = true →
      (entry ∈ after.entries ↔
        ∃ file ∈ after.entries, file.isDirectory = false ∧ before.Below entry.id file.id)
  /-- The row of a directory goes with its entry. -/
  rows :
    after.directories =
      before.directories.filter fun row => ∃ entry ∈ after.entries, entry.id = row.id
  parts :
    after.parts = before.parts.filter fun part => part.fileId ∉ accepted.map (·.entry.id)
  links :
    after.links = before.links.filter fun link => link.source ∉ accepted.map (·.entry.id)
  targets : after.targets = before.targets
  lastEntryId : after.lastEntryId = before.lastEntryId
  lastPartId : after.lastPartId = before.lastPartId
  fileCount :
    before.entries.countP Entry.isFile = after.entries.countP Entry.isFile + counts.1
  directoryCount :
    before.entries.countP (·.isDirectory) = after.entries.countP (·.isDirectory) + counts.2

/-! ## What is left -/

/-- Where every entry lies in a directory with a row, the whole trash is listed. -/
theorem exists_mem_trash
    (coherent : tables.Coherent)
    (integral : tables.Integral)
    {entry : Entry}
    (member : entry ∈ tables.entries)
    (deleted : entry.isDeleted = true) :
    ∃ directory, ⟨directory, entry⟩ ∈ tables.trash := by
  obtain ⟨row, rowMember, holds⟩ := integral entry member
  have isPath := coherent.directoryPath?_eq_some rowMember
  rw [holds] at isPath
  exact ⟨row.path, mem_trash_iff.mpr ⟨member, deleted, isPath⟩⟩

/-- Every trashed directory is one that a sweep may remove. -/
theorem mem_trashedDirectories
    (coherent : tables.Coherent)
    (integral : tables.Integral)
    {entry : Entry}
    (member : entry ∈ tables.entries)
    (deleted : entry.isDeleted = true)
    (isDirectory : entry.isDirectory = true) :
    entry ∈ trashedDirectories tables := by
  obtain ⟨directory, listed⟩ := exists_mem_trash coherent integral member deleted
  exact List.mem_map.mpr ⟨_, List.mem_filter.mpr ⟨listed, isDirectory⟩, rfl⟩

/-- Some number is at least as great as all values over a list. -/
private theorem exists_bound
    (rows : List α)
    (value : α → Nat) :
    ∃ bound, ∀ row ∈ rows, value row ≤ bound := by
  induction rows with
  | nil =>
      exact ⟨0, by simp⟩
  | cons first rest inductionHypothesis =>
      obtain ⟨bound, bounded⟩ := inductionHypothesis
      refine ⟨value first + bound, fun row member => ?_⟩
      rcases List.mem_cons.mp member with rfl | later
      · omega
      · have := bounded row later
        omega

namespace Collected

/-- A trashed directory that is left is used by something that lies in it. -/
theorem exists_held
    (collected : Collected before files gone after)
    (coherent : before.Coherent)
    (integral : before.Integral)
    {entry : Entry}
    (left : entry ∈ after.entries)
    (deleted : entry.isDeleted = true)
    (isDirectory : entry.isDirectory = true) :
    ∃ held ∈ after.entries, held.directoryId = entry.id ∧ held.isDeleted = true := by
  obtain ⟨member, -, notGone⟩ := collected.mem_entries.mp left
  have used := collected.used entry
    (mem_trashedDirectories coherent integral member deleted isDirectory) notGone
  obtain ⟨user, userLeft, uses⟩ := usage_ne_zero_iff.mp used
  have userMember := (collected.mem_entries.mp userLeft).1
  have notLive : ∀ other ∈ before.entries, other.id = entry.id → other.isDeleted = true := by
    intro other otherMember same
    rwa [coherent.entry_eq otherMember member same]
  rcases uses with held | ⟨own, live⟩
  · refine ⟨user, userLeft, held, ?_⟩
    by_contra live
    obtain ⟨holder, isLive, same⟩ :=
      coherent.placed user userMember (Bool.eq_false_iff.mpr live)
    have trashed := notLive holder isLive.member (same.trans held)
    rw [isLive.live] at trashed
    exact Bool.false_ne_true trashed
  · rw [notLive user userMember own] at live
    exact (Bool.false_ne_true live.symm).elim

/-- Below a trashed directory that is left there is a file that is left. -/
theorem exists_file
    (collected : Collected before files gone after)
    (coherent : before.Coherent)
    (integral : before.Integral)
    {entry : Entry}
    (left : entry ∈ after.entries)
    (deleted : entry.isDeleted = true)
    (isDirectory : entry.isDirectory = true) :
    ∃ file ∈ after.entries, file.isDirectory = false ∧ before.Below entry.id file.id := by
  obtain ⟨rank, ranked⟩ := coherent.ranked
  obtain ⟨bound, bounded⟩ := exists_bound before.entries fun entry => rank entry.id
  -- Ranks rise on the way down and are bounded, so that the way down ends in a file.
  induction room : bound - rank entry.id using Nat.strong_induction_on generalizing entry with
  | _ room inductionHypothesis =>
      obtain ⟨held, heldLeft, lies, heldDeleted⟩ :=
        collected.exists_held coherent integral left deleted isDirectory
      have heldMember := (collected.mem_entries.mp heldLeft).1
      have proper : held.id ≠ rootId := by
        intro isRoot
        rw [(coherent.isTop heldMember isRoot).live] at heldDeleted
        exact Bool.false_ne_true heldDeleted
      have below : before.Below entry.id held.id :=
        .step heldMember proper (lies ▸ .self)
      cases kind : held.isDirectory with
      | false =>
          exact ⟨held, heldLeft, kind, below⟩
      | true =>
          have rises := ranked held heldMember proper
          rw [lies] at rises
          have within := bounded held heldMember
          obtain ⟨file, fileLeft, isFile, further⟩ :=
            inductionHypothesis (bound - rank held.id) (by omega) heldLeft heldDeleted kind rfl
          exact ⟨file, fileLeft, isFile, below.trans further⟩

/-- What is above something that is left was not removed as a directory. -/
theorem notMem_gone_of_below
    (collected : Collected before files gone after)
    (coherent : before.Coherent)
    (integral : before.Integral)
    {above below : Int}
    (lies : before.Below above below)
    (notFile : ∀ entry ∈ before.entries, entry.id = below → entry.id ∉ files)
    (notGone : below ∉ gone) :
    above ∉ gone := by
  induction lies with
  | self =>
      exact notGone
  | @step entry member proper holder inductionHypothesis =>
      refine inductionHypothesis ?_ ?_
      · intro other otherMember same
        exact collected.notMem_files coherent otherMember
          (coherent.isDirectory_of_holds integral member otherMember same)
      · intro holderGone
        rcases collected.closed entry member holderGone with isFile | isGone
        · exact notFile entry member rfl isFile
        · exact notGone isGone

/-- A directory with a row is left exactly as long as its row is. -/
theorem usage_ne_zero_iff_mem
    (collected : Collected before files gone after)
    (coherent : before.Coherent)
    (integral : before.Integral)
    {row : Directory}
    (rowMember : row ∈ before.directories) :
    after.usage row.id ≠ 0 ↔ ∃ entry ∈ after.entries, entry.id = row.id := by
  obtain ⟨owner, ownerMember, owns, isDirectory⟩ := coherent.owned row rowMember
  constructor
  · intro used
    exact ⟨owner, collected.owner_mem coherent ownerMember isDirectory (owns ▸ used), owns⟩
  · rintro ⟨entry, left, same⟩
    have member := (collected.mem_entries.mp left).1
    have isOwner := coherent.entry_eq member ownerMember (same.trans owns.symm)
    subst isOwner
    cases deleted : entry.isDeleted with
    | false =>
        exact usage_ne_zero_iff.mpr ⟨entry, left, .inr ⟨same, deleted⟩⟩
    | true =>
        rw [← same]
        exact collected.used entry
          (mem_trashedDirectories coherent integral member deleted isDirectory)
          (collected.mem_entries.mp left).2.2

end Collected

/-! ## Counts -/

/-- Ids that are each in use once are as many as the entries that have them. -/
private theorem countP_mem_ids
    {rows : List Entry}
    (ordered : (rows.map (·.id)).Pairwise (· < ·))
    {ids : List Int}
    (nodup : ids.Nodup)
    (present : ∀ id ∈ ids, ∃ row ∈ rows, row.id = id) :
    rows.countP (fun row => row.id ∈ ids) = ids.length := by
  rw [List.countP_eq_length_filter, ← List.length_map (f := (·.id))]
  apply List.Perm.length_eq
  refine (List.perm_ext_iff_of_nodup ?_ nodup).mpr fun id => ?_
  · exact (ordered.sublist (List.filter_sublist.map _)).imp Int.ne_of_lt
  · rw [List.mem_map]
    constructor
    · rintro ⟨row, member, rfl⟩
      simpa using (List.mem_filter.mp member).2
    · intro member
      obtain ⟨row, rowMember, rfl⟩ := present id member
      exact ⟨row, List.mem_filter.mpr ⟨rowMember, by simpa using member⟩, rfl⟩

/-- Rows of one kind are those that are kept and those that are not. -/
private theorem countP_split
    {rows : List Entry}
    {kind keep : Entry → Bool} :
    rows.countP kind =
      (rows.filter keep).countP kind + rows.countP fun row => kind row && !keep row := by
  induction rows with
  | nil =>
      rfl
  | cons row rest inductionHypothesis =>
      rw [List.filter_cons]
      cases kindRow : kind row <;> cases keepRow : keep row <;>
        simp [kindRow, keepRow, inductionHypothesis] <;> omega

namespace Collected

/-- The files that are left and those that were accepted are all files there were. -/
theorem fileCount
    (collected : Collected before files gone after)
    (coherent : before.Coherent) :
    before.entries.countP Entry.isFile = after.entries.countP Entry.isFile + files.length := by
  rw [collected.entries, countP_split, ← countP_mem_ids coherent.ids collected.filesNodup
    fun id member => by
      obtain ⟨entry, entryMember, same, -⟩ := collected.isFile id member
      exact ⟨entry, entryMember, same⟩]
  congr 1
  apply List.countP_congr
  intro entry member
  simp only [Entry.isFile, Bool.and_eq_true, Bool.not_eq_true', decide_eq_false_iff_not,
    decide_eq_true_eq]
  constructor
  · rintro ⟨isFile, erased⟩
    have notGone := collected.notMem_gone coherent member isFile
    by_contra notFile
    exact erased ⟨notFile, notGone⟩
  · intro isFile
    obtain ⟨other, otherMember, same, -, kind⟩ := collected.isFile _ isFile
    rw [coherent.entry_eq otherMember member same] at kind
    exact ⟨kind, fun left => left.1 isFile⟩

/-- The directories that are left and those that are gone are all directories there were. -/
theorem directoryCount
    (collected : Collected before files gone after)
    (coherent : before.Coherent) :
    before.entries.countP (·.isDirectory) =
      after.entries.countP (·.isDirectory) + gone.length := by
  rw [collected.entries, countP_split, ← countP_mem_ids coherent.ids collected.goneNodup
    fun id member => by
      obtain ⟨entry, entryMember, same, -⟩ := collected.isDirectory id member
      exact ⟨entry, entryMember, same⟩]
  congr 1
  apply List.countP_congr
  intro entry member
  simp only [Bool.and_eq_true, Bool.not_eq_true', decide_eq_false_iff_not, decide_eq_true_eq]
  constructor
  · rintro ⟨isDirectory, erased⟩
    have notFile := collected.notMem_files coherent member isDirectory
    by_contra notGone
    exact erased ⟨notFile, notGone⟩
  · intro isGone
    obtain ⟨other, otherMember, same, -, kind⟩ := collected.isDirectory _ isGone
    rw [coherent.entry_eq otherMember member same] at kind
    exact ⟨kind, fun left => left.2 isGone⟩

end Collected

/-! ## Exactness -/

/-- A sweep leaves exactly what it has to. -/
theorem sweepTables_swept
    (coherent : before.Coherent)
    (integral : before.Integral)
    (select? : Option Selector) :
    Swept before (accepted select? before) (sweepTables select? before).1
      (sweepTables select? before).2 := by
  obtain ⟨gone, collected, counts⟩ := sweepTables_collected coherent select?
  constructor
  case entries =>
    exact (collected.thinned coherent).entries
  case live =>
    exact fun entry member live => collected.live_mem coherent member live
  case files =>
    intro entry member isTrashed
    simp only [isTrashedFile, Bool.and_eq_true, Bool.not_eq_true'] at isTrashed
    have notGone := collected.notMem_gone coherent member isTrashed.2
    have sameIds :
        entry.id ∈ (accepted select? before).map (·.entry.id) ↔
          entry ∈ (accepted select? before).map (·.entry) := by
      constructor
      · intro listed
        obtain ⟨trashed, isAccepted, same⟩ := List.mem_map.mp listed
        have trashedMember := (of_mem_accepted isAccepted).1
        exact List.mem_map.mpr ⟨trashed, isAccepted, coherent.entry_eq trashedMember member same⟩
      · intro listed
        obtain ⟨trashed, isAccepted, rfl⟩ := List.mem_map.mp listed
        exact List.mem_map.mpr ⟨trashed, isAccepted, rfl⟩
    rw [collected.mem_entries, sameIds]
    exact ⟨fun left => left.2.1, fun notAccepted => ⟨member, notAccepted, notGone⟩⟩
  case directories =>
    intro entry member deleted isDirectory
    constructor
    · intro left
      exact collected.exists_file coherent integral left deleted isDirectory
    · rintro ⟨file, left, -, below⟩
      obtain ⟨fileMember, notFile, fileNotGone⟩ := collected.mem_entries.mp left
      refine collected.mem_entries.mpr
        ⟨member, collected.notMem_files coherent member isDirectory, ?_⟩
      refine collected.notMem_gone_of_below coherent integral below ?_ fileNotGone
      intro other otherMember same
      rwa [same]
  case rows =>
    rw [collected.directories]
    apply List.filter_congr
    intro row member
    rw [decide_eq_decide]
    exact collected.usage_ne_zero_iff_mem coherent integral member
  case parts =>
    exact collected.parts
  case links =>
    exact collected.links
  case targets =>
    exact collected.targets
  case lastEntryId =>
    exact collected.lastEntryId
  case lastPartId =>
    exact collected.lastPartId
  case fileCount =>
    rw [counts, collected.fileCount coherent, List.length_map]
  case directoryCount =>
    rw [counts]
    exact collected.directoryCount coherent

/-! ## Who is asked about what -/

/-- The answers of a predicate with a state of its own that is asked about entries in order:
the entries it accepts, and the state it is left in. -/
def askEach (ask : σ → TrashEntry → Bool × σ) (state : σ) :
    List TrashEntry → List TrashEntry × σ
  | [] => ([], state)
  | entry :: rest =>
      let (yes, next) := ask state entry
      let (accepted, final) := askEach ask next rest
      (if yes then entry :: accepted else accepted, final)

/-- A predicate with a state of its own as a selector, which derives the state from what was
asked before. -/
def Selector.ofStateful (ask : σ → TrashEntry → Bool × σ) (start : σ) : Selector :=
  fun asked entry =>
    (ask (asked.foldr (fun earlier state => (ask state earlier).2) start) entry).1

/-- A selector accepts what its predicate accepts when that is asked about each entry once. -/
theorem Selector.filter_ofStateful
    (ask : σ → TrashEntry → Bool × σ)
    (start : σ)
    (entries : List TrashEntry) :
    (Selector.ofStateful ask start).filter entries = (askEach ask start entries).1 := by
  have shape :
      ∀ asked,
        (Selector.ofStateful ask start).filterFrom asked entries =
          (askEach ask (asked.foldr (fun earlier state => (ask state earlier).2) start)
            entries).1 := by
    induction entries with
    | nil =>
        intro asked
        rfl
    | cons entry rest inductionHypothesis =>
        intro asked
        rw [Selector.filterFrom, inductionHypothesis, List.foldr_cons]
        rfl
  exact shape []

/-- A selector that minds only the entry it is asked about is a filter. -/
theorem Selector.filter_pure
    (accepts : TrashEntry → Bool)
    (entries : List TrashEntry) :
    Selector.filter (fun _ entry => accepts entry) entries = entries.filter accepts := by
  have shape :
      ∀ asked,
        Selector.filterFrom (fun _ entry => accepts entry) asked entries =
          entries.filter accepts := by
    induction entries with
    | nil =>
        intro asked
        rfl
    | cons entry rest inductionHypothesis =>
        intro asked
        rw [Selector.filterFrom, inductionHypothesis, List.filter_cons]
  exact shape []

/-- A sweep with such a selector accepts the trashed files that pass. -/
theorem accepted_pure
    (accepts : TrashEntry → Bool)
    (tables : Tables) :
    accepted (some fun _ entry => accepts entry) tables = (asked tables).filter accepts :=
  Selector.filter_pure accepts (asked tables)

/-- A sweep asks about each trashed file once, in the order of the table. -/
theorem map_entry_asked
    (coherent : tables.Coherent)
    (integral : tables.Integral) :
    (asked tables).map (·.entry) = tables.entries.filter isTrashedFile := by
  have shape :
      ∀ rows : List Entry,
        (∀ entry ∈ rows, entry ∈ tables.entries) →
        ((rows.map tables.place).filterMap Placed.trashEntry?).map (·.entry) = rows := by
    intro rows members
    induction rows with
    | nil =>
        rfl
    | cons entry rest inductionHypothesis =>
        obtain ⟨row, rowMember, holds⟩ := integral entry (members entry (by simp))
        have isPath : tables.directoryPath? entry.directoryId = some row.path := by
          rw [← holds, coherent.directoryPath?_eq_some rowMember]
        simp only [List.map_cons, List.filterMap_cons, Placed.trashEntry?, place, isPath,
          Option.map_some]
        congr 1
        exact inductionHypothesis fun other member => members other (List.mem_cons_of_mem _ member)
  have whole : tables.trash.map (·.entry) = tables.entries.filter (·.isDeleted) :=
    shape _ fun entry member => (List.mem_filter.mp member).1
  have narrowed :
      (asked tables).map (·.entry) =
        (tables.trash.map (·.entry)).filter fun entry => !entry.isDirectory := by
    rw [List.filter_map]
    rfl
  rw [narrowed, whole, List.filter_filter]
  apply List.filter_congr
  intro entry _
  rw [isTrashedFile, Bool.and_comm]

/-! ## The end of the rounds -/

/-- What it comes to when directories are erased round by round until a round erases none:
their number, and the tables that are left. -/
inductive Erases : List Entry → Tables → Nat → Tables → Prop where
  | last {directories left : List Entry} {tables final : Tables}
      (none : eraseRound tables directories = (left, 0, final)) :
      Erases directories tables 0 final
  | round {directories left : List Entry} {tables erased final : Tables} {count more : Nat}
      (some : eraseRound tables directories = (left, count + 1, erased))
      (rest : Erases left erased more final) :
      Erases directories tables (count + 1 + more) final

/-- A round counts the directories that it does not leave. -/
theorem length_eraseRound
    (directories : List Entry)
    (tables : Tables) :
    (eraseRound tables directories).1.length + (eraseRound tables directories).2.1 =
      directories.length := by
  induction directories generalizing tables with
  | nil =>
      rfl
  | cons entry rest inductionHypothesis =>
      rw [eraseRound]
      cases eraseDirectory? tables entry with
      | some erased =>
          have counted := inductionHypothesis erased
          change (eraseRound erased rest).1.length + ((eraseRound erased rest).2.1 + 1) =
            rest.length + 1
          omega
      | none =>
          have counted := inductionHypothesis tables
          change (eraseRound tables rest).1.length + 1 + (eraseRound tables rest).2.1 =
            rest.length + 1
          omega

/-- With more rounds than directories the rounds come to their end. -/
theorem erases_eraseRounds
    {rounds : Nat}
    {directories : List Entry}
    (enough : directories.length < rounds)
    (tables : Tables) :
    Erases directories tables (eraseRounds rounds directories tables).1
      (eraseRounds rounds directories tables).2 := by
  induction rounds generalizing directories tables with
  | zero =>
      omega
  | succ rounds inductionHypothesis =>
      have counted := length_eraseRound directories tables
      rw [eraseRounds]
      rcases round : eraseRound tables directories with ⟨left, count, erased⟩
      rw [round] at counted
      dsimp only at counted
      cases count with
      | zero =>
          exact .last round
      | succ count =>
          exact .round round (inductionHypothesis (by omega) erased)

/-! ## Once more -/

/-- A round erases nothing where all is used. -/
theorem eraseRound_of_used
    {directories : List Entry}
    (used : ∀ entry ∈ directories, tables.usage entry.id ≠ 0) :
    Txn.eraseRound tables directories = (directories, 0, tables) := by
  induction directories with
  | nil =>
      rfl
  | cons entry rest inductionHypothesis =>
      have stays : eraseDirectory? tables entry = none := by
        rw [eraseDirectory?, if_pos (Nat.pos_of_ne_zero (used entry (by simp)))]
      rw [Txn.eraseRound, stays,
        inductionHypothesis fun other member => used other (List.mem_cons_of_mem _ member)]

/-- A sweep that accepts nothing changes nothing where every directory is used. -/
theorem sweepTables_of_used
    {select? : Option Selector}
    (nothing : accepted select? tables = [])
    (rows : ∀ row ∈ tables.directories, tables.usage row.id ≠ 0)
    (used : ∀ entry ∈ trashedDirectories tables, tables.usage entry.id ≠ 0) :
    sweepTables select? tables = ((0, 0), tables) := by
  have same : pruned select? tables = tables := by
    unfold pruned
    rw [nothing, List.map_nil, withoutFiles_nil]
    dsimp only
    have all :
        (tables.directories.filter fun row =>
            row.id ∉ tables.directoryIds ∨ tables.usage row.id ≠ 0) = tables.directories := by
      rw [List.filter_eq_self]
      intro row member
      exact decide_eq_true (.inr (rows row member))
    rw [foldl_eraseUnused, all]
  rw [sweepTables_eq, nothing, same, Txn.eraseRounds, eraseRound_of_used used]
  rfl

/-- What a sweep with a selector leaves, a sweep with the same one leaves as it is, if the
selector minds only the entry it is asked about. -/
theorem sweepTables_again
    (coherent : before.Coherent)
    (integral : before.Integral)
    (accepts? : Option (TrashEntry → Bool)) :
    let select? : Option Selector := accepts?.map fun accepts _ entry => accepts entry
    sweepTables select? (sweepTables select? before).2 =
      ((0, 0), (sweepTables select? before).2) := by
  intro select?
  obtain ⟨gone, collected, -⟩ := sweepTables_collected coherent select?
  generalize (sweepTables select? before).2 = after at collected
  apply sweepTables_of_used
  · cases accepts? with
    | none =>
        rfl
    | some accepts =>
        refine (accepted_pure accepts after).trans (List.filter_eq_nil_iff.mpr ?_)
        intro trashed member accepted
        obtain ⟨inTrash, isFile⟩ := List.mem_filter.mp member
        obtain ⟨left, deleted, isPath⟩ := mem_trash_iff.mp inTrash
        obtain ⟨entryMember, notFile, -⟩ := collected.mem_entries.mp left
        -- The directory of the entry has the path that it had when it was rejected.
        obtain ⟨row, found, path⟩ := Option.map_eq_some_iff.mp isPath
        have rowMember := collected.mem_directories.mp (List.mem_of_find?_eq_some found)
        have holds : row.id = trashed.entry.directoryId := by
          simpa using List.find?_some found
        have wasAsked : trashed ∈ asked before := by
          refine List.mem_filter.mpr ⟨mem_trash_iff.mpr ⟨entryMember, deleted, ?_⟩, isFile⟩
          rw [← holds, coherent.directoryPath?_eq_some rowMember.1, path]
        have wasAccepted : trashed ∈ Txn.accepted select? before := by
          change trashed ∈ Txn.accepted (some fun _ entry => accepts entry) before
          rw [accepted_pure, List.mem_filter]
          exact ⟨wasAsked, accepted⟩
        exact notFile (List.mem_map.mpr ⟨trashed, wasAccepted, rfl⟩)
  · intro row member
    exact (collected.mem_directories.mp member).2
  · intro entry member
    obtain ⟨left, deleted, isDirectory⟩ := of_mem_trashedDirectories member
    obtain ⟨entryMember, -, notGone⟩ := collected.mem_entries.mp left
    exact collected.used entry
      (mem_trashedDirectories coherent integral entryMember deleted isDirectory) notGone

end VersionStore.Txn
