import Mathlib.Data.List.Basic
import VersionStore.Proofs.Tree.Edits
import VersionStore.Txn.Tree

namespace VersionStore.Txn

/-!
# Rewriting the paths below a directory

When a directory gets another path, the paths of the directories below it follow, one
at a time. `Pending` is what holds in between: every directory has the path that
follows from the one above it, or is due for it. Nothing that is due lies below anything
else that is due, so that no directory comes up twice and the fuel is enough.
-/

open Tables

/-- Every directory has the path that follows from the directory that holds it or is due
for that path, and what is due lies apart. -/
structure Pending (tables : Tables) (due : List (Int × String)) : Prop where
  ids : (tables.entries.map (·.id)).Pairwise (· < ·)
  rowIds : (tables.directories.map (·.id)).Pairwise (· < ·)
  ranked : ∃ rank, tables.Ranked rank
  named : ∀ entry ∈ tables.entries, entry.id ≠ rootId → IsName entry.name
  top : ∀ entry ∈ tables.entries, entry.id = rootId → entry.directoryId = rootId
  topRow : ⟨rootId, ""⟩ ∈ tables.directories
  owned :
    ∀ row ∈ tables.directories,
      ∀ entry ∈ tables.entries,
        entry.id = row.id →
        entry.isDirectory = true
  paths :
    ∀ entry ∈ tables.entries,
      entry.id ≠ rootId →
      ∀ row ∈ tables.directories,
        row.id = entry.id →
        ∀ above ∈ tables.directories,
          above.id = entry.directoryId →
          row.path = Path.join above.path entry.name ∨
            (entry.id, Path.join above.path entry.name) ∈ due
  written : ∀ row ∈ tables.directories, ∃ names, row.path = CleanPath.joinNames names
  meant :
    ∀ pair ∈ due,
      ∃ entry ∈ tables.entries,
        entry.id = pair.1 ∧ entry.id ≠ rootId ∧
          (∃ row ∈ tables.directories, row.id = pair.1) ∧
            ∃ above ∈ tables.directories,
              above.id = entry.directoryId ∧ pair.2 = Path.join above.path entry.name
  apart :
    due.Pairwise fun first second =>
      ¬tables.Below first.1 second.1 ∧ ¬tables.Below second.1 first.1

/-! ## One step -/

section Step

variable {tables : Tables} {id : Int} {path : String} {rest : List (Int × String)}

/-- The rows after one row got another path. -/
theorem mem_directories_renameDirectory
    {row : Directory} :
    row ∈ (tables.renameDirectory id path).directories ↔
      ∃ old ∈ tables.directories, row = if old.id = id then { old with path } else old := by
  simp [renameDirectory, eq_comm]

/-- Renaming a directory leaves the ids of the rows. -/
theorem map_id_renameDirectory :
    (tables.renameDirectory id path).directories.map (·.id) =
      tables.directories.map (·.id) := by
  simp only [renameDirectory, List.map_map]
  apply List.map_congr_left
  intro row _
  by_cases meant : row.id = id <;> simp [meant]

/-- The row of another id stays. -/
theorem mem_directories_renameDirectory_of_ne
    {row : Directory}
    (other : row.id ≠ id) :
    row ∈ (tables.renameDirectory id path).directories ↔ row ∈ tables.directories := by
  rw [mem_directories_renameDirectory]
  constructor
  · rintro ⟨old, member, rfl⟩
    by_cases meant : old.id = id
    · simp [meant] at other
    · rwa [if_neg meant]
  · intro member
    exact ⟨row, member, by rw [if_neg other]⟩

/-- The row of the id has the new path. -/
theorem path_of_mem_renameDirectory
    {row : Directory}
    (member : row ∈ (tables.renameDirectory id path).directories)
    (meant : row.id = id) :
    row.path = path := by
  obtain ⟨old, -, rfl⟩ := mem_directories_renameDirectory.mp member
  by_cases same : old.id = id
  · simp [same]
  · simp [same] at meant

/-- What is below an entry is the entry itself or lies below it. -/
theorem below_of_below
    (ids : (tables.entries.map (·.id)).Pairwise (· < ·))
    {above : Int}
    {entry : Entry}
    (member : entry ∈ tables.entries)
    (below : tables.Below above entry.id) :
    entry.id = above ∨ tables.Below above entry.directoryId := by
  generalize shape : entry.id = last at below
  cases below with
  | self =>
      exact .inl rfl
  | step otherMember _ further =>
      rw [Coherent.eq_of_pairwise_lt ids member otherMember shape]
      exact .inr further

/-- Renaming a directory leaves what lies below what. -/
theorem below_renameDirectory_iff
    {above below : Int} :
    (tables.renameDirectory id path).Below above below ↔ tables.Below above below := by
  have fewer : (tables.renameDirectory id path).entries ⊆ tables.entries :=
    List.Subset.refl _
  have more : tables.entries ⊆ (tables.renameDirectory id path).entries :=
    List.Subset.refl _
  exact ⟨.mono fewer, .mono more⟩

/-- What lies directly in the next directory that is due is not due itself, so that its path
still follows from the old path of that directory. -/
theorem Pending.settled
    (pending : Pending tables ((id, path) :: rest))
    {entry : Entry}
    (member : entry ∈ tables.entries)
    (proper : entry.id ≠ rootId)
    (other : entry.id ≠ id)
    (held : entry.directoryId = id)
    {row above : Directory}
    (rowMember : row ∈ tables.directories)
    (ownsRow : row.id = entry.id)
    (aboveMember : above ∈ tables.directories)
    (ownsAbove : above.id = id) :
    (Path.split row.path).2 = entry.name := by
  have settled : row.path = Path.join above.path entry.name := by
    rcases pending.paths entry member proper row rowMember ownsRow above aboveMember
      (ownsAbove.trans held.symm) with settled | isDue
    · exact settled
    · rcases List.mem_cons.mp isDue with first | later
      · exact (other (congrArg Prod.fst first)).elim
      · have below : tables.Below id entry.id :=
          .step member proper (held ▸ .self)
        exact (((List.pairwise_cons.mp pending.apart).1 _ later).1 below).elim
  rw [settled]
  exact Path.split_join above.path ⟨entry.name, pending.named entry member proper⟩

/-- A directory that is due directly below one that was due. -/
theorem Pending.exists_of_mem_dueBelow
    (pending : Pending tables ((id, path) :: rest))
    {pair : Int × String}
    (member : pair ∈ dueBelow (tables.renameDirectory id path) id path) :
    ∃ entry ∈ tables.entries,
      entry.id = pair.1 ∧ entry.id ≠ rootId ∧ entry.id ≠ id ∧ entry.directoryId = id ∧
        (∃ row ∈ tables.directories, row.id = pair.1) ∧
          pair.2 = Path.join path entry.name := by
  obtain ⟨child, childMember, rfl⟩ := List.mem_map.mp member
  simp only [childDirectories, List.mem_filter, Bool.and_eq_true, bne_iff_ne, List.any_eq_true,
    beq_iff_eq] at childMember
  obtain ⟨rowMember, other, entry, entryMember, ⟨same, held⟩, isDirectory⟩ := childMember
  obtain ⟨holder, holderMember, sameHolder, holderProper, ⟨above, aboveMember, ownsAbove⟩, -⟩ :=
    pending.meant (id, path) (by simp)
  have proper : entry.id ≠ rootId := by
    intro isRoot
    exact holderProper (sameHolder.trans (held.symm.trans (pending.top entry entryMember isRoot)))
  have oldMember := (mem_directories_renameDirectory_of_ne other).mp rowMember
  have split := pending.settled entryMember proper (same.trans_ne other) held oldMember same.symm
    aboveMember ownsAbove
  exact ⟨entry, entryMember, same, proper, same.trans_ne other, held, ⟨child, oldMember, rfl⟩,
    congrArg (Path.join path) split⟩

/-- What lies directly in the next directory that is due is not among the rest. -/
theorem Pending.held_ne
    (pending : Pending tables ((id, path) :: rest))
    {entry : Entry}
    (member : entry ∈ tables.entries)
    (proper : entry.id ≠ rootId)
    {later : Int × String}
    (laterMember : later ∈ rest)
    (same : entry.id = later.1) :
    entry.directoryId ≠ id := by
  intro held
  refine ((List.pairwise_cons.mp pending.apart).1 later laterMember).1 ?_
  rw [← same]
  exact .step member proper (held ▸ .self)

/-- Of two entries in one directory neither is below the other. -/
theorem not_below_sibling
    (ids : (tables.entries.map (·.id)).Pairwise (· < ·))
    {rank : Int → Nat}
    (ranked : tables.Ranked rank)
    {one other : Entry}
    (oneMember : one ∈ tables.entries)
    (proper : one.id ≠ rootId)
    (otherMember : other ∈ tables.entries)
    (siblings : one.directoryId = other.directoryId)
    (apart : one.id ≠ other.id) :
    ¬tables.Below one.id other.id := by
  intro below
  rcases below_of_below ids otherMember below with same | further
  · exact apart same.symm
  · rw [← siblings] at further
    exact ranked.not_below_holder oneMember proper further

/-- Directories that become due together lie apart. -/
theorem Pending.apart_dueBelow
    (pending : Pending tables ((id, path) :: rest)) :
    (dueBelow (tables.renameDirectory id path) id path).Pairwise fun first second =>
      ¬tables.Below first.1 second.1 ∧ ¬tables.Below second.1 first.1 := by
  obtain ⟨rank, ranked⟩ := pending.ranked
  have different :
      (dueBelow (tables.renameDirectory id path) id path).Pairwise
        fun first second => first.1 ≠ second.1 := by
    refine List.pairwise_map.mpr (List.Pairwise.filter _ ?_)
    have ordered := List.pairwise_map.mp pending.rowIds
    rw [← List.pairwise_map (f := fun row : Directory => row.id) (R := (· ≠ ·)),
      map_id_renameDirectory, List.pairwise_map]
    exact ordered.imp Int.ne_of_lt
  refine different.imp_of_mem ?_
  intro first second firstMember secondMember apart
  obtain ⟨one, oneMember, sameOne, oneProper, -, oneHeld, -⟩ :=
    pending.exists_of_mem_dueBelow firstMember
  obtain ⟨other, otherMember, sameOther, otherProper, -, otherHeld, -⟩ :=
    pending.exists_of_mem_dueBelow secondMember
  have siblings := oneHeld.trans otherHeld.symm
  rw [← sameOne, ← sameOther] at apart ⊢
  exact ⟨not_below_sibling pending.ids ranked oneMember oneProper otherMember siblings apart,
    not_below_sibling pending.ids ranked otherMember otherProper oneMember siblings.symm apart.symm⟩

/-- A directory that becomes due lies apart from what was due. -/
theorem Pending.apart_rest
    (pending : Pending tables ((id, path) :: rest))
    {new later : Int × String}
    (newMember : new ∈ dueBelow (tables.renameDirectory id path) id path)
    (laterMember : later ∈ rest) :
    ¬tables.Below new.1 later.1 ∧ ¬tables.Below later.1 new.1 := by
  have apartFirst := (List.pairwise_cons.mp pending.apart).1 later laterMember
  obtain ⟨entry, member, same, proper, -, held, -⟩ := pending.exists_of_mem_dueBelow newMember
  rw [← same]
  refine ⟨fun below => ?_, fun below => ?_⟩
  · exact apartFirst.1 (.trans (.step member proper (held ▸ .self)) below)
  · rcases below_of_below pending.ids member below with isLater | further
    · exact pending.held_ne member proper laterMember isLater held
    · rw [held] at further
      exact apartFirst.2 further

/-- After a directory that is due was renamed, its path follows from the one above it, those of
the directories in it are due, and the others are right or due as they were. -/
theorem Pending.paths_rename
    (pending : Pending tables ((id, path) :: rest))
    {entry : Entry}
    (member : entry ∈ tables.entries)
    (entryProper : entry.id ≠ rootId)
    {row higher : Directory}
    (rowMember : row ∈ (tables.renameDirectory id path).directories)
    (ownsRow : row.id = entry.id)
    (higherMember : higher ∈ (tables.renameDirectory id path).directories)
    (holds : higher.id = entry.directoryId) :
    row.path = Path.join higher.path entry.name ∨
      (entry.id, Path.join higher.path entry.name) ∈
        dueBelow (tables.renameDirectory id path) id path ++ rest := by
  obtain ⟨rank, ranked⟩ := pending.ranked
  obtain ⟨holder, holderMember, sameHolder, proper, ⟨own, ownMember, owns⟩, above, aboveMember,
    ownsAbove, isPath⟩ := pending.meant (id, path) (by simp)
  dsimp only at sameHolder owns isPath
  subst sameHolder
  by_cases isHolder : entry.id = holder.id
  · have same := Coherent.eq_of_pairwise_lt pending.ids member holderMember isHolder
    subst same
    have higherOld := (mem_directories_renameDirectory_of_ne
      (holds.trans_ne (ranked.holder_ne member entryProper))).mp higherMember
    have sameAbove := Coherent.eq_of_pairwise_lt pending.rowIds higherOld aboveMember
      (holds.trans ownsAbove.symm)
    left
    rw [path_of_mem_renameDirectory rowMember ownsRow, isPath, sameAbove]
  · have rowOld := (mem_directories_renameDirectory_of_ne (ownsRow.trans_ne isHolder)).mp rowMember
    by_cases isChild : entry.directoryId = holder.id
    · right
      rw [path_of_mem_renameDirectory higherMember (holds.trans isChild)]
      refine List.mem_append_left _ (List.mem_map.mpr ⟨row, ?_, ?_⟩)
      · simp only [childDirectories, List.mem_filter, Bool.and_eq_true, bne_iff_ne,
          List.any_eq_true, beq_iff_eq]
        exact ⟨rowMember, ownsRow.trans_ne isHolder, entry, member, ⟨ownsRow.symm, isChild⟩,
          pending.owned row rowOld entry member ownsRow.symm⟩
      · have split := pending.settled member entryProper isHolder isChild rowOld ownsRow ownMember
          owns
        exact Prod.ext ownsRow (congrArg (Path.join path) split)
    · have higherOld := (mem_directories_renameDirectory_of_ne
        (holds.trans_ne isChild)).mp higherMember
      rcases pending.paths entry member entryProper row rowOld ownsRow higher higherOld holds with
        settled | isDue
      · exact .inl settled
      · rcases List.mem_cons.mp isDue with first | later
        · exact (isHolder (congrArg Prod.fst first)).elim
        · exact .inr (List.mem_append_right _ later)

/-- After a directory that is due was renamed, what is due is still due for the path that follows
from the one above it. -/
theorem Pending.meant_rename
    (pending : Pending tables ((id, path) :: rest))
    {pair : Int × String}
    (member : pair ∈ dueBelow (tables.renameDirectory id path) id path ++ rest) :
    ∃ entry ∈ tables.entries,
      entry.id = pair.1 ∧ entry.id ≠ rootId ∧
        (∃ row ∈ (tables.renameDirectory id path).directories, row.id = pair.1) ∧
          ∃ above ∈ (tables.renameDirectory id path).directories,
            above.id = entry.directoryId ∧ pair.2 = Path.join above.path entry.name := by
  rcases List.mem_append.mp member with new | later
  · obtain ⟨-, -, -, -, ⟨own, ownMember, owns⟩, -⟩ := pending.meant (id, path) (by simp)
    dsimp only at owns
    have renamedRow : ⟨id, path⟩ ∈ (tables.renameDirectory id path).directories :=
      mem_directories_renameDirectory.mpr ⟨own, ownMember, by rw [if_pos owns, ← owns]⟩
    obtain ⟨entry, entryMember, same, entryProper, other, held, ⟨row, rowMember, ownsRow⟩,
      isNext⟩ := pending.exists_of_mem_dueBelow new
    refine ⟨entry, entryMember, same, entryProper, ⟨row, ?_, ownsRow⟩, _, renamedRow, held.symm,
      isNext⟩
    exact (mem_directories_renameDirectory_of_ne
      (by rw [ownsRow, ← same]; exact other)).mpr rowMember
  · obtain ⟨entry, entryMember, same, entryProper, ⟨row, rowMember, ownsRow⟩, higher,
      higherMember, holds, isNext⟩ := pending.meant pair (List.mem_cons_of_mem _ later)
    have notChild := pending.held_ne entryMember entryProper later same
    have notHolder : pair.1 ≠ id := by
      intro isHolder
      apply ((List.pairwise_cons.mp pending.apart).1 pair later).1
      rw [isHolder]
      exact .self
    exact ⟨entry, entryMember, same, entryProper,
      ⟨row, (mem_directories_renameDirectory_of_ne (ownsRow.trans_ne notHolder)).mpr rowMember,
        ownsRow⟩,
      higher, (mem_directories_renameDirectory_of_ne (holds.trans_ne notChild)).mpr higherMember,
      holds, isNext⟩

/-- Renaming one directory that is due keeps the paths of all others right or due. -/
theorem Pending.rename
    (pending : Pending tables ((id, path) :: rest)) :
    Pending (tables.renameDirectory id path)
      (dueBelow (tables.renameDirectory id path) id path ++ rest) where
  ids := pending.ids
  rowIds := by
    rw [map_id_renameDirectory]
    exact pending.rowIds
  ranked := pending.ranked
  named := pending.named
  top := pending.top
  topRow := by
    obtain ⟨holder, -, sameHolder, proper, -⟩ := pending.meant (id, path) (by simp)
    exact (mem_directories_renameDirectory_of_ne (proper.symm.trans_eq sameHolder)).mpr pending.topRow
  owned row member entry entryMember same := by
    obtain ⟨old, oldMember, rfl⟩ := mem_directories_renameDirectory.mp member
    refine pending.owned old oldMember entry entryMember (same.trans ?_)
    by_cases meant : old.id = id <;> simp [meant]
  paths entry member proper row rowMember ownsRow higher higherMember holds :=
    pending.paths_rename member proper rowMember ownsRow higherMember holds
  written := by
    obtain ⟨holder, holderMember, -, proper, -, above, aboveMember, -, isPath⟩ :=
      pending.meant (id, path) (by simp)
    obtain ⟨names, isWritten⟩ := pending.written above aboveMember
    dsimp only at isPath
    have isNext : ∃ longer, path = CleanPath.joinNames longer := by
      rw [isPath, isWritten]
      exact CleanPath.exists_join_joinNames names (pending.named holder holderMember proper)
    intro row member
    obtain ⟨old, oldMember, rfl⟩ := mem_directories_renameDirectory.mp member
    split
    · exact isNext
    · exact pending.written old oldMember
  meant pair member := pending.meant_rename member
  apart := by
    simp only [below_renameDirectory_iff]
    exact List.pairwise_append.mpr ⟨pending.apart_dueBelow,
      (List.pairwise_cons.mp pending.apart).2,
      fun new newMember later laterMember => pending.apart_rest newMember laterMember⟩

end Step

/-! ## The whole run -/

open Classical in
/-- The number of entries at or below what is due. -/
noncomputable def dueCount (tables : Tables) (due : List (Int × String)) : Nat :=
  tables.entries.countP fun entry => ∃ pair ∈ due, tables.Below pair.1 entry.id

/-- Fewer elements are counted where one is no longer counted and none is new. -/
private theorem countP_lt_of_mem
    {fewer more : α → Bool}
    {rows : List α}
    {row : α}
    (member : row ∈ rows)
    (weaker : ∀ other ∈ rows, fewer other = true → more other = true)
    (notCounted : fewer row = false)
    (counted : more row = true) :
    rows.countP fewer < rows.countP more := by
  obtain ⟨before, after, rfl⟩ := List.append_of_mem member
  have first := List.countP_mono_left fun other isBefore =>
    weaker other (List.mem_append_left _ isBefore)
  have second := List.countP_mono_left fun other isAfter =>
    weaker other (List.mem_append_right _ (List.mem_cons_of_mem _ isAfter))
  rw [List.countP_append, List.countP_append, List.countP_cons_of_neg (by simp [notCounted]),
    List.countP_cons_of_pos counted]
  omega

/-- Each directory that gets its path is one entry less to come to. -/
theorem Pending.dueCount_lt
    {tables : Tables}
    {id : Int}
    {path : String}
    {rest : List (Int × String)}
    (pending : Pending tables ((id, path) :: rest)) :
    dueCount (tables.renameDirectory id path)
        (dueBelow (tables.renameDirectory id path) id path ++ rest) <
      dueCount tables ((id, path) :: rest) := by
  classical
  obtain ⟨rank, ranked⟩ := pending.ranked
  obtain ⟨holder, holderMember, same, -⟩ := pending.meant (id, path) (by simp)
  have apart := (List.pairwise_cons.mp pending.apart).1
  dsimp only at same
  subst same
  refine countP_lt_of_mem holderMember ?_ ?_ ?_
  · intro entry _ isBelow
    obtain ⟨pair, member, below⟩ := of_decide_eq_true isBelow
    rw [below_renameDirectory_iff] at below
    refine decide_eq_true ?_
    rcases List.mem_append.mp member with new | later
    · obtain ⟨child, childMember, same, proper, -, held, -⟩ :=
        pending.exists_of_mem_dueBelow new
      refine ⟨(holder.id, path), by simp, .trans ?_ below⟩
      rw [← same]
      exact .step childMember proper (held ▸ .self)
    · exact ⟨pair, List.mem_cons_of_mem _ later, below⟩
  · refine decide_eq_false ?_
    rintro ⟨pair, member, below⟩
    rw [below_renameDirectory_iff] at below
    rcases List.mem_append.mp member with new | later
    · obtain ⟨child, childMember, same, proper, -, held, -⟩ :=
        pending.exists_of_mem_dueBelow new
      rw [← same, ← held] at below
      exact ranked.not_below_holder childMember proper below
    · exact (apart pair later).2 below
  · exact decide_eq_true ⟨(holder.id, path), by simp, .self⟩

/-- What is due is worked off to the end, however long it takes: the first directory gets its
path, and those in it become due. -/
inductive Rewrites : List (Int × String) → Tables → Tables → Prop where
  | done (tables : Tables) : Rewrites [] tables tables
  | next {id : Int} {path : String} {rest : List (Int × String)} {tables after : Tables}
      (run :
        Rewrites (dueBelow (tables.renameDirectory id path) id path ++ rest)
          (tables.renameDirectory id path) after) :
      Rewrites ((id, path) :: rest) tables after

/-- With enough fuel everything that is due is worked off. -/
theorem Pending.rewrites
    {fuel : Nat}
    {due : List (Int × String)}
    {tables : Tables}
    (pending : Pending tables due)
    (enough : dueCount tables due ≤ fuel) :
    Rewrites due tables (Txn.rewritePaths fuel due tables) := by
  induction fuel generalizing due tables with
  | zero =>
      cases due with
      | nil =>
          exact .done tables
      | cons pair rest =>
          have fewer : _ < dueCount tables (pair :: rest) := pending.dueCount_lt
          omega
  | succ fuel inductionHypothesis =>
      cases due with
      | nil =>
          exact .done tables
      | cons pair rest =>
          have fewer : _ < dueCount tables (pair :: rest) := pending.dueCount_lt
          exact .next (inductionHypothesis pending.rename (by omega))

/-- Once everything is worked off every directory has the path that follows from the one above
it. -/
theorem Rewrites.pending
    {due : List (Int × String)}
    {tables after : Tables}
    (rewrites : Rewrites due tables after)
    (pending : Pending tables due) :
    Pending after [] := by
  induction rewrites with
  | done =>
      exact pending
  | next _ inductionHypothesis =>
      exact inductionHypothesis pending.rename

/-- The row of a directory that is not below what is due stays. -/
theorem Rewrites.keeps
    {due : List (Int × String)}
    {tables after : Tables}
    (rewrites : Rewrites due tables after)
    (pending : Pending tables due)
    {row : Directory}
    (member : row ∈ tables.directories)
    (apart : ∀ pair ∈ due, ¬tables.Below pair.1 row.id) :
    row ∈ after.directories := by
  induction rewrites with
  | done =>
      exact member
  | @next id path rest tables after _ inductionHypothesis =>
      have notBelow := apart (id, path) (by simp)
      have other : row.id ≠ id := by
        intro same
        rw [same] at notBelow
        exact notBelow .self
      refine inductionHypothesis pending.rename
        ((mem_directories_renameDirectory_of_ne other).mpr member) fun pair due => ?_
      rw [below_renameDirectory_iff]
      rcases List.mem_append.mp due with new | later
      · obtain ⟨child, childMember, same, proper, -, held, -⟩ := pending.exists_of_mem_dueBelow new
        intro below
        rw [← same] at below
        exact notBelow (.trans (.step childMember proper (held ▸ .self)) below)
      · exact apart pair (List.mem_cons_of_mem _ later)

/-- Rewriting paths changes directory rows only, and none of their ids. -/
theorem rewritePaths_eq
    (fuel : Nat)
    (due : List (Int × String))
    (tables : Tables) :
    ∃ directories,
      rewritePaths fuel due tables = { tables with directories } ∧
        directories.map (·.id) = tables.directories.map (·.id) := by
  induction fuel generalizing due tables with
  | zero =>
      exact ⟨tables.directories, rfl, rfl⟩
  | succ fuel inductionHypothesis =>
      cases due with
      | nil =>
          exact ⟨tables.directories, rfl, rfl⟩
      | cons pair rest =>
          obtain ⟨directories, isResult, ids⟩ :=
            inductionHypothesis (dueBelow (tables.renameDirectory pair.1 pair.2) pair.1 pair.2 ++ rest)
              (tables.renameDirectory pair.1 pair.2)
          exact ⟨directories, isResult, ids.trans map_id_renameDirectory⟩

/-- Renaming a tree changes no entry. -/
theorem entries_renameTree
    (tables : Tables)
    (id : Int)
    (path : String) :
    (renameTree tables id path).entries = tables.entries := by
  obtain ⟨directories, isResult, -⟩ :=
    rewritePaths_eq (tables.entries.length + 1) [(id, path)] tables
  rw [renameTree, isResult]

/-- Renaming a tree works off what is due. -/
theorem Pending.rewrites_renameTree
    {tables : Tables}
    {id : Int}
    {path : String}
    (pending : Pending tables [(id, path)]) :
    Rewrites [(id, path)] tables (Txn.renameTree tables id path) := by
  refine pending.rewrites ?_
  have bounded : dueCount tables [(id, path)] ≤ tables.entries.length :=
    List.countP_le_length
  omega

/-- Renaming a tree gives every directory the path that follows from the one above it. -/
theorem Pending.renameTree
    {tables : Tables}
    {id : Int}
    {path : String}
    (pending : Pending tables [(id, path)]) :
    Pending (Txn.renameTree tables id path) [] :=
  pending.rewrites_renameTree.pending pending

end VersionStore.Txn
