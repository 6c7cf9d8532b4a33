import VersionStore.Proofs.Tree.Rewrite

namespace VersionStore.Tables

/-!
# Moving an entry

An entry may be moved to a free name in any live directory that is not at or below it.
The entry takes everything below it along, and the paths below it are rewritten.
-/

/-- An entry and the place that it may be moved to. -/
structure Movable (tables : Tables) (entry holder : Entry) (name : Name) (path : String) :
    Prop where
  member : entry ∈ tables.entries
  live : entry.isDeleted = false
  proper : entry.id ≠ rootId
  target : tables.IsLiveDirectory holder
  apart : ¬tables.Below entry.id holder.id
  free :
    ∀ other ∈ tables.entries,
      other.isDeleted = false →
      other.directoryId = holder.id →
      other.name ≠ name.text
  below :
    ∀ above ∈ tables.directories,
      above.id = holder.id →
      path = Path.join above.path name.text

section Move

variable
  {tables : Tables}
  {entry holder : Entry}
  {name : Name}
  {path : String}
  {strict : Prop}
  {known : List Entry}

/-- What is there after the move was there before or is the entry in its new place. -/
theorem mem_entries_moveEntry
    (coherent : tables.Coherent)
    (member : entry ∈ tables.entries)
    {directoryId : Int}
    {text : String}
    {time : Int}
    {other : Entry} :
    other ∈ (tables.moveEntry entry.id directoryId text time).entries ↔
      (other ∈ tables.entries ∧ other.id ≠ entry.id) ∨
        other = { entry with directoryId, name := text, lastModified := time } := by
  simp only [Tables.moveEntry, modifyEntry, List.mem_map]
  constructor
  · rintro ⟨old, oldMember, rfl⟩
    by_cases meant : old.id = entry.id
    · right
      rw [if_pos meant, coherent.entry_eq oldMember member meant]
    · left
      rw [if_neg meant]
      exact ⟨oldMember, meant⟩
  · rintro (⟨oldMember, different⟩ | rfl)
    · exact ⟨other, oldMember, if_neg different⟩
    · exact ⟨entry, member, if_pos rfl⟩

/-- Moving an entry leaves the ids. -/
theorem map_id_moveEntry
    {id directoryId : Int}
    {text : String}
    {time : Int} :
    (tables.moveEntry id directoryId text time).entries.map (·.id) =
      tables.entries.map (·.id) := by
  simp only [Tables.moveEntry, modifyEntry, List.map_map]
  apply List.map_congr_left
  intro old _
  by_cases meant : old.id = id <;> simp [meant]

/-- The tree stays ranked: what is moved goes below all that it is not above. -/
theorem Movable.ranked
    (coherent : tables.Coherent)
    (movable : tables.Movable entry holder name path)
    (time : Int) :
    ∃ rank, (tables.moveEntry entry.id holder.id name.text time).Ranked rank := by
  classical
  obtain ⟨rank, ranked⟩ := coherent.ranked
  refine ⟨fun id => if tables.Below entry.id id then rank id + rank holder.id + 1 else rank id, ?_⟩
  intro other otherMember otherProper
  dsimp only
  rcases (mem_entries_moveEntry coherent movable.member).mp otherMember with
    ⟨oldMember, different⟩ | rfl
  · have rises := ranked other oldMember otherProper
    by_cases moved : tables.Below entry.id other.directoryId
    · rw [if_pos moved, if_pos (.step oldMember otherProper moved)]
      omega
    · have stays : ¬tables.Below entry.id other.id := by
        intro below
        rcases Txn.below_of_below coherent.ids oldMember below with same | further
        · exact different same
        · exact moved further
      rw [if_neg moved, if_neg stays]
      exact rises
  · rw [if_neg movable.apart, if_pos .self]
    change rank holder.id < rank entry.id + rank holder.id + 1
    omega

/-- Tables are coherent after a move if the paths follow. -/
theorem Coherent.moved
    (coherent : tables.Coherent)
    (movable : tables.Movable entry holder name path)
    {time : Int}
    {after : Tables}
    (entries :
      after.entries = (tables.moveEntry entry.id holder.id name.text time).entries)
    (rowIds : after.directories.map (·.id) = tables.directories.map (·.id))
    (lastEntryId : after.lastEntryId = tables.lastEntryId)
    (topRow : ⟨rootId, ""⟩ ∈ after.directories)
    (paths :
      ∀ entry ∈ after.entries,
        entry.id ≠ rootId →
        ∀ row ∈ after.directories,
          row.id = entry.id →
          ∀ above ∈ after.directories,
            above.id = entry.directoryId →
            row.path = Path.join above.path entry.name)
    (written : ∀ row ∈ after.directories, ∃ names, row.path = CleanPath.joinNames names) :
    after.Coherent := by
  have mem_after {other : Entry} :
      other ∈ after.entries ↔
        (other ∈ tables.entries ∧ other.id ≠ entry.id) ∨
          other = { entry with
            directoryId := holder.id
            name := name.text
            lastModified := time } := by
    rw [entries]
    exact mem_entries_moveEntry coherent movable.member
  -- Every entry is there with its kind and as live as it was, in its old place or in the new one.
  have exists_after :
      ∀ old ∈ tables.entries,
        ∃ new ∈ after.entries,
          new.id = old.id ∧ new.isDirectory = old.isDirectory ∧ new.isDeleted = old.isDeleted := by
    intro old oldMember
    by_cases moved : old.id = entry.id
    · rw [coherent.entry_eq oldMember movable.member moved]
      exact ⟨_, mem_after.mpr (.inr rfl), rfl, rfl, rfl⟩
    · exact ⟨old, mem_after.mpr (.inl ⟨oldMember, moved⟩), rfl, rfl, rfl⟩
  have rowOf {id : Int} :
      (∃ row ∈ after.directories, row.id = id) ↔ ∃ row ∈ tables.directories, row.id = id := by
    have same : id ∈ after.directories.map (·.id) ↔ id ∈ tables.directories.map (·.id) := by
      rw [rowIds]
    simpa using same
  constructor
  case ids =>
    rw [entries, map_id_moveEntry]
    exact coherent.ids
  case rowIds =>
    rw [rowIds]
    exact coherent.rowIds
  case id_le =>
    intro other member
    rw [lastEntryId]
    rcases mem_after.mp member with ⟨old, -⟩ | rfl
    · exact coherent.id_le other old
    · exact coherent.id_le entry movable.member
  case directoryId_le =>
    intro other member
    rw [lastEntryId]
    rcases mem_after.mp member with ⟨old, -⟩ | rfl
    · exact coherent.directoryId_le other old
    · exact coherent.id_le holder movable.target.member
  case top =>
    obtain ⟨top, member, isTop⟩ := coherent.top
    refine ⟨top, mem_after.mpr (.inl ⟨member, ?_⟩), isTop⟩
    rw [isTop.id]
    exact Ne.symm movable.proper
  case topRow =>
    exact topRow
  case named =>
    intro other member proper
    rcases mem_after.mp member with ⟨old, -⟩ | rfl
    · exact coherent.named other old proper
    · exact name.property
  case owned =>
    intro row member
    obtain ⟨oldRow, oldRowMember, sameRow⟩ := rowOf.mp ⟨row, member, rfl⟩
    obtain ⟨old, oldMember, owns, wasDirectory⟩ := coherent.owned oldRow oldRowMember
    obtain ⟨new, newMember, same, isDirectory, -⟩ := exists_after old oldMember
    exact ⟨new, newMember, same.trans (owns.trans sameRow), isDirectory.trans wasDirectory⟩
  case housed =>
    rintro other ⟨member, isDirectory, live⟩
    refine rowOf.mpr ?_
    rcases mem_after.mp member with ⟨old, -⟩ | rfl
    · exact coherent.housed other ⟨old, isDirectory, live⟩
    · exact coherent.housed entry ⟨movable.member, isDirectory, live⟩
  case placed =>
    intro other member live
    have around :
        ∃ old, tables.IsLiveDirectory old ∧ old.id = other.directoryId := by
      rcases mem_after.mp member with ⟨old, -⟩ | rfl
      · exact coherent.placed other old live
      · exact ⟨holder, movable.target, rfl⟩
    obtain ⟨old, wasLive, held⟩ := around
    obtain ⟨new, newMember, same, isDirectory, isDeleted⟩ := exists_after old wasLive.member
    exact ⟨new, ⟨newMember, isDirectory.trans wasLive.isDirectory, isDeleted.trans wasLive.live⟩,
      same.trans held⟩
  case distinct =>
    intro first firstMember second secondMember firstLive secondLive sameDirectory sameName
    rcases mem_after.mp firstMember with ⟨firstOld, -⟩ | rfl <;>
      rcases mem_after.mp secondMember with ⟨secondOld, -⟩ | rfl
    · exact coherent.distinct first firstOld second secondOld firstLive secondLive sameDirectory
        sameName
    · exact (movable.free first firstOld firstLive sameDirectory sameName).elim
    · exact (movable.free second secondOld secondLive sameDirectory.symm sameName.symm).elim
    · rfl
  case paths =>
    exact paths
  case written =>
    exact written
  case ranked =>
    obtain ⟨rank, ranked⟩ := movable.ranked coherent time
    refine ⟨rank, fun other member => ranked other ?_⟩
    rwa [← entries]

/-- After a directory was moved it is due for its new path, and nothing else is. -/
theorem Movable.pending
    (coherent : tables.Coherent)
    (movable : tables.Movable entry holder name path)
    (isDirectory : entry.isDirectory = true)
    (time : Int) :
    Txn.Pending (tables.moveEntry entry.id holder.id name.text time) [(entry.id, path)] := by
  have mem_after {other : Entry} :
      other ∈ (tables.moveEntry entry.id holder.id name.text time).entries ↔
        (other ∈ tables.entries ∧ other.id ≠ entry.id) ∨
          other = { entry with
            directoryId := holder.id
            name := name.text
            lastModified := time } :=
    mem_entries_moveEntry coherent movable.member
  constructor
  case ids =>
    rw [map_id_moveEntry]
    exact coherent.ids
  case rowIds =>
    exact coherent.rowIds
  case ranked =>
    exact movable.ranked coherent time
  case named =>
    intro other member proper
    rcases mem_after.mp member with ⟨old, -⟩ | rfl
    · exact coherent.named other old proper
    · exact name.property
  case top =>
    intro other member isRoot
    rcases mem_after.mp member with ⟨old, -⟩ | rfl
    · exact (coherent.isTop old isRoot).directoryId
    · exact (movable.proper isRoot).elim
  case topRow =>
    exact coherent.topRow
  case owned =>
    intro row rowMember other member same
    obtain ⟨owner, ownerMember, owns, ownerDirectory⟩ := coherent.owned row rowMember
    rcases mem_after.mp member with ⟨old, -⟩ | rfl
    · rwa [coherent.entry_eq old ownerMember (same.trans owns.symm)]
    · exact isDirectory
  case paths =>
    intro other member proper row rowMember ownsRow above aboveMember holds
    rcases mem_after.mp member with ⟨old, -⟩ | rfl
    · exact .inl (coherent.paths other old proper row rowMember ownsRow above aboveMember holds)
    · right
      rw [movable.below above aboveMember holds]
      simp
  case written =>
    exact coherent.written
  case meant =>
    intro pair member
    rw [List.mem_singleton.mp member]
    obtain ⟨row, rowMember, ownsRow⟩ :=
      coherent.housed entry ⟨movable.member, isDirectory, movable.live⟩
    obtain ⟨above, aboveMember, ownsAbove⟩ := coherent.housed holder movable.target
    exact ⟨_, mem_after.mpr (.inr rfl), rfl, movable.proper, ⟨row, rowMember, ownsRow⟩, above,
      aboveMember, ownsAbove, movable.below above aboveMember ownsAbove⟩
  case apart =>
    exact List.pairwise_singleton _ _

/-- Sound tables stay sound when an entry is moved and the paths below it are rewritten. -/
theorem Sound.moveEntry
    (sound : tables.Sound strict known)
    (movable : tables.Movable entry holder name path)
    (time : Int) :
    (if entry.isDirectory then
        Txn.renameTree (tables.moveEntry entry.id holder.id name.text time) entry.id path
      else tables.moveEntry entry.id holder.id name.text time).Sound strict known := by
  have coherent := sound.coherent
  generalize isResult :
    (if entry.isDirectory then
        Txn.renameTree (tables.moveEntry entry.id holder.id name.text time) entry.id path
      else tables.moveEntry entry.id holder.id name.text time) = after
  have shape :
      after.entries = (tables.moveEntry entry.id holder.id name.text time).entries ∧
        after.directories.map (·.id) = tables.directories.map (·.id) ∧
          after.lastEntryId = tables.lastEntryId ∧ after.Coherent := by
    cases isDirectory : entry.isDirectory with
    | false =>
        rw [isDirectory] at isResult
        subst isResult
        refine ⟨rfl, rfl, rfl,
          coherent.moved movable rfl rfl rfl coherent.topRow ?_ coherent.written⟩
        intro other member proper row rowMember ownsRow above aboveMember holds
        rcases (mem_entries_moveEntry coherent movable.member).mp member with ⟨old, -⟩ | rfl
        · exact coherent.paths other old proper row rowMember ownsRow above aboveMember holds
        · obtain ⟨owner, ownerMember, owns, ownerDirectory⟩ := coherent.owned row rowMember
          rw [coherent.entry_eq ownerMember movable.member (owns.trans ownsRow),
            isDirectory] at ownerDirectory
          exact (Bool.false_ne_true ownerDirectory).elim
    | true =>
        rw [isDirectory] at isResult
        subst isResult
        have renamed := (movable.pending coherent isDirectory time).renameTree
        obtain ⟨directories, isRenamed, ids⟩ :=
          Txn.rewritePaths_eq ((tables.moveEntry entry.id holder.id name.text time).entries.length + 1)
            [(entry.id, path)] (tables.moveEntry entry.id holder.id name.text time)
        have entries := congrArg Tables.entries isRenamed
        have rowIds := (congrArg (fun left : Tables => left.directories.map (·.id)) isRenamed).trans ids
        have lastEntryId := congrArg Tables.lastEntryId isRenamed
        refine ⟨entries, rowIds, lastEntryId,
          coherent.moved movable entries rowIds lastEntryId renamed.topRow ?_ renamed.written⟩
        intro other member proper row rowMember ownsRow above aboveMember holds
        rcases renamed.paths other member proper row rowMember ownsRow above aboveMember holds with
          follows | isDue
        · exact follows
        · simp at isDue
  obtain ⟨entries, rowIds, lastEntryId, isCoherent⟩ := shape
  have mem_after {other : Entry} (member : other ∈ after.entries) :
      (other ∈ tables.entries ∧ other.id ≠ entry.id) ∨
        other = { entry with
          directoryId := holder.id
          name := name.text
          lastModified := time } := by
    rw [entries] at member
    exact (mem_entries_moveEntry coherent movable.member).mp member
  have mem_row {id : Int} (housed : ∃ row ∈ tables.directories, row.id = id) :
      ∃ row ∈ after.directories, row.id = id := by
    have listed := List.mem_map.mpr housed
    rw [← rowIds] at listed
    exact List.mem_map.mp listed
  refine ⟨isCoherent, ⟨?_, ?_⟩, ?_, ?_⟩
  · rw [lastEntryId]
    exact sound.knows.id_le
  · intro seen member row rowMember same
    rcases mem_after rowMember with ⟨old, -⟩ | rfl
    · exact sound.knows.kind seen member row old same
    · exact sound.knows.kind seen member entry movable.member same
  · intro other member above aboveMember held
    refine mem_row ?_
    obtain ⟨old, oldMember, sameId⟩ : ∃ old ∈ tables.entries, old.id = above.id := by
      rcases mem_after aboveMember with ⟨old, -⟩ | rfl
      · exact ⟨above, old, rfl⟩
      · exact ⟨entry, movable.member, rfl⟩
    rcases mem_after member with ⟨otherOld, -⟩ | rfl
    · rw [← sameId]
      exact sound.rowed other otherOld old oldMember (sameId.trans held)
    · rw [held]
      exact coherent.housed holder movable.target
  · intro holds other member
    refine mem_row ?_
    rcases mem_after member with ⟨old, -⟩ | rfl
    · exact sound.integral holds other old
    · exact coherent.housed holder movable.target

end Move

end VersionStore.Tables
