import VersionStore.Proofs.Tree.Coherent
import VersionStore.Tables.Links
import VersionStore.Tables.Parts

namespace VersionStore.Tables

/-!
# Edits that keep the tree

Three kinds of edits leave sound tables sound: taking rows away, changing entries where
they are or moving them to the trash, and adding an entry. Moving an entry to another
directory is the fourth and has a module of its own.
-/

variable {before after : Tables} {strict : Prop} {known : List Entry}

/-! ## Taking rows away -/

/-- Rows were taken away, but none that the tree needs. -/
structure Thinned (before after : Tables) : Prop where
  entries : after.entries.Sublist before.entries
  directories : after.directories.Sublist before.directories
  lastEntryId : after.lastEntryId = before.lastEntryId
  top : ∀ entry ∈ before.entries, entry.id = rootId → entry ∈ after.entries
  /-- The entry of a row that is left is left. -/
  owned :
    ∀ row ∈ after.directories,
      ∀ entry ∈ before.entries,
        entry.id = row.id →
        entry ∈ after.entries
  /-- The row of a live directory that is left is left. -/
  housed :
    ∀ entry,
      after.IsLiveDirectory entry →
      ∀ row ∈ before.directories,
        row.id = entry.id →
        row ∈ after.directories
  /-- The directory of a live entry that is left is left. -/
  placed :
    ∀ entry ∈ after.entries,
      entry.isDeleted = false →
      ∀ holder,
        before.IsLiveDirectory holder →
        holder.id = entry.directoryId →
        holder ∈ after.entries
  /-- The row of an entry that is left stays while another one lies in it. -/
  rowed :
    ∀ entry ∈ after.entries,
      ∀ holder ∈ after.entries,
        holder.id = entry.directoryId →
        ∀ row ∈ before.directories,
          row.id = holder.id →
          row ∈ after.directories

/-- Thinned tables are coherent. -/
theorem Coherent.thinned
    (coherent : before.Coherent)
    (thinned : Thinned before after) :
    after.Coherent where
  ids := coherent.ids.sublist (thinned.entries.map _)
  rowIds := coherent.rowIds.sublist (thinned.directories.map _)
  id_le entry member := by
    rw [thinned.lastEntryId]
    exact coherent.id_le entry (thinned.entries.subset member)
  directoryId_le entry member := by
    rw [thinned.lastEntryId]
    exact coherent.directoryId_le entry (thinned.entries.subset member)
  top := by
    obtain ⟨top, member, isTop⟩ := coherent.top
    exact ⟨top, thinned.top top member isTop.id, isTop⟩
  topRow := by
    obtain ⟨top, member, isTop⟩ := coherent.top
    have left := thinned.top top member isTop.id
    exact thinned.housed top ⟨left, isTop.isDirectory, isTop.live⟩ _ coherent.topRow isTop.id.symm
  named entry member proper :=
    coherent.named entry (thinned.entries.subset member) proper
  owned row member := by
    obtain ⟨entry, entryMember, same, isDirectory⟩ :=
      coherent.owned row (thinned.directories.subset member)
    exact ⟨entry, thinned.owned row member entry entryMember same, same, isDirectory⟩
  housed entry live := by
    obtain ⟨row, member, same⟩ :=
      coherent.housed entry
        ⟨thinned.entries.subset live.member, live.isDirectory, live.live⟩
    exact ⟨row, thinned.housed entry live row member same, same⟩
  placed entry member live := by
    obtain ⟨holder, isLive, same⟩ :=
      coherent.placed entry (thinned.entries.subset member) live
    have left := thinned.placed entry member live holder isLive same
    exact ⟨holder, ⟨left, isLive.isDirectory, isLive.live⟩, same⟩
  distinct first firstMember second secondMember :=
    coherent.distinct first (thinned.entries.subset firstMember) second
      (thinned.entries.subset secondMember)
  paths entry member proper row rowMember same above aboveMember :=
    coherent.paths entry (thinned.entries.subset member) proper row
      (thinned.directories.subset rowMember) same above
      (thinned.directories.subset aboveMember)
  written row member := coherent.written row (thinned.directories.subset member)
  ranked := by
    obtain ⟨rank, ranked⟩ := coherent.ranked
    exact ⟨rank, fun entry member => ranked entry (thinned.entries.subset member)⟩

/-- Thinned tables are sound. Where integrity is asked for, the row of a directory has to
stay as long as an entry lies in it. -/
theorem Sound.thinned
    (sound : before.Sound strict known)
    (thinned : Thinned before after)
    (kept :
      strict →
      ∀ entry ∈ after.entries,
        ∀ row ∈ before.directories,
          row.id = entry.directoryId →
          row ∈ after.directories) :
    after.Sound strict known where
  coherent := sound.coherent.thinned thinned
  knows :=
    { id_le := by
        rw [thinned.lastEntryId]
        exact sound.knows.id_le
      kind := fun entry member row rowMember =>
        sound.knows.kind entry member row (thinned.entries.subset rowMember) }
  rowed entry member holder holderMember held := by
    obtain ⟨row, rowMember, owns⟩ := sound.rowed entry (thinned.entries.subset member) holder
      (thinned.entries.subset holderMember) held
    exact ⟨row, thinned.rowed entry member holder holderMember held row rowMember owns, owns⟩
  integral holds entry member := by
    obtain ⟨row, rowMember, same⟩ := sound.integral holds entry (thinned.entries.subset member)
    exact ⟨row, kept holds entry member row rowMember same, same⟩

/-! ## Changing entries where they are -/

/-- What a change in place leaves of an entry. -/
def spot (entry : Entry) : Int × Int × String × Bool :=
  (entry.id, entry.directoryId, entry.name, entry.isDirectory)

/-- Entries were changed in place or moved to the trash, but no directory that holds a live
entry. -/
structure Changed (before after : Tables) : Prop where
  spots : after.entries.map spot = before.entries.map spot
  directories : after.directories = before.directories
  lastEntryId : after.lastEntryId = before.lastEntryId
  top : ∀ entry ∈ after.entries, entry.id = rootId → entry.isDeleted = false
  /-- What is live was live. -/
  live :
    ∀ entry ∈ after.entries,
      entry.isDeleted = false →
      ∀ old ∈ before.entries,
        old.id = entry.id →
        old.isDeleted = false
  /-- What holds a live entry is live. -/
  holders :
    ∀ entry ∈ after.entries,
      entry.isDeleted = false →
      ∀ holder ∈ after.entries,
        holder.id = entry.directoryId →
        holder.isDeleted = false

namespace Changed

/-- The parts of equal spots are equal. -/
private theorem spot_eq_iff
    {first second : Entry} :
    spot first = spot second ↔
      first.id = second.id ∧ first.directoryId = second.directoryId ∧
        first.name = second.name ∧ first.isDirectory = second.isDirectory := by
  simp [spot]

/-- Every entry was there before the change. -/
theorem exists_before
    (changed : Changed before after)
    {entry : Entry}
    (member : entry ∈ after.entries) :
    ∃ old ∈ before.entries, spot old = spot entry := by
  have listed : spot entry ∈ before.entries.map spot := by
    rw [← changed.spots]
    exact List.mem_map_of_mem member
  simpa using listed

/-- Every entry is there after the change. -/
theorem exists_after
    (changed : Changed before after)
    {old : Entry}
    (member : old ∈ before.entries) :
    ∃ entry ∈ after.entries, spot entry = spot old := by
  have listed : spot old ∈ after.entries.map spot := by
    rw [changed.spots]
    exact List.mem_map_of_mem member
  simpa using listed

/-- The ids are those before the change. -/
theorem ids
    (changed : Changed before after) :
    after.entries.map (·.id) = before.entries.map (·.id) := by
  have same := congrArg (List.map Prod.fst) changed.spots
  simpa [spot, List.map_map, Function.comp_def] using same

end Changed

/-- Tables stay coherent where entries change in place. -/
theorem Coherent.changed
    (coherent : before.Coherent)
    (changed : Changed before after) :
    after.Coherent where
  ids := by
    rw [changed.ids]
    exact coherent.ids
  rowIds := by
    rw [changed.directories]
    exact coherent.rowIds
  id_le entry member := by
    obtain ⟨old, oldMember, same⟩ := changed.exists_before member
    obtain ⟨id, -, -, -⟩ := Changed.spot_eq_iff.mp same
    rw [changed.lastEntryId, ← id]
    exact coherent.id_le old oldMember
  directoryId_le entry member := by
    obtain ⟨old, oldMember, same⟩ := changed.exists_before member
    obtain ⟨-, directoryId, -, -⟩ := Changed.spot_eq_iff.mp same
    rw [changed.lastEntryId, ← directoryId]
    exact coherent.directoryId_le old oldMember
  top := by
    obtain ⟨old, oldMember, isTop⟩ := coherent.top
    obtain ⟨top, member, same⟩ := changed.exists_after oldMember
    obtain ⟨id, directoryId, name, isDirectory⟩ := Changed.spot_eq_iff.mp same
    have isRoot : top.id = rootId := id.trans isTop.id
    exact ⟨top, member, isRoot, directoryId.trans isTop.directoryId, name.trans isTop.name,
      isDirectory.trans isTop.isDirectory, changed.top top member isRoot⟩
  topRow := by
    rw [changed.directories]
    exact coherent.topRow
  named entry member proper := by
    obtain ⟨old, oldMember, same⟩ := changed.exists_before member
    obtain ⟨id, -, name, -⟩ := Changed.spot_eq_iff.mp same
    rw [← name]
    exact coherent.named old oldMember (by rwa [id])
  owned row rowMember := by
    rw [changed.directories] at rowMember
    obtain ⟨old, oldMember, ownsRow, wasDirectory⟩ := coherent.owned row rowMember
    obtain ⟨entry, member, same⟩ := changed.exists_after oldMember
    obtain ⟨id, -, -, isDirectory⟩ := Changed.spot_eq_iff.mp same
    exact ⟨entry, member, id.trans ownsRow, isDirectory.trans wasDirectory⟩
  housed entry live := by
    obtain ⟨old, oldMember, same⟩ := changed.exists_before live.member
    obtain ⟨id, -, -, isDirectory⟩ := Changed.spot_eq_iff.mp same
    have wasLive := changed.live entry live.member live.live old oldMember id
    obtain ⟨row, rowMember, ownsRow⟩ :=
      coherent.housed old ⟨oldMember, isDirectory.trans live.isDirectory, wasLive⟩
    rw [changed.directories]
    exact ⟨row, rowMember, ownsRow.trans id⟩
  placed entry member live := by
    obtain ⟨old, oldMember, same⟩ := changed.exists_before member
    obtain ⟨id, directoryId, -, -⟩ := Changed.spot_eq_iff.mp same
    have wasLive := changed.live entry member live old oldMember id
    obtain ⟨oldHolder, wasHolder, holds⟩ := coherent.placed old oldMember wasLive
    obtain ⟨holder, holderMember, sameHolder⟩ := changed.exists_after wasHolder.member
    obtain ⟨holderId, -, -, isDirectory⟩ := Changed.spot_eq_iff.mp sameHolder
    have holdsEntry : holder.id = entry.directoryId :=
      holderId.trans (holds.trans directoryId)
    exact ⟨holder, ⟨holderMember, isDirectory.trans wasHolder.isDirectory,
      changed.holders entry member live holder holderMember holdsEntry⟩, holdsEntry⟩
  distinct first firstMember second secondMember firstLive secondLive sameDirectory sameName := by
    obtain ⟨oldFirst, oldFirstMember, sameFirst⟩ := changed.exists_before firstMember
    obtain ⟨oldSecond, oldSecondMember, sameSecond⟩ := changed.exists_before secondMember
    obtain ⟨firstId, firstDirectory, firstName, -⟩ := Changed.spot_eq_iff.mp sameFirst
    obtain ⟨secondId, secondDirectory, secondName, -⟩ := Changed.spot_eq_iff.mp sameSecond
    have same : oldFirst = oldSecond :=
      coherent.distinct oldFirst oldFirstMember oldSecond oldSecondMember
        (changed.live first firstMember firstLive oldFirst oldFirstMember firstId)
        (changed.live second secondMember secondLive oldSecond oldSecondMember secondId)
        (by rw [firstDirectory, secondDirectory, sameDirectory])
        (by rw [firstName, secondName, sameName])
    have ordered : (after.entries.map (·.id)).Pairwise (· < ·) := by
      rw [changed.ids]
      exact coherent.ids
    exact Coherent.eq_of_pairwise_lt ordered firstMember secondMember
      (by rw [← firstId, ← secondId, same])
  paths entry member proper row rowMember ownsRow above aboveMember holds := by
    obtain ⟨old, oldMember, same⟩ := changed.exists_before member
    obtain ⟨id, directoryId, name, -⟩ := Changed.spot_eq_iff.mp same
    rw [changed.directories] at rowMember aboveMember
    rw [← name]
    exact coherent.paths old oldMember (by rwa [id]) row rowMember (by rw [ownsRow, id]) above
      aboveMember (by rw [holds, directoryId])
  written := by
    rw [changed.directories]
    exact coherent.written
  ranked := by
    obtain ⟨rank, ranked⟩ := coherent.ranked
    refine ⟨rank, fun entry member proper => ?_⟩
    obtain ⟨old, oldMember, same⟩ := changed.exists_before member
    obtain ⟨id, directoryId, -, -⟩ := Changed.spot_eq_iff.mp same
    rw [← id, ← directoryId]
    exact ranked old oldMember (by rwa [id])

/-- Tables stay sound where entries change in place. -/
theorem Sound.changed
    (sound : before.Sound strict known)
    (changed : Changed before after) :
    after.Sound strict known where
  coherent := sound.coherent.changed changed
  knows :=
    { id_le := by
        rw [changed.lastEntryId]
        exact sound.knows.id_le
      kind := by
        intro entry member row rowMember sameId
        obtain ⟨old, oldMember, same⟩ := changed.exists_before rowMember
        obtain ⟨id, -, -, isDirectory⟩ := Changed.spot_eq_iff.mp same
        rw [← isDirectory]
        exact sound.knows.kind entry member old oldMember (id.trans sameId) }
  rowed entry member holder holderMember held := by
    obtain ⟨old, oldMember, same⟩ := changed.exists_before member
    obtain ⟨oldHolder, oldHolderMember, sameHolder⟩ := changed.exists_before holderMember
    obtain ⟨-, directoryId, -, -⟩ := Changed.spot_eq_iff.mp same
    obtain ⟨id, -, -, -⟩ := Changed.spot_eq_iff.mp sameHolder
    rw [changed.directories, ← id]
    exact sound.rowed old oldMember oldHolder oldHolderMember (by rw [id, held, directoryId])
  integral holds entry member := by
    obtain ⟨old, oldMember, same⟩ := changed.exists_before member
    obtain ⟨-, directoryId, -, -⟩ := Changed.spot_eq_iff.mp same
    rw [changed.directories, ← directoryId]
    exact sound.integral holds old oldMember

/-- Where entries keep their spots and stay as live as they were, they changed in place. -/
theorem Changed.inPlace
    (coherent : before.Coherent)
    (entries :
      after.entries.map (fun entry => (spot entry, entry.isDeleted)) =
        before.entries.map (fun entry => (spot entry, entry.isDeleted)))
    (directories : after.directories = before.directories)
    (lastEntryId : after.lastEntryId = before.lastEntryId) :
    Changed before after := by
  have earlier :
      ∀ entry ∈ after.entries,
        ∃ old ∈ before.entries, spot old = spot entry ∧ old.isDeleted = entry.isDeleted := by
    intro entry member
    have listed : (spot entry, entry.isDeleted) ∈
        before.entries.map fun entry => (spot entry, entry.isDeleted) := by
      rw [← entries]
      exact List.mem_map_of_mem member
    simpa using listed
  refine ⟨?_, directories, lastEntryId, ?_, ?_, ?_⟩
  · have same := congrArg (List.map Prod.fst) entries
    simpa [List.map_map, Function.comp_def] using same
  · intro entry member isRoot
    obtain ⟨old, oldMember, same, live⟩ := earlier entry member
    rw [← live]
    exact (coherent.isTop oldMember ((spot_eq_iff.mp same).1.trans isRoot)).live
  · intro entry member live other otherMember sameId
    obtain ⟨old, oldMember, same, wasLive⟩ := earlier entry member
    rw [coherent.entry_eq otherMember oldMember (sameId.trans (spot_eq_iff.mp same).1.symm),
      wasLive, live]
  · intro entry member live holder holderMember holds
    obtain ⟨old, oldMember, same, wasLive⟩ := earlier entry member
    obtain ⟨oldHolder, oldHolderMember, sameHolder, wasHolderLive⟩ := earlier holder holderMember
    obtain ⟨liveHolder, isLive, held⟩ := coherent.placed old oldMember (wasLive.trans live)
    have holderId := (spot_eq_iff.mp sameHolder).1
    have directoryId := (spot_eq_iff.mp same).2.1
    rw [← wasHolderLive, coherent.entry_eq oldHolderMember isLive.member
      (by rw [holderId, holds, held, directoryId])]
    exact isLive.live

/-- The tree consists of entries and directory rows only. -/
theorem Sound.congr
    (sound : before.Sound strict known)
    (entries : after.entries = before.entries)
    (directories : after.directories = before.directories)
    (lastEntryId : after.lastEntryId = before.lastEntryId) :
    after.Sound strict known :=
  sound.changed (.inPlace sound.coherent (by rw [entries]) directories lastEntryId)

/-- A change of one entry that leaves it where it is and as live as it was. -/
theorem Sound.modifyEntry
    (sound : before.Sound strict known)
    (id : Int)
    {change : Entry → Entry}
    (stays : ∀ entry, spot (change entry) = spot entry)
    (live : ∀ entry, (change entry).isDeleted = entry.isDeleted) :
    (before.modifyEntry id change).Sound strict known := by
  refine sound.changed (.inPlace sound.coherent ?_ rfl rfl)
  simp only [Tables.modifyEntry, List.map_map]
  apply List.map_congr_left
  intro entry _
  by_cases meant : entry.id = id
  · simp [meant, stays, live]
  · simp [meant]

/-- A file, or a directory without live entries, is moved to the trash. -/
theorem Sound.trashEntry
    (sound : before.Sound strict known)
    {id : Int}
    (proper : id ≠ rootId)
    (empty : ∀ entry ∈ before.entries, entry.isDeleted = false → entry.directoryId ≠ id)
    (now : Int) :
    (before.trashEntry id now).Sound strict known := by
  have coherent := sound.coherent
  have shape :
      ∀ entry ∈ (before.trashEntry id now).entries,
        ∃ old ∈ before.entries,
          spot entry = spot old ∧
            entry.isDeleted = (old.isDeleted || decide (old.id = id)) := by
    intro entry member
    simp only [Tables.trashEntry, Tables.modifyEntry, List.mem_map] at member
    obtain ⟨old, oldMember, rfl⟩ := member
    refine ⟨old, oldMember, ?_⟩
    by_cases meant : old.id = id
    · simp [meant, spot]
    · simp [meant]
  refine sound.changed ⟨?_, rfl, rfl, ?_, ?_, ?_⟩
  · simp only [Tables.trashEntry, Tables.modifyEntry, List.map_map]
    apply List.map_congr_left
    intro entry _
    by_cases meant : entry.id = id
    · simp [meant, spot]
    · simp [meant]
  · intro entry member isRoot
    obtain ⟨old, oldMember, same, deleted⟩ := shape entry member
    have oldRoot : old.id = rootId := (Changed.spot_eq_iff.mp same).1.symm.trans isRoot
    rw [deleted, (coherent.isTop oldMember oldRoot).live, oldRoot]
    simpa using Ne.symm proper
  · intro entry member live other otherMember sameId
    obtain ⟨old, oldMember, same, deleted⟩ := shape entry member
    rw [coherent.entry_eq otherMember oldMember (sameId.trans (Changed.spot_eq_iff.mp same).1)]
    rw [live] at deleted
    exact (Bool.or_eq_false_iff.mp deleted.symm).1
  · intro entry member live holder holderMember holds
    obtain ⟨old, oldMember, same, deleted⟩ := shape entry member
    obtain ⟨oldHolder, oldHolderMember, sameHolder, holderDeleted⟩ := shape holder holderMember
    rw [live] at deleted
    have wasLive := (Bool.or_eq_false_iff.mp deleted.symm).1
    obtain ⟨liveHolder, isLive, held⟩ := coherent.placed old oldMember wasLive
    have holdsOld : oldHolder.id = old.directoryId := by
      rw [← (Changed.spot_eq_iff.mp sameHolder).1, holds, (Changed.spot_eq_iff.mp same).2.1]
    rw [holderDeleted, coherent.entry_eq oldHolderMember isLive.member (holdsOld.trans held.symm),
      isLive.live, held]
    simpa using empty old oldMember wasLive

/-! ## Adding an entry -/

/-- There is room for an entry: it has a name and a directory with a row, and if it is live,
this directory is live and holds no live entry of the name. -/
structure Admits (tables : Tables) (entry : Entry) : Prop where
  named : IsName entry.name
  row : ∃ row ∈ tables.directories, row.id = entry.directoryId
  placed :
    entry.isDeleted = false →
    ∃ holder, tables.IsLiveDirectory holder ∧ holder.id = entry.directoryId
  free :
    entry.isDeleted = false →
    ∀ other ∈ tables.entries,
      other.isDeleted = false →
      other.directoryId = entry.directoryId →
      other.name ≠ entry.name

/-- An entry was added, a directory with its row. -/
structure Added (before after : Tables) (entry : Entry) (path : String) : Prop where
  entries : after.entries = before.entries ++ [{ entry with id := before.lastEntryId + 1 }]
  directories :
    after.directories =
      before.directories ++ if entry.isDirectory then [⟨before.lastEntryId + 1, path⟩] else []
  lastEntryId : after.lastEntryId = before.lastEntryId + 1
  parts : after.parts = before.parts
  targets : after.targets = before.targets
  links : after.links = before.links

namespace Added

variable {entry : Entry} {path : String}

/-- What is there is the new entry or was there before. -/
theorem mem_entries
    (added : Added before after entry path)
    {other : Entry} :
    other ∈ after.entries ↔
      other ∈ before.entries ∨ other = { entry with id := before.lastEntryId + 1 } := by
  rw [added.entries]
  simp

/-- A row is the row of the new directory or was there before. -/
theorem mem_directories
    (added : Added before after entry path)
    {row : Directory} :
    row ∈ after.directories ↔
      row ∈ before.directories ∨
        entry.isDirectory = true ∧ row = ⟨before.lastEntryId + 1, path⟩ := by
  rw [added.directories]
  cases entry.isDirectory <;> simp

/-- A live directory stays one. -/
theorem isLiveDirectory
    (added : Added before after entry path)
    {holder : Entry}
    (live : before.IsLiveDirectory holder) :
    after.IsLiveDirectory holder :=
  ⟨added.mem_entries.mpr (.inl live.member), live.isDirectory, live.live⟩

end Added

/-- Ids in order stay in order when a greater one follows. -/
private theorem pairwise_lt_append
    {ids : List Int}
    (ordered : ids.Pairwise (· < ·))
    {last next : Int}
    (bounded : ∀ id ∈ ids, id ≤ last)
    (greater : last < next) :
    (ids ++ [next]).Pairwise (· < ·) := by
  rw [List.pairwise_append]
  refine ⟨ordered, List.pairwise_singleton _ _, ?_⟩
  intro id member other isNext
  rw [List.mem_singleton.mp isNext]
  have := bounded id member
  omega

/-- Coherent tables with one more entry are coherent. -/
theorem Coherent.added
    (coherent : before.Coherent)
    {entry : Entry}
    {path : String}
    (admits : before.Admits entry)
    (below :
      ∀ above ∈ before.directories,
        above.id = entry.directoryId →
        path = Path.join above.path entry.name)
    (added : Added before after entry path) :
    after.Coherent := by
  have fresh : ∀ old ∈ before.entries, old.id ≠ before.lastEntryId + 1 := by
    intro old member
    have := coherent.id_le old member
    omega
  have freshRow : ∀ row ∈ before.directories, row.id ≠ before.lastEntryId + 1 := by
    intro row member
    have := coherent.rowId_le member
    omega
  have holderOld : entry.directoryId ≤ before.lastEntryId := by
    obtain ⟨row, member, same⟩ := admits.row
    rw [← same]
    exact coherent.rowId_le member
  constructor
  case ids =>
    rw [added.entries, List.map_append]
    refine pairwise_lt_append coherent.ids ?_ (Int.lt_succ before.lastEntryId)
    intro id member
    obtain ⟨old, oldMember, rfl⟩ := List.mem_map.mp member
    exact coherent.id_le old oldMember
  case rowIds =>
    rw [added.directories, List.map_append]
    cases entry.isDirectory with
    | false =>
        simpa using coherent.rowIds
    | true =>
        refine pairwise_lt_append coherent.rowIds ?_ (Int.lt_succ before.lastEntryId)
        intro id member
        obtain ⟨row, rowMember, rfl⟩ := List.mem_map.mp member
        exact coherent.rowId_le rowMember
  case id_le =>
    intro other member
    rw [added.lastEntryId]
    rcases added.mem_entries.mp member with old | rfl
    · have := coherent.id_le other old
      omega
    · exact Int.le_refl _
  case directoryId_le =>
    intro other member
    rw [added.lastEntryId]
    rcases added.mem_entries.mp member with old | rfl
    · have := coherent.directoryId_le other old
      omega
    · change entry.directoryId ≤ _
      omega
  case top =>
    obtain ⟨top, member, isTop⟩ := coherent.top
    exact ⟨top, added.mem_entries.mpr (.inl member), isTop⟩
  case topRow =>
    exact added.mem_directories.mpr (.inl coherent.topRow)
  case named =>
    intro other member proper
    rcases added.mem_entries.mp member with old | rfl
    · exact coherent.named other old proper
    · exact admits.named
  case owned =>
    intro row member
    rcases added.mem_directories.mp member with old | ⟨isDirectory, rfl⟩
    · obtain ⟨owner, ownerMember, same, isDirectory⟩ := coherent.owned row old
      exact ⟨owner, added.mem_entries.mpr (.inl ownerMember), same, isDirectory⟩
    · exact ⟨_, added.mem_entries.mpr (.inr rfl), rfl, isDirectory⟩
  case housed =>
    rintro other ⟨member, isDirectory, live⟩
    rcases added.mem_entries.mp member with old | rfl
    · obtain ⟨row, rowMember, same⟩ := coherent.housed other ⟨old, isDirectory, live⟩
      exact ⟨row, added.mem_directories.mpr (.inl rowMember), same⟩
    · exact ⟨_, added.mem_directories.mpr (.inr ⟨isDirectory, rfl⟩), rfl⟩
  case placed =>
    intro other member live
    rcases added.mem_entries.mp member with old | rfl
    · obtain ⟨holder, isLive, same⟩ := coherent.placed other old live
      exact ⟨holder, added.isLiveDirectory isLive, same⟩
    · obtain ⟨holder, isLive, same⟩ := admits.placed live
      exact ⟨holder, added.isLiveDirectory isLive, same⟩
  case distinct =>
    intro first firstMember second secondMember firstLive secondLive sameDirectory sameName
    rcases added.mem_entries.mp firstMember with firstOld | rfl <;>
      rcases added.mem_entries.mp secondMember with secondOld | rfl
    · exact coherent.distinct first firstOld second secondOld firstLive secondLive sameDirectory
        sameName
    · exact (admits.free secondLive first firstOld firstLive sameDirectory sameName).elim
    · exact (admits.free firstLive second secondOld secondLive sameDirectory.symm
        sameName.symm).elim
    · rfl
  case paths =>
    intro other member proper row rowMember ownsRow above aboveMember holds
    rcases added.mem_entries.mp member with old | rfl
    · have oldHolder := coherent.directoryId_le other old
      rcases added.mem_directories.mp rowMember with oldRow | ⟨-, rfl⟩
      · rcases added.mem_directories.mp aboveMember with oldAbove | ⟨-, rfl⟩
        · exact coherent.paths other old proper row oldRow ownsRow above oldAbove holds
        · change before.lastEntryId + 1 = other.directoryId at holds
          omega
      · exact (fresh other old ownsRow.symm).elim
    · rcases added.mem_directories.mp rowMember with oldRow | ⟨-, rfl⟩
      · exact (freshRow row oldRow ownsRow).elim
      · rcases added.mem_directories.mp aboveMember with oldAbove | ⟨-, rfl⟩
        · exact below above oldAbove holds
        · change before.lastEntryId + 1 = entry.directoryId at holds
          omega
  case written =>
    intro row member
    rcases added.mem_directories.mp member with old | ⟨-, rfl⟩
    · exact coherent.written row old
    · obtain ⟨above, aboveMember, holds⟩ := admits.row
      obtain ⟨names, isWritten⟩ := coherent.written above aboveMember
      change ∃ longer, path = _
      rw [below above aboveMember holds, isWritten]
      exact CleanPath.exists_join_joinNames names admits.named
  case ranked =>
    -- Nothing lies in the new entry yet, so that its rank may be chosen freely.
    obtain ⟨rank, ranked⟩ := coherent.ranked
    refine ⟨fun id => if id = before.lastEntryId + 1 then rank entry.directoryId + 1 else rank id,
      fun other member proper => ?_⟩
    rcases added.mem_entries.mp member with old | rfl
    · have oldHolder : other.directoryId ≠ before.lastEntryId + 1 := by
        have := coherent.directoryId_le other old
        omega
      dsimp only
      rw [if_neg oldHolder, if_neg (fresh other old)]
      exact ranked other old proper
    · have other : entry.directoryId ≠ before.lastEntryId + 1 := by
        omega
      dsimp only
      rw [if_neg other, if_pos rfl]
      exact Nat.lt_succ_self _

/-- Sound tables with one more entry are sound. -/
theorem Sound.added
    (sound : before.Sound strict known)
    {entry : Entry}
    {path : String}
    (admits : before.Admits entry)
    (below :
      ∀ above ∈ before.directories,
        above.id = entry.directoryId →
        path = Path.join above.path entry.name)
    (added : Added before after entry path) :
    after.Sound strict known where
  coherent := sound.coherent.added admits below added
  knows :=
    { id_le := by
        intro seen member
        have := sound.knows.id_le seen member
        rw [added.lastEntryId]
        omega
      kind := by
        intro seen member row rowMember same
        rcases added.mem_entries.mp rowMember with old | rfl
        · exact sound.knows.kind seen member row old same
        · have := sound.knows.id_le seen member
          change before.lastEntryId + 1 = seen.id at same
          omega }
  rowed other member holder holderMember held := by
    rcases added.mem_entries.mp member with old | rfl
    · rcases added.mem_entries.mp holderMember with oldHolder | rfl
      · obtain ⟨row, rowMember, owns⟩ := sound.rowed other old holder oldHolder held
        exact ⟨row, added.mem_directories.mpr (.inl rowMember), owns⟩
      · have := sound.coherent.directoryId_le other old
        change before.lastEntryId + 1 = other.directoryId at held
        omega
    · obtain ⟨row, rowMember, same⟩ := admits.row
      exact ⟨row, added.mem_directories.mpr (.inl rowMember), same.trans held.symm⟩
  integral holds other member := by
    rcases added.mem_entries.mp member with old | rfl
    · obtain ⟨row, rowMember, same⟩ := sound.integral holds other old
      exact ⟨row, added.mem_directories.mpr (.inl rowMember), same⟩
    · obtain ⟨row, rowMember, same⟩ := admits.row
      exact ⟨row, added.mem_directories.mpr (.inl rowMember), same⟩

/-- Adding a file adds no row. -/
theorem added_addEntry
    {entry : Entry}
    (isFile : entry.isDirectory = false)
    (path : String) :
    Added before (before.addEntry entry).2 entry path where
  entries := rfl
  directories := by
    rw [isFile]
    exact (List.append_nil _).symm
  lastEntryId := rfl
  parts := rfl
  targets := rfl
  links := rfl

/-- A directory with a greater id than all others comes last. -/
theorem placeDirectory_eq_append
    {row : Directory}
    {rows : List Directory}
    (greater : ∀ other ∈ rows, other.id < row.id) :
    placeDirectory row rows = rows ++ [row] := by
  induction rows with
  | nil =>
      rfl
  | cons first rest inductionHypothesis =>
      have after : ¬row.id < first.id := by
        have := greater first (by simp)
        omega
      rw [placeDirectory, if_neg after,
        inductionHypothesis fun other member => greater other (by simp [member])]
      rfl

/-- A row is added under the id of a directory that was just added. -/
theorem addDirectory_addEntry
    (coherent : before.Coherent)
    {entry : Entry}
    (isDirectory : entry.isDirectory = true)
    (path : String) :
    ∃ after,
      (before.addEntry entry).2.addDirectory (before.addEntry entry).1 path = .ok after ∧
        Added before after entry path := by
  have greater : ∀ row ∈ before.directories, row.id < before.lastEntryId + 1 := by
    intro row member
    have := coherent.rowId_le member
    omega
  have missing :
      ((before.addEntry entry).2.directory? (before.addEntry entry).1).isSome = false := by
    rw [Option.isSome_eq_false_iff, Option.isNone_iff_eq_none]
    apply List.find?_eq_none.mpr
    intro row member same
    have := greater row member
    simp only [Tables.addEntry, beq_iff_eq] at same
    omega
  refine ⟨_, by rw [addDirectory, missing]; rfl, rfl, ?_, rfl, ?_, ?_, ?_⟩
  · rw [isDirectory]
    exact placeDirectory_eq_append greater
  all_goals rfl

/-! ## Fresh tables

The tables of a new store are sound when its roots have names and differ in them: each
root is one more directory in the top one.
-/

/-- The tables with nothing but the top entry are sound. -/
theorem sound_top
    (now : Int) :
    (empty.seedDirectory rootId "" now).Sound strict [] := by
  have entries :
      (empty.seedDirectory rootId "" now).entries =
        [{ freshEntry rootId "" true now with id := rootId }] := rfl
  have directories :
      (empty.seedDirectory rootId "" now).directories = [⟨rootId, ""⟩] := rfl
  have last : (empty.seedDirectory rootId "" now).lastEntryId = rootId := rfl
  have nothing {entry : Entry} : entry ∉ ([] : List Entry) := List.not_mem_nil
  refine ⟨?_, ⟨fun _ absurd => (nothing absurd).elim, fun _ absurd => (nothing absurd).elim⟩, ?_,
    fun _ => ?_⟩
  · constructor
    case ids =>
      simp [entries]
    case rowIds =>
      simp [directories]
    case id_le =>
      simp [entries, last]
    case directoryId_le =>
      simp [entries, last, freshEntry]
    case top =>
      exact ⟨_, by rw [entries]; exact List.mem_singleton.mpr rfl, rfl, rfl, rfl, rfl, rfl⟩
    case topRow =>
      simp [directories]
    case named =>
      simp [entries]
    case owned =>
      simp [entries, directories, freshEntry]
    case housed =>
      rintro entry ⟨member, -, -⟩
      simp_all
    case placed =>
      simp only [entries, List.mem_singleton, forall_eq]
      exact fun _ => ⟨_, ⟨by rw [entries]; exact List.mem_singleton.mpr rfl, rfl, rfl⟩, rfl⟩
    case distinct =>
      simp [entries]
    case paths =>
      simp [entries]
    case written =>
      simp only [directories, List.mem_singleton, forall_eq]
      exact ⟨[], rfl⟩
    case ranked =>
      exact ⟨fun _ => 0, by simp [Ranked, entries]⟩
  · simp [Rowed, entries, directories, freshEntry]
  · simp [Integral, entries, directories, freshEntry]

/-- Adding roots whose names are free keeps sound tables sound. -/
theorem Sound.seedFrom
    (now : Int)
    {names : List String}
    (named : ∀ name ∈ names, IsName name)
    (distinct : names.Nodup)
    {tables : Tables}
    (sound : tables.Sound strict [])
    {id : Int}
    (next : id = tables.lastEntryId + 1)
    (free : ∀ entry ∈ tables.entries, entry.name ∉ names) :
    (tables.seedFrom id now names).Sound strict [] := by
  induction names generalizing tables id with
  | nil =>
      exact sound
  | cons name rest inductionHypothesis =>
      subst next
      obtain ⟨top, topMember, isTop⟩ := sound.coherent.top
      have added :
          Added tables (tables.seedDirectory (tables.lastEntryId + 1) name now)
            (freshEntry rootId name true now) name := by
        refine ⟨rfl, ?_, ?_, rfl, rfl, rfl⟩
        · refine placeDirectory_eq_append fun row member => ?_
          have := sound.coherent.rowId_le member
          change row.id < tables.lastEntryId + 1
          omega
        · change max tables.lastEntryId (tables.lastEntryId + 1) = tables.lastEntryId + 1
          omega
      have admits : tables.Admits (freshEntry rootId name true now) := by
        refine ⟨named name (by simp), ⟨_, sound.coherent.topRow, rfl⟩, fun _ => ?_, fun _ => ?_⟩
        · exact ⟨top, ⟨topMember, isTop.isDirectory, isTop.live⟩, isTop.id⟩
        · intro other member _ _ same
          exact free other member (by rw [same]; simp [freshEntry])
      rw [Tables.seedFrom]
      refine inductionHypothesis (fun other member => named other (List.mem_cons_of_mem _ member))
        (List.nodup_cons.mp distinct).2 (sound.added admits ?_ added) ?_ ?_
      · intro above member holds
        rw [sound.coherent.row_eq member sound.coherent.topRow holds]
        exact (Path.join_empty ⟨name, named name (by simp)⟩).symm
      · rw [added.lastEntryId]
      · intro entry member
        rcases added.mem_entries.mp member with old | rfl
        · exact fun inRest => free entry old (List.mem_cons_of_mem _ inRest)
        · exact (List.nodup_cons.mp distinct).1

/-- The tables of a new store are sound. -/
theorem sound_seed
    {roots : List String}
    (named : ∀ root ∈ roots, IsName root)
    (distinct : roots.Nodup)
    (now : Int) :
    (seed roots now).Sound strict [] := by
  refine (sound_top now).seedFrom now named distinct rfl fun entry member inRoots => ?_
  have only : entry = { freshEntry rootId "" true now with id := rootId } :=
    List.mem_singleton.mp member
  subst only
  exact (named _ inRoots).1 rfl

end VersionStore.Tables
