import VersionStore.Proofs.Content.Laid
import VersionStore.Tables.Entries
import VersionStore.Tables.Links

namespace VersionStore

/-!
# Contents that are carried over

What work inside a scope makes of the contents of files: a row that was there before has
the parts that it had, or it is gone, and a new row has parts of its own. Files that are
being written are left out: those of open writers, and a new one until its content is
recorded.
-/

/-- Two rows say the same about the content of one file. -/
structure Entry.SameContent (first second : Entry) : Prop where
  id : first.id = second.id
  isDirectory : first.isDirectory = second.isDirectory
  length : first.length = second.length
  checksum : first.checksum = second.checksum

theorem Entry.SameContent.refl
    (entry : Entry) :
    entry.SameContent entry :=
  ⟨rfl, rfl, rfl, rfl⟩

theorem Entry.SameContent.trans
    {first second third : Entry}
    (before : first.SameContent second)
    (after : second.SameContent third) :
    first.SameContent third where
  id := before.id.trans after.id
  isDirectory := before.isDirectory.trans after.isDirectory
  length := before.length.trans after.length
  checksum := before.checksum.trans after.checksum

namespace Tables

variable
  {base tables after : Tables}
  {busy unfinished kept : Int → Prop}
  {entry : Entry}
  {id : Int}

/-- Every file that is not busy has the content that its row says. -/
structure Filed (busy : Int → Prop) (tables : Tables) : Prop extends tables.Numbered where
  stored : ∀ entry ∈ tables.entries, ¬busy entry.id → tables.Stored entry

/-- What work has made of the contents in some tables. All rows but those that are unfinished
are as they were or new and stored, and of some ids the parts have stayed. -/
structure Carries (base : Tables) (unfinished kept : Int → Prop) (tables : Tables) : Prop
    extends tables.Numbered where
  lastPartId_le : base.lastPartId ≤ tables.lastPartId
  lastEntryId_le : base.lastEntryId ≤ tables.lastEntryId
  origin :
    ∀ part ∈ tables.parts,
      part ∈ base.parts ∨ base.lastPartId < part.id ∧ base.lastEntryId < part.fileId
  rows :
    ∀ entry ∈ tables.entries,
      (∃ old ∈ base.entries,
        old.SameContent entry ∧ tables.pieces entry.id = base.pieces entry.id) ∨
      base.lastEntryId < entry.id ∧
        (unfinished entry.id → entry.isDirectory = false) ∧
          (¬unfinished entry.id → tables.Stored entry)
  kept : ∀ id, kept id → tables.pieces id = base.pieces id

theorem Stored.congr
    {other : Entry}
    (stored : tables.Stored entry)
    (same : entry.SameContent other)
    (pieces : after.pieces other.id = tables.pieces entry.id) :
    after.Stored other where
  laid := by
    rw [pieces]
    exact stored.laid
  length := by
    rw [pieces, ← same.length]
    exact stored.length
  checksum checksum isRecorded := by
    rw [pieces]
    exact stored.checksum checksum (same.checksum.trans isRecorded)
  bare isDirectory := by
    rw [pieces]
    exact stored.bare (same.isDirectory.trans isDirectory)

/-- A row without parts is stored. -/
theorem Stored.of_nil
    (pieces : tables.pieces entry.id = [])
    (length : entry.length = 0)
    (checksum : entry.checksum = none) :
    tables.Stored entry where
  laid := by
    rw [pieces]
    trivial
  length := by
    rw [pieces, length]
    rfl
  checksum checksum' isRecorded := by
    rw [checksum] at isRecorded
    cases isRecorded
  bare _ := pieces

namespace Carries

/-- Nothing was done yet. -/
theorem refl
    (numbered : tables.Numbered) :
    tables.Carries unfinished kept tables where
  toNumbered := numbered
  lastPartId_le := Int.le_refl _
  lastEntryId_le := Int.le_refl _
  origin _ member := .inl member
  rows entry member := .inl ⟨entry, member, .refl entry, rfl⟩
  kept _ _ := rfl

/-- What is carried over is filed if it was, once nothing is unfinished. -/
theorem filed
    (carries : base.Carries (fun _ => False) kept tables)
    (filed : base.Filed busy) :
    tables.Filed busy where
  toNumbered := carries.toNumbered
  stored entry member idle := by
    rcases carries.rows entry member with ⟨old, oldMember, same, pieces⟩ | ⟨-, -, stored⟩
    · refine (filed.stored old oldMember ?_).congr same ?_
      · rwa [same.id]
      · rw [pieces, same.id]
    · exact stored id

/-- Fewer ids may be minded. -/
theorem minding
    {kept' : Int → Prop}
    (carries : base.Carries unfinished kept tables)
    (fewer : ∀ id, kept' id → kept id) :
    base.Carries unfinished kept' tables :=
  { carries with kept := fun id minded => carries.kept id (fewer id minded) }

/-- The next row may be unfinished. -/
theorem starting
    (carries : base.Carries (fun _ => False) kept tables) :
    base.Carries (· = tables.lastEntryId + 1) kept tables where
  toNumbered := carries.toNumbered
  lastPartId_le := carries.lastPartId_le
  lastEntryId_le := carries.lastEntryId_le
  origin := carries.origin
  rows entry member := by
    have given := carries.entry_le entry member
    refine (carries.rows entry member).imp_right fun fresh => ⟨fresh.1, fun next => ?_, fun _ => ?_⟩
    · omega
    · exact fresh.2.2 id
  kept := carries.kept

/-- Rows may be changed in what they do not say about contents, and rows and parts may go as
long as no row loses its parts. -/
theorem thinned
    (carries : base.Carries unfinished kept tables)
    (parts : after.parts.Sublist tables.parts)
    (lastPartId : after.lastPartId = tables.lastPartId)
    (lastEntryId : after.lastEntryId = tables.lastEntryId)
    (rows :
      ∀ entry ∈ after.entries,
        ∃ old ∈ tables.entries,
          old.SameContent entry ∧ after.pieces entry.id = tables.pieces entry.id)
    (minded : ∀ id, kept id → after.pieces id = tables.pieces id) :
    base.Carries unfinished kept after where
  parts := carries.parts.sublist (parts.map _)
  part_le part member := by
    rw [lastPartId]
    exact carries.part_le part (parts.subset member)
  file_le part member := by
    rw [lastEntryId]
    exact carries.file_le part (parts.subset member)
  entry_le entry member := by
    obtain ⟨old, oldMember, same, -⟩ := rows entry member
    rw [lastEntryId, ← same.id]
    exact carries.entry_le old oldMember
  lastPartId_le := by
    rw [lastPartId]
    exact carries.lastPartId_le
  lastEntryId_le := by
    rw [lastEntryId]
    exact carries.lastEntryId_le
  origin part member := carries.origin part (parts.subset member)
  rows entry member := by
    obtain ⟨old, oldMember, same, pieces⟩ := rows entry member
    rcases carries.rows old oldMember with
      ⟨first, firstMember, sameFirst, carried⟩ | ⟨fresh, isFile, stored⟩
    · refine .inl ⟨first, firstMember, ?_, ?_⟩
      · exact sameFirst.trans same
      · rw [pieces, ← same.id, carried]
    · rw [← same.id, ← same.isDirectory]
      refine .inr ⟨fresh, isFile, fun finished => (stored finished).congr same ?_⟩
      rw [pieces, same.id]
  kept id isKept := by
    rw [minded id isKept, carries.kept id isKept]

/-- Rows may be changed in what they do not say about contents. -/
theorem congr
    (carries : base.Carries unfinished kept tables)
    (parts : after.parts = tables.parts)
    (lastPartId : after.lastPartId = tables.lastPartId)
    (lastEntryId : after.lastEntryId = tables.lastEntryId)
    (rows : ∀ entry ∈ after.entries, ∃ old ∈ tables.entries, old.SameContent entry) :
    base.Carries unfinished kept after := by
  have pieces : ∀ id, after.pieces id = tables.pieces id := fun id => by
    rw [Tables.pieces, parts, Tables.pieces]
  refine carries.thinned (parts ▸ .refl _) lastPartId lastEntryId (fun entry member => ?_)
    fun id _ => pieces id
  obtain ⟨old, oldMember, same⟩ := rows entry member
  exact ⟨old, oldMember, same, pieces _⟩

/-- Directories and links may be changed. -/
theorem elsewhere
    (carries : base.Carries unfinished kept tables)
    (directories : List Directory)
    (targets : List LinkTarget)
    (links : List Link) :
    base.Carries unfinished kept { tables with directories, targets, links } :=
  carries.congr rfl rfl rfl fun entry member => ⟨entry, member, .refl entry⟩

theorem modifyEntry
    (carries : base.Carries unfinished kept tables)
    (id : Int)
    {change : Entry → Entry}
    (same : ∀ entry : Entry, entry.SameContent (change entry)) :
    base.Carries unfinished kept (tables.modifyEntry id change) := by
  refine carries.congr rfl rfl rfl fun entry member => ?_
  obtain ⟨old, oldMember, rfl⟩ := List.mem_map.mp member
  refine ⟨old, oldMember, ?_⟩
  split
  · exact same old
  · exact .refl old

/-! ## Rows that go -/

/-- The row of a directory goes. -/
theorem removeEntry
    (carries : base.Carries unfinished kept tables)
    (id : Int) :
    base.Carries unfinished kept (tables.removeEntry id) :=
  carries.congr rfl rfl rfl fun entry member =>
    ⟨entry, (List.mem_filter.mp member).1, .refl entry⟩

theorem pieces_removeParts
    {other : Int}
    (different : other ≠ id) :
    (tables.removeParts id).pieces other = tables.pieces other := by
  unfold removeParts pieces
  rw [List.filter_filter]
  apply List.filter_congr
  intro part _
  by_cases same : part.fileId = other
  · simp [same, different]
  · simp [same]

/-- The row of a file goes with its parts. -/
theorem removeFile
    (carries : base.Carries unfinished kept tables)
    (minded : ¬kept id) :
    base.Carries unfinished kept
      (((tables.removeEntry id).removeParts id).removeLinks id) := by
  refine carries.thinned List.filter_sublist rfl rfl (fun entry member => ?_) fun other isKept => ?_
  · obtain ⟨oldMember, different⟩ := List.mem_filter.mp member
    refine ⟨entry, oldMember, .refl entry, ?_⟩
    exact pieces_removeParts (bne_iff_ne.mp different)
  · refine pieces_removeParts ?_
    rintro rfl
    exact minded isKept

/-! ## Rows that come -/

/-- A row is added that says nothing about parts yet, or is unfinished. -/
theorem addEntry
    (carries : base.Carries unfinished kept tables)
    (isFile : unfinished (tables.lastEntryId + 1) → entry.isDirectory = false)
    (empty : ¬unfinished (tables.lastEntryId + 1) → entry.length = 0 ∧ entry.checksum = none) :
    base.Carries unfinished kept (tables.addEntry entry).2 where
  parts := carries.parts
  part_le := carries.part_le
  file_le part member := by
    have given := carries.file_le part member
    change part.fileId ≤ tables.lastEntryId + 1
    omega
  entry_le other member := by
    change other.id ≤ tables.lastEntryId + 1
    rcases List.mem_append.mp member with old | new
    · have given := carries.entry_le other old
      omega
    · exact Int.le_of_eq (congrArg (·.id) (List.mem_singleton.mp new))
  lastPartId_le := carries.lastPartId_le
  lastEntryId_le := by
    have given := carries.lastEntryId_le
    change base.lastEntryId ≤ tables.lastEntryId + 1
    omega
  origin := carries.origin
  rows other member := by
    rcases List.mem_append.mp member with old | new
    · rcases carries.rows other old with carried | ⟨fresh, otherIsFile, stored⟩
      · exact .inl carried
      · exact .inr ⟨fresh, otherIsFile, fun finished => (stored finished).congr (.refl other) rfl⟩
    · have given := carries.lastEntryId_le
      rw [List.mem_singleton.mp new]
      refine .inr ⟨by dsimp only; omega, isFile, fun finished => ?_⟩
      refine .of_nil ?_ (empty finished).1 (empty finished).2
      apply carries.pieces_eq_nil
      dsimp only
      omega
  kept := carries.kept

theorem pieces_concat
    (part : Part)
    (lastPartId : Int) :
    ({ tables with parts := tables.parts ++ [part], lastPartId } : Tables).pieces id =
      tables.pieces id ++ if part.fileId = id then [part] else [] := by
  by_cases same : part.fileId = id <;> simp [Tables.pieces, same]

/-- A part is added to an unfinished file, with the next id. -/
theorem addPart
    (carries : base.Carries unfinished kept tables)
    (numbered : base.Numbered)
    (open_ : unfinished id)
    (minded : ¬kept id)
    (fresh : base.lastEntryId < id)
    (given : id ≤ tables.lastEntryId)
    (part : Part)
    (isNext : part.id = tables.lastPartId + 1)
    (isPart : part.fileId = id) :
    base.Carries unfinished kept
      { tables with parts := tables.parts ++ [part], lastPartId := part.id } where
  parts := by
    rw [List.map_append, List.pairwise_append]
    refine ⟨carries.parts, by simp, fun before member next isLast => ?_⟩
    obtain ⟨old, oldMember, rfl⟩ := List.mem_map.mp member
    have earlier := carries.part_le old oldMember
    have last : next = part.id := by simpa using isLast
    omega
  part_le other member := by
    change other.id ≤ part.id
    rcases List.mem_append.mp member with old | new
    · have earlier := carries.part_le other old
      omega
    · exact Int.le_of_eq (congrArg (·.id) (List.mem_singleton.mp new))
  file_le other member := by
    rcases List.mem_append.mp member with old | new
    · exact carries.file_le other old
    · rw [List.mem_singleton.mp new, isPart]
      exact given
  entry_le := carries.entry_le
  lastPartId_le := by
    have earlier := carries.lastPartId_le
    change base.lastPartId ≤ part.id
    omega
  lastEntryId_le := carries.lastEntryId_le
  origin other member := by
    rcases List.mem_append.mp member with old | new
    · exact carries.origin other old
    · have earlier := carries.lastPartId_le
      rw [List.mem_singleton.mp new]
      exact .inr ⟨by omega, by rwa [isPart]⟩
  rows entry member := by
    rw [pieces_concat, isPart]
    rcases carries.rows entry member with ⟨old, oldMember, same, pieces⟩ | ⟨isNew, isFile, stored⟩
    · have earlier := numbered.entry_le old oldMember
      have different : id ≠ entry.id := by
        rw [← same.id]
        omega
      refine .inl ⟨old, oldMember, same, ?_⟩
      rw [if_neg different, List.append_nil, pieces]
    · refine .inr ⟨isNew, isFile, fun finished => (stored finished).congr (.refl entry) ?_⟩
      have different : id ≠ entry.id := by
        rintro rfl
        exact finished open_
      rw [pieces_concat, isPart, if_neg different, List.append_nil]
  kept other isKept := by
    have different : id ≠ other := by
      rintro rfl
      exact minded isKept
    rw [pieces_concat, isPart, if_neg different, List.append_nil, carries.kept other isKept]

/-- A file that copies of parts are added to has them behind its own. -/
theorem map_bare_addCopies
    (tables : Tables)
    (id : Int)
    (copied : List Part) :
    ((tables.addCopies id copied).pieces id).map Part.bare =
      (tables.pieces id).map Part.bare ++ copied.map Part.bare := by
  induction copied generalizing tables with
  | nil =>
      simp [Tables.addCopies]
  | cons part rest inductionHypothesis =>
      rw [Tables.addCopies, inductionHypothesis, pieces_concat]
      simp [Part.bare]

/-- Copies of parts are added to an unfinished file. -/
theorem addCopies
    (carries : base.Carries unfinished kept tables)
    (numbered : base.Numbered)
    (open_ : unfinished id)
    (minded : ¬kept id)
    (fresh : base.lastEntryId < id)
    (given : id ≤ tables.lastEntryId)
    (copied : List Part) :
    base.Carries unfinished kept (tables.addCopies id copied) ∧
      ((tables.addCopies id copied).pieces id).map Part.bare =
        (tables.pieces id).map Part.bare ++ copied.map Part.bare := by
  refine ⟨?_, map_bare_addCopies tables id copied⟩
  induction copied generalizing tables with
  | nil =>
      exact carries
  | cons part rest inductionHypothesis =>
      have added := carries.addPart numbered open_ minded fresh given
        { part with id := tables.lastPartId + 1, fileId := id } rfl rfl
      exact inductionHypothesis added given

/-- A row that was unfinished is done when it says what its parts come to. -/
theorem settled
    (carries : base.Carries (· = id) kept tables)
    (stored : ∀ entry ∈ tables.entries, entry.id = id → tables.Stored entry) :
    base.Carries (fun _ => False) kept tables where
  toNumbered := carries.toNumbered
  lastPartId_le := carries.lastPartId_le
  lastEntryId_le := carries.lastEntryId_le
  origin := carries.origin
  rows entry member := by
    refine (carries.rows entry member).imp_right fun fresh =>
      ⟨fresh.1, fun absurd => absurd.elim, fun _ => ?_⟩
    by_cases isId : entry.id = id
    · exact stored entry member isId
    · exact fresh.2.2 isId
  kept := carries.kept

/-- The content of an unfinished file is recorded as what its parts come to. -/
theorem recordContent
    (carries : base.Carries (· = id) kept tables)
    (numbered : base.Numbered)
    (fresh : base.lastEntryId < id)
    (laid : LaidFrom 0 (tables.pieces id))
    {length : Int}
    (isLength : length = (bytesOf (tables.pieces id)).size)
    (modified : Int)
    {checksum? : Option Checksum}
    (isChecksum :
      ∀ checksum,
        checksum? = some checksum →
        checksum = Checksum.ofData (bytesOf (tables.pieces id))) :
    base.Carries (fun _ => False) kept (tables.recordContent id length modified checksum?) := by
  have isFile : ∀ entry ∈ tables.entries, entry.id = id → entry.isDirectory = false := by
    rintro entry member isId
    rcases carries.rows entry member with ⟨old, oldMember, same, -⟩ | ⟨-, isFile, -⟩
    · have earlier := numbered.entry_le old oldMember
      have sameId := same.id
      omega
    · exact isFile isId
  have recorded :
      base.Carries (· = id) kept (tables.recordContent id length modified checksum?) := by
    refine ⟨⟨⟨carries.parts, carries.part_le⟩, carries.file_le, fun entry member => ?_⟩,
      carries.lastPartId_le, carries.lastEntryId_le, carries.origin, fun entry member => ?_,
      carries.kept⟩
    · obtain ⟨old, oldMember, rfl⟩ := List.mem_map.mp member
      split <;> exact carries.entry_le old oldMember
    · obtain ⟨old, oldMember, rfl⟩ := List.mem_map.mp member
      by_cases isId : old.id = id
      · rw [if_pos isId]
        exact .inr ⟨isId ▸ fresh, fun _ => isFile old oldMember isId, fun other => (other isId).elim⟩
      · rw [if_neg isId]
        refine (carries.rows old oldMember).imp_right fun isNew =>
          ⟨isNew.1, isNew.2.1, fun other => (isNew.2.2 other).congr (.refl old) rfl⟩
  refine recorded.settled fun entry member isId => ?_
  obtain ⟨old, oldMember, rfl⟩ := List.mem_map.mp member
  by_cases same : old.id = id
  · rw [if_pos same]
    refine ⟨?_, ?_, ?_, fun isDirectory => ?_⟩
    · rw [← same] at laid
      exact laid
    · rw [← same] at isLength
      exact isLength
    · rw [← same] at isChecksum
      exact isChecksum
    · exact (Bool.false_ne_true ((isFile old oldMember same).symm.trans isDirectory)).elim
  · rw [if_neg same] at isId
    exact (same isId).elim

/-- What is carried over twice is carried over. -/
theorem trans
    {between : Tables}
    (first : base.Carries (fun _ => False) kept between)
    (second : between.Carries (fun _ => False) kept tables) :
    base.Carries (fun _ => False) kept tables where
  toNumbered := second.toNumbered
  lastPartId_le := Int.le_trans first.lastPartId_le second.lastPartId_le
  lastEntryId_le := Int.le_trans first.lastEntryId_le second.lastEntryId_le
  origin part member := by
    have parts := first.lastPartId_le
    have files := first.lastEntryId_le
    rcases second.origin part member with old | new
    · exact first.origin part old
    · exact .inr ⟨by omega, by omega⟩
  rows entry member := by
    rcases second.rows entry member with ⟨old, oldMember, same, pieces⟩ | ⟨fresh, rest⟩
    · rcases first.rows old oldMember with
        ⟨origin, originMember, sameFirst, carried⟩ | ⟨fresh, -, stored⟩
      · refine .inl ⟨origin, originMember, sameFirst.trans same, ?_⟩
        rw [pieces, ← same.id, carried]
      · rw [← same.id]
        refine .inr ⟨fresh, fun absurd => absurd.elim, fun _ => (stored id).congr same ?_⟩
        rw [pieces, same.id]
    · have earlier := first.lastEntryId_le
      exact .inr ⟨by omega, rest⟩
  kept id minded := by
    rw [second.kept id minded, first.kept id minded]

end Carries

end Tables

end VersionStore
