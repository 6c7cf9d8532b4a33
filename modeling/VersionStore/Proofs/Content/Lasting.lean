import VersionStore.Proofs.Content.Enduring

namespace VersionStore.Tables

/-!
# What lasts

Parts keep their ids and their files. A file keeps its parts as long as no one touches
them, and a row in the trash stays there as it is as long as no one touches it.
-/

variable {tables : Tables} {id file : Int} {parts : List Part}

/-! ## The parts of one file -/

/-- Putting other bytes into a part changes its file only. -/
theorem pieces_replacePart
    {part : Int}
    {data : ByteArray}
    (elsewhere : ∀ other ∈ tables.parts, other.id = part → other.fileId ≠ id) :
    (tables.replacePart part data).pieces id = tables.pieces id := by
  unfold pieces replacePart
  dsimp only
  generalize tables.parts = rows at elsewhere ⊢
  induction rows with
  | nil =>
      rfl
  | cons first rest inductionHypothesis =>
      have others := inductionHypothesis fun other member => elsewhere other (by simp [member])
      have here := elsewhere first (by simp)
      by_cases replaced : first.id = part
      · simpa [replaced, here replaced] using others
      · by_cases isPiece : first.fileId = id
        · simpa [replaced, isPiece] using others
        · simpa [replaced, isPiece] using others

/-- A file has these parts, and no other file will get its id. -/
structure Holding (file : Int) (parts : List Part) (tables : Tables) : Prop where
  given : file ≤ tables.lastEntryId
  pieces : tables.pieces file = parts

/-- A file keeps its parts as long as no one touches them. -/
theorem endures_holding
    (file : Int)
    (parts : List Part) :
    EnduresWriting (fun _ => True) (· ≠ file) (Holding file parts) where
  touchable _ _ _ _ _ := trivial
  added tables entry _ _ holding := ⟨by have := holding.given; simp [addEntry]; omega, holding.pieces⟩
  modified _ _ _ _ _ holding := ⟨holding.given, holding.pieces⟩
  trashed _ _ _ _ _ holding := ⟨holding.given, holding.pieces⟩
  elsewhere _ _ _ _ holding := ⟨holding.given, holding.pieces⟩
  removed _ _ _ holding := ⟨holding.given, holding.pieces⟩
  removedFile _ _ _ other holding :=
    ⟨holding.given, (Carries.pieces_removeParts (Ne.symm other)).trans holding.pieces⟩
  fresh tables holding := ⟨trivial, by have := holding.given; omega⟩
  created tables entry holding := ⟨by have := holding.given; simp [addEntry]; omega, holding.pieces⟩
  recorded _ _ _ _ _ _ holding := ⟨holding.given, holding.pieces⟩
  stored tables part other _ holding := by
    refine ⟨holding.given, ?_⟩
    rw [Carries.pieces_concat, if_neg other, List.append_nil, holding.pieces]
  replaced tables id data other holding :=
    ⟨holding.given, (pieces_replacePart other).trans holding.pieces⟩

/-! ## The ids of rows -/

/-- The ids of rows were given in order, each once. -/
structure Listed (tables : Tables) : Prop where
  rows : (tables.entries.map (·.id)).Pairwise (· < ·)
  row_le : ∀ entry ∈ tables.entries, entry.id ≤ tables.lastEntryId

namespace Listed

/-- A row is told from others by its id. -/
theorem row_eq
    (listed : tables.Listed)
    {first second : Entry}
    (firstMember : first ∈ tables.entries)
    (secondMember : second ∈ tables.entries)
    (same : first.id = second.id) :
    first = second :=
  Coherent.eq_of_pairwise_lt listed.rows firstMember secondMember same

/-- A row comes last under an id that was not given yet. -/
theorem concat
    (listed : tables.Listed)
    {entry : Entry}
    (fresh : tables.lastEntryId < entry.id)
    {after : Tables}
    (entries : after.entries = tables.entries ++ [entry])
    (given : after.lastEntryId = entry.id) :
    after.Listed := by
  constructor
  · rw [entries, List.map_append, List.pairwise_append]
    refine ⟨listed.rows, by simp, fun before member next isLast => ?_⟩
    obtain ⟨old, oldMember, rfl⟩ := List.mem_map.mp member
    have earlier := listed.row_le old oldMember
    have last : next = entry.id := by simpa using isLast
    omega
  · intro other member
    rw [entries] at member
    rw [given]
    rcases List.mem_append.mp member with old | new
    · have earlier := listed.row_le other old
      omega
    · rw [List.mem_singleton.mp new]

theorem addEntry
    (listed : tables.Listed)
    (entry : Entry) :
    (tables.addEntry entry).2.Listed :=
  @concat tables listed { entry with id := tables.lastEntryId + 1 } (by dsimp only; omega) _ rfl rfl

/-- Rows keep their ids when they change. -/
theorem modifyEntry
    (listed : tables.Listed)
    (id : Int)
    {change : Entry → Entry}
    (same : ∀ entry : Entry, (change entry).id = entry.id) :
    (tables.modifyEntry id change).Listed := by
  have sameId (entry : Entry) : (if entry.id = id then change entry else entry).id = entry.id := by
    split
    · exact same entry
    · rfl
  constructor
  · simpa [Tables.modifyEntry, List.map_map, Function.comp_def, sameId] using listed.rows
  · intro entry member
    obtain ⟨old, oldMember, rfl⟩ := List.mem_map.mp member
    rw [sameId]
    exact listed.row_le old oldMember

theorem removeEntry
    (listed : tables.Listed)
    (id : Int) :
    (tables.removeEntry id).Listed :=
  ⟨listed.rows.sublist (List.filter_sublist.map _),
    fun entry member => listed.row_le entry (List.mem_of_mem_filter member)⟩

end Listed

/-- Rows stay in the order of their ids. -/
theorem endures_listed :
    EnduresWriting (fun _ => True) (fun _ => True) Listed where
  touchable _ _ _ _ _ := trivial
  added _ entry _ _ listed := listed.addEntry entry
  modified _ id _ _ same listed := listed.modifyEntry id fun entry => (same entry).1.id.symm
  trashed _ id _ _ _ listed := listed.modifyEntry id fun _ => rfl
  elsewhere _ _ _ _ listed := ⟨listed.rows, listed.row_le⟩
  removed _ id _ listed := listed.removeEntry id
  removedFile _ id _ _ listed := ⟨(listed.removeEntry id).rows, (listed.removeEntry id).row_le⟩
  fresh _ _ := ⟨trivial, trivial⟩
  created _ entry listed := listed.addEntry entry
  recorded _ id _ _ _ _ listed := listed.modifyEntry id fun _ => rfl
  stored _ _ _ _ listed := ⟨listed.rows, listed.row_le⟩
  replaced _ _ _ _ listed := ⟨listed.rows, listed.row_le⟩

/-- The rows of a new store are listed, and say that there is no content. -/
theorem listed_seed
    (roots : List String)
    (now : Int) :
    (seed roots now).Listed ∧
      ∀ entry ∈ (seed roots now).entries, entry.length = 0 ∧ entry.checksum = none := by
  have along :
      ∀ (names : List String) (tables : Tables) (id : Int),
        tables.lastEntryId < id →
        tables.Listed →
        (∀ entry ∈ tables.entries, entry.length = 0 ∧ entry.checksum = none) →
        (tables.seedFrom id now names).Listed ∧
          ∀ entry ∈ (tables.seedFrom id now names).entries,
            entry.length = 0 ∧ entry.checksum = none := by
    intro names
    induction names with
    | nil =>
        exact fun _ _ _ listed bare => ⟨listed, bare⟩
    | cons name rest inductionHypothesis =>
        intro tables id fresh listed bare
        have given : (tables.seedDirectory id name now).lastEntryId = id := by
          change max tables.lastEntryId id = id
          omega
        refine inductionHypothesis _ _ (by omega) ?_ fun entry member => ?_
        · exact @Listed.concat tables listed { freshEntry rootId name true now with id } fresh _ rfl given
        · rcases List.mem_append.mp member with old | new
          · exact bare entry old
          · rw [List.mem_singleton.mp new]
            exact ⟨rfl, rfl⟩
  exact along _ empty rootId (by decide) ⟨.nil, fun _ member => absurd member List.not_mem_nil⟩
    fun _ member => absurd member List.not_mem_nil

/-! ## The ids of parts -/

/-- Parts stay in the order of their ids. -/
theorem endures_ordered :
    EnduresWriting (fun _ => True) (fun _ => True) Ordered where
  touchable _ _ _ _ _ := trivial
  added _ _ _ _ ordered := ⟨ordered.parts, ordered.part_le⟩
  modified _ _ _ _ _ ordered := ⟨ordered.parts, ordered.part_le⟩
  trashed _ _ _ _ _ ordered := ⟨ordered.parts, ordered.part_le⟩
  elsewhere _ _ _ _ ordered := ⟨ordered.parts, ordered.part_le⟩
  removed _ _ _ ordered := ⟨ordered.parts, ordered.part_le⟩
  removedFile tables id _ _ ordered :=
    ⟨ordered.parts.sublist (List.filter_sublist.map _),
      fun part member => ordered.part_le part (List.mem_of_mem_filter member)⟩
  fresh _ _ := ⟨trivial, trivial⟩
  created _ _ ordered := ⟨ordered.parts, ordered.part_le⟩
  recorded _ _ _ _ _ _ ordered := ⟨ordered.parts, ordered.part_le⟩
  stored tables part _ isNext ordered := by
    constructor
    · rw [List.map_append, List.pairwise_append]
      refine ⟨ordered.parts, by simp, fun before member next isLast => ?_⟩
      obtain ⟨old, oldMember, rfl⟩ := List.mem_map.mp member
      have earlier := ordered.part_le old oldMember
      have last : next = part.id := by simpa using isLast
      omega
    · intro other member
      change other.id ≤ part.id
      rcases List.mem_append.mp member with old | new
      · have earlier := ordered.part_le other old
        omega
      · exact Int.le_of_eq (congrArg (·.id) (List.mem_singleton.mp new))
  replaced tables id data _ ordered := by
    have same (part : Part) :
        (if part.id = id then { part with length := data.size, data } else part).id = part.id := by
      split <;> rfl
    constructor
    · simpa [replacePart, List.map_map, Function.comp_def, same] using ordered.parts
    · intro part member
      obtain ⟨old, oldMember, rfl⟩ := List.mem_map.mp member
      rw [same]
      exact ordered.part_le old oldMember

/-- A part that was given its id belongs to a file, if it is still there. -/
structure PartOf (id file : Int) (tables : Tables) : Prop where
  given : id ≤ tables.lastPartId
  file : ∀ part ∈ tables.parts, part.id = id → part.fileId = file

theorem Ordered.partOf
    (ordered : tables.Ordered)
    {part : Part}
    (member : part ∈ tables.parts) :
    tables.PartOf part.id part.fileId where
  given := ordered.part_le part member
  file other otherMember same := by
    rw [ordered.part_eq otherMember member same]

/-- A part never belongs to another file. -/
theorem endures_partOf
    (id file : Int) :
    EnduresWriting (fun _ => True) (fun _ => True) (PartOf id file) where
  touchable _ _ _ _ _ := trivial
  added _ _ _ _ partOf := ⟨partOf.given, partOf.file⟩
  modified _ _ _ _ _ partOf := ⟨partOf.given, partOf.file⟩
  trashed _ _ _ _ _ partOf := ⟨partOf.given, partOf.file⟩
  elsewhere _ _ _ _ partOf := ⟨partOf.given, partOf.file⟩
  removed _ _ _ partOf := ⟨partOf.given, partOf.file⟩
  removedFile _ _ _ _ partOf :=
    ⟨partOf.given, fun part member => partOf.file part (List.mem_of_mem_filter member)⟩
  fresh _ _ := ⟨trivial, trivial⟩
  created _ _ partOf := ⟨partOf.given, partOf.file⟩
  recorded _ _ _ _ _ _ partOf := ⟨partOf.given, partOf.file⟩
  stored tables part _ isNext partOf := by
    have earlier := partOf.given
    refine ⟨by dsimp only; omega, fun other member same => ?_⟩
    rcases List.mem_append.mp member with old | new
    · exact partOf.file other old same
    · rw [List.mem_singleton.mp new] at same
      omega
  replaced tables replaced data _ partOf := by
    refine ⟨partOf.given, fun part member same => ?_⟩
    obtain ⟨old, oldMember, rfl⟩ := List.mem_map.mp member
    by_cases isPart : old.id = replaced
    · rw [if_pos isPart] at same ⊢
      exact partOf.file old oldMember same
    · rw [if_neg isPart] at same ⊢
      exact partOf.file old oldMember same

/-! ## A file in the trash -/

/-- A file is in the trash, with its parts. -/
structure Shelved (version : Entry) (parts : List Part) (tables : Tables) : Prop
    extends tables.Holding version.id parts where
  member : version ∈ tables.entries
  unique : ∀ entry ∈ tables.entries, entry.id = version.id → entry = version

/-- A file in the trash stays there as it is as long as no one touches it. -/
theorem endures_shelved
    {version : Entry}
    (isTrashed : isTrashedFile version = true)
    (parts : List Part) :
    EnduresWriting (· ≠ version.id) (· ≠ version.id) (Shelved version parts) := by
  have holding := endures_holding version.id parts
  have kept
      {tables after : Tables}
      (shelved : tables.Shelved version parts)
      (entries : after.entries = tables.entries)
      (holding : after.Holding version.id parts) :
      after.Shelved version parts :=
    ⟨holding, entries ▸ shelved.member, entries ▸ shelved.unique⟩
  have added (tables : Tables) (entry : Entry) (shelved : tables.Shelved version parts) :
      (tables.addEntry entry).2.Shelved version parts := by
    have given := shelved.given
    refine ⟨holding.created tables entry shelved.toHolding, List.mem_append_left _ shelved.member,
      fun other member same => ?_⟩
    rcases List.mem_append.mp member with old | new
    · exact shelved.unique other old same
    · rw [List.mem_singleton.mp new] at same
      dsimp only at same
      omega
  have modified
      (tables : Tables)
      (id : Int)
      (change : Entry → Entry)
      (sameId : ∀ entry : Entry, (change entry).id = entry.id)
      (other : id ≠ version.id)
      (shelved : tables.Shelved version parts) :
      (tables.modifyEntry id change).Shelved version parts := by
    refine ⟨⟨shelved.given, shelved.pieces⟩, ?_, fun entry member same => ?_⟩
    · exact List.mem_map.mpr ⟨version, shelved.member, if_neg (Ne.symm other)⟩
    · obtain ⟨old, oldMember, rfl⟩ := List.mem_map.mp member
      by_cases changed : old.id = id
      · rw [if_pos changed, sameId, changed] at same
        exact (other same).elim
      · rw [if_neg changed] at same ⊢
        exact shelved.unique old oldMember same
  have removed
      (tables : Tables)
      (id : Int)
      (other : id ≠ version.id)
      (shelved : tables.Shelved version parts) :
      (tables.removeEntry id).Shelved version parts := by
    refine ⟨⟨shelved.given, shelved.pieces⟩, ?_, fun entry member same => ?_⟩
    · exact List.mem_filter.mpr ⟨shelved.member, bne_iff_ne.mpr (Ne.symm other)⟩
    · exact shelved.unique entry (List.mem_of_mem_filter member) same
  exact {
    touchable := by
      rintro tables shelved entry member touchable same
      rw [shelved.unique entry member same] at touchable
      simp only [isTrashedFile, Bool.and_eq_true, Bool.not_eq_true'] at isTrashed
      simp [isTrashed] at touchable
    added := fun tables entry _ _ => added tables entry
    modified := fun tables id change other same =>
      modified tables id change (fun entry => (same entry).1.id.symm) other
    trashed := fun tables id now _ other =>
      modified tables id _ (fun _ => rfl) other
    elsewhere := fun tables directories targets links shelved =>
      kept shelved rfl ⟨shelved.given, shelved.pieces⟩
    removed := removed
    removedFile := fun tables id other _ shelved =>
      have without := removed tables id other shelved
      kept without rfl
        ⟨without.given, (Carries.pieces_removeParts (Ne.symm other)).trans without.pieces⟩
    fresh := fun tables shelved => by
      have given := shelved.given
      constructor <;> omega
    created := added
    recorded := fun tables id length time checksum other =>
      modified tables id _ (fun _ => rfl) other
    stored := fun tables part other isNext shelved =>
      kept shelved rfl (holding.stored tables part other isNext shelved.toHolding)
    replaced := fun tables id data other shelved =>
      kept shelved rfl (holding.replaced tables id data other shelved.toHolding) }

/-! ## Rows by their ids -/

/-- An id was given, and no row has it but one of these. -/
structure StandsFor (id : Int) (kind : Entry → Prop) (tables : Tables) : Prop where
  given : id ≤ tables.lastEntryId
  row : ∀ entry ∈ tables.entries, entry.id = id → kind entry

namespace StandsFor

variable {id : Int} {kind : Entry → Prop}

/-- Rows that go are no matter. -/
theorem fewer
    {after : Tables}
    (stands : tables.StandsFor id kind)
    (entries : after.entries ⊆ tables.entries)
    (given : after.lastEntryId = tables.lastEntryId) :
    after.StandsFor id kind :=
  ⟨given ▸ stands.given, fun entry member => stands.row entry (entries member)⟩

/-- A new row gets a new id. -/
theorem addEntry
    (stands : tables.StandsFor id kind)
    (entry : Entry) :
    (tables.addEntry entry).2.StandsFor id kind := by
  have given := stands.given
  refine ⟨by simp [Tables.addEntry]; omega, fun other member same => ?_⟩
  rcases List.mem_append.mp member with old | new
  · exact stands.row other old same
  · rw [List.mem_singleton.mp new] at same
    dsimp only at same
    omega

/-- A row that changes goes on to be one of these, or it is another one. -/
theorem modifyEntry
    (stands : tables.StandsFor id kind)
    {changed : Int}
    {change : Entry → Entry}
    (kept :
      ∀ entry ∈ tables.entries,
        entry.id = changed →
        (change entry).id = changed ∧ (changed = id → kind entry → kind (change entry))) :
    (tables.modifyEntry changed change).StandsFor id kind := by
  refine ⟨stands.given, fun entry member same => ?_⟩
  obtain ⟨old, oldMember, rfl⟩ := List.mem_map.mp member
  by_cases isChanged : old.id = changed
  · obtain ⟨sameId, stays⟩ := kept old oldMember isChanged
    rw [if_pos isChanged] at same ⊢
    have isId := sameId.symm.trans same
    exact stays isId (stands.row old oldMember (isChanged.trans isId))
  · rw [if_neg isChanged] at same ⊢
    exact stands.row old oldMember same

end StandsFor

/-! ## Files out of the trash -/

/-- A file that got its id is not in the trash. -/
structure Unshelved (file : Int) (tables : Tables) : Prop where
  given : file ≤ tables.lastEntryId
  live : ∀ entry ∈ tables.entries, entry.id = file → isTrashedFile entry = false

/-- What is live is not in the trash, where ids tell rows apart. -/
theorem Coherent.unshelved
    (coherent : tables.Coherent)
    (live : tables.HasLive file) :
    tables.Unshelved file := by
  obtain ⟨entry, member, rfl, isLive⟩ := live
  refine ⟨coherent.id_le entry member, fun other otherMember same => ?_⟩
  rw [coherent.entry_eq otherMember member same, isTrashedFile, isLive]
  rfl

namespace Unshelved

theorem standsFor_iff :
    tables.Unshelved file ↔ tables.StandsFor file fun entry => isTrashedFile entry = false :=
  ⟨fun unshelved => ⟨unshelved.given, unshelved.live⟩, fun stands => ⟨stands.given, stands.row⟩⟩

/-- Rows that go bring nothing into the trash. -/
theorem fewer
    {after : Tables}
    (unshelved : tables.Unshelved file)
    (entries : after.entries ⊆ tables.entries)
    (given : after.lastEntryId = tables.lastEntryId) :
    after.Unshelved file :=
  standsFor_iff.mpr ((standsFor_iff.mp unshelved).fewer entries given)

/-- A new row gets a new id. -/
theorem addEntry
    (unshelved : tables.Unshelved file)
    (entry : Entry) :
    (tables.addEntry entry).2.Unshelved file :=
  standsFor_iff.mpr ((standsFor_iff.mp unshelved).addEntry entry)

/-- A row that changes is as much in the trash as before, or it is another one. -/
theorem modifyEntry
    (unshelved : tables.Unshelved file)
    {id : Int}
    {change : Entry → Entry}
    (kept :
      ∀ entry ∈ tables.entries,
        entry.id = id →
        (change entry).id = id ∧
          (id = file → isTrashedFile (change entry) = isTrashedFile entry)) :
    (tables.modifyEntry id change).Unshelved file := by
  refine standsFor_iff.mpr ((standsFor_iff.mp unshelved).modifyEntry fun entry member isId => ?_)
  obtain ⟨sameId, trashed⟩ := kept entry member isId
  exact ⟨sameId, fun isFile => (trashed isFile).trans⟩

end Unshelved

/-- Giving a file its content does not bring it into the trash. -/
theorem stores_unshelved
    (file : Int) :
    EnduresStoring (fun _ => True) (fun _ => True) (Unshelved file) where
  recorded _ _ _ _ _ _ unshelved := unshelved.modifyEntry fun _ _ same => ⟨same, fun _ => rfl⟩
  stored _ _ _ _ unshelved := unshelved.fewer (List.Subset.refl _) rfl
  replaced _ _ _ _ unshelved := unshelved.fewer (List.Subset.refl _) rfl

/-- A file stays out of the trash as long as no one deletes it. -/
theorem endures_unshelved
    (file : Int) :
    EnduresWriting (fun _ => True) (· ≠ file) (Unshelved file) where
  touchable _ _ _ _ _ := trivial
  added _ entry _ _ unshelved := unshelved.addEntry entry
  modified _ _ _ _ same unshelved :=
    unshelved.modifyEntry fun entry _ isId =>
      ⟨(same entry).1.id.symm.trans isId, fun _ => by
        rw [isTrashedFile, (same entry).2, ← (same entry).1.isDirectory, isTrashedFile]⟩
  trashed _ _ _ _ other unshelved :=
    unshelved.modifyEntry fun _ _ same => ⟨same, fun isFile => (other isFile).elim⟩
  elsewhere _ _ _ _ unshelved := unshelved.fewer (List.Subset.refl _) rfl
  removed _ _ _ unshelved := unshelved.fewer (List.filter_subset_self _) rfl
  removedFile _ _ _ _ unshelved := unshelved.fewer (List.filter_subset_self _) rfl
  fresh tables unshelved := ⟨trivial, by have := unshelved.given; omega⟩
  created _ entry unshelved := unshelved.addEntry entry
  recorded := (stores_unshelved file).recorded
  stored tables part _ := (stores_unshelved file).stored tables part trivial
  replaced tables id data _ := (stores_unshelved file).replaced tables id data fun _ _ _ => trivial

/-! ## Ids of files -/

/-- An id that was given is not that of a directory. -/
structure FileId (id : Int) (tables : Tables) : Prop where
  given : id ≤ tables.lastEntryId
  isFile : ∀ entry ∈ tables.entries, entry.id = id → entry.isDirectory = false

namespace FileId

variable {id : Int}

theorem standsFor_iff :
    tables.FileId id ↔ tables.StandsFor id fun entry => entry.isDirectory = false :=
  ⟨fun file => ⟨file.given, file.isFile⟩, fun stands => ⟨stands.given, stands.row⟩⟩

/-- A new row gets a new id. -/
theorem addEntry
    (file : tables.FileId id)
    (entry : Entry) :
    (tables.addEntry entry).2.FileId id :=
  standsFor_iff.mpr ((standsFor_iff.mp file).addEntry entry)

/-- No row that changes becomes a directory. -/
theorem modifyEntry
    (file : tables.FileId id)
    {other : Int}
    {change : Entry → Entry}
    (kept :
      ∀ entry : Entry,
        (change entry).id = entry.id ∧ (change entry).isDirectory = entry.isDirectory) :
    (tables.modifyEntry other change).FileId id :=
  standsFor_iff.mpr ((standsFor_iff.mp file).modifyEntry fun entry _ isId =>
    ⟨(kept entry).1.trans isId, fun _ => (kept entry).2.trans⟩)

/-- Rows that go are no matter. -/
theorem fewer
    {after : Tables}
    (file : tables.FileId id)
    (entries : after.entries ⊆ tables.entries)
    (given : after.lastEntryId = tables.lastEntryId) :
    after.FileId id :=
  standsFor_iff.mpr ((standsFor_iff.mp file).fewer entries given)

end FileId

/-- The id of a file never becomes that of a directory. -/
theorem endures_fileId
    (id : Int) :
    EnduresWriting (fun _ => True) (fun _ => True) (FileId id) where
  touchable _ _ _ _ _ := trivial
  added _ entry _ _ file := file.addEntry entry
  modified _ _ _ _ same file :=
    file.modifyEntry fun entry => ⟨(same entry).1.id.symm, (same entry).1.isDirectory.symm⟩
  trashed _ _ _ _ _ file := file.modifyEntry fun _ => ⟨rfl, rfl⟩
  elsewhere _ _ _ _ file := file.fewer (List.Subset.refl _) rfl
  removed _ _ _ file := file.fewer (List.filter_subset_self _) rfl
  removedFile _ _ _ _ file := file.fewer (List.filter_subset_self _) rfl
  fresh _ _ := ⟨trivial, trivial⟩
  created _ entry file := file.addEntry entry
  recorded _ _ _ _ _ _ file := file.modifyEntry fun _ => ⟨rfl, rfl⟩
  stored _ _ _ _ file := file.fewer (List.Subset.refl _) rfl
  replaced _ _ _ _ file := file.fewer (List.Subset.refl _) rfl

/-! ## What was listed -/

/-- A row is one that was listed before: of the same kind, and if it is a file then it is in the
trash, where its time does not change. -/
structure Recalls (listed row : Entry) : Prop where
  kind : row.isDirectory = listed.isDirectory
  trashed : row.isDirectory = false → row.isDeleted = true ∧ row.lastModified = listed.lastModified

/-- What was listed stays as it was or goes, whatever is removed. -/
theorem removing_recalls
    (listed : Entry) :
    EnduresRemoving (fun _ => True) (fun _ => True)
      (StandsFor listed.id (Recalls listed)) where
  touchable _ _ _ _ _ := trivial
  trashed _ _ _ _ _ stands :=
    stands.modifyEntry fun _ _ isId => ⟨isId, fun _ recalls =>
      ⟨recalls.kind, fun isFile => ⟨rfl, (recalls.trashed isFile).2⟩⟩⟩
  elsewhere _ _ _ _ stands := stands.fewer (List.Subset.refl _) rfl
  removed _ _ _ stands := stands.fewer (List.filter_subset_self _) rfl
  removedFile _ _ _ _ stands := stands.fewer (List.filter_subset_self _) rfl

/-- What was listed stays as it was or goes, as long as no one touches it, if it is a file. -/
theorem endures_recalls
    (listed : Entry) :
    EnduresWriting (fun id => listed.isDirectory = false → id ≠ listed.id) (fun _ => True)
      (StandsFor listed.id (Recalls listed)) := by
  have removing := removing_recalls listed
  have modified
      (tables : Tables)
      (id : Int)
      (change : Entry → Entry)
      (same :
        ∀ entry : Entry,
          (change entry).id = entry.id ∧ (change entry).isDirectory = entry.isDirectory)
      (spared : listed.isDirectory = false → id ≠ listed.id)
      (stands : tables.StandsFor listed.id (Recalls listed)) :
      (tables.modifyEntry id change).StandsFor listed.id (Recalls listed) := by
    refine stands.modifyEntry fun entry _ isId => ⟨(same entry).1.trans isId, fun isListed recalls =>
      ⟨(same entry).2.trans recalls.kind, fun isFile => ?_⟩⟩
    rw [(same entry).2, recalls.kind] at isFile
    exact absurd isListed (spared isFile)
  exact {
    touchable := fun tables stands entry member touchable isFile isListed => by
      have recalls := stands.row entry member isListed
      have entryIsFile := recalls.kind.trans isFile
      rcases touchable with live | isDirectory
      · exact Bool.false_ne_true (live.symm.trans (recalls.trashed entryIsFile).1)
      · exact Bool.false_ne_true (entryIsFile.symm.trans isDirectory)
    added := fun tables entry _ _ stands => stands.addEntry entry
    modified := fun tables id change spared same =>
      modified tables id change
        (fun entry => ⟨(same entry).1.id.symm, (same entry).1.isDirectory.symm⟩) spared
    trashed := fun tables id now _ _ => removing.trashed tables id now trivial trivial
    elsewhere := removing.elsewhere
    removed := fun tables id _ => removing.removed tables id trivial
    removedFile := fun tables id _ _ => removing.removedFile tables id trivial trivial
    fresh := fun tables stands => by
      have given := stands.given
      exact ⟨fun _ => by omega, trivial⟩
    created := fun tables entry stands => stands.addEntry entry
    recorded := fun tables id length time checksum =>
      modified tables id _ fun _ => ⟨rfl, rfl⟩
    stored := fun tables part _ _ stands => stands.fewer (List.Subset.refl _) rfl
    replaced := fun tables id data _ stands => stands.fewer (List.Subset.refl _) rfl }

end VersionStore.Tables
