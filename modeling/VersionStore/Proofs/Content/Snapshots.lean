import VersionStore.Proofs.Content.Replacing
import VersionStore.Proofs.Tree.Shelter
import VersionStore.Proofs.Tree.TrashListings

namespace VersionStore

/-!
# Snapshots

A snapshot is a version that is in the trash from the start, under the path that the file has in
the tree. It holds what a source delivered, or the parts of the live file. Apart from directories
in the trash that lead to it nothing else is added, and nothing that was there is touched, so that
the tree stays what it was.
-/

open Tables VersionStore.Action

namespace Txn

variable
  {setting : Setting}
  {strict : Prop}
  {known : List Entry}
  {now modified : Int}
  {before room after : Tables}
  {path : CleanPath}
  {version : Entry}
  {source? : Option Source}

/-- A version was put into the trash under a path. Its directory is the live one there if there is
one, and otherwise one in the trash that has the path of it. No other rows are new but those of
directories in the trash, and nothing that was there was touched. -/
structure Snapped (now modified : Int) (before : Tables) (path : CleanPath) (version : Entry)
    (after : Tables) : Prop where
  proper : ¬path.isRoot = true
  entries :
    ∃ made,
      after.entries = before.entries ++ made ++ [version] ∧
        ∀ entry ∈ made,
          before.lastEntryId < entry.id ∧ entry.isDirectory = true ∧ entry.isDeleted = true
  isNew : before.lastEntryId < version.id
  isDeleted : version.isDeleted = true
  isFile : version.isDirectory = false
  called : version.name = path.name
  modified : version.lastModified = modified
  deleted : version.lastDeleted = now
  row : ∃ row ∈ after.directories, row.id = version.directoryId ∧ row.path = path.directory
  holder :
    before.LiveDirectoryAt path.dropLast version.directoryId ∨
      (∀ other, ¬before.LiveDirectoryAt path.dropLast other) ∧
        after.TrashedDirectory version.directoryId
  untouched : ∀ id, id ≠ version.id → Untouched id before after

/-- What a version holds that was put into the trash: everything that a source delivered, with its
length and checksum, or the parts of the live file, with the length and the checksum recorded
there. -/
inductive SnapshotOf (before : Tables) (path : CleanPath) (version : Entry) (after : Tables) :
    Option Source → Prop where
  | delivered {source : Source}
      (ends : source.failure? = none)
      (length : version.length = source.bytes.size)
      (checksum : version.checksum = some (Checksum.ofData source.bytes))
      (contains : after.Contains version.id source.bytes) :
      SnapshotOf before path version after (some source)
  | live {file : Entry}
      (here : before.FileAt path file)
      (length : version.length = file.length)
      (checksum : version.checksum = file.checksum)
      (stored : (after.pieces version.id).map Part.bare = (before.partsOf file.id).map Part.bare)
      (parts : (after.partsOf version.id).map Part.bare = (before.partsOf file.id).map Part.bare) :
      SnapshotOf before path version after none

/-- The bytes that a snapshot is taken of: everything that a source delivers, or what the live file
contains. -/
inductive SnapshotBytes (before : Tables) (path : CleanPath) : Option Source → ByteArray → Prop where
  | delivered (source : Source) : SnapshotBytes before path (some source) source.bytes
  | live {file : Entry} {data : ByteArray}
      (here : before.FileAt path file)
      (contains : before.Contains file.id data) :
      SnapshotBytes before path none data

/-- What a snapshot is taken of is there: a source that does not fail, or a live file that may be
read. -/
def Available (gives : Int → Bool → Bool) (before : Tables) (path : CleanPath) :
    Option Source → Prop
  | some source => source.failure? = none
  | none => ∃ file, before.FileAt path file ∧ gives file.id false = true

namespace Snapped

/-- The version has a row. -/
theorem member
    (snapped : Snapped now modified before path version after) :
    version ∈ after.entries := by
  obtain ⟨made, isAfter, -⟩ := snapped.entries
  rw [isAfter]
  exact List.mem_append_right _ (List.mem_singleton_self version)

/-- Only rows in the trash were added. -/
theorem trashAdded
    (snapped : Snapped now modified before path version after) :
    TrashAdded before after := by
  obtain ⟨made, isAfter, areNew⟩ := snapped.entries
  refine ⟨made ++ [version], by rw [isAfter, List.append_assoc], fun entry member => ?_⟩
  rcases List.mem_append.mp member with isMade | isVersion
  · exact (areNew entry isMade).2.2
  · rw [List.mem_singleton.mp isVersion]
    exact snapped.isDeleted

/-- Every entry is there as it was. -/
theorem stays
    (snapped : Snapped now modified before path version after)
    (coherent : before.Coherent)
    {entry : Entry}
    (member : entry ∈ before.entries) :
    entry ∈ after.entries ∧ Untouched entry.id before after := by
  obtain ⟨made, isAfter, -⟩ := snapped.entries
  have given := coherent.id_le entry member
  have isNew := snapped.isNew
  refine ⟨?_, snapped.untouched entry.id (by omega)⟩
  rw [isAfter]
  exact List.mem_append_left _ (List.mem_append_left _ member)

/-- The history of the path lists the version. -/
theorem mem_history
    (snapped : Snapped now modified before path version after)
    (coherent : after.Coherent)
    (root : String)
    (directories : Bool) :
    ⟨path.directory, version⟩ ∈
      history after root path.directory path.name directories (-1) := by
  obtain ⟨row, rowMember, owns, isPath⟩ := snapped.row
  have isTrashed : isTrashedFile version = true := by
    rw [isTrashedFile, snapped.isDeleted, snapped.isFile]
    rfl
  rw [← isPath, ← snapped.called]
  exact (coherent.lists snapped.member isTrashed rowMember owns).versions root directories

end Snapped

/-- A version contains the bytes that the snapshot was taken of. -/
theorem SnapshotOf.contains
    {data : ByteArray}
    (holds : SnapshotOf before path version after source?)
    (coherent : before.Coherent)
    (coherentAfter : after.Coherent)
    (member : version ∈ after.entries)
    (bytes : SnapshotBytes before path source? data) :
    after.Contains version.id data := by
  cases bytes with
  | delivered source =>
      cases holds with
      | delivered _ _ _ contains =>
          exact contains
  | @live file data isHere contains =>
      cases holds with
      | @live other here length checksum stored _ =>
          cases Option.some.inj (here.found.symm.trans isHere.found)
          have isFile : before.entry? file.id = some file :=
            coherent.entry?_eq_some_iff.mpr
              ⟨(coherent.lookupAt?_eq_some_iff.mp here.found).member, rfl⟩
          exact contains_of_copies contains isFile
            (coherentAfter.entry?_eq_some_iff.mpr ⟨member, rfl⟩) length checksum stored

/-! ## The version -/

/-- A row as it is entered for a snapshot. -/
def snapshotRow (room : Tables) (now directory : Int) (path : CleanPath) (modified length : Int)
    (checksum : Option Checksum) : Entry :=
  { freshEntry directory path.name false modified with
    id := room.lastEntryId + 1
    length
    isDeleted := true
    lastDeleted := now
    checksum }

/-- A version was put into the trash when it was entered in a directory for it. -/
theorem snapped_of_entered
    {directory length : Int}
    {checksum : Option Checksum}
    (proper : ¬path.isRoot = true)
    (shelters : Shelters before path.dropLast directory room)
    (entered : Entered room (snapshotRow room now directory path modified length checksum) after) :
    Snapped now modified before path (snapshotRow room now directory path modified length checksum)
      after where
  proper := proper
  entries := by
    obtain ⟨made, isMade, areNew⟩ := shelters.entries
    exact ⟨made, by rw [entered.entries, isMade], areNew⟩
  isNew := Int.lt_add_one_of_le shelters.lastEntryId_le
  isDeleted := rfl
  isFile := rfl
  called := rfl
  modified := rfl
  deleted := rfl
  row := by
    rw [entered.directories]
    exact shelters.row
  holder := by
    refine shelters.holder.imp_right fun ⟨noneLive, holder, member, isTrashed⟩ => ?_
    exact ⟨noneLive, holder, entered.subset member, isTrashed⟩
  untouched id other := by
    refine Untouched.trans ⟨?_, ?_⟩ (entered.untouched id other)
    · rw [pieces, pieces, shelters.parts]
    · rw [shelters.links]

/-- The directory for a snapshot is found or made, and what is numbered stays numbered. -/
theorem snapshotDirectory_prepares
    (now : Int)
    (sound : before.Sound strict known)
    (numbered : before.Numbered)
    (path : CleanPath) :
    Works setting (· = before) (snapshotDirectory now path.dropLast.names.reverse)
      (fun directory room =>
        Shelters before path.dropLast directory room ∧ room.Coherent ∧ room.Numbered)
      fun _ _ => False := by
  have grows := (endures_carries before fun _ => False).grows
  refine ((snapshotDirectory_shelters now sound _).both
    (snapshotDirectory_grows grows now _)).weaken ?_ ?_ fun _ _ failed => failed.1
  · rintro _ rfl
    exact ⟨rfl, .refl numbered⟩
  · rintro directory room ⟨⟨shelters, sound⟩, carries⟩
    rw [List.reverse_reverse] at shelters
    exact ⟨shelters, sound.coherent, carries.toNumbered⟩

/-- What a source delivers is stored as a version in the trash, unless the source fails. -/
theorem storeSnapshot_snaps
    (now : Int)
    (sound : before.Sound strict known)
    (numbered : before.Numbered)
    (proper : ¬path.isRoot = true)
    (source : Source)
    (modified : Int) :
    Works setting (· = before)
      (do
        let directory ← snapshotDirectory now path.dropLast.names.reverse
        let id ← Action.insert fun tables =>
          tables.createTrashed directory path.name false modified 0 now none
        let (length, checksum) ← storeContent id source
        update fun tables => tables.recordContent id length modified (some checksum))
      (fun _ tables =>
        ∃ version,
          Snapped now modified before path version tables ∧
            SnapshotOf before path version tables (some source))
      fun _ _ => source.failure? ≠ none := by
  refine .bind _ (snapshotDirectory_prepares now sound numbered path).surely fun directory =>
    .named fun room ⟨shelters, coherent, counted⟩ => ?_
  let row := snapshotRow room now directory path modified
  refine .bind
    (fun id tables =>
      id = room.lastEntryId + 1 ∧
        Filled (Entered room (row 0 none)) (room.lastEntryId + 1) True .empty tables)
    (.insert ?_) fun id => ?_
  · rintro _ rfl
    exact ⟨rfl, filled_addEntry counted (Entered.of_addEntry _ { row 0 none with id := 0 })⟩
  refine .assuming (id = room.lastEntryId + 1) (fun _ created => created.1) ?_
  rintro rfl
  have stores := @storeContent_enters setting room (row 0 none) source
  refine .bind _ (stores.asking fun _ created => created.2) fun stored => ?_
  refine .assuming _ (fun _ filled => filled.1) ?_
  rintro ⟨rfl, ends⟩
  refine .update fun tables ⟨_, filled⟩ => ?_
  have entered : Entered room (row source.bytes.size (some (Checksum.ofData source.bytes))) _ :=
    filled.kept.recordContent coherent source.bytes.size modified
      (some (Checksum.ofData source.bytes))
  have found := entered.found coherent
  exact ⟨_, snapped_of_entered proper shelters entered,
    .delivered ends rfl rfl ⟨⟨_, found, rfl, rfl⟩, filled.laid, filled.bytes⟩⟩

/-- The parts of the live file are copied to a version in the trash. -/
theorem shareSnapshot_snaps
    (now : Int)
    (sound : before.Sound strict known)
    (numbered : before.Numbered)
    (proper : ¬path.isRoot = true)
    {file : Entry}
    (here : before.FileAt path file)
    (modified : Int) :
    Works setting (· = before)
      (do
        let directory ← snapshotDirectory now path.dropLast.names.reverse
        let id ← Action.insert fun tables =>
          tables.createTrashed directory path.name false modified file.length now file.checksum
        update fun tables => tables.copyParts id file.id)
      (fun _ tables =>
        ∃ version,
          Snapped now modified before path version tables ∧
            SnapshotOf before path version tables none)
      fun _ _ => False := by
  refine .bind _ (snapshotDirectory_prepares now sound numbered path) fun directory =>
    .named fun room ⟨shelters, coherent, counted⟩ => ?_
  let row := snapshotRow room now directory path modified file.length file.checksum
  refine .bind (fun id tables => id = row.id ∧ tables = (room.addEntry row).2) (.insert ?_)
    fun id => .update ?_
  · rintro _ rfl
    exact ⟨rfl, rfl⟩
  rintro _ ⟨rfl, rfl⟩
  have entered : Entered room row ((room.addEntry row).2.copyParts row.id file.id) :=
    (Entered.of_addEntry room row).copyParts file.id
  -- A row that is added has no parts, and leaves those of the file.
  have none_ : (room.addEntry row).2.pieces row.id = [] :=
    counted.pieces_eq_nil (Int.lt_succ _)
  have copies :=
    Carries.map_bare_addCopies (room.addEntry row).2 row.id (room.partsOf file.id)
  have pieces : room.pieces file.id = before.pieces file.id := by
    unfold Tables.pieces
    rw [shelters.parts]
  have parts : room.partsOf file.id = before.partsOf file.id :=
    congrArg (List.mergeSort · offsetLe) pieces
  rw [none_] at copies
  replace copies := copies.trans (congrArg (List.map Part.bare) parts)
  exact ⟨row, snapped_of_entered proper shelters entered,
    .live here rfl rfl copies (map_bare_partsOf copies)⟩

/-- A snapshot is stored in the trash. -/
theorem snapshot_snaps
    (now : Int)
    (sound : before.Sound strict known)
    (numbered : before.Numbered)
    (text : String)
    (source? : Option Source)
    (time? : Option Int) :
    Works setting (· = before) (snapshot now text source? time?)
      (fun _ tables =>
        (∃ path version,
          CleanPath.ofText text = .ok path ∧
            Snapped now (time?.getD now) before path version tables ∧
              SnapshotOf before path version tables source?) ∧
          tables.Sound strict known)
      fun _ _ => True := by
  suffices snaps :
      Works setting (· = before) (snapshot now text source? time?)
        (fun _ tables =>
          ∃ path version,
            CleanPath.ofText text = .ok path ∧
              Snapped now (time?.getD now) before path version tables ∧
                SnapshotOf before path version tables source?)
        fun _ _ => True by
    refine (snaps.both (snapshot_keeps now text source? time?)).weaken ?_ (fun _ _ done => done)
      fun _ _ _ => trivial
    rintro _ rfl
    exact ⟨rfl, sound⟩
  refine .bind (fun path tables => CleanPath.ofText text = .ok path ∧ tables = before)
    (.clean (fun path isPath _ same => ⟨isPath, same⟩) fun _ _ _ => trivial) fun path => ?_
  refine .assuming _ (fun _ cleaned => cleaned.1) fun isPath => ?_
  simp only [throw_bind]
  refine .ite (fun _ => .throw fun _ _ => trivial) fun proper => ?_
  cases source? with
  | some source =>
      refine ((storeSnapshot_snaps now sound numbered proper source (time?.getD now)).loosely.asking
        fun _ cleaned => cleaned.2).promising ?_
      rintro _ tables ⟨version, snapped, holds⟩
      exact ⟨path, version, isPath, snapped, holds⟩
  | none =>
      refine .bind _ ((requireFile_looks path).loosely.asking fun _ cleaned => cleaned.2)
        fun file => .assuming _ (fun _ looked => looked.1) fun here => ?_
      refine .locked (fun _ => ?_) fun _ _ => trivial
      refine ((shareSnapshot_snaps now sound numbered proper here
        (time?.getD now)).loosely.asking fun _ looked => looked.2).promising ?_
      rintro _ tables ⟨version, snapped, holds⟩
      exact ⟨path, version, isPath, snapped, holds⟩

/-- A snapshot of what is there is stored for every path but the root. -/
theorem snapshot_certain
    {gives : Int → Bool → Bool}
    (now : Int)
    (sound : before.Sound strict known)
    (numbered : before.Numbered)
    {text : String}
    (isPath : CleanPath.ofText text = .ok path)
    (proper : ¬path.isRoot = true)
    (available : Available gives before path source?)
    (time? : Option Int) :
    Decides setting gives (· = before) (snapshot now text source? time?) True fun _ _ => True := by
  refine .known path before (clean_known isPath) ?_
  simp only [throw_bind]
  rw [if_neg proper]
  cases source? with
  | some source =>
      exact .of_works ((storeSnapshot_snaps now sound numbered proper source
        (time?.getD now)).weaken (fun _ same => same) (fun _ _ _ => ⟨trivial, trivial⟩)
          fun _ _ fails => absurd available fails)
  | none =>
      obtain ⟨file, here, given⟩ := available
      refine .known file before (requireFile_known here) (.exactly (.locked fun _ _ _ => ?_)
        (iff_of_eq (eq_true ⟨given, trivial⟩)))
      exact .of_works ((shareSnapshot_snaps now sound numbered proper here
        (time?.getD now)).weaken (fun _ same => same) (fun _ _ _ => ⟨trivial, trivial⟩)
          fun _ _ absurd => absurd.elim)

end Txn

end VersionStore
