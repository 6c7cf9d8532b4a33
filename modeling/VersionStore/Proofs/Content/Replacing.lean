import VersionStore.Proofs.Content.AtOnce
import VersionStore.Proofs.Content.PlaceOrder
import VersionStore.Proofs.Content.Replaced

namespace VersionStore

/-!
# Writing and copying to a path

A file that is written to a path has the bytes that its source delivered, cut where they are
always cut, and a file that is copied there has the parts of its source. Both take the place of
what was at the path. A source that fails is not written, and where something does not make way
nothing is changed.
-/

open Tables VersionStore.Action

namespace Source

/-- Bytes that are delivered at once are all that is delivered. -/
theorem bytes_ofBytes
    (data : ByteArray) :
    (ofBytes data).bytes = data ∧ (ofBytes data).failure? = none := by
  unfold ofBytes bytes failure?
  by_cases isEmpty : data.isEmpty = true
  · have nothing : data = .empty := by
      simpa [ByteArray.isEmpty, ByteArray.size_eq_zero_iff] using isEmpty
    rw [if_pos isEmpty, nothing]
    exact ⟨rfl, rfl⟩
  · rw [if_neg isEmpty]
    dsimp only
    rw [bytesOf, if_neg isEmpty, bytesOf, ByteArray.append_empty, ite_self]
    exact ⟨rfl, rfl⟩

end Source

namespace Txn

variable
  {setting : Setting}
  {strict : Prop}
  {known : List Entry}
  {history : Bool}
  {held : Int → Prop}
  {now modified : Int}
  {before room after : Tables}
  {path : CleanPath}
  {row entry : Entry}

/-! ## What comes of it -/

/-- A file was written to the path of a text: it took the place of what was there, and it has the
bytes that its source delivered. -/
structure Written (history : Bool) (held : Int → Prop) (now : Int) (before : Tables)
    (text : String) (source : Source) (modified : Int) (row : Entry) (after : Tables) : Prop where
  ends : source.failure? = none
  replaced :
    ∃ path, CleanPath.ofText text = .ok path ∧ before.Replaced history held now path row after
  modified : row.lastModified = modified
  length : row.length = source.bytes.size
  checksum : row.checksum = some (Checksum.ofData source.bytes)
  contains : after.Contains row.id source.bytes
  rows : after.rows row.id = runsFrom 0 source.bytes
  count : (after.partsOf row.id).length = source.bytes.size ⌈/⌉ partSize

/-- A file was copied to a path: the copy took the place of what was there, and it has the parts,
the length and the checksum of its source, stored in the order in which they are listed. -/
structure Copied (history : Bool) (held : Int → Prop) (now : Int) (before : Tables)
    (source : Entry) (modified : Int) (path : CleanPath) (row : Entry) (after : Tables) : Prop
    extends before.Replaced history held now path row after where
  modified : row.lastModified = modified
  length : row.length = source.length
  checksum : row.checksum = source.checksum
  stored : (after.pieces row.id).map Part.bare = (before.partsOf source.id).map Part.bare
  parts : (after.partsOf row.id).map Part.bare = (before.partsOf source.id).map Part.bare

/-! ## Storing what is delivered -/

/-- Deliveries are taken in to the end only if their source does not fail. -/
theorem drain_ends
    {pre : Tables → Prop}
    {id : Int}
    (failure : Option IoFault)
    (deliveries : List Delivery)
    (intake : Intake) :
    Works setting pre (intake.drain id failure deliveries)
      (fun _ _ => (Source.mk deliveries failure).failure? = none) fun _ _ => True := by
  induction deliveries generalizing pre intake with
  | nil =>
      cases failure with
      | some fault =>
          exact .throw fun _ _ => trivial
      | none =>
          exact .pure fun _ _ => rfl
  | cons delivery rest inductionHypothesis =>
      cases delivery with
      | interrupted =>
          exact inductionHypothesis intake
      | bytes data =>
          rw [Intake.drain]
          refine .ite (fun isEmpty => .pure fun _ _ => ?_) fun some_ => ?_
          · simp [Source.failure?, Source.endsEarly, isEmpty]
          · have ends : (Source.mk (.bytes data :: rest) failure).failure? =
                (Source.mk rest failure).failure? := by
              simp [Source.failure?, Source.endsEarly, some_]
            rw [ends]
            refine .bind (fun _ _ => True) ?_ fun taken => inductionHypothesis taken
            obtain ⟨offset, buffer, digest⟩ := intake
            exact .bind (fun _ _ => True)
              ((storeParts_works (fun _ _ _ _ => trivial) _ _).surely.asking fun _ _ => trivial)
              fun _ => .pure fun _ _ => trivial

/-- A content is stored only if its source does not fail. -/
theorem storeContent_ends
    {pre : Tables → Prop}
    {id : Int}
    (source : Source) :
    Works setting pre (storeContent id source) (fun _ _ => source.failure? = none)
      fun _ _ => True := by
  refine .bind _ (drain_ends source.failure source.deliveries {}) fun intake => ?_
  exact .bind (fun _ _ => source.failure? = none)
    (storeParts_works (fun _ _ _ ends => ends) _ _).surely fun _ => .pure fun _ ends => ends

/-! ## Entering a file -/

/-- A path is made ready for a file, and what is numbered stays numbered. -/
theorem clearForWrite_prepares
    (now : Int)
    (sound : before.Sound strict known)
    (numbered : before.Numbered)
    (path : CleanPath) :
    Works setting (· = before) (clearForWrite now path)
      (fun directory room =>
        Readied setting strict known now before path directory room ∧ room.Numbered)
      fun _ tables => tables = before := by
  refine ((clearForWrite_readies now sound path).both
    (@clearForWrite_carries setting before (fun _ => False) now path)).weaken ?_
      (fun _ _ ⟨ready, carries⟩ => ⟨ready, carries.toNumbered⟩) fun _ _ failed => failed.1
  rintro _ rfl
  exact ⟨rfl, .refl numbered, fun _ _ => id⟩

/-- A row as it is entered at a path. -/
def rowAt (room : Tables) (directory : Int) (path : CleanPath) (modified length : Int)
    (checksum : Option Checksum) : Entry :=
  { freshEntry directory path.name false modified with
    id := room.lastEntryId + 1
    length
    checksum }

/-- A file was entered with some bytes. -/
structure Stocked (room : Tables) (directory : Int) (path : CleanPath) (modified : Int)
    (data : ByteArray) (row : Entry) (after : Tables) : Prop
    extends Entered room row after where
  isRow : row = rowAt room directory path modified data.size (some (Checksum.ofData data))
  laid : LaidFrom 0 (after.pieces row.id)
  bytes : bytesOf (after.pieces row.id) = data

/-- A file whose bytes were stored is stocked when they are recorded. -/
theorem stocked_recordContent
    {directory : Int}
    {data : ByteArray}
    {more : Prop}
    (coherent : room.Coherent)
    (filled :
      Filled (Entered room (rowAt room directory path modified 0 none)) (room.lastEntryId + 1) more
        data after) :
    Stocked room directory path modified data
      (rowAt room directory path modified data.size (some (Checksum.ofData data)))
      (after.recordContent (room.lastEntryId + 1) data.size modified
        (some (Checksum.ofData data))) where
  toEntered := filled.kept.recordContent coherent _ _ _
  isRow := rfl
  laid := filled.laid
  bytes := filled.bytes

/-- Links are no matter of what a file is stocked with. -/
theorem Stocked.setLinks
    {directory : Int}
    {data : ByteArray}
    (stocked : Stocked room directory path modified data row after)
    (paths : List String) :
    Stocked room directory path modified data row (after.setLinks row.id paths) := by
  have pieces : (after.setLinks row.id paths).pieces row.id = after.pieces row.id := by
    obtain ⟨targets, links, same⟩ := setLinks_eq row.id paths after
    rw [same]
    rfl
  exact ⟨stocked.toEntered.setLinks paths, stocked.isRow, by rw [pieces]; exact stocked.laid,
    by rw [pieces]; exact stocked.bytes⟩

/-- What a source delivers is stored for a file that was entered, unless the source fails. -/
theorem storeContent_enters
    (source : Source) :
    Works setting (Filled (Entered room row) row.id True .empty)
      (storeContent row.id source)
      (fun stored tables =>
        (stored = ((source.bytes.size : Int), Checksum.ofData source.bytes) ∧
            source.failure? = none) ∧
          Filled (Entered room row) row.id False source.bytes tables)
      fun _ _ => source.failure? ≠ none :=
  ((storeContent_fills Entered.addPart source).both (storeContent_ends source)).weaken
    (fun _ filled => ⟨filled, filled⟩)
    (fun _ _ ⟨⟨filled, isStored⟩, ends⟩ => ⟨⟨isStored, ends⟩, filled⟩) fun _ _ failed => failed.1

/-- The row of a file that was entered is asked for. -/
theorem requireRow_enters
    {holds : Tables → Prop}
    (coherent : room.Coherent)
    (isEntered : ∀ tables, holds tables → Entered room row tables)
    (isNew : row.id = room.lastEntryId + 1)
    (fault : Fault) :
    Works setting holds
      (do Action.require fault (← query fun tables => tables.entry? (room.lastEntryId + 1)))
      (fun result tables => result = row ∧ holds tables)
      fun _ _ => False :=
  (requireRow_works (fun tables kept => ⟨row, (isEntered tables kept).member, isNew⟩)
    fault).promising fun _ tables ⟨kept, member, same⟩ =>
      ⟨(isEntered tables kept).eq_row coherent member (same.trans isNew.symm), kept⟩

/-- A file is entered with everything that a source delivers. -/
theorem fillRoom_stocks
    (coherent : room.Coherent)
    (numbered : room.Numbered)
    (directory : Int)
    (path : CleanPath)
    (modified : Int)
    (source : Source)
    (links? : Option (List String)) :
    Works setting (· = room)
      (do
        let id ← Action.insert fun tables =>
          tables.createEntry directory path.name false modified
        let (length, checksum) ← storeContent id source
        update fun tables => tables.recordContent id length modified (some checksum)
        match links? with
        | some links => update fun tables => tables.setLinks id links
        | none => pure ()
        Action.require (.notFound path.text) (← query fun tables => tables.entry? id))
      (fun row tables =>
        source.failure? = none ∧ Stocked room directory path modified source.bytes row tables)
      fun _ _ => True := by
  refine .bind
    (fun id tables =>
      id = room.lastEntryId + 1 ∧
        Filled (Entered room (rowAt room directory path modified 0 none)) (room.lastEntryId + 1)
          True .empty tables)
    (.insert ?_) fun id => ?_
  · rintro _ rfl
    exact ⟨rfl, filled_addEntry numbered (.of_addEntry _ _)⟩
  refine .assuming (id = room.lastEntryId + 1) (fun _ created => created.1) ?_
  rintro rfl
  have stores :=
    @storeContent_enters setting room (rowAt room directory path modified 0 none) source
  refine .bind _ (stores.asking fun _ created => created.2).loosely fun stored => ?_
  refine .assuming _ (fun _ filled => filled.1) ?_
  rintro ⟨rfl, ends⟩
  let row := rowAt room directory path modified source.bytes.size
    (some (Checksum.ofData source.bytes))
  refine .bind (fun _ => Stocked room directory path modified source.bytes row)
    (.update fun _ filled => stocked_recordContent coherent filled.2) fun _ => ?_
  have gives :
      Works setting (Stocked room directory path modified source.bytes row)
        (do
          Action.require (.notFound path.text)
            (← query fun tables => tables.entry? (room.lastEntryId + 1)))
        (fun row tables =>
          source.failure? = none ∧ Stocked room directory path modified source.bytes row tables)
        fun _ _ => True := by
    refine ((requireRow_enters coherent (fun _ stocked => stocked.toEntered) rfl
      _).promising ?_).surely
    rintro _ tables ⟨rfl, stocked⟩
    exact ⟨ends, stocked⟩
  cases links? with
  | some links =>
      exact .bind _ (.update fun _ stocked => stocked.setLinks links) fun _ => gives
  | none =>
      exact gives

/-- A file that was stocked in the directory of a path that was made ready is written there. -/
theorem Readied.written
    {directory : Int}
    {text : String}
    {source : Source}
    (ready : Readied setting strict known now before path directory room)
    (sound : before.Sound strict known)
    (soundAfter : after.Sound strict known)
    (isPath : CleanPath.ofText text = .ok path)
    (ends : source.failure? = none)
    (stocked : Stocked room directory path modified source.bytes row after) :
    Written setting.history setting.held now before text source modified row after := by
  obtain ⟨entered, rfl, laid, bytes⟩ := stocked
  have replaced := ready.replaced sound entered soundAfter rfl rfl rfl rfl rfl
  have contains : after.Contains (room.lastEntryId + 1) source.bytes :=
    ⟨⟨_, replaced.found, rfl, rfl⟩, laid, bytes⟩
  have rows : after.rows (room.lastEntryId + 1) = runsFrom 0 source.bytes :=
    (rows_eq_map laid).trans (laid.rows_eq.trans (congrArg (runsFrom 0) bytes))
  have count := congrArg List.length rows
  rw [Tables.rows, runsFrom, List.length_map, List.length_map, List.length_range] at count
  exact ⟨ends, ⟨path, isPath, replaced⟩, rfl, rfl, rfl, contains, rows, count⟩

/-- What a source delivers is written to a path, in place of what was there. Where that does not
make way nothing is changed. -/
theorem writeFrom_writes
    (now : Int)
    (sound : before.Sound strict known)
    (numbered : before.Numbered)
    (text : String)
    (source : Source)
    (links? : Option (List String))
    (time? : Option Int) :
    Works setting (· = before) (writeFrom now text source links? time?)
      (Written setting.history setting.held now before text source (time?.getD now))
      fun _ tables =>
        ∀ path,
          CleanPath.ofText text = .ok path →
          before.Occupied setting.held path →
          tables = before := by
  suffices stocks :
      Works setting (· = before) (writeFrom now text source links? time?)
        (fun row tables =>
          ∃ path directory room,
            CleanPath.ofText text = .ok path ∧
              Readied setting strict known now before path directory room ∧
                source.failure? = none ∧
                  Stocked room directory path (time?.getD now) source.bytes row tables)
        fun _ tables =>
          ∀ path,
            CleanPath.ofText text = .ok path →
            before.Occupied setting.held path →
            tables = before by
    refine (stocks.both (writeFrom_keeps now text source links? time?)).weaken
      (fun _ same => ⟨same, same ▸ sound⟩) ?_ fun _ _ failed => failed.1
    rintro row tables ⟨⟨path, directory, room, isPath, ready, ends, stocked⟩, soundAfter⟩
    exact ready.written sound soundAfter isPath ends stocked
  refine .bind (fun path tables => CleanPath.ofText text = .ok path ∧ tables = before)
    (.clean (fun path isPath _ same => ⟨isPath, same⟩) fun _ _ same _ _ _ => same) fun path => ?_
  refine .assuming _ (fun _ cleaned => cleaned.1) fun isPath => ?_
  have isOnly {other : CleanPath} (isOther : CleanPath.ofText text = .ok other) : other = path :=
    Except.ok.inj (isOther.symm.trans isPath)
  refine .bind _ ((clearForWrite_prepares now sound numbered path).weaken
    (fun _ cleaned => cleaned.2) (fun _ _ done => done) fun _ _ same _ _ _ => same)
    fun directory => .named fun room ⟨ready, counted⟩ => ?_
  refine (fillRoom_stocks ready.sound.coherent counted directory path (time?.getD now)
    source links?).weaken (fun _ same => same) ?_ fun _ _ _ other isOther occupied => ?_
  · rintro row tables ⟨ends, stocked⟩
    exact ⟨path, directory, room, isPath, ready, ends, stocked⟩
  · exact absurd (isOnly isOther ▸ occupied) ready.free

/-! ## Copies -/

/-- A file that has copies of the parts of another in their order lists them in their order. -/
theorem map_bare_partsOf
    {file source : Int}
    (copies : (after.pieces file).map Part.bare = (before.partsOf source).map Part.bare) :
    (after.partsOf file).map Part.bare = (before.partsOf source).map Part.bare := by
  have ordered (parts : List Part) :
      (parts.map Part.bare).Pairwise (fun first second => offsetLe first second = true) ↔
        parts.Pairwise fun first second => offsetLe first second = true :=
    List.pairwise_map
  have isOrdered := (ordered _).mp (copies ▸ (ordered _).mpr (pairwise_partsOf before source))
  rw [← copies]
  exact congrArg (List.map Part.bare) (List.mergeSort_of_pairwise isOrdered)

/-- A file was entered with copies of the parts of another. -/
structure Duplicated (room : Tables) (directory : Int) (path : CleanPath) (modified : Int)
    (source : Entry) (row : Entry) (after : Tables) : Prop
    extends Entered room row after where
  isRow : row = rowAt room directory path modified source.length source.checksum
  copies : (after.pieces row.id).map Part.bare = (room.partsOf source.id).map Part.bare

/-- A file is entered with copies of the parts of another. -/
theorem copyRoom_duplicates
    (coherent : room.Coherent)
    (numbered : room.Numbered)
    (directory : Int)
    (path : CleanPath)
    (modified : Int)
    (source : Entry) :
    Works setting (· = room)
      (do
        let id ← Action.insert fun tables =>
          tables.createEntry directory path.name false modified
        update fun tables =>
          (tables.copyParts id source.id).recordContent id source.length modified source.checksum
        Action.require (.notFound path.text) (← query fun tables => tables.entry? id))
      (Duplicated room directory path modified source)
      fun _ _ => False := by
  let row := rowAt room directory path modified source.length source.checksum
  refine .bind
    (fun id tables =>
      id = room.lastEntryId + 1 ∧ tables = (room.createEntry directory path.name false modified).2)
    (.insert ?_) fun id => ?_
  · rintro _ rfl
    exact ⟨rfl, rfl⟩
  refine .assuming (id = room.lastEntryId + 1) (fun _ created => created.1) ?_
  rintro rfl
  refine .bind (fun _ => Duplicated room directory path modified source row) (.update ?_)
    fun _ => ((requireRow_enters coherent (fun _ duplicated => duplicated.toEntered) rfl
      _).promising fun _ tables ⟨isRow, duplicated⟩ => isRow ▸ duplicated)
  rintro _ ⟨-, rfl⟩
  have entered := Entered.of_addEntry room (freshEntry directory path.name false modified)
  refine ⟨(entered.copyParts source.id).recordContent coherent _ _ _, rfl, ?_⟩
  -- A row that is added has no parts, and leaves those of the source.
  have none_ :
      (room.createEntry directory path.name false modified).2.pieces (room.lastEntryId + 1) = [] :=
    numbered.pieces_eq_nil (Int.lt_succ _)
  have copies := Carries.map_bare_addCopies
    (room.createEntry directory path.name false modified).2 (room.lastEntryId + 1)
    (room.partsOf source.id)
  rw [none_] at copies
  exact copies

/-- A file that was duplicated in the directory of a path that was made ready is copied there. -/
theorem Readied.copied
    {directory : Int}
    {source : Entry}
    (ready : Readied setting strict known now before path directory room)
    (sound : before.Sound strict known)
    (soundAfter : after.Sound strict known)
    (member : source ∈ before.entries)
    (elsewhere : before.lookupAt? path ≠ some source)
    (duplicated : Duplicated room directory path modified source row after) :
    Copied setting.history setting.held now before source modified path row after := by
  obtain ⟨entered, rfl, copies⟩ := duplicated
  have pieces : room.pieces source.id = before.pieces source.id := by
    have kept := ((ready.vacates sound).kept source member elsewhere).2.pieces
    rw [← kept, pieces, pieces, ready.extended.parts]
  have parts : room.partsOf source.id = before.partsOf source.id :=
    congrArg (List.mergeSort · offsetLe) pieces
  rw [parts] at copies
  exact ⟨ready.replaced sound entered soundAfter rfl rfl rfl rfl rfl, rfl, rfl, rfl, copies,
    map_bare_partsOf copies⟩

/-- A file that is there is copied to a path, in place of what was there, or nothing is
changed. -/
theorem copyEntry_copies
    (now : Int)
    (sound : before.Sound strict known)
    (numbered : before.Numbered)
    {source : Entry}
    (member : source ∈ before.entries)
    (path : CleanPath)
    (time? : Option Int) :
    Works setting (· = before) (copyEntry now path source time?)
      (fun row tables =>
        before.lookupAt? path ≠ some source ∧
          Copied setting.history setting.held now before source (time?.getD now) path row tables)
      fun _ tables => tables = before := by
  suffices duplicates :
      Works setting (· = before) (copyEntry now path source time?)
        (fun row tables =>
          before.lookupAt? path ≠ some source ∧
            ∃ directory room,
              Readied setting strict known now before path directory room ∧
                Duplicated room directory path (time?.getD now) source row tables)
        fun _ _ => True by
    have spares : Spares setting (fun _ => False) before (copyEntry now path source time?) :=
      copyEntry_spares now sound path source time?
    refine ((duplicates.both spares).both (copyEntry_keeps now path source time?)).weaken
      (fun _ same => ⟨⟨same, same⟩, same ▸ sound⟩) ?_ fun _ _ failed => failed.1.2.resolve_right id
    rintro row tables ⟨⟨⟨elsewhere, directory, room, ready, duplicated⟩, -⟩, soundAfter⟩
    exact ⟨elsewhere, ready.copied sound soundAfter member elsewhere duplicated⟩
  have copying (elsewhere : before.lookupAt? path ≠ some source) :
      Works setting (· = before)
        (do
          let directory ← clearForWrite now path
          let modified := time?.getD now
          let id ← Action.insert fun tables =>
            tables.createEntry directory path.name false modified
          update fun tables =>
            (tables.copyParts id source.id).recordContent id source.length modified
              source.checksum
          Action.require (.notFound path.text) (← query fun tables => tables.entry? id))
        (fun row tables =>
          before.lookupAt? path ≠ some source ∧
            ∃ directory room,
              Readied setting strict known now before path directory room ∧
                Duplicated room directory path (time?.getD now) source row tables)
        fun _ _ => True := by
    refine .bind _ (clearForWrite_prepares now sound numbered path).loosely
      fun directory => .named fun room ⟨ready, counted⟩ => ?_
    exact (copyRoom_duplicates ready.sound.coherent counted directory path
      (time?.getD now) source).weaken (fun _ same => same)
        (fun _ _ duplicated => ⟨elsewhere, directory, room, ready, duplicated⟩)
        fun _ _ absurd => absurd.elim
  unfold copyEntry
  refine .locked (fun _ => ?_) fun _ _ => trivial
  refine .bind _ (entryAt?_known path).surely fun existing? => ?_
  refine .assuming (existing? = before.lookupAt? path) (fun _ looked => looked.1) fun found => ?_
  cases existing? with
  | none =>
      refine (copying ?_).asking fun _ looked => looked.2
      rw [← found]
      exact (Option.some_ne_none source).symm
  | some existing =>
      simp only [throw_bind]
      refine .ite (fun _ => .throw fun _ _ => trivial) fun different => ?_
      refine (copying ?_).asking fun _ looked => looked.2
      rw [← found]
      exact fun same => different (congrArg Entry.id (Option.some.inj same))

/-- The file that is given for a path is the one there. -/
theorem requireFile_looks
    (path : CleanPath) :
    Works setting (· = before) (requireFile path)
      (fun entry tables => before.FileAt path entry ∧ tables = before)
      fun _ tables => tables = before := by
  refine .bind (fun entry tables => before.lookupAt? path = some entry ∧ tables = before) ?_
    fun entry => ?_
  · refine .bind _ (entryAt?_known path).surely fun found? =>
      .require ?_ fun _ _ looked => looked.2
    rintro entry rfl _ ⟨found, rfl⟩
    exact ⟨found.symm, rfl⟩
  · simp only [throw_bind]
    refine .ite (fun _ => .throw fun _ looked => looked.2) fun isFile => .pure ?_
    rintro _ ⟨found, rfl⟩
    exact ⟨⟨found, Bool.eq_false_iff.mpr isFile⟩, rfl⟩

/-- A row that has the parts, the length and the checksum of another one contains what that one
contained. -/
theorem contains_of_copies
    {source row : Entry}
    {data : ByteArray}
    (contains : before.Contains source.id data)
    (isSource : before.entry? source.id = some source)
    (found : after.entry? row.id = some row)
    (sameLength : row.length = source.length)
    (sameChecksum : row.checksum = source.checksum)
    (stored : (after.pieces row.id).map Part.bare = (before.partsOf source.id).map Part.bare) :
    after.Contains row.id data := by
  obtain ⟨⟨entry, isEntry, length, checksum⟩, laid, bytes⟩ := contains
  cases isSource.symm.trans isEntry
  rw [partsOf_eq_pieces laid] at stored
  refine ⟨⟨row, found, sameLength.trans length, sameChecksum.trans checksum⟩, ?_, ?_⟩
  · rw [← laidFrom_map_bare_iff, stored, laidFrom_map_bare_iff]
    exact laid
  · rw [← bytesOf_map_bare, stored, bytesOf_map_bare]
    exact bytes

/-- A copy contains what its source contained. -/
theorem Copied.contains
    {source : Entry}
    {data : ByteArray}
    (copied : Copied history held now before source modified path row after)
    (contains : before.Contains source.id data)
    (isSource : before.entry? source.id = some source) :
    after.Contains row.id data :=
  contains_of_copies contains isSource copied.found copied.length copied.checksum copied.stored

/-- A file that was copied is where it was, and nothing that belongs to it was touched. -/
theorem Copied.source_stays
    {source : Entry}
    {origin : CleanPath}
    (copied : Copied history held now before source modified path row after)
    (coherent : before.Coherent)
    (here : before.FileAt origin source)
    (other : before.lookupAt? path ≠ some source) :
    after.FileAt origin source ∧ Untouched source.id before after := by
  have member := (coherent.lookupAt?_eq_some_iff.mp here.found).member
  have apart : origin ≠ path := by
    rintro rfl
    exact other here.found
  refine ⟨⟨?_, here.isFile⟩, (copied.kept source member other).2⟩
  rcases copied.elsewhere origin apart with same | ⟨-, missing, -⟩
  · exact same.trans here.found
  · rw [here.found] at missing
    cases missing

/-- The live file at the path of one text is copied to that of another. -/
theorem copy_copies
    (now : Int)
    (sound : before.Sound strict known)
    (numbered : before.Numbered)
    (target source : String)
    (time? : Option Int) :
    Works setting (· = before) (copy now target source time?)
      (fun row tables =>
        ∃ path origin entry,
          CleanPath.ofText target = .ok path ∧
            CleanPath.ofText source = .ok origin ∧
              before.FileAt origin entry ∧
                Copied setting.history setting.held now before entry (time?.getD now) path row
                    tables ∧
                  tables.FileAt origin entry ∧ Untouched entry.id before tables)
      fun _ tables => tables = before := by
  refine .bind (fun origin tables => CleanPath.ofText source = .ok origin ∧ tables = before)
    (.clean (fun origin isOrigin _ same => ⟨isOrigin, same⟩) fun _ _ same => same) fun origin => ?_
  refine .assuming _ (fun _ cleaned => cleaned.1) fun isOrigin => ?_
  refine .bind _ ((requireFile_looks origin).asking fun _ cleaned => cleaned.2) fun entry => ?_
  refine .assuming _ (fun _ looked => looked.1) fun here => ?_
  have member := (sound.coherent.lookupAt?_eq_some_iff.mp here.found).member
  refine .bind (fun path tables => CleanPath.ofText target = .ok path ∧ tables = before)
    (.clean (fun path isPath _ looked => ⟨isPath, looked.2⟩) fun _ _ looked => looked.2)
    fun path => ?_
  refine .assuming _ (fun _ cleaned => cleaned.1) fun isPath => ?_
  exact (copyEntry_copies now sound numbered member path time?).weaken
    (fun _ cleaned => cleaned.2)
    (fun _ _ ⟨other, copied⟩ => ⟨path, origin, entry, isPath, isOrigin, here, copied,
      copied.source_stays sound.coherent here other⟩) fun _ _ same => same

end Txn

end VersionStore
