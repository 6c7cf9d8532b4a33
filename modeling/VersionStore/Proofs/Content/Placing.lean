import VersionStore.Proofs.Content.Copying
import VersionStore.Proofs.Tree.Clearing

namespace VersionStore

/-!
# Files that are put in place

A file that is written or copied to a path gets a row of its own there, and parts that are the
bytes of what it is made from. What is seen afterwards is this version of the file, and
directories that lead to it. Everything else is seen as before.
-/

open Tables VersionStore.Action

namespace Tables

variable {room filled after : Tables} {directory : Int} {name : String} {version : Version}
  {entry : Entry}

/-- A new file in a directory: its row, and the version that is seen of it. -/
structure Made (room : Tables) (directory : Int) (name : String) (version : Version)
    (entry : Entry) (after : Tables) : Prop
    extends Beside (· = room.lastEntryId + 1) room after where
  isNew : entry.id = room.lastEntryId + 1
  member : entry ∈ after.entries
  held : entry.directoryId = directory
  called : entry.name = name
  live : entry.isDeleted = false
  isFile : entry.isDirectory = false
  seen : after.versionOf entry = version

/-- A new file in a directory that has a row and may have parts. -/
structure Begun (room : Tables) (directory : Int) (name : String) (modified : Int)
    (tables : Tables) : Prop
    extends Beside (· = room.lastEntryId + 1) room tables where
  entries : tables.entries = (room.createEntry directory name false modified).2.entries

/-- Parts of a new file are added to it. -/
theorem Begun.addPart
    {modified : Int}
    (tables : Tables)
    (place : Int)
    (data : ByteArray)
    (begun : Begun room directory name modified tables) :
    Begun room directory name modified (tables.addPart (room.lastEntryId + 1) place data).2 where
  toBeside := begun.toBeside.trans (beside_addPart tables _ ⟨_, _, place, data.size, data⟩ rfl _)
  entries := begun.entries

/-- Copies of parts are added to a new file. -/
theorem Begun.copyParts
    {modified : Int}
    (begun : Begun room directory name modified filled)
    (source : Int) :
    Begun room directory name modified (filled.copyParts (room.lastEntryId + 1) source) where
  toBeside := begun.toBeside.trans (beside_addCopies _ _ filled)
  entries := by
    obtain ⟨parts, lastPartId, copied⟩ :=
      addCopies_eq (room.lastEntryId + 1) (filled.partsOf source) filled
    rw [Tables.copyParts, copied]
    exact begun.entries

/-- A new file is made once its length and checksum are recorded. -/
theorem Begun.made
    {modified length : Int}
    {checksum : Option Checksum}
    (begun : Begun room directory name modified filled) :
    Made room directory name
      { writable := true
        lastModified := modified
        length
        checksum
        bytes := bytesOf (filled.pieces (room.lastEntryId + 1)) }
      { freshEntry directory name false modified with
        id := room.lastEntryId + 1
        length
        checksum }
      (filled.recordContent (room.lastEntryId + 1) length modified checksum) where
  toBeside := begun.toBeside.trans (beside_modifyEntry filled _ fun _ => rfl)
  isNew := rfl
  member := by
    refine List.mem_map.mpr
      ⟨{ freshEntry directory name false modified with id := room.lastEntryId + 1 }, ?_, if_pos rfl⟩
    rw [begun.entries]
    exact List.mem_append_right _ (List.mem_singleton_self _)
  held := rfl
  called := rfl
  live := rfl
  isFile := rfl
  seen := rfl

/-- Links are no matter of what a file is. -/
theorem Made.setLinks
    (made : Made room directory name version entry after)
    (source : Int)
    (paths : List String) :
    Made room directory name version entry (after.setLinks source paths) := by
  obtain ⟨targets, links, same⟩ := setLinks_eq source paths after
  rw [same]
  exact ⟨⟨made.rows, made.pieces⟩, made.isNew, made.member, made.held, made.called, made.live, made.isFile,
    made.seen⟩

end Tables

namespace Txn

variable
  {setting : Setting}
  {gives : Int → Bool → Bool}
  {strict : Prop}
  {known : List Entry}
  {before : Tables}
  {path : CleanPath}
  {version : Version}
  {entry : Entry}

/-- A file was put at a path next to what was seen, and is seen there now. -/
structure Put (strict : Prop) (known : List Entry) (sights : Sights) (path : CleanPath)
    (version : Version) (entry : Entry) (after : Tables) : Prop where
  sound : after.Sound strict known
  found : after.lookupAt? path = some entry
  seen : after.sights = sights.put path version

/-- A file that is made in the room for it is put in place. -/
theorem Room.made
    {directory : Int}
    {room after : Tables}
    (isRoom : Room strict known before path directory room)
    (made : Made room directory path.name version entry after)
    (sound : after.Sound strict known) :
    Put strict known before.sights path version entry after := by
  have coherent := isRoom.sound.coherent
  obtain ⟨holder, here, isHolder⟩ := isRoom.here
  obtain ⟨names, name, whole, above, called⟩ := exists_names_of_not_isRoot isRoom.proper
  have same : SameBut entry.id room after := by
    rw [made.isNew]
    refine coherent.sameBut_added made.toBeside fun other member isNew => ?_
    rw [sound.coherent.entry_eq member made.member (isNew.trans made.isNew.symm), made.held,
      ← isHolder]
    exact coherent.id_le holder here.member
  have isFresh other (member : other ∈ room.entries) : other.id ≠ entry.id := by
    rw [made.isNew]
    exact coherent.id_ne_next member
  have placed : after.At path.names entry := by
    rw [whole, ← above]
    exact .child (same.at_of_ne here (isFresh holder here.member)) made.member same.proper made.live
      (made.held.trans isHolder.symm) (made.called.trans called)
  refine ⟨sound, sound.coherent.lookupAt?_eq_some_iff.mpr placed, ?_⟩
  rw [same.sights_added coherent sound.coherent placed isFresh, sightOf_file made.isFile, made.seen,
    isRoom.seen]
  exact Sights.put_set version

/-- A file that was made in a room, and the row that is given for it. -/
structure Making (strict : Prop) (known : List Entry) (before : Tables) (path : CleanPath)
    (version : Version) (result : Entry) (after : Tables) : Prop where
  made :
    ∃ directory room entry,
      Room strict known before path directory room ∧
        Made room directory path.name version entry after ∧ result.id = entry.id
  member : result ∈ after.entries

/-- What is given for a file that was made is its row. -/
theorem Making.put
    {after : Tables}
    (making : Making strict known before path version entry after)
    (sound : after.Sound strict known) :
    Put strict known before.sights path version entry after := by
  obtain ⟨directory, room, row, isRoom, made, same⟩ := making.made
  rw [sound.coherent.entry_eq making.member made.member same]
  exact isRoom.made made sound

/-- A row that is there is asked for. -/
theorem requireRow_works
    {holds : Tables → Prop}
    {id : Int}
    (there : ∀ tables, holds tables → ∃ entry ∈ tables.entries, entry.id = id)
    (fault : Fault) :
    Works setting holds
      (do Action.require fault (← query fun tables => tables.entry? id))
      (fun result tables => holds tables ∧ result ∈ tables.entries ∧ result.id = id)
      fun _ _ => False := by
  refine .bind (fun found tables => holds tables ∧ tables.entry? id = found)
    (.query fun _ before => ⟨before, rfl⟩) fun found => .require ?_ ?_
  · rintro result rfl tables ⟨before, found⟩
    exact ⟨before, List.mem_of_find?_eq_some found, by simpa using List.find?_some found⟩
  · rintro rfl tables ⟨before, missing⟩
    obtain ⟨entry, member, isId⟩ := there tables before
    exact List.find?_eq_none.mp missing entry member (beq_iff_eq.mpr isId)

/-- The row of a file that was made is asked for. -/
theorem requireMade_works
    {directory : Int}
    {room : Tables}
    (isRoom : Room strict known before path directory room)
    (fault : Fault) :
    Works setting (Made room directory path.name version entry)
      (do Action.require fault (← query fun tables => tables.entry? (room.lastEntryId + 1)))
      (Making strict known before path version)
      fun _ _ => False :=
  (requireRow_works (fun _ made => ⟨entry, made.member, made.isNew⟩) fault).promising
    fun _ _ ⟨made, member, isNew⟩ =>
      ⟨⟨directory, room, entry, isRoom, made, isNew.trans made.isNew.symm⟩, member⟩

/-- A file has no parts yet when its row is added. -/
theorem filled_addEntry
    {room : Tables}
    {entry : Entry}
    {holds : Tables → Prop}
    (numbered : room.Numbered)
    (kept : holds (room.addEntry entry).2) :
    Filled holds (room.lastEntryId + 1) True .empty (room.addEntry entry).2 := by
  have bare : (room.addEntry entry).2.pieces (room.lastEntryId + 1) = [] :=
    numbered.pieces_eq_nil (Int.lt_succ _)
  refine ⟨kept, ?_, ?_, ?_⟩
  · rw [bare]
    trivial
  · rw [bare]
    simp
  · rw [bare]
    rfl

/-- A row that is added begins a file without parts. -/
theorem createEntry_works
    {room : Tables}
    (numbered : room.Numbered)
    (directory : Int)
    (name : String)
    (modified : Int) :
    Works setting (· = room)
      (Action.insert fun tables => tables.createEntry directory name false modified)
      (fun id tables =>
        id = room.lastEntryId + 1 ∧
          Filled (Begun room directory name modified) (room.lastEntryId + 1) True .empty tables)
      fun _ _ => False := by
  refine .insert ?_
  rintro _ rfl
  exact ⟨rfl, filled_addEntry numbered ⟨beside_createEntry _ _ _ _ _, rfl⟩⟩

/-- In the room for it a file is made of everything that a source delivers. -/
theorem fillRoom_works
    {directory : Int}
    {room : Tables}
    (isRoom : Room strict known before path directory room)
    (numbered : room.Numbered)
    (modified : Int)
    (source : Source)
    (ends : source.failure? = none)
    (links? : Option (List String)) :
    Works setting (· = room)
      (do
        let id ← Action.insert fun tables =>
          tables.createEntry directory path.name false modified
        let (length, checksum) ← storeContent id source
        update fun tables => tables.recordContent id length modified (some checksum)
        match links? with
        | some links => update fun tables => tables.setLinks id links
        | none => pure ()
        Action.require (.notFound path.text) (← query fun tables => tables.entry? id))
      (Making strict known before path (.ofBytes modified source.bytes))
      fun _ _ => False := by
  refine .bind _ (createEntry_works numbered directory path.name modified) fun id => ?_
  refine .assuming (id = room.lastEntryId + 1) (fun _ created => created.1) ?_
  rintro rfl
  refine .bind _ ((storeContent_fills Begun.addPart source).weaken (fun _ created => created.2)
    (fun _ _ stored => stored) fun _ _ failed => failed ends) fun stored => ?_
  refine .assuming (stored = ((source.bytes.size : Int), Checksum.ofData source.bytes))
    (fun _ filled => filled.2) ?_
  rintro rfl
  refine .bind _ (.update fun tables ⟨filled, _⟩ => filled.bytes ▸ filled.kept.made) fun _ => ?_
  cases links? with
  | some links =>
      exact .bind _ (.update fun _ made => made.setLinks _ links) fun _ =>
        requireMade_works isRoom _
  | none =>
      exact requireMade_works isRoom _

/-- A source that does not fail is written to a path exactly where a file is accepted. -/
theorem writeFrom_decides
    (now : Int)
    {text : String}
    (isPath : CleanPath.ofText text = .ok path)
    (source : Source)
    (ends : source.failure? = none)
    (links? : Option (List String))
    (time? : Option Int)
    (sound : before.Sound strict known)
    (numbered : before.Numbered) :
    Decides setting gives (· = before) (writeFrom now text source links? time?)
      (before.Accepts gives path)
      (Put strict known before.sights path (.ofBytes (time?.getD now) source.bytes)) := by
  have making :
      Decides setting gives (· = before) (writeFrom now text source links? time?)
        (before.Accepts gives path)
        (Making strict known before path (.ofBytes (time?.getD now) source.bytes)) := by
    refine .known _ _ (clean_known isPath) ?_
    have cleared :=
      (@clearForWrite_decides setting gives strict known before path now sound).knowing
        (@clearForWrite_carries setting before (fun _ => False) now path) fun tables same => by
          rw [same]
          exact ⟨.refl numbered, fun _ _ absurd => absurd⟩
    refine (cleared.bind _ fun _ directory => ?_).exactly (and_iff_left trivial)
    refine .named fun room ⟨isRoom, carries⟩ => .of_works ?_
    exact (fillRoom_works isRoom carries.toNumbered (time?.getD now) source ends links?).weaken
      (fun _ same => same) (fun _ _ making => ⟨trivial, making⟩) fun _ _ absurd => absurd.elim
  refine (making.knowing (writeFrom_keeps now text source links? time?) ?_).weaken
    (fun _ same => same) fun _ _ ⟨making, sound⟩ => making.put sound
  rintro _ rfl
  exact sound

/-! ## Copies -/

/-- In the room for it a copy of a file is made. -/
theorem copyRoom_works
    {directory : Int}
    {room : Tables}
    (isRoom : Room strict known before path directory room)
    {source : Entry}
    (carries : before.Carries (fun _ => False) (· = source.id) room)
    (numbered : before.Numbered)
    (member : source ∈ before.entries)
    (stored : before.Stored source)
    (modified : Int) :
    Works setting (· = room)
      (do
        let id ← Action.insert fun tables =>
          tables.createEntry directory path.name false modified
        update fun tables =>
          (tables.copyParts id source.id).recordContent id source.length modified source.checksum
        Action.require (.notFound path.text) (← query fun tables => tables.entry? id))
      (Making strict known before path
        ((before.versionOf source).copied modified))
      fun _ _ => False := by
  have other : ¬room.lastEntryId + 1 = source.id := by
    have given := numbered.entry_le source member
    have earlier := carries.lastEntryId_le
    omega
  refine .bind
    (fun id tables =>
      id = room.lastEntryId + 1 ∧ Begun room directory path.name modified tables ∧
        Filling before (· = source.id) (room.lastEntryId + 1) True .empty tables)
    (.insert ?_) fun id => ?_
  · rintro _ rfl
    exact ⟨rfl, ⟨beside_createEntry _ _ _ _ _, rfl⟩, filling_addEntry carries other rfl⟩
  refine .assuming (id = room.lastEntryId + 1) (fun _ created => created.1) ?_
  rintro rfl
  let row : Entry :=
    { freshEntry directory path.name false modified with
      id := room.lastEntryId + 1
      length := source.length
      checksum := source.checksum }
  refine .bind
    (fun _ => Made room directory path.name
      ((before.versionOf source).copied modified) row)
    (.update ?_) fun _ => requireMade_works isRoom _
  rintro tables ⟨-, begun, filling⟩
  obtain ⟨-, -, bytes⟩ := filling.copyParts numbered stored rfl
  rw [versionOf, ← bytes]
  exact (begun.copyParts source.id).made

/-- A file can be copied to a path: no one writes to it, it is not there already, and a file is
accepted there. -/
structure Copies (gives : Int → Bool → Bool) (tables : Tables) (source : Entry) (path : CleanPath) :
    Prop where
  given : gives source.id false = true
  elsewhere : ∀ existing, tables.lookupAt? path = some existing → existing.id ≠ source.id
  accepts : tables.Accepts gives path

/-- A file is copied exactly when it can be, and what the room for the copy is filled with is all
that there is to it. -/
theorem copyEntry_settles
    (now : Int)
    {source : Entry}
    (time? : Option Int)
    (sound : before.Sound strict known)
    (numbered : before.Numbered)
    {post : Entry → Tables → Prop}
    (fills :
      gives source.id false = true →
      ∀ directory room,
        Room strict known before path directory room →
        before.Carries (fun _ => False) (· = source.id) room →
        Works setting (· = room)
          (do
            let id ← Action.insert fun tables =>
              tables.createEntry directory path.name false (time?.getD now)
            update fun tables =>
              (tables.copyParts id source.id).recordContent id source.length (time?.getD now)
                source.checksum
            Action.require (.notFound path.text) (← query fun tables => tables.entry? id))
          post fun _ _ => False) :
    Decides setting gives (· = before) (copyEntry now path source time?)
      (Copies gives before source path) post := by
  suffices settles :
      Decides setting gives (· = before) (copyEntry now path source time?)
        (gives source.id false = true ∧
          (∀ existing, before.lookupAt? path = some existing → existing.id ≠ source.id) ∧
            before.Accepts gives path)
        post by
    exact settles.exactly
      ⟨fun ⟨given, elsewhere, accepts⟩ => ⟨given, elsewhere, accepts⟩,
        fun copies => ⟨copies.given, copies.elsewhere, copies.accepts⟩⟩
  refine .locked fun given gives' same => ?_
  refine .known _ _ (entryAt?_known path) ?_
  have copying
      (elsewhere : ∀ existing, before.lookupAt? path = some existing → existing.id ≠ source.id) :
      Decides setting gives' (· = before)
        (do
          let directory ← clearForWrite now path
          let modified := time?.getD now
          let id ← Action.insert fun tables =>
            tables.createEntry directory path.name false modified
          update fun tables =>
            (tables.copyParts id source.id).recordContent id source.length modified
              source.checksum
          Action.require (.notFound path.text) (← query fun tables => tables.entry? id))
        (before.Accepts gives path) post := by
    have alike entry (found : before.lookupAt? path = some entry) :=
      same entry.id (elsewhere entry found)
    have accepts : before.Accepts gives' path ↔ before.Accepts gives path :=
      ⟨fun accepts => accepts.giving fun entry found => (alike entry found).symm,
        fun accepts => accepts.giving alike⟩
    have cleared :=
      (@clearForWrite_decides setting gives' strict known before path now sound).knowing
        (@clearForWrite_carries setting before (· = source.id) now path) fun tables same => by
          rw [same]
          exact ⟨.refl numbered, elsewhere⟩
    refine (cleared.bind _ fun _ directory => ?_).exactly ((and_iff_left trivial).trans accepts)
    refine .named fun room ⟨isRoom, carries⟩ => .of_works ?_
    exact (fills given directory room isRoom carries).weaken (fun _ same => same)
      (fun _ _ filled => ⟨trivial, filled⟩) fun _ _ absurd => absurd.elim
  cases found : before.lookupAt? path with
  | none =>
      refine (copying fun existing isFound => ?_).exactly
        (and_iff_right fun existing isFound => ?_).symm
      · exact absurd (found.symm.trans isFound) (Option.some_ne_none existing).symm
      · exact absurd isFound (Option.some_ne_none existing).symm
  | some existing =>
      simp only [throw_bind]
      by_cases isSource : existing.id = source.id
      · rw [if_pos isSource]
        exact .throw fun able => able.1 existing rfl isSource
      · rw [if_neg isSource]
        refine (copying fun other isFound => ?_).exactly
          (and_iff_right fun other isFound => ?_).symm
        · rwa [Option.some.inj (isFound.symm.trans found)]
        · rwa [Option.some.inj isFound.symm]

/-- A file that is there is copied exactly when it can be. -/
theorem copyEntry_decides
    (now : Int)
    {source : Entry}
    (time? : Option Int)
    (sound : before.Sound strict known)
    (numbered : before.Numbered)
    (member : source ∈ before.entries)
    (stored : gives source.id false = true → before.Stored source) :
    Decides setting gives (· = before) (copyEntry now path source time?)
      (Copies gives before source path)
      (Put strict known before.sights path ((before.versionOf source).copied (time?.getD now))) := by
  have making :
      Decides setting gives (· = before) (copyEntry now path source time?)
        (Copies gives before source path)
        (Making strict known before path ((before.versionOf source).copied (time?.getD now))) :=
    copyEntry_settles now time? sound numbered fun given _ _ isRoom carries =>
      copyRoom_works isRoom carries numbered member (stored given) (time?.getD now)
  refine (making.knowing (copyEntry_keeps now path source time?) ?_).weaken
    (fun _ same => same) fun _ _ ⟨making, sound⟩ => making.put sound
  rintro _ rfl
  exact sound

/-- The file at a path is copied to another one exactly when it can be. -/
theorem copy_decides
    (now : Int)
    {sourceText targetText : String}
    {source : CleanPath}
    (isSource : CleanPath.ofText sourceText = .ok source)
    (isTarget : CleanPath.ofText targetText = .ok path)
    (time? : Option Int)
    (sound : before.Sound strict known)
    (numbered : before.Numbered)
    (here : before.FileAt source entry)
    (stored : gives entry.id false = true → before.Stored entry) :
    Decides setting gives (· = before) (copy now targetText sourceText time?)
      (Copies gives before entry path)
      (Put strict known before.sights path ((before.versionOf entry).copied (time?.getD now))) := by
  have member := (sound.coherent.lookupAt?_eq_some_iff.mp here.found).member
  refine .known _ _ (clean_known isSource) (.known _ _ (requireFile_known here) ?_)
  refine .known _ _ (clean_known isTarget) ?_
  exact copyEntry_decides now time? sound numbered member stored

/-- Where there is nothing there is nothing to copy. -/
theorem copy_missing
    (now : Int)
    {sourceText : String}
    {source : CleanPath}
    (isSource : CleanPath.ofText sourceText = .ok source)
    (targetText : String)
    (time? : Option Int)
    (missing : before.lookupAt? source = none) :
    Works setting (· = before) (copy now targetText sourceText time?) (fun _ _ => False)
      fun _ _ => True := by
  refine .known _ (clean_known isSource).loosely ?_
  have required :
      Works setting (· = before) (requireFile source) (fun _ _ => False) fun _ _ => True :=
    .bind _ (requireEntry_missing missing) fun _ =>
      .assuming False (fun _ absurd => absurd) fun absurd => absurd.elim
  exact .bind _ required fun _ => .assuming False (fun _ absurd => absurd) fun absurd => absurd.elim

/-! ## Moves -/

/-- A file can be moved to a path: no one has it open, and there is room at the path. -/
structure Moves (gives : Int → Bool → Bool) (tables : Tables) (source : Entry) (path : CleanPath) :
    Prop where
  given : gives source.id true = true
  proper : ¬path.isRoot = true
  vacant : tables.lookupAt? path = none
  leads : tables.sights.Leads path.dropLast

/-- In the room for it a file is seen once it was moved there. -/
theorem Room.moved
    {directory : Int}
    {room : Tables}
    (isRoom : Room strict known before path directory room)
    (coherent : before.Coherent)
    {source : CleanPath}
    (here : before.FileAt source entry)
    (leads : before.sights.Leads path.dropLast)
    (still : room.At source.names entry)
    (pieces : room.pieces entry.id = before.pieces entry.id)
    {modified : Int}
    (sound : (room.moveEntry entry.id directory path.name modified).Sound strict known) :
    ∃ moved,
      moved.id = entry.id ∧
        Put strict known (before.sights.set source none) path
          ((before.versionOf entry).moved modified) moved
          (room.moveEntry entry.id directory path.name modified) := by
  have coherentRoom := isRoom.sound.coherent
  have coherentAfter := sound.coherent
  have isFile := here.isFile
  have agrees := coherentRoom.agrees still.member
  have live := coherentRoom.live_of_at still
  obtain ⟨holder, holderHere, isHolder⟩ := isRoom.here
  obtain ⟨names, name, whole, above, called⟩ := exists_names_of_not_isRoot isRoom.proper
  generalize isAfter : room.moveEntry entry.id directory path.name modified = after at *
  let moved : Entry :=
    { entry with directoryId := directory, name := path.name, lastModified := modified }
  have member : moved ∈ after.entries := by
    rw [← isAfter]
    exact (mem_entries_moveEntry coherentRoom still.member).mpr (.inr rfl)
  have beside : Beside (· = entry.id) room after := by
    rw [← isAfter]
    exact beside_modifyEntry room entry.id fun _ => rfl
  have same : SameBut entry.id room after :=
    ⟨beside, coherentRoom.id_ne_rootId agrees isFile,
      fun _ otherMember live => coherentRoom.directoryId_ne agrees isFile otherMember live,
      fun _ otherMember live =>
        coherentAfter.directoryId_ne (coherentAfter.agrees member) isFile otherMember live⟩
  have other : holder.id ≠ entry.id := by
    obtain ⟨live, isLive, same⟩ := isRoom.vacant.placed
    intro isEntry
    have isDirectory := isLive.isDirectory
    rw [coherentRoom.entry_eq isLive.member still.member (same.trans (isHolder.symm.trans isEntry)),
      isFile] at isDirectory
    cases isDirectory
  have placed : after.At path.names moved := by
    rw [whole, ← above]
    exact .child (same.at_of_ne holderHere other) member same.proper live isHolder.symm called
  have seen : after.sightOf moved = .file ((before.versionOf entry).moved modified) := by
    have stays : after.pieces moved.id = before.pieces entry.id := by
      rw [← isAfter]
      exact pieces
    have isMovedFile : moved.isDirectory = false := isFile
    rw [sightOf_file isMovedFile, versionOf, stays]
    rfl
  refine ⟨moved, rfl, sound, coherentAfter.lookupAt?_eq_some_iff.mpr placed, ?_⟩
  have isSource := coherent.sights_of_at (coherent.lookupAt?_eq_some_iff.mp here.found)
  rw [sightOf_file isFile] at isSource
  rw [same.sights_moved coherentRoom coherentAfter still rfl placed rfl, isRoom.seen, seen]
  exact Sights.put_of_moved isSource leads _

/-- A file that was moved to the room for it, and the row that is given for it. -/
structure Moving (strict : Prop) (known : List Entry) (before : Tables) (source path : CleanPath)
    (entry : Entry) (modified : Int) (result : Entry) (after : Tables) : Prop where
  leads : before.sights.Leads path.dropLast
  moved :
    ∃ directory room,
      Room strict known before path directory room ∧ room.At source.names entry ∧
        room.pieces entry.id = before.pieces entry.id ∧
          after = room.moveEntry entry.id directory path.name modified
  member : result ∈ after.entries
  isEntry : result.id = entry.id

/-- What is given for a file that was moved is its row. -/
theorem Moving.put
    {source : CleanPath}
    {modified : Int}
    {result : Entry}
    {after : Tables}
    (moving : Moving strict known before source path entry modified result after)
    (coherent : before.Coherent)
    (here : before.FileAt source entry)
    (sound : after.Sound strict known) :
    Put strict known (before.sights.set source none) path
      ((before.versionOf entry).moved modified) result after := by
  obtain ⟨directory, room, isRoom, still, pieces, rfl⟩ := moving.moved
  obtain ⟨moved, isMoved, put⟩ := isRoom.moved coherent here moving.leads still pieces sound
  have placed := sound.coherent.lookupAt?_eq_some_iff.mp put.found
  rwa [sound.coherent.entry_eq moving.member placed.member (moving.isEntry.trans isMoved.symm)]

/-- Room is made for a file that has its place already, and the file is moved there. -/
theorem moveIntoRoom_decides
    (now : Int)
    {source : CleanPath}
    (modified : Int)
    (sound : before.Sound strict known)
    (numbered : before.Numbered)
    (here : before.FileAt source entry)
    (proper : ¬path.isRoot = true)
    (vacant : before.lookupAt? path = none) :
    Decides setting gives (· = before)
      (do
        let parent ← makeDirectoriesAt now path.dropLast
        update fun tables =>
          let moved := tables.moveEntry entry.id parent path.name modified
          if entry.isDirectory then renameTree moved entry.id path.text else moved
        Action.require (.notFound path.text) (← query fun tables => tables.entry? entry.id))
      (before.sights.Leads path.dropLast)
      (Moving strict known before source path entry modified) := by
  have coherent := sound.coherent
  have isHere := coherent.lookupAt?_eq_some_iff.mp here.found
  have making :=
    (@makeRoom_decides setting gives strict known before path now sound proper vacant).knowing
      ((makeRoom_works now proper sound vacant).both
        (makeDirectoriesAt_grows (endures_carries before (· = entry.id)).grows now path.dropLast)) <| by
      rintro _ rfl
      exact ⟨rfl, .refl numbered⟩
  refine (making.bind _ fun leads directory => .named fun room ⟨isRoom, ⟨reached, _⟩, carries⟩ =>
    .of_works ?_).exactly (and_iff_left trivial)
  have still : room.At source.names entry := isHere.mono reached.subset
  have moved :
      ∃ row ∈ (room.moveEntry entry.id directory path.name modified).entries, row.id = entry.id :=
    ⟨_, (mem_entries_moveEntry isRoom.sound.coherent still.member).mpr (.inr rfl), rfl⟩
  refine .bind (fun _ tables => tables = room.moveEntry entry.id directory path.name modified)
    (.update ?_) fun _ => ((requireRow_works ?_ _).promising ?_).weaken (fun _ same => same)
      (fun _ _ moving => ⟨trivial, moving⟩) fun _ _ absurd => absurd.elim
  · rintro _ rfl
    simp only [here.isFile]
    rfl
  · rintro _ rfl
    exact moved
  · rintro result tables ⟨isMoved, member, isEntry⟩
    exact ⟨leads, ⟨directory, room, isRoom, still, carries.kept entry.id rfl, isMoved⟩, member,
      isEntry⟩

/-- The file at a path is moved to another one exactly when it can be. -/
theorem moveTo_decides
    (now : Int)
    {sourceText targetText : String}
    {source : CleanPath}
    (isSource : CleanPath.ofText sourceText = .ok source)
    (isTarget : CleanPath.ofText targetText = .ok path)
    (time? : Option Int)
    (sound : before.Sound strict known)
    (numbered : before.Numbered)
    (here : before.FileAt source entry) :
    Decides setting gives (· = before) (moveTo now targetText sourceText time?)
      (Moves gives before entry path)
      (Put strict known (before.sights.set source none) path
        ((before.versionOf entry).moved (time?.getD now))) := by
  have coherent := sound.coherent
  have sourceProper : ¬source.isRoot = true := by
    intro isRoot
    have isHere := coherent.lookupAt?_eq_some_iff.mp here.found
    rw [(CleanPath.isRoot_iff source).mp isRoot] at isHere
    have isTop := coherent.isTop isHere.of_nil.1 isHere.of_nil.2
    exact absurd (here.isFile.symm.trans isTop.isDirectory) Bool.false_ne_true
  have moving :
      Decides setting gives (· = before) (moveTo now targetText sourceText time?)
        (Moves gives before entry path)
        (Moving strict known before source path entry (time?.getD now)) := by
    refine .known _ _ (clean_known isTarget) (.known _ _ (clean_known isSource) ?_)
    refine .known _ _ (requireEntry_known here.found) (.known _ _ (entryAt?_known path) ?_)
    simp only [throw_bind]
    by_cases refused :
        (source.isRoot || path.isRoot || (before.lookupAt? path).isSome) = true
    · rw [if_pos refused]
      refine .throw fun moves => ?_
      simp [sourceProper, moves.proper, moves.vacant] at refused
    have apart : ¬(entry.isDirectory && isBelow path source) = true := by
      simp [here.isFile]
    rw [if_neg refused, if_neg apart]
    simp only [Bool.or_eq_true, not_or, Option.isSome_iff_ne_none, ne_eq, not_not] at refused
    obtain ⟨⟨-, proper⟩, vacant⟩ := refused
    exact (Decides.locked fun _ _ _ =>
      moveIntoRoom_decides now (time?.getD now) sound numbered here proper vacant).exactly
        ⟨fun ⟨given, leads⟩ => ⟨given, proper, vacant, leads⟩,
          fun moves => ⟨moves.given, moves.leads⟩⟩
  refine (moving.knowing (@moveTo_keeps setting strict known now targetText sourceText time?)
    ?_).weaken (fun _ same => same) fun _ _ ⟨moving, sound⟩ => moving.put coherent here sound
  rintro _ rfl
  exact sound

/-- Where there is nothing there is nothing to move. -/
theorem moveTo_missing
    (now : Int)
    {sourceText : String}
    {source : CleanPath}
    (isSource : CleanPath.ofText sourceText = .ok source)
    (targetText : String)
    (time? : Option Int)
    (missing : before.lookupAt? source = none) :
    Works setting (· = before) (moveTo now targetText sourceText time?) (fun _ _ => False)
      fun _ _ => True := by
  refine .bind _ (clean_keeps targetText).loosely fun target => ?_
  refine .known _ (clean_known isSource).loosely ?_
  exact .bind _ (requireEntry_missing missing) fun _ =>
    .assuming False (fun _ absurd => absurd) fun absurd => absurd.elim

end Txn

end VersionStore
