import VersionStore.Proofs.Content.Ways
import VersionStore.Proofs.Stream.Extending

namespace VersionStore

/-!
# Bytes that are added to a file

What adding bytes to the file at a path comes to: the bytes that were read there are followed by
the new ones, the row of the file says so, and everything else is seen as before. A file that is not
there is begun, and then it is seen as if all its bytes had been stored at once.
-/

open Tables VersionStore.Action

/-- Only the length, the time and the checksum of a row are other ones. -/
def Entry.Rewritten (row after : Entry) : Prop :=
  ∃ length lastModified checksum, after = { row with length, lastModified, checksum }

namespace Sights

/-- What was set before is no matter. -/
theorem set_set
    {sights : Sights}
    {path : CleanPath}
    {sight? sight?' : Option Sight} :
    (sights.set path sight?).set path sight?' = sights.set path sight?' := by
  funext other
  by_cases isPath : other = path
  · rw [isPath, set_self, set_self]
  · rw [set_of_ne isPath, set_of_ne isPath, set_of_ne isPath]

end Sights

namespace Tables

variable
  {strict : Prop}
  {known : List Entry}
  {before start after : Tables}
  {path : CleanPath}
  {row : Entry}

/-- No file is at the root. -/
theorem FileAt.proper
    (here : start.FileAt path row)
    (coherent : start.Coherent) :
    ¬path.isRoot = true := by
  intro isRoot
  have isHere := coherent.lookupAt?_eq_some_iff.mp here.found
  rw [(CleanPath.isRoot_iff path).mp isRoot] at isHere
  have isTop := coherent.isTop isHere.of_nil.1 isHere.of_nil.2
  exact absurd (here.isFile.symm.trans isTop.isDirectory) Bool.false_ne_true

/-- A file whose row is rewritten is where it was, and everything else is seen as before. -/
theorem FileAt.rewritten
    (here : start.FileAt path row)
    (coherent : start.Coherent)
    (coherentAfter : after.Coherent)
    (beside : Beside (· = row.id) start after)
    {next : Entry}
    (member : next ∈ after.entries)
    (rewritten : row.Rewritten next) :
    after.FileAt path next ∧
      after.sights = start.sights.set path (some (.file (after.versionOf next))) := by
  obtain ⟨length, lastModified, checksum, rfl⟩ := rewritten
  have isFile := here.isFile
  have isHere := coherent.lookupAt?_eq_some_iff.mp here.found
  have agrees := coherent.agrees isHere.member
  have same : SameBut row.id start after :=
    ⟨beside, coherent.id_ne_rootId agrees isFile,
      fun _ otherMember live => coherent.directoryId_ne agrees isFile otherMember live,
      fun _ otherMember live =>
        coherentAfter.directoryId_ne (coherentAfter.agrees member) isFile otherMember live⟩
  obtain ⟨names, name, whole, -⟩ := Txn.exists_names_of_not_isRoot (here.proper coherent)
  have there := isHere
  rw [whole] at there
  obtain ⟨holder, holderHere, rowMember, -, live, held, called⟩ := there.of_concat
  have other : holder.id ≠ row.id := by
    rw [← held]
    exact same.bare row rowMember live
  have placed : after.At path.names { row with length, lastModified, checksum } := by
    rw [whole]
    exact .child (same.at_of_ne holderHere other) member same.proper live held called
  refine ⟨⟨coherentAfter.lookupAt?_eq_some_iff.mpr placed, isFile⟩, ?_⟩
  rw [same.sights_moved coherent coherentAfter isHere rfl placed rfl, Sights.set_set]
  exact congrArg (fun sight => start.sights.set path (some sight)) (sightOf_file isFile)

/-- The bytes that are read at a path, if a file is there. -/
def bytesAt (tables : Tables) (path : CleanPath) : ByteArray :=
  match tables.lookupAt? path with
  | some entry => bytesOf (tables.partsOf entry.id)
  | none => .empty

/-- The bytes at a path are those of the row there. -/
theorem bytesAt_eq
    (found : start.lookupAt? path = some row) :
    start.bytesAt path = bytesOf (start.partsOf row.id) := by
  rw [bytesAt, found]

/-- The parts of the file at a path, if one is there, lie in a row. -/
def LaidAt (tables : Tables) (path : CleanPath) : Prop :=
  ∀ entry, tables.lookupAt? path = some entry → LaidFrom 0 (tables.pieces entry.id)

/-- Bytes were added to the file at a path at some time, which has a row then. The length in it is
right if the parts of the file were in a row before. -/
structure Appended (before : Tables) (path : CleanPath) (data : ByteArray) (time : Int)
    (row : Entry) (after : Tables) : Prop where
  here : after.FileAt path row
  bytes : after.bytesAt path = before.bytesAt path ++ data
  length : before.LaidAt path → row.length = (before.bytesAt path ++ data).size
  checksum : row.checksum = some (Checksum.ofData (before.bytesAt path ++ data))
  lastModified : row.lastModified = time
  /-- Nothing else is recorded of a file that was there before. -/
  rewritten : ∀ old, before.lookupAt? path = some old → old.Rewritten row
  /-- A file that was not there is as if its bytes had been stored at once. -/
  begun : before.lookupAt? path = none → after.versionOf row = .ofBytes time data
  seen : after.sights = before.sights.put path (after.versionOf row)

/-- A file at a path is ready to be added to: it was there before and nothing changed, or it was
just begun. -/
structure Opened (strict : Prop) (known : List Entry) (before : Tables) (path : CleanPath)
    (row : Entry) (tables : Tables) : Prop where
  sound : tables.Sound strict known
  here : tables.FileAt path row
  seen : tables.sights = before.sights.put path (tables.versionOf row)
  origin :
    before.lookupAt? path = some row ∧ tables = before ∨
      before.lookupAt? path = none ∧ row.writable = true ∧ tables.pieces row.id = []

/-- A file that is there is ready to be added to. -/
theorem FileAt.opened
    (here : before.FileAt path row)
    (sound : before.Sound strict known) :
    Opened strict known before path row before := by
  have coherent := sound.coherent
  have seen : before.sights path = some (.file (before.versionOf row)) := by
    rw [sights, here.found]
    exact congrArg some (sightOf_file here.isFile)
  refine ⟨sound, here, ?_, .inl ⟨here.found, rfl⟩⟩
  rw [Sights.put, (coherent.stands_above (here.proper coherent) here.found).lead_eq,
    Sights.set_eq_self seen]

/-- A file that was just begun is ready to be added to. -/
theorem Made.opened
    {room : Tables}
    {directory : Int}
    {now : Int}
    (made :
      Made room directory path.name (start.versionOf (room.nextFile directory path.name now))
        (room.nextFile directory path.name now) start)
    (missing : before.lookupAt? path = none)
    (isRoom : Txn.Room strict known before path directory room)
    (sound : start.Sound strict known)
    (none_ : start.pieces (room.nextFile directory path.name now).id = []) :
    Opened strict known before path (room.nextFile directory path.name now) start := by
  have put := isRoom.made made sound
  refine ⟨sound, ⟨put.found, rfl⟩, put.seen, .inr ⟨missing, rfl, none_⟩⟩

/-- What is read of a file that is ready is what was read at its path. -/
theorem Opened.bytesAt_eq
    (opened : Opened strict known before path row start) :
    bytesOf (start.partsOf row.id) = before.bytesAt path := by
  rcases opened.origin with ⟨found, rfl⟩ | ⟨missing, -, none_⟩
  · exact (Tables.bytesAt_eq found).symm
  · rw [bytesAt, missing, partsOf_eq_pieces (laidFrom_of_eq_nil none_), none_]
    rfl

/-- Bytes are added to a file that was ready when it is extended by them. -/
theorem Opened.appended
    (opened : Opened strict known before path row start)
    {data : ByteArray}
    {gap now : Int}
    (laid : LaidFrom 0 (start.pieces row.id) → gap = 0)
    (lengthened :
      Lengthened start strict known (row.closed gap now (before.bytesAt path ++ data))
        (before.bytesAt path ++ data) after) :
    Appended before path data now (row.closed gap now (before.bytesAt path ++ data)) after := by
  have rewritten : row.Rewritten (row.closed gap now (before.bytesAt path ++ data)) :=
    ⟨_, _, _, rfl⟩
  obtain ⟨here, seen⟩ :=
    opened.here.rewritten opened.sound.coherent lengthened.sound.coherent lengthened.toBeside
      lengthened.member rewritten
  have bytes := lengthened.bytes
  refine ⟨here, (Tables.bytesAt_eq here.found).trans bytes, fun isLaid => ?_, rfl, rfl,
    fun old found => ?_, fun missing => ?_, ?_⟩
  · have isFirst : gap = 0 := laid <| by
      rcases opened.origin with ⟨found, rfl⟩ | ⟨-, -, none_⟩
      · exact isLaid row found
      · exact laidFrom_of_eq_nil none_
    rw [isFirst]
    exact Int.zero_add _
  · rcases opened.origin with ⟨isOld, -⟩ | ⟨missing, -⟩
    · cases found.symm.trans isOld
      exact rewritten
    · cases found.symm.trans missing
  · rcases opened.origin with ⟨isOld, -⟩ | ⟨-, writable, none_⟩
    · cases missing.symm.trans isOld
    have isLaid : LaidFrom 0 (start.pieces row.id) := laidFrom_of_eq_nil none_
    have noBytes : before.bytesAt path = .empty := by
      rw [bytesAt, missing]
    have inOrder : after.partsOf row.id = after.pieces row.id :=
      lengthened.inOrder (partsOf_eq_pieces isLaid)
    have isBytes : bytesOf (after.pieces row.id) = before.bytesAt path ++ data := inOrder ▸ bytes
    change
      (⟨row.writable, now, gap + (before.bytesAt path ++ data).size,
        some (Checksum.ofData (before.bytesAt path ++ data)), bytesOf (after.pieces row.id)⟩ :
          Version) = _
    rw [writable, laid isLaid, isBytes, noBytes, ByteArray.empty_append, Int.zero_add]
    rfl
  · rw [seen, opened.seen, Sights.put, Sights.set_set]
    rfl

/-- The time of a file that was added to is set. -/
theorem Appended.stamped
    {data : ByteArray}
    {now : Int}
    (appended : Appended before path data now row after)
    (coherent : after.Coherent)
    (time : Int)
    (coherentAfter : (after.setLastModified row.id time).Coherent) :
    Appended before path data time { row with lastModified := time }
      (after.setLastModified row.id time) := by
  have member : { row with lastModified := time } ∈ (after.setLastModified row.id time).entries :=
    List.mem_of_find?_eq_some (entry?_modifyEntry (fun _ => rfl)
      (coherent.entry?_eq_some_iff.mpr
        ⟨List.mem_of_find?_eq_some appended.here.found, rfl⟩))
  obtain ⟨here, seen⟩ :=
    appended.here.rewritten coherent coherentAfter (beside_modifyEntry after row.id fun _ => rfl)
      member ⟨_, _, _, rfl⟩
  refine ⟨here, ?_, appended.length, appended.checksum, rfl, fun old found => ?_,
    fun missing => ?_, ?_⟩
  · rw [Tables.bytesAt_eq here.found, ← appended.bytes, Tables.bytesAt_eq appended.here.found]
    rfl
  · obtain ⟨length, -, checksum, rfl⟩ := appended.rewritten old found
    exact ⟨length, time, checksum, rfl⟩
  · exact congrArg (fun version : Version => { version with lastModified := time })
      (appended.begun missing)
  · rw [seen, appended.seen, Sights.put, Sights.set_set]
    rfl

end Tables

/-! ## The time of a file -/

/-- The time of what is at a path is set. -/
theorem Txn.setLastModified_works
    {setting : Setting}
    {before : Tables}
    {text : String}
    {path : CleanPath}
    {row : Entry}
    (isPath : CleanPath.ofText text = .ok path)
    (found : before.lookupAt? path = some row)
    (time : Int) :
    Works setting (· = before) (setLastModified text time)
      (fun _ tables => tables = before.setLastModified row.id time) fun _ _ => False := by
  unfold setLastModified changeAt stat
  rw [bind_assoc]
  refine .known _ (clean_known isPath) (.known _ (entryAt?_known path) ?_)
  rw [found]
  refine .bind (fun _ tables => tables = before.setLastModified row.id time) (.update ?_) fun _ =>
    .pure fun _ same => same
  rintro _ rfl
  rfl

/-- On a store that stands open the time of what is at a path is set. -/
theorem Store.Standing.setLastModified
    {store : Store}
    {strict : Prop}
    {known : List Entry}
    {text : String}
    {path : CleanPath}
    {row : Entry}
    (standing : store.Standing)
    (sound : store.tables.Sound strict known)
    (isPath : CleanPath.ofText text = .ok path)
    (found : store.tables.lookupAt? path = some row)
    (time : Int) :
    ∃ changed locks,
      (Store.setLastModified text time).runOn store =
          (.ok changed, store.holding (store.tables.setLastModified row.id time) locks) ∧
        locks.Sane ∧ (store.tables.setLastModified row.id time).Sound strict known := by
  have works :=
    (@Txn.setLastModified_works (store.setting fun _ => False) _ _ _ _ isPath found time).both
      (@Txn.setLastModified_keeps _ strict known text time)
  obtain ⟨changed, tables, locks, ran, sane, rfl, soundAfter⟩ :=
    standing.streams
      (works.weaken (fun _ before => before) (fun _ _ after => after) fun _ _ failed => failed.1)
      .idle ⟨rfl, sound⟩
  exact ⟨changed, locks, (standing.writing_eq _).trans ran, sane, soundAfter⟩

end VersionStore
