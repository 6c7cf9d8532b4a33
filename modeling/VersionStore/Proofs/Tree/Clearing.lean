import VersionStore.Proofs.Action.Deciding
import VersionStore.Proofs.Tree.Sights

namespace VersionStore

/-!
# Room for files

There is room for a file at a path when nothing is there but a file that may be replaced, and
when no file is in the way to it. What is seen once room was made is nothing at the path, and
directories that lead to it.
-/

namespace Tables

variable {before after : Tables} {entry : Entry} {strict : Prop} {known : List Entry}

/-- A file that is taken away holds nothing. -/
theorem Coherent.sameBut_taken
    (coherent : before.Coherent)
    (member : entry ∈ before.entries)
    (isFile : entry.isDirectory = false)
    (beside : Beside (· = entry.id) before after)
    (taken : ∀ other ∈ after.entries, other.isDeleted = false → other.id ≠ entry.id) :
    SameBut entry.id before after where
  toBeside := beside
  proper := coherent.id_ne_rootId (coherent.agrees member) isFile
  bare _ otherMember live :=
    coherent.directoryId_ne (coherent.agrees member) isFile otherMember live
  bareAfter _ otherMember live :=
    coherent.directoryId_ne (coherent.agrees member) isFile
      ((beside.rows _ (taken _ otherMember live)).mp otherMember) live

/-- An entry that is added holds nothing yet. -/
theorem Coherent.sameBut_added
    (coherent : before.Coherent)
    (beside : Beside (· = before.lastEntryId + 1) before after)
    (held :
      ∀ other ∈ after.entries,
        other.id = before.lastEntryId + 1 →
        other.directoryId ≤ before.lastEntryId) :
    SameBut (before.lastEntryId + 1) before after where
  toBeside := beside
  proper := by
    have given := coherent.rootId_le
    omega
  bare other member _ := by
    have given := coherent.directoryId_le other member
    omega
  bareAfter other member _ := by
    by_cases isNew : other.id = before.lastEntryId + 1
    · have given := held other member isNew
      omega
    · have given := coherent.directoryId_le other ((beside.rows other isNew).mp member)
      omega

/-- Nothing has the next id yet. -/
theorem Coherent.id_ne_next
    (coherent : before.Coherent)
    {other : Entry}
    (member : other ∈ before.entries) :
    other.id ≠ before.lastEntryId + 1 := by
  have given := coherent.id_le other member
  omega

/-- A directory that is added is seen at the end of its names. -/
theorem Added.sights
    {directory : Entry}
    {path : String}
    (added : Added before after directory path)
    (coherent : before.Coherent)
    (coherentAfter : after.Coherent)
    (isDirectory : directory.isDirectory = true)
    (held : directory.directoryId ≤ before.lastEntryId)
    {names : List Name}
    (here : after.At names { directory with id := before.lastEntryId + 1 }) :
    after.sights = before.sights.set ⟨names⟩ (some .directory) := by
  have beside : Beside (· = before.lastEntryId + 1) before after := by
    refine ⟨fun other different => ?_, fun id _ => ?_⟩
    · rw [added.mem_entries]
      refine or_iff_left ?_
      rintro rfl
      exact different rfl
    · unfold pieces
      rw [added.parts]
  have same := coherent.sameBut_added beside fun other member isNew => by
    rcases added.mem_entries.mp member with old | rfl
    · exact absurd isNew (coherent.id_ne_next old)
    · exact held
  rw [@SameBut.sights_added _ _ ⟨names⟩ _ same coherent coherentAfter here
    fun other member => coherent.id_ne_next member]
  exact congrArg (fun sight => before.sights.set ⟨names⟩ (some sight))
    (sightOf_directory isDirectory)

/-- A file is at a path. -/
structure FileAt (tables : Tables) (path : CleanPath) (entry : Entry) : Prop where
  found : tables.lookupAt? path = some entry
  isFile : entry.isDirectory = false

/-- There is room at a path, or a file that may be replaced there, and no file is in the way. -/
structure Accepts (gives : Int → Bool → Bool) (tables : Tables) (path : CleanPath) : Prop where
  proper : ¬path.isRoot = true
  replaceable :
    ∀ entry,
      tables.lookupAt? path = some entry →
      entry.isDirectory = false ∧ entry.writable = true ∧ gives entry.id true = true
  leads : tables.sights.Leads path.dropLast

/-- Locks on other files are no matter. -/
theorem Accepts.giving
    {tables : Tables}
    {path : CleanPath}
    {gives gives' : Int → Bool → Bool}
    (accepts : tables.Accepts gives path)
    (same : ∀ entry, tables.lookupAt? path = some entry → gives' entry.id = gives entry.id) :
    tables.Accepts gives' path where
  proper := accepts.proper
  replaceable entry found := by
    rw [same entry found]
    exact accepts.replaceable entry found
  leads := accepts.leads

end Tables

namespace Txn

open Tables VersionStore.Action

variable
  {setting : Setting}
  {gives : Int → Bool → Bool}
  {strict : Prop}
  {known : List Entry}
  {before : Tables}
  {entry : Entry}

/-! ## Looking things up -/

/-- A text that has a clean form is cleaned. -/
theorem clean_known
    {text : String}
    {path : CleanPath}
    (isPath : CleanPath.ofText text = .ok path) :
    Works setting (· = before) (clean text) (fun result tables => result = path ∧ tables = before)
      fun _ _ => False := by
  rw [clean, isPath]
  exact .ofExcept fun _ same => ⟨rfl, same⟩

/-- What lies at a path is looked up. -/
theorem entryAt?_known
    (path : CleanPath) :
    Works setting (· = before) (entryAt? path)
      (fun found tables => found = before.lookupAt? path ∧ tables = before)
      fun _ _ => False := by
  refine .entryAt? ?_
  rintro _ rfl
  exact ⟨rfl, rfl⟩

/-- What has to lie at a path is looked up where something does. -/
theorem requireEntry_known
    {path : CleanPath}
    (found : before.lookupAt? path = some entry) :
    Works setting (· = before) (requireEntry path)
      (fun result tables => result = entry ∧ tables = before)
      fun _ _ => False := by
  refine .known _ (entryAt?_known path) ?_
  rw [found]
  exact .pure fun _ same => ⟨rfl, same⟩

/-- What has to lie at a path is missed where nothing does. -/
theorem requireEntry_missing
    {path : CleanPath}
    (missing : before.lookupAt? path = none) :
    Works setting (· = before) (requireEntry path) (fun _ _ => False) fun _ _ => True := by
  refine .known _ (entryAt?_known path).loosely ?_
  rw [missing]
  exact .throw fun _ _ => trivial

/-- A file that has to be at a path is looked up where there is one. -/
theorem requireFile_known
    {path : CleanPath}
    (here : before.FileAt path entry) :
    Works setting (· = before) (requireFile path)
      (fun result tables => result = entry ∧ tables = before)
      fun _ _ => False := by
  refine .known _ (requireEntry_known here.found) ?_
  simp only [throw_bind, here.isFile]
  exact .pure fun _ same => ⟨rfl, same⟩

/-! ## Files that go -/

/-- A change of rows that are counted before. -/
theorem counted_works
    (change : Tables → Tables)
    (id : Int) :
    Works setting (· = before)
      (do
        let count ← query fun tables => tables.entryCount id
        Action.update change
        return count)
      (fun count tables => count = before.entryCount id ∧ tables = change before)
      fun _ _ => False := by
  refine .bind (fun count tables => count = before.entryCount id ∧ tables = before)
    (.query ?_) fun count => ?_
  · rintro _ rfl
    exact ⟨rfl, rfl⟩
  refine .bind (fun _ tables => count = before.entryCount id ∧ tables = change before)
    (.update ?_) fun _ => .pure fun _ after => after
  rintro _ ⟨isCount, rfl⟩
  exact ⟨isCount, rfl⟩

/-- A file that is there is deleted exactly when it can be locked, and nothing else is. -/
theorem deleteExisting_decides
    (now : Int)
    (member : entry ∈ before.entries)
    (isFile : entry.isDirectory = false) :
    Decides setting gives (· = before) (deleteExisting now entry)
      (gives entry.id true = true)
      fun gone tables =>
        gone = true ∧ Beside (· = entry.id) before tables ∧
          tables.lastEntryId = before.lastEntryId := by
  have some_ : 0 < before.entryCount entry.id :=
    List.countP_pos_iff.mpr ⟨entry, member, beq_self_eq_true _⟩
  have counting (count : Nat) (tables : Tables)
      (after :
        0 < count ∧ Beside (· = entry.id) before tables ∧
          tables.lastEntryId = before.lastEntryId) :
      True ∧ decide (count > 0) = true ∧ Beside (· = entry.id) before tables ∧
        tables.lastEntryId = before.lastEntryId :=
    ⟨trivial, decide_eq_true after.1, after.2⟩
  refine Decides.exactly (.locked fun _ _ _ => .of_works (.get fun store inScope => ?_))
    (and_iff_left trivial)
  simp only [inScope.history]
  refine .ite (fun _ => ?_) fun _ => ?_
  · refine .bind _ ?_ fun count => .pure (counting count)
    refine ((counted_works (fun tables => tables.trashEntry entry.id now) entry.id).weaken
      (fun _ same => same.1) ?_ fun _ _ absurd => absurd.elim)
    rintro _ _ ⟨rfl, rfl⟩
    exact ⟨some_, beside_modifyEntry _ _ fun _ => rfl, rfl⟩
  · refine .bind _ ?_ fun count => .pure (counting count)
    refine ((counted_works _ entry.id).weaken (fun _ same => same.1) ?_
      fun _ _ absurd => absurd.elim)
    rintro _ _ ⟨rfl, rfl⟩
    rw [if_neg (by simp [isFile])]
    exact ⟨some_, beside_removeFile _ _, rfl⟩

/-- Nothing is at a path, and other files are where they were and as they were. -/
structure Without (strict : Prop) (known : List Entry) (before : Tables) (path : CleanPath)
    (after : Tables) : Prop where
  sound : after.Sound strict known
  seen : after.sights = before.sights.set path none
  stays :
    ∀ other entry,
      other ≠ path →
      before.FileAt other entry →
      after.FileAt other entry ∧ after.versionOf entry = before.versionOf entry

/-- Where nothing is nothing needs to go. -/
theorem Without.refl
    {path : CleanPath}
    (sound : before.Sound strict known)
    (missing : before.lookupAt? path = none) :
    Without strict known before path before where
  sound := sound
  seen := by
    refine (Sights.set_eq_self ?_).symm
    rw [sights, missing]
    rfl
  stays _ _ _ here := ⟨here, rfl⟩

/-- A file that is taken away leaves its path without it. -/
theorem Without.of_taken
    {path : CleanPath}
    {after : Tables}
    (same : SameBut entry.id before after)
    (sound : before.Sound strict known)
    (soundAfter : after.Sound strict known)
    (here : before.At path.names entry)
    (taken : ∀ other ∈ after.entries, other.isDeleted = false → other.id ≠ entry.id) :
    Without strict known before path after where
  sound := soundAfter
  seen := same.sights_taken sound.coherent soundAfter.coherent here taken
  stays other file elsewhere lies := by
    have there := sound.coherent.lookupAt?_eq_some_iff.mp lies.found
    have different : file.id ≠ entry.id := fun isEntry =>
      elsewhere (SameBut.path_unique sound.coherent here there isEntry)
    refine ⟨⟨soundAfter.coherent.lookupAt?_eq_some_iff.mpr (same.at_of_ne there different),
      lies.isFile⟩, ?_⟩
    rw [versionOf, versionOf, same.pieces file.id different]

/-- Nothing is left where a file was deleted. -/
theorem deleteExisting_seen
    (now : Int)
    (sound : before.Sound strict known)
    {path : CleanPath}
    (here : before.FileAt path entry) :
    Decides setting gives (· = before) (deleteExisting now entry)
      (gives entry.id true = true)
      fun gone tables => gone = true ∧ Without strict known before path tables := by
  have coherent := sound.coherent
  have isFile := here.isFile
  replace here := coherent.lookupAt?_eq_some_iff.mp here.found
  refine ((deleteExisting_decides now here.member isFile).knowing
    (@deleteExisting_works setting strict known entry now before) ?_).weaken
      (fun _ same => same) ?_
  · rintro _ rfl
    refine ⟨rfl, sound, coherent.agrees here.member, ?_⟩
    rw [Deletable, isFile]
    trivial
  · rintro gone tables ⟨⟨isGone, beside, -⟩, cleared⟩
    have taken other (member : other ∈ tables.entries) (live : other.isDeleted = false) :=
      (cleared.live other member live).2
    exact ⟨isGone, .of_taken (coherent.sameBut_taken here.member isFile beside taken) sound
      cleared.sound here taken⟩

/-- The file at a path is deleted exactly when it can be locked. -/
theorem delete_decides
    (now : Int)
    {text : String}
    {path : CleanPath}
    (isPath : CleanPath.ofText text = .ok path)
    (sound : before.Sound strict known)
    (here : before.FileAt path entry) :
    Decides setting gives (· = before) (delete now text)
      (gives entry.id true = true)
      fun gone tables => gone = true ∧ Without strict known before path tables := by
  have coherent := sound.coherent
  have member := (coherent.lookupAt?_eq_some_iff.mp here.found).member
  have proper := coherent.id_ne_rootId (coherent.agrees member) here.isFile
  have found :
      Works setting (· = before) (stat text)
        (fun found tables => found = some entry ∧ tables = before)
        fun _ _ => False := by
    refine .known _ (clean_known isPath) ((entryAt?_known path).promising ?_)
    rintro _ _ ⟨rfl, same⟩
    exact ⟨here.found, same⟩
  refine .known _ _ found ?_
  dsimp only
  rw [deleteEntry, if_neg proper]
  refine .known (before.isEmptyDirectory entry.id) before (.query ?_) ?_
  · rintro _ rfl
    exact ⟨rfl, rfl⟩
  rw [here.isFile, Bool.false_and]
  exact deleteExisting_seen now sound here

/-! ## Directories that lead to a path -/

/-- A directory at the end of some names, to which others lead. Files that were there before stay
as they were. -/
structure Led (strict : Prop) (known : List Entry) (before : Tables) (names : List Name)
    (id : Int) (tables : Tables) : Prop
    extends Reached strict known before names id tables where
  seen : tables.sights = before.sights.lead ⟨names⟩
  leads : before.sights.Leads ⟨names⟩

namespace Led

variable {tables : Tables} {names : List Name} {name : Name} {id : Int}

/-- What is seen one name further is what was seen there. -/
theorem seen_next
    (led : Led strict known before names id tables)
    (name : Name) :
    tables.sights ⟨names ++ [name]⟩ = before.sights ⟨names ++ [name]⟩ := by
  rw [led.seen, Sights.lead_elsewhere (Sights.not_prefix_of_concat names name)]

/-- What is found one name further is seen there. -/
theorem seen_found
    (led : Led strict known before names id tables)
    (found : tables.lookupIn? id name.text = some entry) :
    before.sights ⟨names ++ [name]⟩ = some (tables.sightOf entry) := by
  have coherent := led.sound.coherent
  obtain ⟨holder, here, same, -⟩ := led.here
  rw [← same] at found
  have there := (coherent.lookupIn?_eq_some_iff here).mp found
  rw [← led.seen_next name, coherent.sights_of_at there]

/-- Where nothing is found one name further nothing is seen. -/
theorem seen_missing
    (led : Led strict known before names id tables)
    (missing : tables.lookupIn? id name.text = none) :
    before.sights ⟨names ++ [name]⟩ = none := by
  have coherent := led.sound.coherent
  obtain ⟨holder, here, same, -⟩ := led.here
  rw [← led.seen_next name]
  refine coherent.sights_eq_none fun other there => ?_
  have found := (coherent.lookupIn?_eq_some_iff here).mpr there
  rw [same, missing] at found
  cases found

/-- A directory that is there is one further on the way. -/
theorem into
    (led : Led strict known before names id tables)
    (isCoherent : before.Coherent)
    (found : tables.lookupIn? id name.text = some entry)
    (isDirectory : entry.isDirectory = true) :
    Led strict known before (names ++ [name]) entry.id tables := by
  have seen := led.seen_found found
  rw [sightOf_directory isDirectory] at seen
  refine ⟨led.toReached.into isCoherent found isDirectory, ?_, ?_⟩
  · rw [Sights.lead_concat, ← led.seen, Sights.set_eq_self]
    rw [led.seen_next, seen]
  · refine Sights.leads_concat_iff.mpr ⟨led.leads, fun version isFile => ?_⟩
    rw [seen] at isFile
    cases isFile

/-- A directory that is made is one further on the way. -/
theorem made
    (led : Led strict known before names id tables)
    (missing : tables.lookupIn? id name.text = none)
    {now : Int}
    {after : Tables}
    (added :
      Added tables after (freshEntry id name.text true now)
        (CleanPath.joinNames (names ++ [name]))) :
    Led strict known before (names ++ [name]) (tables.lastEntryId + 1) after := by
  have coherent := led.sound.coherent
  have reached := led.toReached.made missing added
  have coherentAfter := reached.sound.coherent
  obtain ⟨holder, here, same, -⟩ := led.here
  obtain ⟨new, newHere, isNew, -⟩ := reached.here
  have isFresh := coherentAfter.entry_eq newHere.member (added.mem_entries.mpr (.inr rfl)) isNew
  have held : id ≤ tables.lastEntryId := by
    rw [← same]
    exact coherent.id_le holder here.member
  rw [isFresh] at newHere
  refine ⟨reached, ?_, ?_⟩
  · rw [Sights.lead_concat, ← led.seen]
    exact added.sights coherent coherentAfter rfl held newHere
  · refine Sights.leads_concat_iff.mpr ⟨led.leads, fun version isFile => ?_⟩
    rw [led.seen_missing missing] at isFile
    cases isFile

/-- A file is in the way of what is to lie behind it. -/
theorem not_leads
    (led : Led strict known before names id tables)
    (found : tables.lookupIn? id name.text = some entry)
    (isFile : entry.isDirectory = false)
    (rest : List Name) :
    ¬before.sights.Leads ⟨names ++ [name] ++ rest⟩ := by
  intro leads
  have seen := led.seen_found found
  rw [sightOf_file isFile] at seen
  exact leads _ _ (List.prefix_append _ _) seen

end Led

/-- What is seen on the way follows from what is seen to begin with. -/
theorem Led.advances
    (isCoherent : before.Coherent)
    (now : Int)
    (names : List Name) :
    Advances now names (Led strict known before) fun _ _ => ¬before.sights.Leads ⟨names⟩ where
  coherent led := led.sound.coherent
  into led found isDirectory := led.into isCoherent found isDirectory
  made led missing added := led.made missing added
  blocked whole led found isFile := whole ▸ led.not_leads found isFile _

/-- The directories along a path are made exactly when no file is in the way. -/
theorem makeDirectoriesAt_leads
    (now : Int)
    (sound : before.Sound strict known)
    (path : CleanPath) :
    Works setting (· = before)
      (makeDirectoriesAt now path)
      (Led strict known before path.names)
      fun _ _ => ¬before.sights.Leads path := by
  refine (Led.advances sound.coherent now path.names).makeDirectoriesAt ?_
  rintro tables rfl
  obtain ⟨top, member, isTop⟩ := sound.coherent.top
  have here : tables.At [] top := .top member isTop.id
  have seen := @Coherent.sights_of_at _ ⟨[]⟩ _ sound.coherent here
  rw [sightOf_directory isTop.isDirectory] at seen
  have isRoot : ∀ other : CleanPath, other.names <+: [] → other = ⟨[]⟩ :=
    fun _ along => congrArg CleanPath.mk (List.prefix_nil.mp along)
  refine ⟨.top sound, ?_, ?_⟩
  · funext other
    by_cases along : other.names <+: []
    · rw [Sights.lead_along along, isRoot other along, seen]
    · rw [Sights.lead_elsewhere along]
  · intro other version along isFile
    rw [isRoot other along, seen] at isFile
    cases isFile

/-! ## Room at a path -/

/-- Room that was made at a path: a directory, in which nothing has the name. -/
structure Room (strict : Prop) (known : List Entry) (before : Tables) (path : CleanPath)
    (id : Int) (tables : Tables) : Prop where
  proper : ¬path.isRoot = true
  sound : tables.Sound strict known
  vacant : tables.Vacant id path.name
  here : ∃ holder, tables.At path.dropLast.names holder ∧ holder.id = id
  seen : tables.sights = (before.sights.set path none).lead path.dropLast

variable {path : CleanPath}

/-- Where nothing is room is made exactly when no file is in the way. -/
theorem makeRoom_decides
    (now : Int)
    (sound : before.Sound strict known)
    (proper : ¬path.isRoot = true)
    (missing : before.lookupAt? path = none) :
    Decides setting gives (· = before) (makeDirectoriesAt now path.dropLast)
      (before.sights.Leads path.dropLast)
      (Room strict known before path) := by
  refine .of_works (((makeDirectoriesAt_leads now sound path.dropLast).both
    (makeRoom_works now proper sound missing)).weaken ?_ ?_ ?_)
  · rintro _ rfl
    exact ⟨rfl, rfl⟩
  · rintro id tables ⟨led, -, vacant⟩
    obtain ⟨holder, here, same, -⟩ := led.here
    refine ⟨led.leads, proper, led.sound, vacant, ⟨holder, here, same⟩, ?_⟩
    have nothing : before.sights path = none := by
      rw [sights, missing]
      rfl
    rw [Sights.set_eq_self nothing]
    exact led.seen
  · exact fun _ _ failed => failed.1

/-- Room is made for a file exactly where one is accepted. -/
theorem clearForWrite_decides
    (now : Int)
    (sound : before.Sound strict known) :
    Decides setting gives (· = before) (clearForWrite now path)
      (before.Accepts gives path)
      (Room strict known before path) := by
  unfold clearForWrite
  simp only [throw_bind]
  by_cases proper : path.isRoot = true
  · rw [if_pos proper]
    exact .throw fun accepts => accepts.proper proper
  rw [if_neg proper]
  refine .known _ _ (entryAt?_known path) ?_
  cases found : before.lookupAt? path with
  | none =>
      refine (makeRoom_decides now sound proper found).exactly ⟨fun leads => ?_, (·.leads)⟩
      refine ⟨proper, fun entry isFound => ?_, leads⟩
      rw [found] at isFound
      cases isFound
  | some entry =>
      dsimp only
      by_cases refused : (entry.isDirectory || !entry.writable) = true
      · rw [if_pos refused]
        refine .throw fun accepts => ?_
        obtain ⟨isFile, writable, -⟩ := accepts.replaceable entry found
        simp [isFile, writable] at refused
      rw [if_neg refused]
      simp only [Bool.or_eq_true, Bool.not_eq_true', not_or, Bool.not_eq_true,
        Bool.not_eq_false] at refused
      obtain ⟨isFile, writable⟩ := refused
      have making (gone : Bool) :
          Decides setting gives
            (fun tables => gone = true ∧ Without strict known before path tables)
            (if (!gone) = true then throw (Fault.invalidDestination path.text)
              else makeDirectoriesAt now path.dropLast)
            (before.sights.Leads path.dropLast)
            (Room strict known before path) := by
        refine .assuming (gone = true) (fun _ holds => holds.1) ?_
        rintro rfl
        rw [if_neg (by simp)]
        refine .named fun left ⟨_, leftSound, seen, _⟩ => ?_
        have missing : left.lookupAt? path = none := by
          have nothing : left.sights path = none := by
            rw [seen, Sights.set_self]
          exact Option.map_eq_none_iff.mp nothing
        refine ((makeRoom_decides now leftSound proper missing).exactly ?_).weaken
          (fun _ same => same) ?_
        · rw [seen]
          exact Sights.leads_set_iff proper
        · rintro id tables room
          refine { room with seen := ?_ }
          rw [room.seen, seen, Sights.set_eq_self Sights.set_self]
      refine (Decides.bind _ (deleteExisting_seen now sound ⟨found, isFile⟩) fun _ gone =>
        making gone).exactly ⟨fun able => ⟨proper, ?_, able.2⟩, fun accepts => ⟨?_, accepts.leads⟩⟩
      · intro other isFound
        cases found.symm.trans isFound
        exact ⟨isFile, writable, able.1⟩
      · exact (accepts.replaceable entry found).2.2

end Txn

end VersionStore
