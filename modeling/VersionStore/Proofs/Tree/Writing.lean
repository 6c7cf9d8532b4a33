import VersionStore.Proofs.Tree.Move
import VersionStore.Proofs.Tree.Removing

namespace VersionStore

/-!
# Writing, copying and moving

A file is written to a path that was cleared for it: what was there is deleted, the
directories that lead to it are made, and its name is free in the last one. Moving an
entry needs the same room at the target, which must not lie below the entry.
-/

namespace Tables

variable {tables : Tables} {strict : Prop} {known : List Entry}

/-! ## What the tree does not consist of -/

/-- Adding copies of parts changes the parts only. -/
theorem addCopies_eq
    (fileId : Int)
    (copied : List Part)
    (tables : Tables) :
    ∃ parts lastPartId, tables.addCopies fileId copied = { tables with parts, lastPartId } := by
  induction copied generalizing tables with
  | nil =>
      exact ⟨_, _, rfl⟩
  | cons part rest inductionHypothesis =>
      obtain ⟨parts, lastPartId, isResult⟩ := inductionHypothesis
        { tables with
          parts := tables.parts ++ [{ part with id := tables.lastPartId + 1, fileId }]
          lastPartId := tables.lastPartId + 1 }
      exact ⟨parts, lastPartId, isResult⟩

/-- Setting links changes links and their targets only. -/
theorem setLinks_eq
    (source : Int)
    (paths : List String)
    (tables : Tables) :
    ∃ targets links, tables.setLinks source paths = { tables with targets, links } := by
  have shape :
      ∀ linked : Tables,
        ∃ targets links,
          paths.foldl (fun (linked : Tables) path => linked.addLink source path) linked =
            { linked with targets, links } := by
    induction paths with
    | nil =>
        exact fun linked => ⟨_, _, rfl⟩
    | cons path rest inductionHypothesis =>
        intro linked
        obtain ⟨targets, links, isResult⟩ := inductionHypothesis (linked.addLink source path)
        have one : ∃ targets links, linked.addLink source path = { linked with targets, links } := by
          unfold addLink internTarget
          cases linked.targetId? path <;> exact ⟨_, _, rfl⟩
        obtain ⟨firstTargets, firstLinks, isFirst⟩ := one
        rw [List.foldl_cons, isResult, isFirst]
        exact ⟨targets, links, rfl⟩
  obtain ⟨targets, links, isResult⟩ := shape (tables.removeLinks source)
  exact ⟨targets, links, isResult⟩

/-- Copying parts keeps sound tables sound. -/
theorem Sound.copyParts
    (sound : tables.Sound strict known)
    (target source : Int) :
    (tables.copyParts target source).Sound strict known := by
  obtain ⟨parts, lastPartId, isResult⟩ :=
    addCopies_eq target (tables.partsOf source) tables
  rw [Tables.copyParts, isResult]
  exact sound.congr rfl rfl rfl

/-- Setting links keeps sound tables sound. -/
theorem Sound.setLinks
    (sound : tables.Sound strict known)
    (source : Int)
    (paths : List String) :
    (tables.setLinks source paths).Sound strict known := by
  obtain ⟨targets, links, isResult⟩ := setLinks_eq source paths tables
  rw [isResult]
  exact sound.congr rfl rfl rfl

/-- Recording what a content came to keeps sound tables sound. -/
theorem Sound.recordContent
    (sound : tables.Sound strict known)
    (id length modified : Int)
    (checksum : Option Checksum) :
    (tables.recordContent id length modified checksum).Sound strict known :=
  sound.modifyEntry id (fun _ => rfl) fun _ => rfl

/-- There is room for a live entry of a name in a directory. -/
structure Vacant (tables : Tables) (id : Int) (name : String) : Prop where
  named : IsName name
  placed : ∃ holder, tables.IsLiveDirectory holder ∧ holder.id = id
  free :
    ∀ other ∈ tables.entries,
      other.isDeleted = false →
      other.directoryId = id →
      other.name ≠ name

/-- An entry is added where there is room for it. -/
theorem Sound.createFile
    (sound : tables.Sound strict known)
    {id : Int}
    {name : String}
    (vacant : tables.Vacant id name)
    (modified : Int) :
    (tables.createEntry id name false modified).2.Sound strict known := by
  obtain ⟨holder, isLive, same⟩ := vacant.placed
  obtain ⟨row, rowMember, ownsRow⟩ := sound.coherent.housed holder isLive
  have admits : tables.Admits (freshEntry id name false modified) :=
    ⟨vacant.named, ⟨row, rowMember, ownsRow.trans same⟩, fun _ => vacant.placed,
      fun _ => vacant.free⟩
  refine sound.added admits ?_ (added_addEntry rfl (Path.join row.path name))
  intro above aboveMember holds
  rw [sound.coherent.row_eq aboveMember rowMember (holds.trans (ownsRow.trans same).symm)]
  rfl

/-- A trashed file is added to a directory that has a row. -/
theorem Sound.createTrashedFile
    (sound : tables.Sound strict known)
    {id : Int}
    {name : String}
    (named : IsName name)
    (row : ∃ row ∈ tables.directories, row.id = id)
    (modified length deleted : Int)
    (checksum : Option Checksum) :
    (tables.createTrashed id name false modified length deleted checksum).2.Sound strict known := by
  obtain ⟨own, rowMember, owns⟩ := row
  have admits : tables.Admits { freshEntry id name false modified with
      length
      isDeleted := true
      lastDeleted := deleted
      checksum } :=
    ⟨named, ⟨own, rowMember, owns⟩, fun live => (Bool.false_ne_true live.symm).elim,
      fun live => (Bool.false_ne_true live.symm).elim⟩
  refine sound.added admits ?_ (added_addEntry rfl (Path.join own.path name))
  intro above aboveMember holds
  rw [sound.coherent.row_eq aboveMember rowMember (holds.trans owns.symm)]
  rfl

end Tables

/-- A fault is the failure that a reader of a whole source meets. -/
def Source.FailsWith (source : Source) (fault : Fault) : Prop :=
  ∃ failure, source.failure? = some failure ∧ fault = .io failure

namespace Txn

open Tables VersionStore.Action

variable
  {setting : Setting}
  {strict : Prop}
  {known : List Entry}

/-! ## Content -/

section Content

variable {holds : Tables → Prop} {fileId : Int}

/-- Storing parts keeps what adding a part keeps, and never fails. -/
theorem storeParts_works
    (kept : ∀ tables offset data, holds tables → holds (tables.addPart fileId offset data).2)
    (offset : Int)
    (parts : List ByteArray) :
    Works setting holds (storeParts fileId offset parts) (fun _ => holds) fun _ _ => False := by
  induction parts generalizing offset with
  | nil =>
      exact .pure fun _ => id
  | cons part rest inductionHypothesis =>
      exact .bind (fun _ => holds) (.insert fun tables => kept tables offset part) fun _ =>
        inductionHypothesis _

/-- Taking in what a source delivers keeps what adding a part keeps, and fails only as the source
does. -/
theorem drain_works
    (kept : ∀ tables offset data, holds tables → holds (tables.addPart fileId offset data).2)
    (failure : Option IoFault)
    (intake : Intake)
    (deliveries : List Delivery) :
    Works setting holds (intake.drain fileId failure deliveries) (fun _ => holds)
      fun fault tables => holds tables ∧ (Source.mk deliveries failure).FailsWith fault := by
  induction deliveries generalizing intake with
  | nil =>
      cases failure with
      | some fault =>
          exact .throw fun _ stays => ⟨stays, fault, rfl, rfl⟩
      | none =>
          exact .pure fun _ => id
  | cons delivery rest inductionHypothesis =>
      cases delivery with
      | interrupted =>
          exact inductionHypothesis intake
      | bytes data =>
          rw [Intake.drain]
          refine .ite (fun _ => .pure fun _ => id) fun some_ => ?_
          have ends : (Source.mk (.bytes data :: rest) failure).failure? =
              (Source.mk rest failure).failure? := by
            simp [Source.failure?, Source.endsEarly, some_]
          simp only [Source.FailsWith, ends]
          refine .bind (fun _ => holds) ?_ fun taken => inductionHypothesis taken
          obtain ⟨offset, buffer, digest⟩ := intake
          exact .bind (fun _ => holds) (storeParts_works kept _ _).surely fun _ =>
            .pure fun _ => id

/-- Storing a content keeps what adding a part keeps, and fails only as the source does. -/
theorem storeContent_works
    (kept : ∀ tables offset data, holds tables → holds (tables.addPart fileId offset data).2)
    (source : Source) :
    Works setting holds (storeContent fileId source) (fun _ => holds)
      fun fault tables => holds tables ∧ source.FailsWith fault := by
  refine .bind (fun _ => holds) (drain_works kept _ _ _) fun intake => ?_
  exact .bind (fun _ => holds) (storeParts_works kept _ _).surely fun _ => .pure fun _ => id

/-- Storing a content keeps what adding a part keeps. -/
theorem storeContent_keeps
    (kept : ∀ tables offset data, holds tables → holds (tables.addPart fileId offset data).2)
    (source : Source) :
    Keeps setting holds (storeContent fileId source) :=
  (storeContent_works kept source).weaken (fun _ stays => stays) (fun _ _ stays => stays)
    fun _ _ failed => failed.1

end Content

/-- Storing a content keeps sound tables sound. -/
theorem storeContent_sound
    (fileId : Int)
    (source : Source) :
    Keeps setting (Tables.Sound strict known) (storeContent fileId source) :=
  storeContent_keeps (fun _ _ _ sound => sound.congr rfl rfl rfl) source

/-! ## Room for a file -/

/-- The names of a path below the root. -/
theorem exists_names_of_not_isRoot
    {path : CleanPath}
    (proper : ¬path.isRoot = true) :
    ∃ names name, path.names = names ++ [name] ∧ path.dropLast.names = names ∧
      path.name = name.text := by
  obtain ⟨all⟩ := path
  rcases List.eq_nil_or_concat' all with rfl | ⟨names, name, rfl⟩
  · exact (proper rfl).elim
  · exact ⟨names, name, rfl, by simp [CleanPath.dropLast], by simp [CleanPath.name]⟩

/-- Where nothing is at a path, making the directories that lead to it makes room, or changes
nothing. -/
theorem makeRoom_works
    (now : Int)
    {path : CleanPath}
    (proper : ¬path.isRoot = true)
    {before : Tables}
    (sound : before.Sound strict known)
    (missing : before.lookupAt? path = none) :
    Works setting (· = before)
      (makeDirectoriesAt now path.dropLast)
      (fun id tables =>
        Reached strict known before path.dropLast.names id tables ∧ tables.Vacant id path.name)
      fun _ tables => tables = before := by
  obtain ⟨names, name, whole, directory, isName⟩ := exists_names_of_not_isRoot proper
  refine (makeDirectoriesAt_works now sound path.dropLast).promising fun id tables reached => ?_
  refine ⟨reached, ?_, reached.isLiveDirectory, ?_⟩
  · rw [isName]
    exact name.property
  · rw [isName]
    rw [directory] at reached
    have free : before.lookupAt? ⟨names ++ [name]⟩ = none := by
      rwa [← whole]
    exact reached.free sound.coherent free

/-- What was cleared away is no longer found. -/
theorem lookupAt?_of_cleared
    {before tables : Tables}
    {path : CleanPath}
    {entry : Entry}
    (coherent : before.Coherent)
    (found : before.lookupAt? path = some entry)
    (cleared : Cleared strict known before entry tables) :
    tables.lookupAt? path = none := by
  have isCoherent := cleared.sound.coherent
  have wasThere :
      ∀ names other, tables.At names other → before.At names other := by
    intro names other here
    induction here with
    | @top other member isRoot =>
        have live := (isCoherent.isTop member isRoot).live
        exact .top (cleared.live other member live).1 isRoot
    | child _ member proper live held called inductionHypothesis =>
        exact .child inductionHypothesis (cleared.live _ member live).1 proper live held called
  cases still : tables.lookupAt? path with
  | none =>
      rfl
  | some other =>
      have here := isCoherent.lookupAt?_eq_some_iff.mp still
      have same := coherent.at_unique (wasThere _ _ here)
        (coherent.lookupAt?_eq_some_iff.mp found)
      have different := (cleared.live other here.member (isCoherent.live_of_at here)).2
      exact (different (congrArg Entry.id same)).elim

/-- Clearing a path makes room for a file there. -/
theorem clearForWrite_works
    (now : Int)
    (path : CleanPath) :
    Works setting (Tables.Sound strict known)
      (clearForWrite now path)
      (fun id tables => tables.Sound strict known ∧ tables.Vacant id path.name)
      fun _ => Tables.Sound strict known := by
  unfold clearForWrite
  simp only [throw_bind]
  refine .ite (fun _ => .throw fun _ sound => sound) fun proper => ?_
  have makeRoom (before : Tables) (sound : before.Sound strict known)
      (missing : before.lookupAt? path = none) :
      Works setting (· = before)
        (makeDirectoriesAt now path.dropLast)
        (fun id tables => tables.Sound strict known ∧ tables.Vacant id path.name)
        fun _ => Tables.Sound strict known :=
    (makeRoom_works now proper sound missing).weaken (fun _ same => same)
      (fun _ _ holds => ⟨holds.1.sound, holds.2⟩) fun _ _ same => same ▸ sound
  refine .named fun before sound => ?_
  refine .bind
    (fun found tables => tables = before ∧ found = before.lookupAt? path)
    (.entryAt? ?_) fun found => ?_
  · rintro _ rfl
    exact ⟨rfl, rfl⟩
  cases found with
  | some entry =>
      refine .assuming (before.lookupAt? path = some entry) (fun _ holds => holds.2.symm)
        fun found => ?_
      refine .ite (fun _ => .throw ?_) fun allowed => ?_
      · rintro _ ⟨rfl, -⟩
        exact sound
      have isFile : entry.isDirectory = false := by
        cases kind : entry.isDirectory with
        | false =>
            rfl
        | true =>
            exact (allowed (by rw [kind]; rfl)).elim
      have here := sound.coherent.lookupAt?_eq_some_iff.mp found
      refine .bind (fun _ => Cleared strict known before entry)
        ((deleteExisting_works now before).asking ?_) fun gone => ?_
      · rintro _ ⟨rfl, -⟩
        refine ⟨rfl, sound, sound.coherent.agrees here.member, ?_⟩
        rw [Deletable, isFile]
        trivial
      · refine .ite (fun _ => .throw fun _ cleared => cleared.sound) fun _ => ?_
        exact .named fun middle cleared => makeRoom middle cleared.sound
          (lookupAt?_of_cleared sound.coherent found cleared)
  | none =>
      refine .assuming (before.lookupAt? path = none) (fun _ holds => holds.2.symm)
        fun missing => (makeRoom before sound missing).asking fun _ holds => holds.1

/-! ## Whole files -/

/-- Giving an entry that has to be there leaves the tables. -/
theorem requireEntry?_keeps
    {holds : Tables → Prop}
    (id : Int)
    (fault : Fault) :
    Keeps setting holds (do Action.require fault (← query fun tables => tables.entry? id)) :=
  .bind (fun _ => holds) (.query fun _ stays => stays) fun _ =>
    .require (fun _ _ _ stays => stays) fun _ _ stays => stays

/-- Writing a file keeps sound tables sound. -/
theorem writeFrom_keeps
    (now : Int)
    (text : String)
    (source : Source)
    (links? : Option (List String))
    (time? : Option Int) :
    Keeps setting (Tables.Sound strict known) (writeFrom now text source links? time?) := by
  refine .bind (fun _ => Tables.Sound strict known)
    (.clean (fun _ _ _ sound => sound) fun _ _ sound => sound) fun path => ?_
  refine .bind _ (clearForWrite_works now path) fun directory => ?_
  refine .bind (fun _ => Tables.Sound strict known) (.insert ?_) fun id => ?_
  · rintro tables ⟨sound, vacant⟩
    exact sound.createFile vacant _
  refine .bind (fun _ => Tables.Sound strict known) (storeContent_sound id source) fun stored => ?_
  refine .bind (fun _ => Tables.Sound strict known)
    (.update fun _ sound => sound.recordContent _ _ _ _) fun _ => ?_
  cases links? with
  | some links =>
      exact .bind (fun _ => Tables.Sound strict known)
        (.update fun _ sound => sound.setLinks _ _) fun _ => requireEntry?_keeps id _
  | none =>
      exact requireEntry?_keeps id _

/-- Copying a file row keeps sound tables sound. -/
theorem copyEntry_keeps
    (now : Int)
    (path : CleanPath)
    (source : Entry)
    (time? : Option Int) :
    Keeps setting (Tables.Sound strict known) (copyEntry now path source time?) := by
  unfold copyEntry
  refine .locked (fun _ => ?_) fun _ sound => sound
  refine .bind (fun _ => Tables.Sound strict known) (.entryAt? fun _ sound => sound)
    fun existing => ?_
  have rest :
      Keeps setting (Tables.Sound strict known) (do
        let directory ← clearForWrite now path
        let modified := time?.getD now
        let id ← Action.insert fun tables =>
          tables.createEntry directory path.name false modified
        update fun tables =>
          (tables.copyParts id source.id).recordContent id source.length modified source.checksum
        Action.require (.notFound path.text) (← query fun tables => tables.entry? id)) := by
    refine .bind _ (clearForWrite_works now path) fun directory => ?_
    refine .bind (fun _ => Tables.Sound strict known) (.insert ?_) fun id => ?_
    · rintro tables ⟨sound, vacant⟩
      exact sound.createFile vacant _
    exact .bind (fun _ => Tables.Sound strict known)
      (.update fun _ sound => (sound.copyParts _ _).recordContent _ _ _ _) fun _ =>
        requireEntry?_keeps id _
  cases existing with
  | some existing =>
      simp only [throw_bind]
      exact .ite (fun _ => .throw fun _ sound => sound) fun _ => rest
  | none =>
      exact rest

/-- Looking up an entry that has to be there leaves the tables. -/
theorem requireEntry_keeps
    {holds : Tables → Prop}
    (path : CleanPath) :
    Keeps setting holds (requireEntry path) :=
  .bind (fun _ => holds) (.entryAt? fun _ => id) fun _ =>
    .require (fun _ _ _ => id) fun _ _ => id

/-- Looking up a file that has to be there leaves the tables. -/
theorem requireFile_keeps
    {holds : Tables → Prop}
    (path : CleanPath) :
    Keeps setting holds (requireFile path) := by
  refine .bind (fun _ => holds) (requireEntry_keeps path) fun entry => ?_
  simp only [throw_bind]
  exact .ite (fun _ => .throw fun _ => id) fun _ => .pure fun _ => id

/-- Cleaning a path keeps everything. -/
theorem clean_keeps
    {holds : Tables → Prop}
    (text : String) :
    Keeps setting holds (clean text) :=
  .clean (fun _ _ _ => id) fun _ _ => id

/-- Looking up an entry keeps everything. -/
theorem stat_keeps
    {holds : Tables → Prop}
    (text : String) :
    Keeps setting holds (stat text) :=
  .bind _ (clean_keeps text) fun _ => .entryAt? fun _ stays => stays

/-- Listing a directory keeps everything. -/
theorem list_keeps
    {holds : Tables → Prop}
    (text : String) :
    Keeps setting holds (list text) := by
  refine .bind _ (clean_keeps text) fun path => .bind _ (requireEntry_keeps path) fun entry => ?_
  simp only [throw_bind]
  exact .ite (fun _ => .throw fun _ stays => stays) fun _ => .query fun _ stays => stays

/-- Copying a live file keeps sound tables sound. -/
theorem copy_keeps
    (now : Int)
    (target source : String)
    (time? : Option Int) :
    Keeps setting (Tables.Sound strict known) (copy now target source time?) :=
  .bind _ (clean_keeps source) fun origin =>
    .bind _ (requireFile_keeps origin) fun entry =>
      .bind _ (clean_keeps target) fun path => copyEntry_keeps now path entry time?

/-- A snapshot keeps sound tables sound. -/
theorem snapshot_keeps
    (now : Int)
    (text : String)
    (source? : Option Source)
    (time? : Option Int) :
    Keeps setting (Tables.Sound strict known) (snapshot now text source? time?) := by
  refine .bind _ (clean_keeps text) fun path => ?_
  simp only [throw_bind]
  refine .ite (fun _ => .throw fun _ sound => sound) fun proper => ?_
  obtain ⟨names, name, -, -, isName⟩ := exists_names_of_not_isRoot proper
  have named : IsName path.name := by
    rw [isName]
    exact name.property
  cases source? with
  | none =>
      refine .bind _ (requireFile_keeps path) fun live => .locked (fun _ => ?_) fun _ sound => sound
      refine .bind _ (snapshotDirectory_works now _).surely fun directory => ?_
      refine .bind (fun _ => Tables.Sound strict known) (.insert ?_) fun id =>
        .update fun _ sound => sound.copyParts _ _
      rintro tables ⟨sound, row, rowMember, owns, -⟩
      exact sound.createTrashedFile named ⟨row, rowMember, owns⟩ _ _ _ _
  | some source =>
      refine .bind _ (snapshotDirectory_works now _).surely fun directory => ?_
      refine .bind (fun _ => Tables.Sound strict known) (.insert ?_) fun id => ?_
      · rintro tables ⟨sound, row, rowMember, owns, -⟩
        exact sound.createTrashedFile named ⟨row, rowMember, owns⟩ _ _ _ _
      exact .bind _ (storeContent_sound id source) fun _ =>
        .update fun _ sound => sound.recordContent _ _ _ _

/-! ## Moving -/

/-- A path below another one that leads to an entry lies behind the names of the latter. -/
theorem isBelow_of_append
    {target source : CleanPath}
    (proper : ¬source.isRoot = true)
    {more : List Name}
    (some_ : more ≠ [])
    (isPrefix : target.names = source.names ++ more) :
    isBelow target source = true := by
  have named : source.names ≠ [] := by
    intro empty
    apply proper
    rw [CleanPath.isRoot, empty]
    rfl
  rw [isBelow, CleanPath.text, CleanPath.text, isPrefix]
  exact CleanPath.isPrefixOf_joinNames named some_

/-- What lies along the names of a directory is a directory. -/
theorem isDirectory_along
    {tables : Tables}
    (coherent : tables.Coherent)
    {first names : List Name}
    (isPrefix : first <+: names)
    {above entry : Entry}
    (isAbove : tables.At first above)
    (here : tables.At names entry)
    (isDirectory : entry.isDirectory = true) :
    above.isDirectory = true := by
  obtain ⟨rest, rfl⟩ := isPrefix
  cases rest with
  | nil =>
      rw [List.append_nil] at here
      rwa [coherent.at_unique isAbove here]
  | cons name rest =>
      rw [List.append_cons] at here
      obtain ⟨next, isNext⟩ := here.of_append
      obtain ⟨holder, isHolder, member, -, live, held, -⟩ := isNext.of_concat
      rw [coherent.at_unique isAbove isHolder]
      exact (coherent.isLiveDirectory_of_holds member live isHolder.member held).isDirectory

/-- An entry may be moved to where room was made for it, unless that is below it. -/
theorem movable_of_reached
    {before tables : Tables}
    {target source : CleanPath}
    {names : List Name}
    {name : Name}
    {entry : Entry}
    {parent : Int}
    (coherent : before.Coherent)
    (reached : Reached strict known before names parent tables)
    (vacant : tables.Vacant parent name.text)
    (whole : target.names = names ++ [name])
    (proper : ¬source.isRoot = true)
    (found : before.lookupAt? source = some entry)
    (apart : ¬(entry.isDirectory && isBelow target source) = true) :
    ∃ holder,
      holder.id = parent ∧ tables.Movable entry holder name target.text := by
  have isCoherent := reached.sound.coherent
  obtain ⟨holder, isHolder, same, isDirectory⟩ := reached.here
  have here : tables.At source.names entry :=
    (coherent.lookupAt?_eq_some_iff.mp found).mono reached.subset
  refine ⟨holder, same, here.member, isCoherent.live_of_at here, ?_,
    ⟨isHolder.member, isDirectory, isCoherent.live_of_at isHolder⟩, ?_, ?_, ?_⟩
  · intro isRoot
    have noNames := isCoherent.at_names_unique here (.top here.member isRoot)
    apply proper
    rw [CleanPath.isRoot, noNames]
    rfl
  · intro below
    obtain ⟨first, isPrefix, isAbove⟩ :=
      isCoherent.prefix_of_below isHolder here.member below
    apply apart
    rw [isDirectory_along isCoherent isPrefix isAbove isHolder isDirectory, Bool.true_and]
    rw [isCoherent.at_names_unique isAbove here] at isPrefix
    obtain ⟨rest, isRest⟩ := isPrefix
    refine isBelow_of_append proper (List.append_ne_nil_of_right_ne_nil rest
      (List.cons_ne_nil name [])) ?_
    rw [whole, ← isRest, List.append_assoc]
  · rw [same]
    exact vacant.free
  · intro above aboveMember holds
    obtain ⟨row, rowMember, owns, isPath⟩ := isCoherent.path_of_at isHolder isDirectory
    rw [isCoherent.row_eq aboveMember rowMember (holds.trans owns.symm), isPath,
      CleanPath.join_joinNames, CleanPath.text, whole]

/-- Moving an entry keeps sound tables sound. -/
theorem moveTo_keeps
    (now : Int)
    (target source : String)
    (time? : Option Int) :
    Keeps setting (Tables.Sound strict known) (moveTo now target source time?) := by
  refine .bind _ (clean_keeps target) fun target => .bind _ (clean_keeps source) fun source => ?_
  refine .named fun before sound => ?_
  refine .bind
    (fun entry tables => tables = before ∧ before.lookupAt? source = some entry)
    (.bind (fun found tables => tables = before ∧ found = before.lookupAt? source) (.entryAt? ?_)
      fun found => .require ?_ ?_) fun entry => ?_
  · rintro _ rfl
    exact ⟨rfl, rfl⟩
  · rintro entry isFound _ ⟨same, rfl⟩
    exact ⟨same, isFound⟩
  · rintro - _ ⟨rfl, -⟩
    exact sound
  refine .bind
    (fun taken tables =>
      (tables = before ∧ before.lookupAt? source = some entry) ∧
        taken = before.lookupAt? target)
    (.entryAt? ?_) fun taken => ?_
  · rintro _ ⟨rfl, found⟩
    exact ⟨⟨rfl, found⟩, rfl⟩
  simp only [throw_bind]
  have refused :
      ∀ tables,
        ((tables = before ∧ before.lookupAt? source = some entry) ∧
          taken = before.lookupAt? target) →
        tables.Sound strict known := by
    rintro _ ⟨⟨rfl, -⟩, -⟩
    exact sound
  refine .ite (fun _ => .throw refused) fun open_ => ?_
  refine .ite (fun _ => .throw refused) fun apart => .locked (fun _ => ?_) refused
  simp only [Bool.or_eq_true, not_or, Option.isSome_iff_ne_none, ne_eq, not_not] at open_
  obtain ⟨⟨sourceProper, targetProper⟩, missing⟩ := open_
  obtain ⟨names, name, whole, directory, isName⟩ := exists_names_of_not_isRoot targetProper
  refine .assuming (before.lookupAt? source = some entry ∧ before.lookupAt? target = none)
    (fun _ holds => ⟨holds.1.2, holds.2 ▸ missing⟩) fun found => ?_
  refine .bind _ ((makeRoom_works now targetProper sound found.2).weaken
    (fun _ holds => holds.1.1) (fun _ _ room => room) fun _ _ same => same ▸ sound) fun parent => ?_
  refine .bind (fun _ => Tables.Sound strict known) (.update ?_) fun _ =>
    requireEntry?_keeps entry.id _
  rintro tables ⟨reached, vacant⟩
  rw [isName] at vacant ⊢
  rw [directory] at reached
  obtain ⟨holder, rfl, movable⟩ :=
    movable_of_reached sound.coherent reached vacant whole sourceProper found.1 apart
  exact reached.sound.moveEntry movable _

/-! ## Attributes and restored versions -/

/-- Changing attributes or links at a path keeps sound tables sound. -/
theorem changeAt_keeps
    (text : String)
    {change : Tables → Int → Tables}
    (kept : ∀ tables id, Tables.Sound strict known tables → (change tables id).Sound strict known) :
    Keeps setting (Tables.Sound strict known) (changeAt text change) := by
  unfold changeAt stat
  refine .bind (fun _ => Tables.Sound strict known)
    (.bind _ (clean_keeps text) fun path => .entryAt? fun _ sound => sound) fun found => ?_
  cases found with
  | some entry =>
      exact .bind (fun _ => Tables.Sound strict known)
        (.update fun tables sound => kept tables entry.id sound) fun _ => .pure fun _ sound => sound
  | none =>
      exact .pure fun _ sound => sound

/-- Setting a time keeps sound tables sound. -/
theorem setLastModified_keeps
    (text : String)
    (time : Int) :
    Keeps setting (Tables.Sound strict known) (setLastModified text time) :=
  changeAt_keeps text fun _ id sound => sound.modifyEntry id (fun _ => rfl) fun _ => rfl

/-- Allowing or forbidding to write keeps sound tables sound. -/
theorem setWritable_keeps
    (text : String)
    (writable : Bool) :
    Keeps setting (Tables.Sound strict known) (setWritable text writable) :=
  changeAt_keeps text fun _ id sound => sound.modifyEntry id (fun _ => rfl) fun _ => rfl

/-- Setting links keeps sound tables sound. -/
theorem setLinks_keeps
    (text : String)
    (targets : List String) :
    Keeps setting (Tables.Sound strict known) (setLinks text targets) :=
  changeAt_keeps text fun _ id sound => sound.setLinks id targets

/-- Restoring a version keeps sound tables sound. -/
theorem restore_keeps
    (now : Int)
    (path : CleanPath)
    (info : TrashEntry) :
    Keeps setting (Tables.Sound strict known) (restore now path info) := by
  refine .bind (fun _ => Tables.Sound strict known) (.query fun _ sound => sound) fun found => ?_
  refine .bind (fun _ => Tables.Sound strict known)
    (.require (fun _ _ _ sound => sound) fun _ _ sound => sound) fun version => ?_
  exact copyEntry_keeps now path version _

/-- Restoring versions one after the other keeps sound tables sound. -/
theorem restoreEach_keeps
    (now : Int)
    (target : CleanPath)
    (single : Bool)
    (infos : List TrashEntry) :
    Keeps setting (Tables.Sound strict known) (restoreEach now target single infos) := by
  induction infos with
  | nil =>
      exact .pure fun _ sound => sound
  | cons info rest inductionHypothesis =>
      rw [restoreEach]
      refine .bind (fun _ => Tables.Sound strict known) ?_ fun path => ?_
      · unfold restoreTarget
        refine .ite (fun _ => .pure fun _ sound => sound) fun _ => .ofExcept fun _ sound => ?_
        cases target.join info.entry.name <;> exact sound
      · refine .bind (fun _ => Tables.Sound strict known) ?_ fun outcome =>
          .bind _ inductionHypothesis fun _ => .pure fun _ sound => sound
        have attempted :
            Works setting (Tables.Sound strict known)
              (attempt (transaction (restore now path info)))
              (Ends (fun _ => Tables.Sound strict known) fun _ => Tables.Sound strict known)
              fun _ => Tables.Sound strict known :=
          .attempt ((restore_keeps now path info).transaction fun _ _ _ sound _ => sound)
        refine attempted.promising fun outcome _ ended => ?_
        cases outcome <;> exact ended

/-- Recovering versions keeps sound tables sound. -/
theorem recover_keeps
    (now : Int)
    (target : String)
    (infos : List TrashEntry) :
    Keeps setting (Tables.Sound strict known) (recover now target infos) :=
  .bind _ (clean_keeps target) fun path => restoreEach_keeps now path _ infos

end Txn

end VersionStore
