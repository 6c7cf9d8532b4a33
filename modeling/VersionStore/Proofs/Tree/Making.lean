import VersionStore.Proofs.Action.Works
import VersionStore.Proofs.Tree.Edits
import VersionStore.Proofs.Tree.Resolve
import VersionStore.Txn.Content

namespace VersionStore

/-!
# Making directories

Directories are made from the top down, each of them an entry and a row. What is at the
end of a path once its directories are made has nothing in it that was not there before,
so that what was free at that path still is.
-/

open Tables

/-- An action after which the tables satisfy what they satisfied before, whether it succeeds
or not. -/
def Action.Keeps (setting : Setting) (holds : Tables → Prop) (action : Action α) : Prop :=
  Works setting holds action (fun _ => holds) fun _ => holds

namespace Action.Works

variable
  {setting : Setting}
  {pre : Tables → Prop}
  {failed : Fault → Tables → Prop}

/-- Cleaning a path leaves the tables. -/
theorem clean
    {text : String}
    {post : CleanPath → Tables → Prop}
    (valid : ∀ path, CleanPath.ofText text = .ok path → ∀ tables, pre tables → post path tables)
    (invalid : ∀ fault tables, pre tables → failed fault tables) :
    Works setting pre (Txn.clean text) post failed := by
  refine .ofExcept fun tables holds => ?_
  cases outcome : CleanPath.ofText text with
  | ok path =>
      exact valid path outcome tables holds
  | error fault =>
      exact invalid fault tables holds

/-- The entry at a path is looked up. -/
theorem entryAt?
    {path : CleanPath}
    {post : Option Entry → Tables → Prop}
    (holds : ∀ tables, pre tables → post (tables.lookupAt? path) tables) :
    Works setting pre (Txn.entryAt? path) post failed :=
  .query holds

/-- A directory is an entry and a row, and neither comes without the other. -/
theorem directory
    (entry : Entry)
    {path : String}
    {post : Int → Tables → Prop}
    (coherent : ∀ tables, pre tables → tables.Coherent)
    (isDirectory : entry.isDirectory = true)
    (holds :
      ∀ before after,
        pre before →
        Added before after entry path →
        post (before.lastEntryId + 1) after) :
    Works setting pre
      (do
        let id ← Action.insert fun tables => tables.addEntry entry
        Action.addDirectory id path
        return id)
      post failed := by
  refine .bind (fun id tables => ∃ before, pre before ∧ (id, tables) = before.addEntry entry)
    (.insert fun before holds => ⟨before, holds, rfl⟩) fun id => ?_
  refine .bind (fun _ tables => post id tables) (.addDirectory ?_) fun _ =>
    .pure fun _ holds => holds
  rintro tables ⟨before, isBefore, same⟩
  obtain ⟨after, isAdded, added⟩ :=
    addDirectory_addEntry (coherent before isBefore) isDirectory path
  rw [← same] at isAdded
  rw [isAdded]
  have same := congrArg Prod.fst same
  dsimp only at same
  rw [same]
  exact holds before after isBefore added

end Action.Works

/-- Nothing but live directories along some names was added to tables. -/
structure Tables.Extended (before : Tables) (names : List Name) (tables : Tables) : Prop where
  entries :
    ∃ made,
      tables.entries = before.entries ++ made ∧
        ∀ entry ∈ made,
          before.lastEntryId < entry.id ∧ entry.isDirectory = true ∧ entry.isDeleted = false ∧
            ∃ first, first <+: names ∧ tables.At first entry
  directories :
    ∃ rows,
      tables.directories = before.directories ++ rows ∧ ∀ row ∈ rows, before.lastEntryId < row.id
  parts : tables.parts = before.parts
  targets : tables.targets = before.targets
  links : tables.links = before.links

/-- A directory was made where nothing was. -/
def Tables.MadeAt (before after : Tables) (path : CleanPath) : Prop :=
  before.lookupAt? path = none ∧
    ∃ made,
      after.lookupAt? path = some made ∧ made.isDirectory = true ∧ before.lastEntryId < made.id

namespace Tables.Extended

variable {before tables after : Tables} {names : List Name}

/-- Nothing was added. -/
theorem refl
    (before : Tables)
    (names : List Name) :
    before.Extended names before :=
  ⟨⟨[], by simp, fun _ member => absurd member List.not_mem_nil⟩,
    ⟨[], by simp, fun _ member => absurd member List.not_mem_nil⟩, rfl, rfl, rfl⟩

/-- What lies along some names lies along more of them. -/
theorem along
    (extended : before.Extended names tables)
    (more : List Name) :
    before.Extended (names ++ more) tables := by
  obtain ⟨made, isMade, areNew⟩ := extended.entries
  refine { extended with entries := ⟨made, isMade, fun entry member => ?_⟩ }
  obtain ⟨newer, isDirectory, live, first, isPrefix, here⟩ := areNew entry member
  exact ⟨newer, isDirectory, live, first, isPrefix.trans (List.prefix_append _ _), here⟩

/-- One more directory was added at the end of the names. -/
theorem added
    (extended : before.Extended names tables)
    (notOlder : before.lastEntryId ≤ tables.lastEntryId)
    {entry : Entry}
    {path : String}
    (isDirectory : entry.isDirectory = true)
    (live : entry.isDeleted = false)
    (added : Added tables after entry path)
    (here : after.At names { entry with id := tables.lastEntryId + 1 }) :
    before.Extended names after := by
  obtain ⟨made, isMade, areNew⟩ := extended.entries
  obtain ⟨rows, isRows, areNewRows⟩ := extended.directories
  refine ⟨⟨made ++ [{ entry with id := tables.lastEntryId + 1 }], ?_, fun other member => ?_⟩,
    ⟨rows ++ [⟨tables.lastEntryId + 1, path⟩], ?_, fun row member => ?_⟩,
    added.parts.trans extended.parts, added.targets.trans extended.targets,
    added.links.trans extended.links⟩
  · rw [added.entries, isMade, List.append_assoc]
  · rcases List.mem_append.mp member with old | new
    · obtain ⟨newer, otherDirectory, otherLive, first, isPrefix, there⟩ := areNew other old
      refine ⟨newer, otherDirectory, otherLive, first, isPrefix, there.mono fun _ inTable => ?_⟩
      exact added.mem_entries.mpr (.inl inTable)
    · rw [List.mem_singleton.mp new]
      exact ⟨by change _ < tables.lastEntryId + 1; omega, isDirectory, live, names,
        List.prefix_rfl, here⟩
  · rw [added.directories, isRows, isDirectory, if_pos rfl, List.append_assoc]
  · rcases List.mem_append.mp member with old | new
    · exact areNewRows row old
    · rw [List.mem_singleton.mp new]
      change _ < tables.lastEntryId + 1
      omega

/-- What lies somewhere lay there before, or it is new and lies along the names. -/
theorem origin
    (extended : before.Extended names tables)
    (isCoherent : before.Coherent)
    (coherent : tables.Coherent)
    {reached : List Name}
    {entry : Entry}
    (here : tables.At reached entry) :
    before.At reached entry ∨
      before.lastEntryId < entry.id ∧ entry.isDirectory = true ∧ reached <+: names := by
  obtain ⟨made, isMade, areNew⟩ := extended.entries
  have member := here.member
  rw [isMade] at member
  rcases List.mem_append.mp member with old | new
  · obtain ⟨others, wasThere⟩ := isCoherent.exists_at old (coherent.live_of_at here)
    have still : tables.At others entry :=
      wasThere.mono fun _ inTable => isMade ▸ List.mem_append_left _ inTable
    rw [coherent.at_names_unique here still]
    exact .inl wasThere
  · obtain ⟨newer, isDirectory, -, first, isPrefix, there⟩ := areNew entry new
    rw [coherent.at_names_unique here there]
    exact .inr ⟨newer, isDirectory, isPrefix⟩

/-- At a path is found what was found there, unless a directory was made there. -/
theorem lookupAt?_eq_or
    (extended : before.Extended names tables)
    (isCoherent : before.Coherent)
    (coherent : tables.Coherent)
    (path : CleanPath) :
    tables.lookupAt? path = before.lookupAt? path ∨
      path.names <+: names ∧ before.MadeAt tables path := by
  obtain ⟨made, isMade, -⟩ := extended.entries
  cases found : before.lookupAt? path with
  | some entry =>
      left
      refine coherent.lookupAt?_eq_some_iff.mpr ?_
      exact (isCoherent.lookupAt?_eq_some_iff.mp found).mono fun _ inTable =>
        isMade ▸ List.mem_append_left _ inTable
  | none =>
      cases now : tables.lookupAt? path with
      | none =>
          exact .inl rfl
      | some entry =>
          rcases extended.origin isCoherent coherent (coherent.lookupAt?_eq_some_iff.mp now) with
            wasThere | ⟨newer, isDirectory, isPrefix⟩
          · have absurd := isCoherent.lookupAt?_eq_some_iff.mpr wasThere
            rw [found] at absurd
            cases absurd
          · exact .inr ⟨isPrefix, found, entry, now, isDirectory, newer⟩

/-- What was there before and is below an entry was below it. -/
theorem below_of_le
    (extended : before.Extended names tables)
    (isCoherent : before.Coherent)
    {above id : Int}
    (below : tables.Below above id)
    (old : id ≤ before.lastEntryId) :
    before.Below above id := by
  obtain ⟨made, isMade, areNew⟩ := extended.entries
  induction below with
  | self =>
      exact .self
  | @step entry member proper _ inductionHypothesis =>
      rw [isMade] at member
      rcases List.mem_append.mp member with wasThere | new
      · exact .step wasThere proper (inductionHypothesis (isCoherent.directoryId_le entry wasThere))
      · have newer := (areNew entry new).1
        omega

/-- The row of a directory that was there before was there. -/
theorem mem_directories_of_le
    (extended : before.Extended names tables)
    {row : Directory}
    (member : row ∈ tables.directories)
    (old : row.id ≤ before.lastEntryId) :
    row ∈ before.directories := by
  obtain ⟨rows, isRows, areNew⟩ := extended.directories
  rw [isRows] at member
  refine (List.mem_append.mp member).resolve_right fun new => ?_
  have newer := areNew row new
  omega

end Tables.Extended

namespace Txn

open VersionStore.Action

variable
  {setting : Setting}
  {strict : Prop}
  {known : List Entry}

/-- A directory at the end of some names. What was made on the way to it is not older than
the tables to begin with, and what lies in it was there then. -/
structure Reached (strict : Prop) (known : List Entry) (before : Tables) (names : List Name)
    (id : Int) (tables : Tables) : Prop where
  sound : tables.Sound strict known
  here : ∃ entry, tables.At names entry ∧ entry.id = id ∧ entry.isDirectory = true
  subset : before.entries ⊆ tables.entries
  extended : before.Extended names tables
  fresh :
    tables = before ∨
      before.lastEntryId < id ∧
        ∀ entry ∈ tables.entries, entry ∈ before.entries ∨ entry.directoryId < id

namespace Reached

variable {before tables : Tables} {names : List Name} {id : Int}

/-- A directory that is there is reached without making any. -/
theorem of_at
    (sound : tables.Sound strict known)
    {entry : Entry}
    (here : tables.At names entry)
    (isDirectory : entry.isDirectory = true) :
    Reached strict known tables names entry.id tables :=
  ⟨sound, ⟨entry, here, rfl, isDirectory⟩, List.Subset.refl _, .refl _ _, .inl rfl⟩

/-- Ids are only given on the way. -/
theorem lastEntryId_le
    (reached : Reached strict known before names id tables) :
    before.lastEntryId ≤ tables.lastEntryId := by
  rcases reached.fresh with rfl | ⟨newer, -⟩
  · exact Int.le_refl _
  · obtain ⟨entry, here, same, -⟩ := reached.here
    have given := reached.sound.coherent.id_le entry here.member
    omega

/-- Where a name was free it still is. -/
theorem free
    (reached : Reached strict known before names id tables)
    (coherent : before.Coherent)
    {name : Name}
    (missing : before.lookupAt? ⟨names ++ [name]⟩ = none) :
    ∀ other ∈ tables.entries,
      other.isDeleted = false →
      other.directoryId = id →
      other.name ≠ name.text := by
  intro other member live held called
  obtain ⟨entry, here, same, -⟩ := reached.here
  rcases reached.fresh with rfl | ⟨newer, old⟩
  · have proper := coherent.ne_rootId_of_called member called
    have found := coherent.lookupAt?_eq_some_iff.mpr
      (At.child here member proper live (held.trans same.symm) called)
    rw [missing] at found
    exact Option.some_ne_none _ found.symm
  · rcases old other member with wasThere | lower
    · have := coherent.directoryId_le other wasThere
      omega
    · omega

/-- The directory is a live one. -/
theorem isLiveDirectory
    (reached : Reached strict known before names id tables) :
    ∃ holder, tables.IsLiveDirectory holder ∧ holder.id = id := by
  obtain ⟨entry, here, same, isDirectory⟩ := reached.here
  exact ⟨entry, ⟨here.member, isDirectory, reached.sound.coherent.live_of_at here⟩, same⟩

/-- What is found one further is at the end of one name more. -/
theorem at_found
    (reached : Reached strict known before names id tables)
    {name : Name}
    {entry : Entry}
    (found : tables.lookupIn? id name.text = some entry) :
    tables.At (names ++ [name]) entry ∧ entry.directoryId = id := by
  obtain ⟨holder, here, same, -⟩ := reached.here
  rw [← same] at found
  have there := (reached.sound.coherent.lookupIn?_eq_some_iff here).mp found
  obtain ⟨other, above, -, -, -, held, -⟩ := there.of_concat
  rw [reached.sound.coherent.at_unique above here, same] at held
  exact ⟨there, held⟩

/-- Where something is found nothing was made yet, because a directory that was made on the way
holds nothing. -/
theorem eq_of_found
    (reached : Reached strict known before names id tables)
    (isCoherent : before.Coherent)
    {name : Name}
    {entry : Entry}
    (found : tables.lookupIn? id name.text = some entry) :
    tables = before := by
  obtain ⟨there, held⟩ := reached.at_found found
  rcases reached.fresh with unchanged | ⟨newer, old⟩
  · exact unchanged
  · rcases old entry there.member with wasThere | lower
    · have := isCoherent.directoryId_le entry wasThere
      omega
    · omega

/-- A directory that is there is one further on the way. -/
theorem into
    (reached : Reached strict known before names id tables)
    (isCoherent : before.Coherent)
    {name : Name}
    {entry : Entry}
    (found : tables.lookupIn? id name.text = some entry)
    (isDirectory : entry.isDirectory = true) :
    Reached strict known before (names ++ [name]) entry.id tables :=
  ⟨reached.sound, ⟨entry, (reached.at_found found).1, rfl, isDirectory⟩, reached.subset,
    reached.extended.along [name], .inl (reached.eq_of_found isCoherent found)⟩

/-- There is room for a directory of a name that is free. -/
theorem admits
    (reached : Reached strict known before names id tables)
    {name : Name}
    (missing : tables.lookupIn? id name.text = none)
    (now : Int) :
    tables.Admits (freshEntry id name.text true now) := by
  have coherent := reached.sound.coherent
  obtain ⟨holder, here, same, isDirectory⟩ := reached.here
  have isLive : tables.IsLiveDirectory holder :=
    ⟨here.member, isDirectory, coherent.live_of_at here⟩
  obtain ⟨row, rowMember, ownsRow, -⟩ := coherent.path_of_at here isDirectory
  refine ⟨name.property, ⟨row, rowMember, ownsRow.trans same⟩, fun _ => ⟨holder, isLive, same⟩, ?_⟩
  intro _ other member live held called
  have proper := coherent.ne_rootId_of_called member called
  have found := (coherent.lookupIn?_eq_some_iff here).mpr
    (At.child here member proper live (held.trans same.symm) called)
  rw [same, missing] at found
  exact Option.some_ne_none _ found.symm

/-- A directory that is made is one further on the way. -/
theorem made
    (reached : Reached strict known before names id tables)
    {name : Name}
    (missing : tables.lookupIn? id name.text = none)
    {now : Int}
    {after : Tables}
    (added :
      Added tables after (freshEntry id name.text true now)
        (CleanPath.joinNames (names ++ [name]))) :
    Reached strict known before (names ++ [name]) (tables.lastEntryId + 1) after := by
  have coherent := reached.sound.coherent
  obtain ⟨holder, here, same, isDirectory⟩ := reached.here
  obtain ⟨row, rowMember, ownsRow, isPath⟩ := coherent.path_of_at here isDirectory
  have older : id ≤ tables.lastEntryId := by
    rw [← same]
    exact coherent.id_le holder here.member
  have notOlder := reached.lastEntryId_le
  have newHere :
      after.At (names ++ [name])
        { freshEntry id name.text true now with id := tables.lastEntryId + 1 } := by
    refine .child (here.mono fun _ => fun member => added.mem_entries.mpr (.inl member))
      (added.mem_entries.mpr (.inr rfl)) ?_ rfl same.symm rfl
    have := coherent.rootId_le
    change tables.lastEntryId + 1 ≠ rootId
    omega
  refine ⟨reached.sound.added (reached.admits missing now) ?_ added, ⟨_, newHere, rfl, rfl⟩,
    ?_, (reached.extended.along [name]).added notOlder rfl rfl added newHere, .inr ⟨?_, ?_⟩⟩
  · intro above aboveMember holds
    rw [coherent.row_eq aboveMember rowMember (holds.trans (ownsRow.trans same).symm), isPath]
    exact (CleanPath.join_joinNames names name).symm
  · exact fun _ member => added.mem_entries.mpr (.inl (reached.subset member))
  · omega
  · intro entry member
    rcases added.mem_entries.mp member with old | rfl
    · rcases reached.fresh with rfl | ⟨newer, wasOld⟩
      · exact .inl old
      · rcases wasOld entry old with wasThere | lower
        · exact .inl wasThere
        · exact .inr (by omega)
    · right
      change id < tables.lastEntryId + 1
      omega

end Reached

/-- What holds at each directory on the way along some names: it holds one name further where the
directory there is found and where it is made, and where a file is in the way the walk has failed. -/
structure Advances (now : Int) (names : List Name) (reached : List Name → Int → Tables → Prop)
    (failed : Fault → Tables → Prop) : Prop where
  coherent : ∀ {done id tables}, reached done id tables → tables.Coherent
  into :
    ∀ {done id name tables entry},
      reached done id tables →
      tables.lookupIn? id (Name.text name) = some entry →
      entry.isDirectory = true →
      reached (done ++ [name]) entry.id tables
  made :
    ∀ {done id name tables after},
      reached done id tables →
      tables.lookupIn? id (Name.text name) = none →
      Added tables after (freshEntry id name.text true now)
        (CleanPath.joinNames (done ++ [name])) →
      reached (done ++ [name]) (tables.lastEntryId + 1) after
  blocked :
    ∀ {done id name rest tables entry},
      done ++ [name] ++ rest = names →
      reached done id tables →
      tables.lookupIn? id (Name.text name) = some entry →
      entry.isDirectory = false →
      failed (.invalidDestination (CleanPath.joinNames (done ++ [name]))) tables

namespace Advances

variable
  {now : Int}
  {names : List Name}
  {reached : List Name → Int → Tables → Prop}
  {failed : Fault → Tables → Prop}

/-- What holds somewhere on the way holds at its end. -/
theorem makeAlong
    (advances : Advances now names reached failed)
    (done rest : List Name)
    (whole : done ++ rest = names)
    (id : Int) :
    Works setting (reached done id)
      (makeAlong now id (CleanPath.ancestry (CleanPath.joinNames done) rest))
      (reached names) failed := by
  induction rest generalizing done id with
  | nil =>
      rw [← whole, List.append_nil]
      exact .pure fun _ holds => holds
  | cons name rest inductionHypothesis =>
      rw [List.append_cons] at whole
      rw [CleanPath.ancestry, Txn.makeAlong, CleanPath.join_joinNames]
      refine .bind
        (fun found tables => reached done id tables ∧ tables.lookupIn? id name.text = found)
        (.query fun _ holds => ⟨holds, rfl⟩) fun found => ?_
      cases found with
      | some entry =>
          refine .ite (fun isDirectory => ?_) fun isFile => .throw ?_
          · exact (inductionHypothesis (done ++ [name]) whole entry.id).asking
              fun _ ⟨holds, found⟩ => advances.into holds found isDirectory
          · exact fun _ ⟨holds, found⟩ =>
              advances.blocked whole holds found (Bool.eq_false_iff.mpr isFile)
      | none =>
          exact .bind (reached (done ++ [name]))
            (.directory (freshEntry id name.text true now)
              (fun _ holds => advances.coherent holds.1) rfl
              fun _ _ ⟨holds, missing⟩ added => advances.made holds missing added)
            (inductionHypothesis (done ++ [name]) whole)

/-- What holds at the top holds at the end of a path. -/
theorem makeDirectoriesAt
    {path : CleanPath}
    {pre : Tables → Prop}
    (advances : Advances now path.names reached failed)
    (starts : ∀ tables, pre tables → reached [] rootId tables) :
    Works setting pre (makeDirectoriesAt now path) (reached path.names) failed :=
  (advances.makeAlong [] path.names rfl rootId).asking starts

end Advances

/-- The top is reached to begin with. -/
theorem Reached.top
    {tables : Tables}
    (sound : tables.Sound strict known) :
    Reached strict known tables [] rootId tables := by
  obtain ⟨top, member, isTop⟩ := sound.coherent.top
  rw [← isTop.id]
  exact .of_at sound (.top member isTop.id) isTop.isDirectory

/-- Directories are reached one after the other, and where a file is in the way none was made. -/
theorem Reached.advances
    {before : Tables}
    (isCoherent : before.Coherent)
    (now : Int)
    (names : List Name) :
    Advances now names (Reached strict known before) fun _ tables => tables = before where
  coherent reached := reached.sound.coherent
  into reached found isDirectory := reached.into isCoherent found isDirectory
  made reached missing added := reached.made missing added
  blocked _ reached found _ := reached.eq_of_found isCoherent found

/-- Making the directories along a clean path reaches the last one, or changes nothing. -/
theorem makeDirectoriesAt_works
    (now : Int)
    {before : Tables}
    (sound : before.Sound strict known)
    (path : CleanPath) :
    Works setting (· = before)
      (makeDirectoriesAt now path)
      (Reached strict known before path.names)
      fun _ tables => tables = before := by
  refine (Reached.advances sound.coherent now path.names).makeDirectoriesAt ?_
  rintro _ rfl
  exact .top sound

/-- Making directories keeps sound tables sound. -/
theorem makeDirectories_keeps
    (now : Int)
    (text : String) :
    Keeps setting (Tables.Sound strict known) (makeDirectories now text) := by
  refine .bind (fun _ => Tables.Sound strict known)
    (.clean (fun _ _ _ sound => sound) fun _ _ sound => sound) fun path =>
      .named fun before sound => ?_
  exact (makeDirectoriesAt_works now sound path).weaken (fun _ same => same)
    (fun _ _ reached => reached.sound) fun _ _ same => same ▸ sound

/-! ## Directories for snapshots -/

/-- The directory of an id has a row with the path of some names. -/
def Leads (names : List Name) (id : Int) (tables : Tables) : Prop :=
  ∃ row ∈ tables.directories, row.id = id ∧ row.path = CleanPath.joinNames names

/-- A directory that is found by its path has that path. -/
theorem exists_of_directoryId?
    {tables : Tables}
    {path : String}
    {id : Int}
    (found : tables.directoryId? path = some id) :
    ∃ row ∈ tables.directories, row.id = id ∧ row.path = path := by
  have ofLast :
      ∀ rows : List Directory,
        (∀ row ∈ rows, row ∈ tables.directories.filter (·.path == path)) →
        ∀ row,
          rows.getLast? = some row →
          row.id = id →
          ∃ row ∈ tables.directories, row.id = id ∧ row.path = path := by
    intro rows subset row isLast same
    obtain ⟨member, isPath⟩ := List.mem_filter.mp (subset row (List.mem_of_getLast? isLast))
    exact ⟨row, member, same, by simpa using isPath⟩
  unfold directoryId? at found
  dsimp only at found
  split at found
  · rename_i live isLast
    refine ofLast _ (fun row member => (List.mem_filter.mp member).1) live isLast ?_
    exact Option.some.inj found
  · obtain ⟨row, isLast, same⟩ := Option.map_eq_some_iff.mp found
    exact ofLast _ (fun _ member => member) row isLast same

/-- A directory is found by its path. -/
theorem directoryId?_ne_none
    {tables : Tables}
    {row : Directory}
    (member : row ∈ tables.directories) :
    tables.directoryId? row.path ≠ none := by
  have here : row ∈ tables.directories.filter (·.path == row.path) :=
    List.mem_filter.mpr ⟨member, beq_self_eq_true _⟩
  unfold directoryId?
  dsimp only
  split
  · exact Option.some_ne_none _
  · rw [ne_eq, Option.map_eq_none_iff, List.getLast?_eq_none_iff]
    exact List.ne_nil_of_mem here

/-- The directories that a snapshot needs are found or made in the trash. -/
theorem snapshotDirectory_works
    (now : Int)
    (names : List Name) :
    Works setting (Tables.Sound strict known)
      (snapshotDirectory now names)
      (fun id tables => tables.Sound strict known ∧ Leads names.reverse id tables)
      fun _ _ => False := by
  have ofFound :
      ∀ {path : String} {names : List Name} {id : Int} {tables : Tables},
        path = CleanPath.joinNames names →
        (tables.Sound strict known ∧ some id = tables.directoryId? path) →
        tables.Sound strict known ∧ Leads names id tables := by
    rintro path names id tables rfl ⟨sound, found⟩
    exact ⟨sound, exists_of_directoryId? found.symm⟩
  induction names with
  | nil =>
      rw [snapshotDirectory]
      refine .bind
        (fun found tables => tables.Sound strict known ∧ found = tables.directoryId? "")
        (.query fun _ sound => ⟨sound, rfl⟩) fun found => ?_
      cases found with
      | some id =>
          exact .pure fun _ => ofFound rfl
      | none =>
          exact .throw fun _ ⟨sound, missing⟩ =>
            directoryId?_ne_none sound.coherent.topRow missing.symm
  | cons name before inductionHypothesis =>
      rw [snapshotDirectory]
      refine .bind
        (fun found tables =>
          tables.Sound strict known ∧
            found = tables.directoryId? (CleanPath.joinNames (name :: before).reverse))
        (.query fun _ sound => ⟨sound, rfl⟩) fun found => ?_
      cases found with
      | some id =>
          exact .pure fun _ => ofFound rfl
      | none =>
          refine .bind _ (inductionHypothesis.asking fun _ holds => holds.1) fun parent => ?_
          refine .directory { freshEntry parent name.text true now with
              length := 0
              isDeleted := true
              lastDeleted := now
              checksum := none }
            (fun _ holds => holds.1.coherent) rfl ?_
          rintro tables after ⟨sound, row, rowMember, ownsRow, isPath⟩ added
          have isJoin :
              CleanPath.joinNames (name :: before).reverse =
                Path.join (CleanPath.joinNames before.reverse) name.text := by
            rw [CleanPath.join_joinNames, List.reverse_cons]
          have admits : tables.Admits { freshEntry parent name.text true now with
              length := 0
              isDeleted := true
              lastDeleted := now
              checksum := none } :=
            ⟨name.property, ⟨row, rowMember, ownsRow⟩,
              fun live => (Bool.false_ne_true live.symm).elim,
              fun live => (Bool.false_ne_true live.symm).elim⟩
          refine ⟨sound.added admits ?_ added, _, added.mem_directories.mpr (.inr ⟨rfl, rfl⟩), rfl, rfl⟩
          intro above aboveMember holds
          rw [sound.coherent.row_eq aboveMember rowMember (holds.trans ownsRow.symm), isPath]
          exact isJoin

end Txn

end VersionStore
