import Mathlib.Data.List.Infix
import VersionStore.Proofs.Tree.Making
import VersionStore.Proofs.Tree.TrashListings

namespace VersionStore

/-!
# Chains of directories

The directories that lead to a path are found or made one after the other. The walk goes by the
ids of the directories while everything else goes by their paths, so what is said of it is said of
paths: exactly where nothing was live before, an entry and a row with its id and path are new, also
where a directory in the trash has that path.
-/

open Tables

namespace CleanPath

/-- The paths that lead to a path, from the top to the path itself. -/
def leading (path : CleanPath) : List CleanPath :=
  path.names.inits.map CleanPath.mk

/-- One path more leads to a path that is one name longer. -/
theorem leading_concat
    (names : List Name)
    (name : Name) :
    leading ⟨names ++ [name]⟩ = leading ⟨names⟩ ++ [⟨names ++ [name]⟩] := by
  simp [leading, List.inits_append]

theorem mem_leading_iff
    {path above : CleanPath} :
    above ∈ path.leading ↔ above.names <+: path.names := by
  simp only [leading, List.mem_map, List.mem_inits]
  constructor
  · rintro ⟨names, along, rfl⟩
    exact along
  · exact fun along => ⟨above.names, along, rfl⟩

end CleanPath

namespace Tables

variable
  {now : Int}
  {before tables after : Tables}
  {path above : CleanPath}
  {names : List Name}
  {name : Name}
  {entry : Entry}

/-- The paths that lead to a path and at which nothing is. -/
def missing (tables : Tables) (path : CleanPath) : List CleanPath :=
  path.leading.filter fun above => (tables.lookupAt? above).isNone

/-- Where something is one name further nothing more is missing. -/
theorem missing_concat_of_found
    (found : before.lookupAt? ⟨names ++ [name]⟩ = some entry) :
    before.missing ⟨names ++ [name]⟩ = before.missing ⟨names⟩ := by
  simp [missing, CleanPath.leading_concat, found]

/-- Where nothing is one name further one path more is missing. -/
theorem missing_concat_of_missing
    (nothing : before.lookupAt? ⟨names ++ [name]⟩ = none) :
    before.missing ⟨names ++ [name]⟩ = before.missing ⟨names⟩ ++ [⟨names ++ [name]⟩] := by
  simp [missing, CleanPath.leading_concat, nothing]

/-- Live directories lead to a path, its own among them. -/
def Stands (tables : Tables) (path : CleanPath) : Prop :=
  ∀ above : CleanPath,
    above.names <+: path.names →
    ∃ entry, tables.lookupAt? above = some entry ∧ entry.isDirectory = true

/-- Where live directories lead to a path nothing is missing. -/
theorem Stands.missing
    (stands : tables.Stands path) :
    tables.missing path = [] := by
  refine List.filter_eq_nil_iff.mpr fun above along => ?_
  obtain ⟨entry, found, -⟩ := stands above (CleanPath.mem_leading_iff.mp along)
  simp [found]

/-- They lead to every path on the way. -/
theorem Stands.along
    (stands : tables.Stands path)
    (along : above.names <+: path.names) :
    tables.Stands above :=
  fun higher isHigher => stands higher (isHigher.trans along)

/-- One more directory leads one name further. -/
theorem Stands.concat
    (stands : tables.Stands ⟨names⟩)
    (found : tables.lookupAt? ⟨names ++ [name]⟩ = some entry)
    (isDirectory : entry.isDirectory = true) :
    tables.Stands ⟨names ++ [name]⟩ := by
  intro above along
  rcases List.prefix_concat_iff.mp along with isPath | shorter
  · obtain rfl : above = ⟨names ++ [name]⟩ := congrArg CleanPath.mk isPath
    exact ⟨entry, found, isDirectory⟩
  · exact stands above shorter

/-- The first file on the way to a path. -/
structure Blocks (tables : Tables) (path above : CleanPath) : Prop where
  along : above.names <+: path.names
  isFile : ∃ entry, tables.lookupAt? above = some entry ∧ entry.isDirectory = false
  first :
    ∀ higher : CleanPath,
      higher.names <+: above.names →
      higher ≠ above →
      ∃ entry, tables.lookupAt? higher = some entry ∧ entry.isDirectory = true

/-- Where live directories lead to a path no file is in the way. -/
theorem Stands.not_blocks
    (stands : tables.Stands path) :
    ¬tables.Blocks path above := by
  intro blocks
  obtain ⟨entry, found, isFile⟩ := blocks.isFile
  obtain ⟨other, foundToo, isDirectory⟩ := stands above blocks.along
  cases found.symm.trans foundToo
  rw [isFile] at isDirectory
  cases isDirectory

/-- Only one file is the first. -/
theorem Blocks.unique
    {other : CleanPath}
    (blocks : tables.Blocks path above)
    (blocksToo : tables.Blocks path other) :
    above = other := by
  have apart {first second : CleanPath}
      (isFirst : tables.Blocks path first)
      (isSecond : tables.Blocks path second)
      (along : first.names <+: second.names) :
      first = second := by
    by_contra different
    obtain ⟨entry, found, isFile⟩ := isFirst.isFile
    obtain ⟨directory, foundToo, isDirectory⟩ := isSecond.first first along different
    cases found.symm.trans foundToo
    rw [isFile] at isDirectory
    cases isDirectory
  rcases List.prefix_or_prefix_of_prefix blocks.along blocksToo.along with along | along
  · exact apart blocks blocksToo along
  · exact (apart blocksToo blocks along).symm

/-- A directory was made at a path: it is found there, as new and under a new id. -/
structure MadeNew (now : Int) (before after : Tables) (above : CleanPath) (entry : Entry) : Prop where
  found : after.lookupAt? above = some entry
  newer : before.lastEntryId < entry.id
  fresh :
    ∃ holder, entry = { freshEntry holder above.name true now with id := entry.id }

/-- The directories that were missing on the way to a path were made, each an entry and a row, and
all else stayed. -/
structure Makes (now : Int) (before : Tables) (path : CleanPath) (after : Tables) : Prop where
  made :
    ∃ made : List (CleanPath × Entry),
      made.map (·.1) = before.missing path ∧
        (∀ step ∈ made, MadeNew now before after step.1 step.2) ∧
          after.entries = before.entries ++ made.map (·.2) ∧
            after.directories =
              before.directories ++ made.map fun step => ⟨step.2.id, step.1.text⟩
  parts : after.parts = before.parts
  targets : after.targets = before.targets
  links : after.links = before.links
  lastEntryId : after.lastEntryId = before.lastEntryId + (before.missing path).length
  stands : after.Stands path

namespace Makes

/-- The paths of directories stay where ids were given out before. -/
theorem directoryPath?_eq
    (makes : before.Makes now path after)
    {id : Int}
    (old : id ≤ before.lastEntryId) :
    after.directoryPath? id = before.directoryPath? id := by
  obtain ⟨made, -, areNew, -, directories⟩ := makes.made
  have newer :
      ∀ row ∈ made.map fun step => (⟨step.2.id, step.1.text⟩ : Directory), ¬(row.id == id) = true := by
    intro row member
    obtain ⟨step, isMade, rfl⟩ := List.mem_map.mp member
    have := (areNew step isMade).newer
    simp only [beq_iff_eq]
    omega
  rw [directoryPath?, directoryPath?, directory?, directory?, directories, List.find?_append,
    List.find?_eq_none.mpr newer, Option.or_none]

/-- What is in the trash stays, with the paths that it is listed with. -/
theorem trash_eq
    (makes : before.Makes now path after)
    (coherent : before.Coherent) :
    after.trash = before.trash := by
  obtain ⟨made, -, areNew, entries, -⟩ := makes.made
  have live : (made.map (·.2)).filter (·.isDeleted) = [] := by
    refine List.filter_eq_nil_iff.mpr fun entry member => ?_
    obtain ⟨step, isMade, rfl⟩ := List.mem_map.mp member
    obtain ⟨holder, fresh⟩ := (areNew step isMade).fresh
    rw [fresh]
    exact Bool.false_ne_true
  have placed :
      (before.entries.filter (·.isDeleted)).map after.place =
        (before.entries.filter (·.isDeleted)).map before.place := by
    refine List.map_congr_left fun entry member => ?_
    rw [place, place,
      makes.directoryPath?_eq (coherent.directoryId_le entry (List.mem_of_mem_filter member))]
  rw [trash, trash, entries, List.filter_append, live, List.append_nil, placed]

/-- What was found before is still found. -/
theorem lookupAt?_stays
    (makes : before.Makes now path after)
    (isCoherent : before.Coherent)
    (coherent : after.Coherent)
    (found : before.lookupAt? above = some entry) :
    after.lookupAt? above = some entry := by
  obtain ⟨made, -, -, entries, -⟩ := makes.made
  refine coherent.lookupAt?_eq_some_iff.mpr ?_
  exact (isCoherent.lookupAt?_eq_some_iff.mp found).mono fun _ member =>
    entries ▸ List.mem_append_left _ member

/-- No file was in the way. -/
theorem not_blocks
    (makes : before.Makes now path after)
    (isCoherent : before.Coherent)
    (coherent : after.Coherent) :
    ¬before.Blocks path above := by
  intro blocks
  obtain ⟨entry, found, isFile⟩ := blocks.isFile
  obtain ⟨directory, foundToo, isDirectory⟩ := makes.stands above blocks.along
  cases (makes.lookupAt?_stays isCoherent coherent found).symm.trans foundToo
  rw [isFile] at isDirectory
  cases isDirectory

end Makes

end Tables

namespace Txn

open VersionStore.Action

variable
  {setting : Setting}
  {strict : Prop}
  {known : List Entry}
  {now : Int}
  {before tables after : Tables}
  {names : List Name}
  {name : Name}
  {id : Int}
  {entry : Entry}

/-- A directory that was reached with everything that was made on the way to it. -/
structure Chained (strict : Prop) (known : List Entry) (now : Int) (before : Tables)
    (names : List Name) (id : Int) (tables : Tables) : Prop
    extends Reached strict known before names id tables where
  makes : before.Makes now ⟨names⟩ tables

namespace Chained

/-- The top is there. -/
theorem top
    (sound : before.Sound strict known)
    (now : Int) :
    Chained strict known now before [] rootId before := by
  obtain ⟨top, member, isTop⟩ := sound.coherent.top
  have found : before.lookupAt? ⟨[]⟩ = some top :=
    sound.coherent.lookupAt?_eq_some_iff.mpr (.top member isTop.id)
  have stands : before.Stands ⟨[]⟩ := by
    intro above along
    obtain rfl : above = ⟨[]⟩ := congrArg CleanPath.mk (List.prefix_nil.mp along)
    exact ⟨top, found, isTop.isDirectory⟩
  refine ⟨.top sound, ⟨⟨[], ?_, List.forall_mem_nil _, ?_, ?_⟩, rfl, rfl, rfl, ?_, stands⟩⟩ <;>
    simp [stands.missing]

/-- Where nothing is missing nothing changes. -/
theorem eq_of_missing
    (chained : Chained strict known now before names id tables)
    (isCoherent : before.Coherent)
    (nothing : before.missing ⟨names⟩ = []) :
    tables = before := by
  obtain ⟨made, steps, -, entries, -⟩ := chained.makes.made
  rw [nothing, List.map_eq_nil_iff] at steps
  rw [steps, List.map_nil, List.append_nil] at entries
  refine chained.fresh.resolve_right fun ⟨newer, _⟩ => ?_
  obtain ⟨entry, here, same, -⟩ := chained.here
  have := isCoherent.id_le entry (entries ▸ here.member)
  omega

/-- A directory that is there is one further on the way. -/
theorem into
    (chained : Chained strict known now before names id tables)
    (isCoherent : before.Coherent)
    (found : tables.lookupIn? id name.text = some entry)
    (isDirectory : entry.isDirectory = true) :
    Chained strict known now before (names ++ [name]) entry.id tables := by
  have coherent := chained.sound.coherent
  have here : tables.lookupAt? ⟨names ++ [name]⟩ = some entry :=
    coherent.lookupAt?_eq_some_iff.mpr (chained.at_found found).1
  have unchanged := chained.eq_of_found isCoherent found
  have same : before.missing ⟨names ++ [name]⟩ = before.missing ⟨names⟩ :=
    missing_concat_of_found (unchanged ▸ here)
  refine ⟨chained.toReached.into isCoherent found isDirectory, ?_⟩
  have makes := chained.makes
  refine ⟨?_, makes.parts, makes.targets, makes.links, ?_, makes.stands.concat here isDirectory⟩
  · rw [same]
    exact makes.made
  · rw [same]
    exact makes.lastEntryId

/-- A directory that is made is one further on the way. -/
theorem made
    (chained : Chained strict known now before names id tables)
    (isCoherent : before.Coherent)
    (missing : tables.lookupIn? id name.text = none)
    (added :
      Added tables after (freshEntry id name.text true now)
        (CleanPath.joinNames (names ++ [name]))) :
    Chained strict known now before (names ++ [name]) (tables.lastEntryId + 1) after := by
  have coherent := chained.sound.coherent
  have reached := chained.toReached.made missing added
  have makes := chained.makes
  have notOlder := chained.lastEntryId_le
  let new : Entry := { freshEntry id name.text true now with id := tables.lastEntryId + 1 }
  have newHere : after.lookupAt? ⟨names ++ [name]⟩ = some new := by
    obtain ⟨entry, here, same, -⟩ := reached.here
    have isNew : entry = new :=
      reached.sound.coherent.entry_eq here.member (added.mem_entries.mpr (.inr rfl)) same
    exact reached.sound.coherent.lookupAt?_eq_some_iff.mpr (isNew ▸ here)
  -- What was there at this path to begin with would have been found by its name.
  have nothing : before.lookupAt? ⟨names ++ [name]⟩ = none := by
    refine Option.eq_none_iff_forall_ne_some.mpr fun entry found => ?_
    obtain ⟨holder, here, same, -⟩ := chained.here
    have there := (isCoherent.lookupAt?_eq_some_iff.mp found).mono fun _ member =>
      chained.subset member
    have isFound := (coherent.lookupIn?_eq_some_iff here).mpr there
    rw [same, missing] at isFound
    cases isFound
  have stays {above : CleanPath} {entry : Entry}
      (found : tables.lookupAt? above = some entry) :
      after.lookupAt? above = some entry :=
    reached.sound.coherent.lookupAt?_eq_some_iff.mpr
      ((coherent.lookupAt?_eq_some_iff.mp found).mono fun _ member =>
        added.mem_entries.mpr (.inl member))
  have standing : after.Stands ⟨names⟩ := by
    intro above along
    obtain ⟨entry, found, isDirectory⟩ := makes.stands above along
    exact ⟨entry, stays found, isDirectory⟩
  obtain ⟨steps, areMissing, areNew, entries, directories⟩ := makes.made
  refine ⟨reached, ⟨⟨steps ++ [(⟨names ++ [name]⟩, new)], ?_, fun step member => ?_, ?_, ?_⟩,
    added.parts.trans makes.parts, added.targets.trans makes.targets,
    added.links.trans makes.links, ?_, standing.concat newHere rfl⟩⟩
  · rw [missing_concat_of_missing nothing, ← areMissing, List.map_append]
    rfl
  · rcases List.mem_append.mp member with old | last
    · have isNew := areNew step old
      exact ⟨stays isNew.found, isNew.newer, isNew.fresh⟩
    · rw [List.mem_singleton.mp last]
      refine ⟨newHere, ?_, id, ?_⟩
      · change before.lastEntryId < tables.lastEntryId + 1
        omega
      · rw [CleanPath.name, List.getLast?_concat]
  · rw [added.entries, entries, List.map_append, List.append_assoc]
    rfl
  · rw [added.directories, directories, List.map_append, List.append_assoc]
    rfl
  · rw [added.lastEntryId, makes.lastEntryId, missing_concat_of_missing nothing]
    simp [Int.add_assoc]

/-- A file that is in the way is the first one, and nothing was made yet. -/
theorem blocked
    (chained : Chained strict known now before names id tables)
    (isCoherent : before.Coherent)
    (found : tables.lookupIn? id name.text = some entry)
    (isFile : entry.isDirectory = false)
    (rest : List Name) :
    tables = before ∧
      before.Blocks ⟨names ++ [name] ++ rest⟩ ⟨names ++ [name]⟩ := by
  have unchanged := chained.eq_of_found isCoherent found
  have here := chained.sound.coherent.lookupAt?_eq_some_iff.mpr (chained.at_found found).1
  have stands := chained.makes.stands
  rw [unchanged] at here stands
  refine ⟨unchanged, ⟨List.prefix_append _ _, ⟨entry, here, isFile⟩, fun higher along other => ?_⟩⟩
  rcases List.prefix_concat_iff.mp along with isPath | shorter
  · exact (other (congrArg CleanPath.mk isPath)).elim
  · exact stands higher shorter

/-- Directories are found or made one after the other. -/
theorem advances
    (isCoherent : before.Coherent)
    (now : Int)
    (names : List Name) :
    Advances now names (Chained strict known now before) fun fault tables =>
      tables = before ∧
        ∃ above, before.Blocks ⟨names⟩ above ∧ fault = .invalidDestination above.text where
  coherent chained := chained.sound.coherent
  into chained found isDirectory := chained.into isCoherent found isDirectory
  made chained missing added := chained.made isCoherent missing added
  blocked whole chained found isFile := by
    obtain ⟨unchanged, blocks⟩ := chained.blocked isCoherent found isFile _
    exact ⟨unchanged, _, whole ▸ blocks, rfl⟩

end Chained

/-- The directories along a path are found or made, or the first file in the way is named and
nothing changes. -/
theorem makeDirectoriesAt_chains
    (now : Int)
    (sound : before.Sound strict known)
    (path : CleanPath) :
    Works setting (· = before)
      (makeDirectoriesAt now path)
      (Chained strict known now before path.names)
      fun fault tables =>
        tables = before ∧
          ∃ above, before.Blocks path above ∧ fault = .invalidDestination above.text := by
  refine (Chained.advances sound.coherent now path.names).makeDirectoriesAt ?_
  rintro _ rfl
  exact .top sound now

end Txn

end VersionStore
