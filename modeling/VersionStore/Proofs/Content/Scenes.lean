import VersionStore.Proofs.Content.Restoring

namespace VersionStore

/-!
# Restoring by what is seen

What comes of restoring entries can be told from what is seen at and below the destination, from
the files there that someone has open, and from the versions that the entries stand for. Where
two trees look alike below their destinations the same comes of it in both, however the versions
get there.
-/

open Tables VersionStore.Action

/-! ## What looks alike -/

/-- Two versions are alike. When they need not be alike in full, the first one may lack the
checksum that the other one has. -/
structure Version.Alike (full : Prop) (version other : Version) : Prop where
  writable : version.writable = other.writable
  lastModified : version.lastModified = other.lastModified
  length : version.length = other.length
  bytes : version.bytes = other.bytes
  checksum : version.checksum = other.checksum ∨ ¬full ∧ version.checksum = none

/-- Two directories are seen, or two versions that are alike. -/
inductive Sight.Alike (full : Prop) : Sight → Sight → Prop where
  | directory : Sight.Alike full .directory .directory
  | file {version other : Version}
      (alike : version.Alike full other) :
      Sight.Alike full (.file version) (.file other)

/-- What is seen of a tree, and the paths of the files that someone has open. -/
structure Scene where
  sights : Sights
  inUse : CleanPath → Prop

namespace Scene

variable
  {full : Prop}
  {scene other : Scene}
  {place otherPlace path : CleanPath}
  {version otherVersion : Version}
  {names : List Name}

/-- A file is put at a path, and no one has it open. -/
def put (scene : Scene) (path : CleanPath) (version : Version) : Scene where
  sights := scene.sights.put path version
  inUse other := other ≠ path ∧ scene.inUse other

/-- A file can be put at a path: at most a file is there that may be written to and that no one has
open, and no file is in the way. -/
structure Takes (scene : Scene) (path : CleanPath) : Prop where
  proper : ¬path.isRoot = true
  replaceable :
    ∀ sight,
      scene.sights path = some sight →
      ∃ version, sight = .file version ∧ version.writable = true
  free : ¬scene.inUse path
  leads : scene.sights.Leads path.dropLast

/-- Two trees look alike at and below a place in each of them, and files are in the way to both
places or to none. -/
structure Alike (full : Prop) (scene : Scene) (place : CleanPath) (other : Scene)
    (otherPlace : CleanPath) : Prop where
  seen :
    ∀ names,
      Option.Rel (Sight.Alike full) (scene.sights ⟨place.names ++ names⟩)
        (other.sights ⟨otherPlace.names ++ names⟩)
  inUse :
    ∀ names,
      scene.inUse ⟨place.names ++ names⟩ ↔ other.inUse ⟨otherPlace.names ++ names⟩
  leads : scene.sights.Leads place.dropLast ↔ other.sights.Leads otherPlace.dropLast

end Scene

/-- A version is like itself. -/
theorem Version.Alike.refl
    (full : Prop)
    (version : Version) :
    version.Alike full version :=
  ⟨rfl, rfl, rfl, rfl, .inl rfl⟩

namespace Sight.Alike

variable
  {full : Prop}
  {first second : Option Sight}

/-- What is seen is like itself. -/
theorem refl
    (full : Prop)
    (seen : Option Sight) :
    Option.Rel (Sight.Alike full) seen seen := by
  rcases seen with _ | _ | version
  · exact .none
  · exact .some .directory
  · exact .some (.file (.refl full version))

/-- Files are seen at both paths or at none. -/
theorem isFile_iff
    (alike : Option.Rel (Sight.Alike full) first second) :
    (∀ version, first ≠ some (.file version)) ↔ ∀ version, second ≠ some (.file version) := by
  rcases alike with ⟨_ | _⟩ | _ <;> simp

/-- What is at one path may be replaced exactly when what is at the other one may. -/
theorem replaceable_iff
    (alike : Option.Rel (Sight.Alike full) first second) :
    (∀ sight, first = some sight → ∃ version, sight = .file version ∧ version.writable = true) ↔
      ∀ sight, second = some sight → ∃ version, sight = .file version ∧ version.writable = true := by
  rcases alike with ⟨_ | alike⟩ | _
  · simp
  · simp [alike.writable]
  · simp

end Sight.Alike

/-! ## Putting a file -/

namespace Sights

variable
  {sights : Sights}
  {path : CleanPath}
  {version : Version}

/-- No file is in the way to where one was put. -/
theorem leads_put
    (proper : ¬path.isRoot = true)
    {upper : List Name}
    (above : upper <+: path.dropLast.names) :
    (sights.put path version).Leads ⟨upper⟩ := by
  obtain ⟨names, name, whole, isAbove, -⟩ := Txn.exists_names_of_not_isRoot proper
  intro other otherVersion along seen
  have within : other.names <+: path.dropLast.names := along.trans above
  have different : other ≠ path := by
    rintro rfl
    rw [whole, isAbove] at within
    exact not_prefix_of_concat names name within
  rw [put, set_of_ne different, lead_along within] at seen
  cases seen

end Sights

/-- Of the names below a place those lie along the way to a path below it that the path begins
with. -/
theorem CleanPath.below_along_iff
    {place : CleanPath}
    (proper : ¬place.isRoot = true)
    (names below : List Name) :
    place.names ++ below <+: (place.names ++ names).dropLast ↔
      names ≠ [] ∧ below <+: names.dropLast := by
  by_cases isPlace : names = []
  · subst isPlace
    obtain ⟨upper, name, whole, -⟩ := Txn.exists_names_of_not_isRoot proper
    refine iff_of_false (fun along => ?_) fun absurd => absurd.1 rfl
    rw [List.append_nil, whole, List.dropLast_concat] at along
    exact Sights.not_prefix_of_concat upper name ((List.prefix_append _ _).trans along)
  · rw [List.dropLast_append_of_ne_nil isPlace, List.prefix_append_right_inj]
    exact (and_iff_right isPlace).symm

namespace Scene

variable
  {full : Prop}
  {scene other : Scene}
  {place otherPlace : CleanPath}
  {version otherVersion : Version}

/-- A tree is like itself. -/
theorem Alike.refl
    (full : Prop)
    (scene : Scene)
    (place : CleanPath) :
    scene.Alike full place scene place :=
  ⟨fun _ => Sight.Alike.refl full _, fun _ => .rfl, .rfl⟩

/-- A path below a place is not the root. -/
theorem proper_below
    (proper : ¬place.isRoot = true)
    (names : List Name) :
    ¬(⟨place.names ++ names⟩ : CleanPath).isRoot = true := by
  obtain ⟨upper, name, whole, -⟩ := Txn.exists_names_of_not_isRoot proper
  simp [CleanPath.isRoot, whole]

namespace Alike

variable
  (alike : scene.Alike full place other otherPlace)
  (proper : ¬place.isRoot = true)
  (otherProper : ¬otherPlace.isRoot = true)

include alike proper otherProper

/-- Files are in the way to a path below one place exactly when they are in the way to the path
below the other one. -/
theorem leads_below
    (names : List Name) :
    scene.sights.Leads ⟨place.names ++ names⟩ ↔ other.sights.Leads ⟨otherPlace.names ++ names⟩ := by
  induction names using List.reverseRecOn with
  | nil =>
      have leads_place {scene : Scene} {place : CleanPath} (proper : ¬place.isRoot = true) :
          scene.sights.Leads ⟨place.names ++ []⟩ ↔
            scene.sights.Leads place.dropLast ∧
              ∀ version, scene.sights ⟨place.names ++ []⟩ ≠ some (.file version) := by
        obtain ⟨upper, name, whole, above, -⟩ := Txn.exists_names_of_not_isRoot proper
        have isUpper : place.dropLast = ⟨upper⟩ := congrArg CleanPath.mk above
        rw [List.append_nil, whole, isUpper, Sights.leads_concat_iff]
      rw [leads_place proper, leads_place otherProper]
      exact and_congr alike.leads (Sight.Alike.isFile_iff (alike.seen []))
  | append_singleton names name inductionHypothesis =>
      rw [← List.append_assoc, ← List.append_assoc, Sights.leads_concat_iff,
        Sights.leads_concat_iff, List.append_assoc, List.append_assoc]
      exact and_congr inductionHypothesis (Sight.Alike.isFile_iff (alike.seen (names ++ [name])))

/-- A file can be put below one place exactly when it can be put below the other one. -/
theorem takes_iff
    (names : List Name) :
    scene.Takes ⟨place.names ++ names⟩ ↔ other.Takes ⟨otherPlace.names ++ names⟩ := by
  have leads :
      scene.sights.Leads (CleanPath.dropLast ⟨place.names ++ names⟩) ↔
        other.sights.Leads (CleanPath.dropLast ⟨otherPlace.names ++ names⟩) := by
    rcases List.eq_nil_or_concat' names with rfl | ⟨names, name, rfl⟩
    · simpa [CleanPath.dropLast] using alike.leads
    · simp only [CleanPath.dropLast, ← List.append_assoc, List.dropLast_concat]
      exact alike.leads_below proper otherProper names
  constructor
  · intro takes
    exact ⟨proper_below otherProper names,
      (Sight.Alike.replaceable_iff (alike.seen names)).mp takes.replaceable,
      mt (alike.inUse names).mpr takes.free, leads.mp takes.leads⟩
  · intro takes
    exact ⟨proper_below proper names,
      (Sight.Alike.replaceable_iff (alike.seen names)).mpr takes.replaceable,
      mt (alike.inUse names).mp takes.free, leads.mpr takes.leads⟩

/-- What looks alike does so when files that are alike are put at the same names below both
places. -/
theorem put
    (names : List Name)
    (alikeVersions : version.Alike full otherVersion) :
    (scene.put ⟨place.names ++ names⟩ version).Alike full place
      (other.put ⟨otherPlace.names ++ names⟩ otherVersion) otherPlace := by
  have same_iff {place : CleanPath} (below : List Name) :
      (⟨place.names ++ below⟩ : CleanPath) = ⟨place.names ++ names⟩ ↔ below = names := by
    rw [CleanPath.mk.injEq, List.append_right_inj]
  have put_below {scene : Scene} {place : CleanPath} {version : Version}
      (proper : ¬place.isRoot = true) (below : List Name) :
      (scene.put ⟨place.names ++ names⟩ version).sights ⟨place.names ++ below⟩ =
        if below = names then some (.file version)
        else if names ≠ [] ∧ below <+: names.dropLast then some .directory
        else scene.sights ⟨place.names ++ below⟩ := by
    simp only [Scene.put, Sights.put, Sights.set, Sights.lead, same_iff, CleanPath.dropLast,
      CleanPath.below_along_iff proper]
  have leads_put {scene : Scene} {place : CleanPath} {version : Version}
      (proper : ¬place.isRoot = true) :
      (scene.put ⟨place.names ++ names⟩ version).sights.Leads place.dropLast := by
    refine Sights.leads_put (proper_below proper names) ?_
    rcases List.eq_nil_or_concat' names with rfl | ⟨names, name, rfl⟩
    · simp [CleanPath.dropLast]
    · simp only [CleanPath.dropLast, ← List.append_assoc, List.dropLast_concat]
      exact (List.dropLast_prefix _).trans (List.prefix_append _ _)
  refine ⟨fun below => ?_, fun below => ?_, iff_of_true (leads_put proper) (leads_put otherProper)⟩
  · rw [put_below proper, put_below otherProper]
    split
    · exact .some (.file alikeVersions)
    · split
      · exact .some .directory
      · exact alike.seen below
  · exact and_congr (not_congr ((same_iff below).trans (same_iff below).symm)) (alike.inUse below)

end Alike

end Scene

/-! ## One entry after the other -/

namespace Txn

variable
  {full : Prop}
  {single : Bool}
  {target otherTarget path : CleanPath}
  {info : TrashEntry}

/-- Below two destinations an entry is restored at the same names. -/
theorem RestoresTo.exists_names
    (isTarget : RestoresTo target single info path) :
    ∃ names,
      path = ⟨target.names ++ names⟩ ∧
        ∀ {other otherPath},
          RestoresTo other single info otherPath →
          otherPath = ⟨other.names ++ names⟩ := by
  cases isTarget with
  | alone =>
      refine ⟨[], by rw [List.append_nil], fun isOther => ?_⟩
      cases isOther
      rw [List.append_nil]
  | @below _ name called =>
      refine ⟨[name], rfl, fun isOther => ?_⟩
      cases isOther with
      | @below _ otherName otherCalled =>
          rw [show otherName = name from Subtype.ext (otherCalled.trans called.symm)]

/-- Entries were restored in order, by what is seen. One that stands for a version was put at its
path if a file could be put there, as the entries before it left the tree. Any other one changed
nothing. The numbers are those of the entries that were put and of those that were not. -/
inductive Settles (version? : TrashEntry → Option Version) (target : CleanPath) (single : Bool) :
    Scene → List TrashEntry → Nat × Nat → Scene → Prop where
  | done {scene : Scene} : Settles version? target single scene [] (0, 0) scene
  | restored {before after : Scene} {info : TrashEntry} {infos : List TrashEntry}
      {path : CleanPath} {version : Version} {restored failed : Nat}
      (isTarget : RestoresTo target single info path)
      (isVersion : version? info = some version)
      (takes : before.Takes path)
      (rest :
        Settles version? target single (before.put path version) infos (restored, failed) after) :
      Settles version? target single before (info :: infos) (restored + 1, failed) after
  | failed {before after : Scene} {info : TrashEntry} {infos : List TrashEntry}
      {path : CleanPath} {restored failed : Nat}
      (isTarget : RestoresTo target single info path)
      (barred : ∀ version, version? info = some version → ¬before.Takes path)
      (rest : Settles version? target single before infos (restored, failed) after) :
      Settles version? target single before (info :: infos) (restored, failed + 1) after

/-- The same comes of restoring entries below two places that look alike: the same numbers, and
places that look alike again. -/
theorem Settles.alike
    {version? otherVersion? : TrashEntry → Option Version}
    {before after otherBefore otherAfter : Scene}
    {infos : List TrashEntry}
    {counts otherCounts : Nat × Nat}
    (settles : Settles version? target single before infos counts after)
    (otherSettles : Settles otherVersion? otherTarget single otherBefore infos otherCounts otherAfter)
    (versions : ∀ info ∈ infos, Option.Rel (Version.Alike full) (version? info) (otherVersion? info))
    (alike : before.Alike full target otherBefore otherTarget)
    (proper : ¬target.isRoot = true)
    (otherProper : ¬otherTarget.isRoot = true) :
    counts = otherCounts ∧ after.Alike full target otherAfter otherTarget := by
  induction settles generalizing otherBefore otherCounts with
  | done =>
      cases otherSettles
      exact ⟨rfl, alike⟩
  | @restored before after info infos path version restored failed isTarget isVersion takes rest
      inductionHypothesis =>
      obtain ⟨names, rfl, onlyNames⟩ := isTarget.exists_names
      have alikeVersions := versions info List.mem_cons_self
      rw [isVersion] at alikeVersions
      cases otherSettles with
      | restored isOtherTarget isOtherVersion _ otherRest =>
          obtain rfl := onlyNames isOtherTarget
          rw [isOtherVersion] at alikeVersions
          cases alikeVersions with
          | some alikeVersions =>
              obtain ⟨same, alike⟩ := inductionHypothesis otherRest
                (fun other member => versions other (List.mem_cons_of_mem _ member))
                (alike.put proper otherProper names alikeVersions)
              cases same
              exact ⟨rfl, alike⟩
      | failed isOtherTarget barred =>
          obtain rfl := onlyNames isOtherTarget
          generalize isOtherVersion : otherVersion? info = other at alikeVersions
          cases alikeVersions with
          | some =>
              exact absurd ((alike.takes_iff proper otherProper names).mp takes)
                (barred _ isOtherVersion)
  | @failed before after info infos path restored failed isTarget barred rest
      inductionHypothesis =>
      obtain ⟨names, rfl, onlyNames⟩ := isTarget.exists_names
      have alikeVersions := versions info List.mem_cons_self
      cases otherSettles with
      | restored isOtherTarget isOtherVersion takes =>
          obtain rfl := onlyNames isOtherTarget
          rw [isOtherVersion] at alikeVersions
          generalize isVersion : version? info = version at alikeVersions
          cases alikeVersions with
          | some =>
              exact absurd ((alike.takes_iff proper otherProper names).mpr takes)
                (barred _ isVersion)
      | failed _ _ otherRest =>
          obtain ⟨same, alike⟩ := inductionHypothesis otherRest
            (fun other member => versions other (List.mem_cons_of_mem _ member)) alike
          cases same
          exact ⟨rfl, alike⟩

end Txn

/-! ## What tables come to -/

namespace Tables

variable
  {gives : Int → Bool → Bool}
  {history : Bool}
  {held : Int → Prop}
  {now : Int}
  {tables before after : Tables}
  {path : CleanPath}
  {row version : Entry}
  {info : TrashEntry}

/-- What is seen of tables while someone has some files open. -/
def scene (tables : Tables) (held : Int → Prop) : Scene where
  sights := tables.sights
  inUse path := ∃ entry, tables.FileAt path entry ∧ held entry.id

/-- The version in the trash that an entry of a listing stands for, as it is restored. -/
def version? (tables : Tables) (info : TrashEntry) : Option Version :=
  (tables.trashed? info.entry.id).map fun version =>
    { writable := true
      lastModified := version.lastModified
      length := version.length
      checksum := version.checksum
      bytes := bytesOf (tables.partsOf version.id) }

/-- Tables back an entry of a listing: what there is by its id is the file in the trash that it
tells of, or a directory that is live, or nothing any more. -/
structure Backs (tables : Tables) (info : TrashEntry) : Prop where
  named : IsName info.entry.name
  given : info.entry.id ≤ tables.lastEntryId
  kind :
    ∀ row ∈ tables.entries,
      row.id = info.entry.id →
      row.isDirectory = info.entry.isDirectory
  deleted :
    ∀ row ∈ tables.entries,
      row.id = info.entry.id →
      row.isDeleted = !info.entry.isDirectory
  modified :
    ∀ row ∈ tables.entries,
      row.id = info.entry.id →
      row.isDeleted = true →
      row.lastModified = info.entry.lastModified

/-- Tables back an entry whose id stands for the row that was listed, if the row is not that of a
directory in the trash. -/
theorem StandsFor.backs
    (stands : tables.StandsFor info.entry.id (Recalls info.entry))
    (named : IsName info.entry.name)
    (live :
      ∀ row ∈ tables.entries,
        row.id = info.entry.id →
        row.isDirectory = true →
        row.isDeleted = false) :
    tables.Backs info where
  named := named
  given := stands.given
  kind row member isId := (stands.row row member isId).kind
  deleted row member isId := by
    have recalls := stands.row row member isId
    cases isDirectory : row.isDirectory with
    | true =>
        rw [live row member isId isDirectory, ← recalls.kind, isDirectory]
        rfl
    | false =>
        rw [(recalls.trashed isDirectory).1, ← recalls.kind, isDirectory]
        rfl
  modified row member isId isDeleted := by
    refine ((stands.row row member isId).trashed (Bool.eq_false_iff.mpr fun isDirectory => ?_)).2
    exact Bool.false_ne_true ((live row member isId isDirectory).symm.trans isDeleted)

/-- What tables back is what was listed. -/
theorem Backs.standsFor
    (backs : tables.Backs info) :
    tables.StandsFor info.entry.id (Recalls info.entry) := by
  refine ⟨backs.given, fun row member isId => ⟨backs.kind row member isId, fun isFile => ?_⟩⟩
  have isDeleted : row.isDeleted = true := by
    rw [backs.deleted row member isId, ← backs.kind row member isId, isFile]
    rfl
  exact ⟨isDeleted, backs.modified row member isId isDeleted⟩

/-- A file can be put at a path that is not occupied when no file is in the way. -/
theorem takes_scene_iff :
    (tables.scene held).Takes path ↔
      ¬path.isRoot = true ∧ ¬tables.Occupied held path ∧ tables.sights.Leads path.dropLast := by
  constructor
  · intro takes
    refine ⟨takes.proper, not_occupied_iff.mpr fun old found => ?_, takes.leads⟩
    have seen : tables.sights path = some (tables.sightOf old) := by
      rw [sights, found]
      rfl
    obtain ⟨version, isVersion, writable⟩ := takes.replaceable _ seen
    have isFile : old.isDirectory = false := by
      refine Bool.eq_false_iff.mpr fun isDirectory => ?_
      rw [sightOf_directory isDirectory] at isVersion
      cases isVersion
    rw [sightOf_file isFile] at isVersion
    cases isVersion
    exact ⟨isFile, writable, fun isHeld => takes.free ⟨old, ⟨found, isFile⟩, isHeld⟩⟩
  · rintro ⟨proper, free, leads⟩
    refine ⟨proper, fun sight seen => ?_, ?_, leads⟩
    · obtain ⟨old, found, rfl⟩ := Option.map_eq_some_iff.mp seen
      obtain ⟨isFile, writable, -⟩ := not_occupied_iff.mp free old found
      exact ⟨tables.versionOf old, sightOf_file isFile, writable⟩
    · rintro ⟨old, here, isHeld⟩
      exact (not_occupied_iff.mp free old here.found).2.2 isHeld

/-- A version can be restored where a file can be put. -/
theorem Coherent.restorable_iff
    (coherent : tables.Coherent) :
    tables.Restorable held info path version ↔
      tables.trashed? info.entry.id = some version ∧ (tables.scene held).Takes path := by
  rw [takes_scene_iff, coherent.leads_iff]
  exact ⟨fun able => ⟨able.trashed, able.proper, able.free, able.leads⟩,
    fun ⟨trashed, proper, free, leads⟩ => ⟨trashed, proper, free, leads⟩⟩

/-- Where the locks are given on the files that no one has open, a file is accepted where it can be
put. -/
theorem accepts_iff_takes
    (exclusive : ∀ id, gives id true = true ↔ ¬held id) :
    tables.Accepts gives path ↔ (tables.scene held).Takes path := by
  simp only [takes_scene_iff, not_occupied_iff, ← exclusive]
  exact ⟨fun accepts => ⟨accepts.proper, accepts.replaceable, accepts.leads⟩,
    fun ⟨proper, replaceable, leads⟩ => ⟨proper, replaceable, leads⟩⟩

namespace Replaced

variable (replaced : before.Replaced history held now path row after)

include replaced

/-- No row comes under an id that was given when a file is replaced, unless it was there and is no
file that went to the trash. -/
theorem mem_of_backed
    (backs : before.Backs info)
    {entry : Entry}
    (member : entry ∈ after.entries)
    (isInfo : entry.id = info.entry.id) :
    entry ∈ before.entries := by
  have given := backs.given
  rcases replaced.origin entry member with old | rfl | ⟨isNew, -, -⟩ | ⟨-, old, found, rfl⟩
  · exact old
  · have isNew := replaced.isNew
    omega
  · omega
  · have isFile := isFile_of_free replaced.free found
    obtain ⟨oldMember, live⟩ := mem_of_lookup? found
    have deleted := backs.deleted old oldMember isInfo
    rw [← backs.kind old oldMember isInfo, isFile, live] at deleted
    cases deleted

/-- An entry that is backed stays so when a file is replaced. -/
theorem backs
    (coherentAfter : after.Coherent)
    (backs : before.Backs info) :
    after.Backs info where
  named := backs.named
  given := by
    have given := backs.given
    have isNew := replaced.isNew
    have last := coherentAfter.id_le row (coherentAfter.entry?_eq_some_iff.mp replaced.found).1
    omega
  kind entry member isInfo :=
    backs.kind entry (replaced.mem_of_backed backs member isInfo) isInfo
  deleted entry member isInfo :=
    backs.deleted entry (replaced.mem_of_backed backs member isInfo) isInfo
  modified entry member isInfo :=
    backs.modified entry (replaced.mem_of_backed backs member isInfo) isInfo

variable (coherent : before.Coherent)

include coherent

/-- A file at another path is seen as before when it is not along the way. -/
theorem sights_elsewhere
    {other : CleanPath}
    (elsewhere : other ≠ path)
    (away : ¬other.names <+: path.dropLast.names) :
    after.sights other = before.sights other := by
  have same : after.lookupAt? other = before.lookupAt? other :=
    (replaced.elsewhere other elsewhere).resolve_right fun made => away made.1
  rw [sights, sights, same]
  cases found : before.lookupAt? other with
  | none =>
      rfl
  | some entry =>
      have here := coherent.lookupAt?_eq_some_iff.mp found
      have isOther : before.lookupAt? path ≠ some entry := fun isPath =>
        elsewhere (SameBut.path_unique coherent (coherent.lookupAt?_eq_some_iff.mp isPath) here rfl)
      exact congrArg some (sightOf_congr (replaced.kept entry here.member isOther).2.pieces)

/-- What is seen after a replacement is what was seen, with the new file put at its path. -/
theorem scene_eq
    (unused : ∀ id, before.lastEntryId < id → ¬held id) :
    after.scene held = (before.scene held).put path (after.versionOf row) := by
  have seen : after.sights = before.sights.put path (after.versionOf row) := by
    funext other
    by_cases isPath : other = path
    · rw [isPath, Sights.put, Sights.set_self, sights, replaced.placed, Option.map_some,
        sightOf_file replaced.isFile]
    rw [Sights.put, Sights.set_of_ne isPath]
    by_cases along : other.names <+: path.dropLast.names
    · obtain ⟨holder, found, isDirectory⟩ := replaced.leads other.names along
      rw [Sights.lead_along along, sights, found, Option.map_some, sightOf_directory isDirectory]
    · rw [Sights.lead_elsewhere along]
      exact replaced.sights_elsewhere coherent isPath along
  have inUse other :
      (∃ entry, after.FileAt other entry ∧ held entry.id) ↔
        other ≠ path ∧ ∃ entry, before.FileAt other entry ∧ held entry.id := by
    by_cases isPath : other = path
    · subst isPath
      refine iff_of_false ?_ fun absurd => absurd.1 rfl
      rintro ⟨entry, here, isHeld⟩
      cases here.found.symm.trans replaced.placed
      exact unused _ replaced.isNew isHeld
    rw [and_iff_right isPath]
    refine exists_congr fun entry => and_congr_left fun _ => ?_
    rcases replaced.elsewhere other isPath with same | ⟨-, missing, holder, found, isDirectory, -⟩
    · exact ⟨fun here => ⟨same.symm.trans here.found, here.isFile⟩,
        fun here => ⟨same.trans here.found, here.isFile⟩⟩
    · refine iff_of_false (fun here => ?_) fun here => ?_
      · cases here.found.symm.trans found
        exact Bool.false_ne_true (here.isFile.symm.trans isDirectory)
      · cases missing.symm.trans here.found
  exact congrArg₂ Scene.mk seen (funext fun other => propext (inUse other))

/-- An entry that is backed stands for the same version when a file is replaced. -/
theorem version?_eq
    (coherentAfter : after.Coherent)
    (backs : before.Backs info) :
    after.version? info = before.version? info := by
  unfold version?
  cases found : before.trashed? info.entry.id with
  | none =>
      have missing : after.trashed? info.entry.id = none := by
        refine Option.eq_none_iff_forall_ne_some.mpr fun version isFound => ?_
        obtain ⟨member, isInfo, isDeleted⟩ := mem_of_trashed? isFound
        have wasThere := coherent.trashed?_eq_some
          (replaced.mem_of_backed backs member isInfo) isDeleted
        rw [isInfo, found] at wasThere
        cases wasThere
      rw [missing]
      rfl
  | some version =>
      obtain ⟨member, isInfo, isDeleted⟩ := mem_of_trashed? found
      obtain ⟨stays, untouched⟩ := replaced.kept version member fun isLive =>
        Bool.false_ne_true ((mem_of_lookup? isLive).2.symm.trans isDeleted)
      have parts : after.partsOf version.id = before.partsOf version.id :=
        congrArg (List.mergeSort · offsetLe) untouched.pieces
      rw [← isInfo, coherentAfter.trashed?_eq_some stays isDeleted, Option.map_some,
        Option.map_some, parts]

end Replaced

end Tables

namespace Txn

variable
  {setting : Setting}
  {gives : Int → Bool → Bool}
  {strict : Prop}
  {known : List Entry}
  {held : Int → Prop}
  {history : Bool}
  {now : Int}
  {before after : Tables}
  {target path : CleanPath}
  {info : TrashEntry}
  {infos : List TrashEntry}
  {row version : Entry}

/-- A copy of the version that an entry stands for is seen as that version. -/
theorem Copied.version?_eq
    (copied : Copied history held now before version version.lastModified path row after)
    (trashed : before.trashed? info.entry.id = some version) :
    before.version? info = some (after.versionOf row) := by
  rw [Tables.version?, trashed, Option.map_some, versionOf, copied.writable, copied.modified,
    copied.length, copied.checksum, ← bytesOf_map_bare, ← copied.stored, bytesOf_map_bare]

/-- What comes of restoring entries that are backed is told by what is seen. -/
theorem restoreEach_settles
    (now : Int)
    (target : CleanPath)
    (single : Bool)
    (backs : ∀ info ∈ infos, before.Backs info)
    (unused : ∀ id, before.lastEntryId < id → ¬setting.held id)
    (sound : before.Sound strict known)
    (numbered : before.Numbered)
    (lends : before.Lends gives setting.held) :
    Decides setting gives (· = before) (restoreEach now target single infos) True
      (fun counts after =>
        after.Sound strict known ∧
          Settles before.version? target single (before.scene setting.held) infos counts
            (after.scene setting.held)) := by
  let reaches (start : Tables) (infos : List TrashEntry) (counts : Nat × Nat) (after : Tables) :
      Prop :=
    ∀ version? : TrashEntry → Option Version,
      (∀ info ∈ infos, start.Backs info ∧ start.version? info = version? info) →
      (∀ id, start.lastEntryId < id → ¬setting.held id) →
      after.Sound strict known ∧
        Settles version? target single (start.scene setting.held) infos counts
          (after.scene setting.held)
  have reached :
      Decides setting gives (· = before) (restoreEach now target single infos) True
        (reaches before infos) := by
    refine restoreEach_decides now target single ?done ?restored ?failed
      (fun info member => (backs info member).named) sound numbered lends
    case done =>
      exact fun sound _ _ _ => ⟨sound, .done⟩
    case restored =>
      intro start middle after info infos path version row restored failed sound soundMiddle
        isTarget restorable copied rest version? backed unused
      have coherent := sound.coherent
      have replaced := copied.toReplaced
      obtain ⟨trashed, takes⟩ := coherent.restorable_iff.mp restorable
      have isVersion := copied.version?_eq trashed
      rw [(backed info List.mem_cons_self).2] at isVersion
      have backedAfter (other : TrashEntry) (member : other ∈ infos) :
          middle.Backs other ∧ middle.version? other = version? other := by
        obtain ⟨backs, same⟩ := backed other (List.mem_cons_of_mem _ member)
        exact ⟨replaced.backs soundMiddle.coherent backs,
          (replaced.version?_eq coherent soundMiddle.coherent backs).trans same⟩
      have unusedAfter (id : Int) (fresh : middle.lastEntryId < id) : ¬setting.held id := by
        have isNew := replaced.isNew
        have last := soundMiddle.coherent.id_le row
          (soundMiddle.coherent.entry?_eq_some_iff.mp replaced.found).1
        exact unused id (by omega)
      obtain ⟨soundAfter, settles⟩ := rest version? backedAfter unusedAfter
      rw [replaced.scene_eq coherent unused] at settles
      exact ⟨soundAfter, .restored isTarget isVersion takes settles⟩
    case failed =>
      intro start after info infos path restored failed sound isTarget barred rest version? backed
        unused
      obtain ⟨soundAfter, settles⟩ :=
        rest version? (fun other member => backed other (List.mem_cons_of_mem _ member)) unused
      refine ⟨soundAfter, .failed isTarget (fun version isVersion takes => ?_) settles⟩
      rw [← (backed info List.mem_cons_self).2] at isVersion
      obtain ⟨row, trashed, -⟩ := Option.map_eq_some_iff.mp isVersion
      exact barred row (sound.coherent.restorable_iff.mpr ⟨trashed, takes⟩)
  exact reached.weaken (fun _ same => same) fun _ _ reaches =>
    reaches before.version? (fun info member => ⟨backs info member, rfl⟩) unused

/-- What comes of restoring entries that are backed to the path of a text is told by what is
seen. -/
theorem recover_settles
    (now : Int)
    {text : String}
    (isPath : CleanPath.ofText text = .ok target)
    (backs : ∀ info ∈ infos, before.Backs info)
    (unused : ∀ id, before.lastEntryId < id → ¬setting.held id)
    (sound : before.Sound strict known)
    (numbered : before.Numbered)
    (lends : before.Lends gives setting.held) :
    Decides setting gives (· = before) (recover now text infos) True
      (fun counts after =>
        after.Sound strict known ∧
          Settles before.version? target (infos.length == 1) (before.scene setting.held) infos
            counts (after.scene setting.held)) :=
  .known target before (clean_known isPath)
    (restoreEach_settles now target _ backs unused sound numbered lends)

end Txn

end VersionStore
