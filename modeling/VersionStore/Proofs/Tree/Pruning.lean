import VersionStore.Proofs.Tree.Clearing
import VersionStore.Proofs.Tree.Versions

namespace VersionStore

/-!
# Pruning is a sweep

Pruning goes through entries of listings in order, and removes the trashed files that each of them
stands for in the tables as those before it left them. Entries may stand for the same files, and
for files that are gone. What is removed in the end is every file that some entry stands for, once,
so that pruning comes to what a sweep comes to that accepts these files.
-/

/-- Entries of listings name an entry by its id or, where all versions are meant, by its place: the
path that its directory has now, and its name. -/
def Tables.Named (tables : Tables) (all : Bool) (infos : List TrashEntry) (entry : Entry) : Prop :=
  ∃ info ∈ infos,
    if all then
      info.entry.isDirectory = false ∧
        tables.directoryPath? entry.directoryId = some info.directory ∧
          entry.name = info.entry.name
    else info.entry.id = entry.id

namespace Txn

open Tables VersionStore.Action

variable
  {setting : Setting}
  {before tables : Tables}
  {all : Bool}
  {info : TrashEntry}
  {infos : List TrashEntry}

/-! ## Files that are taken away first -/

/-- A file that is taken away is not asked about. -/
theorem asked_withoutFiles
    (tables : Tables)
    (ids : List Int) :
    asked (withoutFiles tables ids) =
      (asked tables).filter fun trashed => trashed.entry.id ∉ ids := by
  rw [asked, asked, trash_withoutFiles, List.filter_filter, List.filter_filter]
  exact List.filter_congr fun trashed _ => Bool.and_comm _ _

/-- Directories stay in the trash while files are taken away. -/
theorem trashedDirectories_withoutFiles
    {ids : List Int}
    (files : ∀ entry ∈ tables.entries, entry.id ∈ ids → entry.isDirectory = false) :
    trashedDirectories (withoutFiles tables ids) = trashedDirectories tables := by
  rw [trashedDirectories, trashedDirectories, trash_withoutFiles, List.filter_filter]
  refine congrArg _ (List.filter_congr fun trashed member => ?_)
  cases isDirectory : trashed.entry.isDirectory with
  | false =>
      rfl
  | true =>
      rw [Bool.true_and, decide_eq_true_eq]
      intro taken
      rw [files trashed.entry (mem_trash_iff.mp member).1 taken] at isDirectory
      exact Bool.false_ne_true isDirectory

/-- Tables without the files in the trash that a predicate accepts. -/
def withoutAccepted (tables : Tables) (accepts : TrashEntry → Bool) : Tables :=
  withoutFiles tables (((asked tables).filter accepts).map (·.entry.id))

/-- What has the id of a file that is asked about is a file. -/
theorem isFile_of_mem_asked
    (coherent : tables.Coherent)
    {accepts : TrashEntry → Bool} :
    ∀ entry ∈ tables.entries,
      entry.id ∈ ((asked tables).filter accepts).map (·.entry.id) →
      entry.isDirectory = false := by
  intro entry member taken
  obtain ⟨trashed, isAccepted, same⟩ := List.mem_map.mp taken
  obtain ⟨isAsked, -⟩ := List.mem_filter.mp isAccepted
  obtain ⟨listed, isFile⟩ := List.mem_filter.mp isAsked
  rw [← coherent.entry_eq (mem_trash_iff.mp listed).1 member same]
  simpa using isFile

/-- Sound tables stay sound when files are taken away. -/
theorem sound_withoutAccepted
    {strict : Prop}
    {known : List Entry}
    (sound : tables.Sound strict known)
    (accepts : TrashEntry → Bool) :
    (withoutAccepted tables accepts).Sound strict known :=
  sound.withoutFiles (isFile_of_mem_asked sound.coherent)

/-- Files that are not accepted are the ones that are asked about next. -/
theorem asked_withoutAccepted
    (coherent : tables.Coherent)
    (accepts : TrashEntry → Bool) :
    asked (withoutAccepted tables accepts) =
      (asked tables).filter fun trashed => !accepts trashed := by
  rw [withoutAccepted, asked_withoutFiles]
  refine List.filter_congr fun trashed isAsked => ?_
  have taken :
      trashed.entry.id ∈ ((asked tables).filter accepts).map (·.entry.id) ↔
        accepts trashed = true := by
    constructor
    · intro isTaken
      obtain ⟨other, isAccepted, same⟩ := List.mem_map.mp isTaken
      obtain ⟨otherAsked, accepted⟩ := List.mem_filter.mp isAccepted
      rwa [← Coherent.eq_of_pairwise_lt (pairwise_asked coherent) otherAsked isAsked same]
    · exact fun accepted =>
        List.mem_map.mpr ⟨trashed, List.mem_filter.mpr ⟨isAsked, accepted⟩, rfl⟩
  simp only [taken, Bool.decide_eq_true, decide_not]

/-- To take away what one predicate accepts and then what another does is to take away what either
of them accepts. -/
theorem withoutAccepted_twice
    (coherent : tables.Coherent)
    (first second : TrashEntry → Bool) :
    withoutAccepted (withoutAccepted tables first) second =
      withoutAccepted tables fun trashed => first trashed || second trashed := by
  rw [withoutAccepted, asked_withoutAccepted coherent, withoutAccepted, withoutFiles_append,
    withoutAccepted]
  refine withoutFiles_congr tables fun id => ?_
  simp only [List.mem_append, List.mem_map, List.mem_filter, Bool.not_eq_true', Bool.or_eq_true]
  grind

/-- The files of one predicate and then those of another are as many as either of them accepts. -/
theorem length_asked_withoutAccepted
    (coherent : tables.Coherent)
    (first second : TrashEntry → Bool) :
    ((asked tables).filter first).length +
        ((asked (withoutAccepted tables first)).filter second).length =
      ((asked tables).filter fun trashed => first trashed || second trashed).length := by
  have split :=
    List.length_eq_length_filter_add
      (l := (asked tables).filter fun trashed => first trashed || second trashed) first
  have firsts (trashed : TrashEntry) :
      (first trashed && (first trashed || second trashed)) = first trashed := by
    cases first trashed <;> rfl
  have others (trashed : TrashEntry) :
      (!first trashed && (first trashed || second trashed)) =
        (second trashed && !first trashed) := by
    cases first trashed <;> simp
  rw [split, asked_withoutAccepted coherent]
  simp only [List.filter_filter, firsts, others]

/-- When the files that a sweep accepts are taken away first, a sweep that accepts none does the
rest. -/
theorem sweepTables_withoutAccepted
    (coherent : before.Coherent)
    (accepts : TrashEntry → Bool) :
    let swept := sweepTables (some fun _ trashed => accepts trashed) before
    sweepTables none (withoutAccepted before accepts) = ((0, swept.1.2), swept.2) := by
  have sameStart :
      pruned none (withoutAccepted before accepts) =
        pruned (some fun _ trashed => accepts trashed) before := by
    rw [pruned, pruned, accepted_pure, accepted, List.map_nil, withoutFiles_nil]
    rfl
  dsimp only
  rw [sweepTables_eq, sweepTables_eq, sameStart, withoutAccepted,
    trashedDirectories_withoutFiles (isFile_of_mem_asked coherent)]
  rfl

/-! ## What entries stand for -/

/-- A listed entry that is a file stands for itself or, where all versions are meant, for the files
at its place. -/
def standsFor (all : Bool) (info trashed : TrashEntry) : Bool :=
  !info.entry.isDirectory &&
    if all then trashed.directory == info.directory && trashed.entry.name == info.entry.name
    else info.entry.id == trashed.entry.id

/-- Some of the entries stands for a file. -/
def isMeant (all : Bool) (infos : List TrashEntry) (trashed : TrashEntry) : Bool :=
  infos.any fun info => standsFor all info trashed

/-- The files that are asked about are the versions in the trash. -/
theorem mem_asked_iff
    {trashed : TrashEntry} :
    trashed ∈ asked tables ↔ tables.IsVersion trashed := by
  rw [asked, List.mem_filter, mem_trash_iff]
  constructor
  · rintro ⟨⟨member, deleted, isPath⟩, kind⟩
    exact ⟨member, by rw [isTrashedFile, deleted, kind, Bool.and_self], isPath⟩
  · rintro ⟨member, isTrashed, isPath⟩
    rw [isTrashedFile, Bool.and_eq_true] at isTrashed
    exact ⟨⟨member, isTrashed.1, isPath⟩, isTrashed.2⟩

/-- The versions that are meant are those that the entry stands for. -/
theorem mem_versionsMeant_iff
    (coherent : tables.Coherent)
    (integral : tables.Integral)
    (isFile : info.entry.isDirectory = false)
    {entry : Entry} :
    entry ∈ versionsMeant tables all info ↔
      ∃ trashed, tables.IsVersion trashed ∧ standsFor all info trashed = true ∧
        trashed.entry = entry := by
  have kind {trashed : TrashEntry} (isVersion : tables.IsVersion trashed) :
      trashed.entry.isDeleted = true ∧ trashed.entry.isFile = true := by
    simpa [isTrashedFile, Entry.isFile] using isVersion.isTrashed
  cases all with
  | true =>
      simp only [versionsMeant, standsFor, isFile, if_true, List.mem_filter, List.mem_map,
        mem_versionsOf_iff, Bool.not_false, Bool.true_and, Bool.and_eq_true, beq_iff_eq]
      constructor
      · rintro ⟨⟨trashed, ⟨isVersion, here, called⟩, rfl⟩, -⟩
        exact ⟨trashed, isVersion, ⟨here, called⟩, rfl⟩
      · rintro ⟨trashed, isVersion, ⟨here, called⟩, rfl⟩
        exact ⟨⟨trashed, ⟨isVersion, here, called⟩, rfl⟩, (kind isVersion).2⟩
  | false =>
      simp only [versionsMeant, standsFor, isFile, Bool.false_eq_true, if_false, List.mem_filter,
        Option.mem_toList, Bool.not_false, Bool.true_and, beq_iff_eq]
      constructor
      · rintro ⟨found, notDirectory⟩
        obtain ⟨member, same, deleted⟩ := mem_of_trashed? found
        obtain ⟨directory, listed⟩ := exists_mem_trash coherent integral member deleted
        exact ⟨⟨directory, entry⟩,
          mem_asked_iff.mp (List.mem_filter.mpr ⟨listed, notDirectory⟩), same.symm, rfl⟩
      · rintro ⟨trashed, isVersion, same, rfl⟩
        obtain ⟨deleted, notDirectory⟩ := kind isVersion
        rw [same]
        exact ⟨coherent.trashed?_eq_some isVersion.member deleted, notDirectory⟩

/-- No version is meant twice. -/
theorem nodup_versionsMeant
    (coherent : tables.Coherent) :
    (versionsMeant tables all info).Nodup := by
  refine List.Nodup.filter _ ?_
  cases all with
  | true =>
      refine List.Nodup.map_on (fun first isFirst second isSecond same => ?_)
        coherent.nodup_versionsOf
      obtain ⟨-, here, -⟩ := mem_versionsOf_iff.mp isFirst
      obtain ⟨-, there, -⟩ := mem_versionsOf_iff.mp isSecond
      cases first
      cases second
      exact TrashEntry.mk.injEq .. ▸ ⟨here.trans there.symm, same⟩
  | false =>
      cases found : tables.trashed? info.entry.id with
      | none =>
          exact .nil
      | some entry =>
          exact List.nodup_singleton entry

/-- No file is asked about twice. -/
theorem nodup_entry_filter_asked
    (coherent : tables.Coherent)
    (accepts : TrashEntry → Bool) :
    (((asked tables).filter accepts).map (·.entry)).Nodup := by
  have distinct : (((asked tables).map (·.entry)).map (·.id)).Nodup := by
    rw [List.map_map]
    exact (pairwise_asked coherent).imp Int.ne_of_lt
  exact (List.Nodup.of_map _ distinct).sublist (List.filter_sublist.map _)

/-- The versions that are meant are what a sweep accepts that takes what the entry stands for. -/
theorem versionsMeant_perm
    (coherent : tables.Coherent)
    (integral : tables.Integral)
    (all : Bool)
    (isFile : info.entry.isDirectory = false) :
    (versionsMeant tables all info).Perm
      (((asked tables).filter (standsFor all info)).map (·.entry)) := by
  refine (List.perm_ext_iff_of_nodup (nodup_versionsMeant coherent)
    (nodup_entry_filter_asked coherent _)).mpr fun entry => ?_
  rw [mem_versionsMeant_iff coherent integral isFile]
  simp only [List.mem_map, List.mem_filter, mem_asked_iff, and_assoc]

/-! ## Row by row -/

/-- Rows of files that are there are removed, and each counts once. -/
theorem pruneRows_removes
    {entries : List Entry}
    (ids : (before.entries.map (·.id)).Nodup)
    (members : ∀ entry ∈ entries, entry ∈ before.entries ∧ entry.isDirectory = false)
    (distinct : (entries.map (·.id)).Nodup) :
    Works setting (· = before) (pruneRows entries)
      (fun count tables =>
        count = entries.length ∧ tables = withoutFiles before (entries.map (·.id)))
      fun _ _ => False := by
  induction entries generalizing before with
  | nil =>
      refine .pure ?_
      rintro _ rfl
      exact ⟨rfl, (withoutFiles_nil _).symm⟩
  | cons entry rest inductionHypothesis =>
      obtain ⟨member, isFile⟩ := members entry (by simp)
      obtain ⟨isNew, restDistinct⟩ := List.nodup_cons.mp distinct
      have once : before.entryCount entry.id = 1 := by
        have counted := List.count_eq_one_of_mem ids (List.mem_map_of_mem member)
        rwa [List.count, List.countP_map] at counted
      have restMembers :
          ∀ other ∈ rest,
            other ∈ (withoutFiles before [entry.id]).entries ∧ other.isDirectory = false := by
        intro other otherMember
        obtain ⟨there, otherFile⟩ := members other (List.mem_cons_of_mem _ otherMember)
        refine ⟨List.mem_filter.mpr ⟨there, decide_eq_true fun same => isNew ?_⟩, otherFile⟩
        exact List.mem_map.mpr ⟨other, otherMember, List.mem_singleton.mp same⟩
      rw [pruneRows]
      have removes :
          Works setting (· = before) (pruneRow entry)
            (fun count tables => count = 1 ∧ tables = withoutFiles before [entry.id])
            fun _ _ => False := by
        refine (counted_works _ entry.id).promising ?_
        rintro _ _ ⟨rfl, rfl⟩
        rw [if_neg (by simp [isFile])]
        exact ⟨once, eraseFile_eq before entry.id⟩
      refine .known 1 removes (.bind _ (inductionHypothesis
        (ids.sublist (List.filter_sublist.map _)) restMembers restDistinct) fun more => .pure ?_)
      rintro _ ⟨rfl, rfl⟩
      exact ⟨Nat.add_comm _ _, withoutFiles_append before [entry.id] _⟩

/-- The versions that an entry stands for are removed, and each counts once. -/
theorem pruneRows_takes
    (coherent : before.Coherent)
    (integral : before.Integral)
    (all : Bool)
    (isFile : info.entry.isDirectory = false) :
    Works setting (· = before) (pruneRows (versionsMeant before all info))
      (fun count tables =>
        count = ((asked before).filter (standsFor all info)).length ∧
          tables = withoutAccepted before (standsFor all info))
      fun _ _ => False := by
  have perm := versionsMeant_perm coherent integral all isFile
  have idPerm := perm.map (·.id)
  rw [List.map_map] at idPerm
  have ascending :=
    (pairwise_asked coherent).sublist ((List.filter_sublist (p := standsFor all info)).map _)
  refine (pruneRows_removes (coherent.ids.imp Int.ne_of_lt) (fun entry member => ?_)
    (idPerm.nodup_iff.mpr (ascending.imp Int.ne_of_lt))).promising ?_
  · obtain ⟨inTable, notDirectory, -⟩ := of_mem_versionsMeant member
    exact ⟨inTable, notDirectory⟩
  · rintro count tables ⟨rfl, rfl⟩
    refine ⟨perm.length_eq.trans (List.length_map _), ?_⟩
    exact withoutFiles_congr before fun _ => idPerm.mem_iff

/-! ## Entry by entry -/

/-- The files that some entry stands for are removed, and each counts once. -/
theorem pruneVersions_takes
    {known : List Entry}
    (sound : before.Sound True known) :
    Works setting (· = before) (pruneVersions all infos)
      (fun count tables =>
        count = ((asked before).filter (isMeant all infos)).length ∧
          tables = withoutAccepted before (isMeant all infos))
      fun _ _ => False := by
  induction infos generalizing before with
  | nil =>
      have none_ : (asked before).filter (isMeant all []) = [] := by
        simp [isMeant]
      refine .pure ?_
      rintro _ rfl
      rw [withoutAccepted, none_]
      exact ⟨rfl, (withoutFiles_nil _).symm⟩
  | cons info rest inductionHypothesis =>
      have isMeant_cons :
          isMeant all (info :: rest) =
            fun trashed => standsFor all info trashed || isMeant all rest trashed :=
        rfl
      rw [pruneVersions]
      refine .ite (fun isDirectory => ?_) fun notDirectory => ?_
      · have skipped : isMeant all (info :: rest) = isMeant all rest := by
          funext trashed
          simp [isMeant_cons, standsFor, isDirectory]
        rw [skipped]
        exact inductionHypothesis sound
      have coherent := sound.coherent
      have isFile := Bool.eq_false_iff.mpr notDirectory
      -- The entries that follow find the tables without the files that this one stands for.
      have further := inductionHypothesis (sound_withoutAccepted sound (standsFor all info))
      refine .known (versionsMeant before all info) (.query ?_)
        (.known _ (pruneRows_takes coherent (sound.integral trivial) all isFile)
          (.bind _ further fun more => .pure ?_))
      · rintro _ rfl
        exact ⟨rfl, rfl⟩
      rintro _ ⟨rfl, rfl⟩
      rw [isMeant_cons, length_asked_withoutAccepted coherent, withoutAccepted_twice coherent]
      exact ⟨rfl, rfl⟩

/-- Pruning comes to what a sweep comes to that accepts the files which entries stand for. -/
theorem pruneHistory_sweeps
    {known : List Entry}
    (sound : before.Sound True known)
    (all : Bool)
    (infos : List TrashEntry) :
    Works setting (· = before) (pruneHistory infos all)
      (fun counts tables =>
        (counts, tables) = sweepTables (some fun _ trashed => isMeant all infos trashed) before)
      fun _ _ => False := by
  refine .known _ (pruneVersions_takes sound) (.bind _ (sweep_works none _) fun counts => .pure ?_)
  intro tables isResult
  rw [sweepTables_withoutAccepted sound.coherent] at isResult
  obtain ⟨rfl, rfl⟩ := Prod.mk.inj isResult
  rw [sweepTables_eq, accepted_pure]

/-! ## What is left -/

/-- What pruning has to leave of some tables, by the files that are named: each of these is removed
once with its parts and its links, and a sweep that removes no file takes directories away. -/
structure PrunedTo (before : Tables) (all : Bool) (infos named : List TrashEntry)
    (counts : Nat × Nat) (after : Tables) : Prop where
  mem_iff :
    ∀ entry,
      entry ∈ named.map (·.entry) ↔
        entry ∈ before.entries ∧ isTrashedFile entry = true ∧ before.Named all infos entry
  once : (named.map (·.entry)).Nodup
  files : counts.1 = named.length
  swept : Swept before named counts after
  directories :
    sweepTables none (withoutFiles before (named.map (·.entry.id))) = ((0, counts.2), after)

/-- Some entry stands for a version exactly when the entries name it. -/
theorem isMeant_iff_named
    (agrees : ∀ info ∈ infos, Agrees info.entry tables)
    {trashed : TrashEntry}
    (isVersion : tables.IsVersion trashed) :
    isMeant all infos trashed = true ↔ tables.Named all infos trashed.entry := by
  rw [isMeant, List.any_eq_true, Named]
  refine exists_congr fun info => and_congr_right fun member => ?_
  cases all with
  | true =>
      simp [standsFor, isVersion.directory]
  | false =>
      have isFile (same : info.entry.id = trashed.entry.id) : info.entry.isDirectory = false := by
        rw [← agrees info member trashed.entry isVersion.member same.symm]
        simpa using (Bool.and_eq_true_iff.mp isVersion.isTrashed).2
      simpa [standsFor] using isFile

/-- Pruning leaves exactly what it has to. -/
theorem sweepTables_prunedTo
    (coherent : before.Coherent)
    (integral : before.Integral)
    (all : Bool)
    (agrees : ∀ info ∈ infos, Agrees info.entry before) :
    let swept := sweepTables (some fun _ trashed => isMeant all infos trashed) before
    PrunedTo before all infos ((asked before).filter (isMeant all infos)) swept.1 swept.2 := by
  have exactly :=
    sweepTables_swept coherent integral (some fun _ trashed => isMeant all infos trashed)
  rw [accepted_pure] at exactly
  constructor
  case mem_iff =>
    intro entry
    rw [List.mem_map]
    constructor
    · rintro ⟨trashed, listed, rfl⟩
      obtain ⟨isAsked, isMeant⟩ := List.mem_filter.mp listed
      have isVersion := mem_asked_iff.mp isAsked
      exact ⟨isVersion.member, isVersion.isTrashed,
        (isMeant_iff_named agrees isVersion).mp isMeant⟩
    · rintro ⟨member, isTrashed, named⟩
      obtain ⟨row, rowMember, holds⟩ := integral entry member
      have isPath : before.directoryPath? entry.directoryId = some row.path := by
        rw [← holds, coherent.directoryPath?_eq_some rowMember]
      have isVersion : before.IsVersion ⟨row.path, entry⟩ := ⟨member, isTrashed, isPath⟩
      exact ⟨⟨row.path, entry⟩, List.mem_filter.mpr ⟨mem_asked_iff.mpr isVersion,
        (isMeant_iff_named agrees isVersion).mpr named⟩, rfl⟩
  case once =>
    exact nodup_entry_filter_asked coherent (isMeant all infos)
  case files =>
    rw [sweepTables_eq, accepted_pure]
  case swept =>
    exact exactly
  case directories =>
    exact sweepTables_withoutAccepted coherent (isMeant all infos)

end Txn

end VersionStore
