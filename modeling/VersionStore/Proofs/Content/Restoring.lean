import VersionStore.Proofs.Content.Edited
import VersionStore.Proofs.Content.Replacing

namespace VersionStore

/-!
# Versions that are restored

Versions are copied out of the trash one after the other, each in a scope of its own. Whether a
version can be restored is up to the tables that those before it left: one that was restored may
be replaced by the next, or be in the way to it. What cannot be restored is passed over.

Locks come in at two places only. What is at a path makes way when no one has it open, and a
version in the trash can be read because no one writes to what is in the trash.
-/

open Tables VersionStore.Action

/-! ## What can be restored -/

namespace Tables

variable
  {gives : Int → Bool → Bool}
  {held : Int → Prop}
  {tables : Tables}
  {path : CleanPath}

/-- A version in the trash can be restored to a path: the path is not the root, what is there
makes way, and no live file is along it. -/
structure Restorable (held : Int → Prop) (tables : Tables) (info : TrashEntry) (path : CleanPath)
    (version : Entry) : Prop where
  trashed : tables.trashed? info.entry.id = some version
  proper : ¬path.isRoot = true
  free : ¬tables.Occupied held path
  leads : ∀ names file, names <+: path.dropLast.names → ¬tables.FileAt ⟨names⟩ file

/-- Files that no one has open are locked for writing, and versions in the trash for reading. -/
structure Lends (gives : Int → Bool → Bool) (held : Int → Prop) (tables : Tables) : Prop where
  exclusive : ∀ id, gives id true = true ↔ ¬held id
  trashed : ∀ entry ∈ tables.entries, entry.isDeleted = true → gives entry.id false = true
  shared : ∀ id, gives id true = true → gives id false = true

/-- No file is seen along a path exactly when none is there. -/
theorem Coherent.leads_iff
    (coherent : tables.Coherent) :
    tables.sights.Leads path ↔
      ∀ names file, names <+: path.names → ¬tables.FileAt ⟨names⟩ file := by
  constructor
  · intro leads names file along here
    have isHere := coherent.lookupAt?_eq_some_iff.mp here.found
    refine leads ⟨names⟩ (tables.versionOf file) along ?_
    rw [coherent.sights_of_at isHere, sightOf_file here.isFile]
  · intro clear other version along seen
    obtain ⟨entry, here, isSeen⟩ := coherent.exists_at_of_sights seen
    refine clear other.names entry along ⟨coherent.lookupAt?_eq_some_iff.mpr here, ?_⟩
    refine Bool.eq_false_iff.mpr fun isDirectory => ?_
    rw [sightOf_directory isDirectory] at isSeen
    cases isSeen

/-- A version in the trash is no live entry. -/
theorem Coherent.elsewhere_of_trashed
    (coherent : tables.Coherent)
    {version : Entry}
    (member : version ∈ tables.entries)
    (isDeleted : version.isDeleted = true)
    {existing : Entry}
    (found : tables.lookupAt? path = some existing) :
    existing.id ≠ version.id := by
  intro same
  obtain ⟨existingMember, live⟩ := mem_of_lookup? found
  rw [coherent.entry_eq existingMember member same, isDeleted] at live
  cases live

/-- A version is copied out of the trash exactly when it can be restored. -/
theorem Lends.restorable_iff
    (lends : tables.Lends gives held)
    (coherent : tables.Coherent)
    (info : TrashEntry)
    (path : CleanPath)
    (version : Entry) :
    tables.trashed? info.entry.id = some version ∧ Txn.Copies gives tables version path ↔
      tables.Restorable held info path version := by
  constructor
  · rintro ⟨trashed, copies⟩
    refine ⟨trashed, copies.accepts.proper, not_occupied_iff.mpr fun old found => ?_,
      coherent.leads_iff.mp copies.accepts.leads⟩
    obtain ⟨isFile, writable, given⟩ := copies.accepts.replaceable old found
    exact ⟨isFile, writable, (lends.exclusive old.id).mp given⟩
  · intro restorable
    obtain ⟨member, -, isDeleted⟩ := mem_of_trashed? restorable.trashed
    refine ⟨restorable.trashed, lends.trashed version member isDeleted,
      fun _ found => coherent.elsewhere_of_trashed member isDeleted found, restorable.proper,
      fun old found => ?_, coherent.leads_iff.mpr restorable.leads⟩
    obtain ⟨isFile, writable, isFree⟩ := not_occupied_iff.mp restorable.free old found
    exact ⟨isFile, writable, (lends.exclusive old.id).mpr isFree⟩

end Tables

namespace Txn

variable
  {setting : Setting}
  {gives : Int → Bool → Bool}
  {strict : Prop}
  {known : List Entry}
  {history single : Bool}
  {held : Int → Prop}
  {now modified : Int}
  {before after : Tables}
  {target path : CleanPath}
  {infos : List TrashEntry}
  {counts : Nat × Nat}

/-- Where an entry is restored to: at the destination when it is the only one, and otherwise under
its name below the destination. -/
inductive RestoresTo (target : CleanPath) : Bool → TrashEntry → CleanPath → Prop where
  | alone {info : TrashEntry} : RestoresTo target true info target
  | below {info : TrashEntry} {name : Name}
      (called : name.text = info.entry.name) :
      RestoresTo target false info ⟨target.names ++ [name]⟩

/-- Entries were restored in order. One that could be restored, as the entries before it left the
tables, took the place of what was at its path, with the parts, the length, the checksum and the
time of the version in the trash. Any other one changed nothing. The numbers are those of the
entries that were restored and of those that were not. -/
inductive Restores (history : Bool) (held : Int → Prop) (now : Int) (target : CleanPath)
    (single : Bool) : Tables → List TrashEntry → Nat × Nat → Tables → Prop where
  | done {tables : Tables} : Restores history held now target single tables [] (0, 0) tables
  | restored {before middle after : Tables} {info : TrashEntry} {infos : List TrashEntry}
      {path : CleanPath} {version row : Entry} {restored failed : Nat}
      (isTarget : RestoresTo target single info path)
      (restorable : before.Restorable held info path version)
      (copied : Copied history held now before version version.lastModified path row middle)
      (rest : Restores history held now target single middle infos (restored, failed) after) :
      Restores history held now target single before (info :: infos) (restored + 1, failed) after
  | failed {before after : Tables} {info : TrashEntry} {infos : List TrashEntry}
      {path : CleanPath} {restored failed : Nat}
      (isTarget : RestoresTo target single info path)
      (barred : ∀ version, ¬before.Restorable held info path version)
      (rest : Restores history held now target single before infos (restored, failed) after) :
      Restores history held now target single before (info :: infos) (restored, failed + 1) after

namespace Restores

/-- Every entry is counted once. -/
theorem count
    (restores : Restores history held now target single before infos counts after) :
    counts.1 + counts.2 = infos.length := by
  induction restores with
  | done =>
      rfl
  | restored _ _ _ _ inductionHypothesis | failed _ _ _ inductionHypothesis =>
      rw [List.length_cons, ← inductionHypothesis]
      dsimp only
      omega

/-- What is in the trash stays there as it is. -/
theorem trash_stays
    (restores : Restores history held now target single before infos counts after)
    {entry : Entry}
    (member : entry ∈ before.entries)
    (isDeleted : entry.isDeleted = true) :
    entry ∈ after.entries ∧ Untouched entry.id before after := by
  induction restores with
  | done =>
      exact ⟨member, .refl _ _⟩
  | restored _ _ copied _ inductionHypothesis =>
      obtain ⟨isThere, stays⟩ := copied.kept entry member fun found =>
        Bool.false_ne_true ((mem_of_lookup? found).2.symm.trans isDeleted)
      obtain ⟨isLast, untouched⟩ := inductionHypothesis isThere
      exact ⟨isLast, stays.trans untouched⟩
  | failed _ _ _ inductionHypothesis =>
      exact inductionHypothesis member

end Restores

/-! ## One version -/

/-- What was retired for a copy can be read in the trash, because no one had it open. -/
theorem Copied.lends
    {source row : Entry}
    (copied : Copied setting.history held now before source modified path row after)
    (coherent : after.Coherent)
    (lends : before.Lends gives held) :
    after.Lends gives held where
  exclusive := lends.exclusive
  trashed entry member isDeleted := by
    rcases copied.origin entry member with old | rfl | ⟨-, -, live⟩ | ⟨-, old, found, rfl⟩
    · exact lends.trashed entry old isDeleted
    · have placed := coherent.lookupAt?_eq_some_iff.mp copied.placed
      exact absurd ((coherent.live_of_at placed).symm.trans isDeleted) Bool.false_ne_true
    · exact absurd (live.symm.trans isDeleted) Bool.false_ne_true
    · refine lends.shared old.id ((lends.exclusive old.id).mpr fun isHeld => ?_)
      exact copied.free ⟨old, found, .inr (.inr isHeld)⟩
  shared := lends.shared

/-- A file that is there is copied exactly when it can be, to a file that takes the place of what
was at the path. -/
theorem copyEntry_replaces
    (now : Int)
    (time? : Option Int)
    (sound : before.Sound strict known)
    (numbered : before.Numbered)
    {source : Entry}
    (member : source ∈ before.entries) :
    Decides setting gives (· = before) (copyEntry now path source time?)
      (Copies gives before source path)
      (fun row tables =>
        Copied setting.history setting.held now before source (time?.getD now) path row tables ∧
          tables.Sound strict known ∧ tables.Numbered) := by
  have coherent := sound.coherent
  have settles :
      Decides setting gives (· = before) (copyEntry now path source time?)
        (Copies gives before source path) fun _ _ => True :=
    copyEntry_settles now time? sound numbered fun _ directory _ isRoom carries =>
      (copyRoom_duplicates isRoom.sound.coherent carries.toNumbered directory path
        (time?.getD now) source).promising fun _ _ _ => trivial
  have copies := settles.knowing
    (((copyEntry_copies now sound numbered member path time?).both
      (copyEntry_keeps now path source time?)).both
        (copyEntry_numbers numbered ⟨coherent.ids, coherent.id_le⟩ now path source time?))
    fun tables (same : tables = before) => ⟨⟨same, same ▸ sound⟩, same⟩
  exact copies.weaken (fun _ same => same)
    fun _ _ ⟨_, ⟨⟨_, copied⟩, sound⟩, numbered⟩ => ⟨copied, sound, numbered⟩

/-- An entry is restored to a path exactly when it can be. -/
theorem restore_decides
    (now : Int)
    (sound : before.Sound strict known)
    (numbered : before.Numbered)
    (lends : before.Lends gives setting.held)
    (info : TrashEntry) :
    Decides setting gives (· = before) (restore now path info)
      (∃ version, before.Restorable setting.held info path version)
      (fun row tables =>
        ∃ version,
          before.trashed? info.entry.id = some version ∧
            Copied setting.history setting.held now before version version.lastModified path row
              tables ∧
              tables.Sound strict known ∧ tables.Numbered) := by
  refine .known (before.trashed? info.entry.id) before (.query ?_) ?_
  · rintro _ rfl
    exact ⟨rfl, rfl⟩
  cases found : before.trashed? info.entry.id with
  | none =>
      refine .throw ?_
      rintro ⟨version, restorable⟩
      exact Option.some_ne_none version (restorable.trashed.symm.trans found)
  | some version =>
      refine .known version before (.pure fun _ same => ⟨rfl, same⟩) ?_
      refine ((copyEntry_replaces now (some version.lastModified) sound numbered
        (mem_of_trashed? found).1).exactly ?_).weaken (fun _ same => same)
          fun _ _ result => ⟨version, rfl, result⟩
      have restorable := lends.restorable_iff sound.coherent info path version
      refine ⟨fun copies => ⟨version, restorable.mp ⟨found, copies⟩⟩, ?_⟩
      rintro ⟨other, isRestorable⟩
      cases found.symm.trans isRestorable.trashed
      exact (restorable.mpr isRestorable).2

/-! ## One version after the other -/

/-- An entry with a name is restored to one path. -/
theorem restoreTarget_known
    (target : CleanPath)
    (single : Bool)
    {info : TrashEntry}
    (named : IsName info.entry.name) :
    ∃ path,
      RestoresTo target single info path ∧
        Works setting (· = before) (restoreTarget target single info)
          (fun result tables => result = path ∧ tables = before) fun _ _ => False := by
  cases single with
  | true =>
      exact ⟨target, .alone, .pure fun _ same => ⟨rfl, same⟩⟩
  | false =>
      obtain ⟨name, called⟩ : ∃ name : Name, name.text = info.entry.name :=
        ⟨⟨info.entry.name, named⟩, rfl⟩
      refine ⟨⟨target.names ++ [name]⟩, .below called, .ofExcept fun tables same => ?_⟩
      rw [← called, target.join_name]
      exact ⟨rfl, same⟩

/-- What holds of restoring no entry holds of restoring entries with names in order, if it goes on to
hold with one entry in front of them, whether that is restored or not. -/
theorem restoreEach_decides
    (now : Int)
    (target : CleanPath)
    (single : Bool)
    {reaches : Tables → List TrashEntry → Nat × Nat → Tables → Prop}
    (done :
      ∀ {tables},
        tables.Sound strict known →
        reaches tables [] (0, 0) tables)
    (restored :
      ∀ {before middle after info infos path version row restored failed},
        before.Sound strict known →
        middle.Sound strict known →
        RestoresTo target single info path →
        before.Restorable setting.held info path version →
        Copied setting.history setting.held now before version version.lastModified path row
          middle →
        reaches middle infos (restored, failed) after →
        reaches before (info :: infos) (restored + 1, failed) after)
    (failed :
      ∀ {before after info infos path restored failed},
        before.Sound strict known →
        RestoresTo target single info path →
        (∀ version, ¬before.Restorable setting.held info path version) →
        reaches before infos (restored, failed) after →
        reaches before (info :: infos) (restored, failed + 1) after)
    (named : ∀ info ∈ infos, IsName info.entry.name)
    (sound : before.Sound strict known)
    (numbered : before.Numbered)
    (lends : before.Lends gives setting.held) :
    Decides setting gives (· = before) (restoreEach now target single infos) True
      (reaches before infos) := by
  induction infos generalizing before with
  | nil =>
      refine .of_works (.pure ?_)
      rintro _ rfl
      exact ⟨trivial, done sound⟩
  | cons info infos inductionHypothesis =>
      replace inductionHypothesis {before : Tables} :=
        @inductionHypothesis before fun other member => named other (List.mem_cons_of_mem _ member)
      obtain ⟨path, isTarget, works⟩ :=
        @restoreTarget_known setting before target single info (named info List.mem_cons_self)
      rw [restoreEach]
      refine .known path before works ?_
      refine .exactly ((restore_decides now sound numbered lends info).attempted.bind _
        fun _ outcome => ?_) (and_iff_left trivial)
      cases outcome with
      | error fault =>
          refine .assuming _ (fun _ ended => ended.1) fun barred => ?_
          refine .exactly (((inductionHypothesis sound numbered lends).weaken
            (fun _ ended => ended.2) fun _ _ rest => rest).bind _ fun _ counts => .of_works ?_)
              (and_iff_left trivial)
          exact .pure fun _ rest =>
            ⟨trivial, failed sound isTarget (fun version able => barred ⟨version, able⟩) rest⟩
      | ok row =>
          refine .named fun middle ended => ?_
          obtain ⟨⟨version, restorable⟩, other, isTrashed, copied, soundMiddle, numbered⟩ := ended
          cases restorable.trashed.symm.trans isTrashed
          refine .exactly ((inductionHypothesis soundMiddle numbered
            (copied.lends soundMiddle.coherent lends)).bind _ fun _ counts => .of_works ?_)
              (and_iff_left trivial)
          exact .pure fun _ rest =>
            ⟨trivial, restored sound soundMiddle isTarget restorable copied rest⟩

/-- Entries with names are restored in order, each as those before it left the tables. -/
theorem restoreEach_restores
    (now : Int)
    (target : CleanPath)
    (single : Bool)
    (named : ∀ info ∈ infos, IsName info.entry.name)
    (sound : before.Sound strict known)
    (numbered : before.Numbered)
    (lends : before.Lends gives setting.held) :
    Decides setting gives (· = before) (restoreEach now target single infos) True
      (Restores setting.history setting.held now target single before infos) :=
  restoreEach_decides now target single (fun _ => .done)
    (fun _ _ isTarget restorable copied rest => .restored isTarget restorable copied rest)
    (fun _ isTarget barred rest => .failed isTarget barred rest) named sound numbered lends

/-- Entries with names are restored to the path of a text. -/
theorem recover_restores
    (now : Int)
    {text : String}
    (isPath : CleanPath.ofText text = .ok target)
    (named : ∀ info ∈ infos, IsName info.entry.name)
    (sound : before.Sound strict known)
    (numbered : before.Numbered)
    (lends : before.Lends gives setting.held) :
    Decides setting gives (· = before) (recover now text infos) True
      (Restores setting.history setting.held now target (infos.length == 1) before infos) :=
  .known target before (clean_known isPath)
    (restoreEach_restores now target _ named sound numbered lends)

end Txn

end VersionStore
