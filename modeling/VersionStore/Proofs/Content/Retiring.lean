import VersionStore.Proofs.Content.Failing
import VersionStore.Proofs.Content.Linked
import VersionStore.Proofs.Tree.Relocated

namespace VersionStore

/-!
# Files that make way

A file that is replaced makes way first: it goes to the trash where history is kept, and
otherwise for good with its parts and links. Directories, files that may not be written to and
files that someone has open do not make way. Nothing else is touched.
-/

/-- An entry in the trash. -/
def Entry.trashed (entry : Entry) (now : Int) : Entry :=
  { entry with isDeleted := true, lastDeleted := now }

namespace Tables

variable
  {tables before middle after : Tables}
  {strict : Prop}
  {known : List Entry}
  {history : Bool}
  {now id : Int}
  {path : CleanPath}
  {entry old : Entry}

/-- The parts and the links of a file are what they were. -/
structure Untouched (id : Int) (before after : Tables) : Prop where
  pieces : after.pieces id = before.pieces id
  links : after.links.filter (·.source == id) = before.links.filter (·.source == id)

namespace Untouched

/-- Nothing happened. -/
theorem refl
    (id : Int)
    (tables : Tables) :
    Untouched id tables tables :=
  ⟨rfl, rfl⟩

/-- What is not touched twice is not touched. -/
theorem trans
    (first : Untouched id before middle)
    (second : Untouched id middle after) :
    Untouched id before after :=
  ⟨second.pieces.trans first.pieces, second.links.trans first.links⟩

/-- No part of a file that had none is there. -/
theorem part_ne
    (untouched : Untouched id before after)
    (none_ : ∀ part ∈ before.parts, part.fileId ≠ id) :
    ∀ part ∈ after.parts, part.fileId ≠ id := by
  intro part member isFile
  have inPieces := mem_pieces_iff.mpr ⟨member, isFile⟩
  rw [untouched.pieces] at inPieces
  exact none_ part (mem_pieces_iff.mp inPieces).1 isFile

/-- No link of a file that had none is there. -/
theorem link_ne
    (untouched : Untouched id before after)
    (none_ : ∀ link ∈ before.links, link.source ≠ id) :
    ∀ link ∈ after.links, link.source ≠ id := by
  intro link member isSource
  have inLinks : link ∈ after.links.filter (·.source == id) :=
    List.mem_filter.mpr ⟨member, beq_iff_eq.mpr isSource⟩
  rw [untouched.links] at inLinks
  exact none_ link (List.mem_filter.mp inLinks).1 isSource

end Untouched

/-- The version at a path went to the trash where history is kept, and otherwise for good. All
other entries stayed. -/
structure Retired (history : Bool) (now : Int) (before : Tables) (path : CleanPath)
    (after : Tables) : Prop where
  trashed :
    ∀ old,
      before.lookupAt? path = some old →
      history = true →
      old.trashed now ∈ after.entries ∧ Untouched old.id before after
  gone :
    ∀ old,
      before.lookupAt? path = some old →
      history = false →
      (∀ entry ∈ after.entries, entry.id ≠ old.id) ∧
        (∀ part ∈ after.parts, part.fileId ≠ old.id) ∧
          ∀ link ∈ after.links, link.source ≠ old.id
  kept :
    ∀ entry ∈ before.entries,
      before.lookupAt? path ≠ some entry →
      entry ∈ after.entries ∧ Untouched entry.id before after

namespace Retired

/-- Where nothing was nothing has to go. -/
theorem refl
    (missing : before.lookupAt? path = none) :
    Retired history now before path before where
  trashed old found := by
    rw [missing] at found
    cases found
  gone old found := by
    rw [missing] at found
    cases found
  kept entry member _ := ⟨member, .refl _ _⟩

/-- What comes after concerns new entries only. -/
theorem followed
    (retired : Retired history now before path middle)
    (coherent : before.Coherent)
    (subset : middle.entries ⊆ after.entries)
    (newer : ∀ entry ∈ after.entries, entry ∈ middle.entries ∨ before.lastEntryId < entry.id)
    (untouched : ∀ id, id ≤ before.lastEntryId → Untouched id middle after) :
    Retired history now before path after where
  trashed old found keeps := by
    have member := (coherent.lookupAt?_eq_some_iff.mp found).member
    obtain ⟨isTrash, stays⟩ := retired.trashed old found keeps
    exact ⟨subset isTrash, stays.trans (untouched old.id (coherent.id_le old member))⟩
  gone old found loses := by
    have member := (coherent.lookupAt?_eq_some_iff.mp found).member
    have stays := untouched old.id (coherent.id_le old member)
    obtain ⟨noEntry, noPart, noLink⟩ := retired.gone old found loses
    refine ⟨fun entry entryMember => ?_, stays.part_ne noPart, stays.link_ne noLink⟩
    rcases newer entry entryMember with wasThere | isNew
    · exact noEntry entry wasThere
    · have given := coherent.id_le old member
      omega
  kept entry member other := by
    obtain ⟨isThere, stays⟩ := retired.kept entry member other
    exact ⟨subset isThere, stays.trans (untouched entry.id (coherent.id_le entry member))⟩

end Retired

/-- A file goes to the trash where history is kept, and otherwise for good. -/
def dismiss (tables : Tables) (history : Bool) (now id : Int) : Tables :=
  if history then tables.trashEntry id now
  else ((tables.removeEntry id).removeParts id).removeLinks id

/-- What is at a path makes way. -/
def vacated (tables : Tables) (history : Bool) (now : Int) (path : CleanPath) : Tables :=
  match tables.lookupAt? path with
  | some old => tables.dismiss history now old.id
  | none => tables

/-- Something at a path does not make way: a directory, a file that may not be written to, or
one that someone has open. -/
def Occupied (held : Int → Prop) (tables : Tables) (path : CleanPath) : Prop :=
  ∃ old,
    tables.lookupAt? path = some old ∧
      (old.isDirectory = true ∨ old.writable = false ∨ held old.id)

/-! ## One file -/

/-- A file that goes is no other one. -/
theorem beside_dismiss
    (tables : Tables)
    (history : Bool)
    (now id : Int) :
    Beside (· = id) tables (tables.dismiss history now id) := by
  unfold dismiss
  split
  · exact beside_modifyEntry tables id fun _ => rfl
  · exact beside_removeFile tables id

/-- A file that goes leaves what belongs to others. -/
theorem untouched_dismiss
    {other : Int}
    (apart : other ≠ id) :
    Untouched other tables (tables.dismiss history now id) where
  pieces := (beside_dismiss tables history now id).pieces other apart
  links := by
    unfold dismiss
    split
    · rfl
    · change (tables.links.filter (·.source != id)).filter (·.source == other) = _
      rw [List.filter_filter]
      refine List.filter_congr fun link _ => ?_
      by_cases isOther : link.source = other
      · simp [isOther, apart]
      · simp [isOther]

/-- A file that goes is not live afterwards. -/
theorem id_ne_of_mem_dismiss
    (member : entry ∈ (tables.dismiss history now id).entries)
    (live : entry.isDeleted = false) :
    entry.id ≠ id := by
  unfold dismiss at member
  split at member
  · obtain ⟨other, -, rfl⟩ := List.mem_map.mp member
    split at live
    · cases live
    · rename_i different
      rwa [if_neg different]
  · obtain ⟨-, different⟩ := List.mem_filter.mp member
    simpa using different

/-- Only entries are counted as given. -/
theorem dismiss_same
    (tables : Tables)
    (history : Bool)
    (now id : Int) :
    (tables.dismiss history now id).lastEntryId = tables.lastEntryId ∧
      (tables.dismiss history now id).targets = tables.targets := by
  unfold dismiss
  split <;> exact ⟨rfl, rfl⟩

/-- A file may go. -/
theorem Sound.dismiss
    (sound : tables.Sound strict known)
    (member : old ∈ tables.entries)
    (isFile : old.isDirectory = false)
    (history : Bool)
    (now : Int) :
    (tables.dismiss history now old.id).Sound strict known := by
  have agrees := sound.coherent.agrees member
  unfold Tables.dismiss
  split
  · exact sound.trashEntry (sound.coherent.id_ne_rootId agrees isFile)
      (fun other otherMember live =>
        sound.coherent.directoryId_ne agrees isFile otherMember live) now
  · exact sound.removeFile agrees isFile

/-- A file that goes is the only one that does. -/
theorem sameBut_dismiss
    (sound : tables.Sound strict known)
    (member : old ∈ tables.entries)
    (isFile : old.isDirectory = false)
    (history : Bool)
    (now : Int) :
    SameBut old.id tables (tables.dismiss history now old.id) :=
  sound.coherent.sameBut_taken member isFile (beside_dismiss tables history now old.id)
    fun _ isThere live => id_ne_of_mem_dismiss isThere live

/-- The file at a path is retired when it goes. -/
theorem retired_dismiss
    (coherent : before.Coherent)
    (found : before.lookupAt? path = some old) :
    Retired history now before path (before.dismiss history now old.id) where
  trashed other isFound keeps := by
    cases found.symm.trans isFound
    have member := (coherent.lookupAt?_eq_some_iff.mp found).member
    rw [dismiss, if_pos keeps]
    exact ⟨List.mem_map.mpr ⟨old, member, if_pos rfl⟩, rfl, rfl⟩
  gone other isFound loses := by
    cases found.symm.trans isFound
    rw [dismiss, loses, if_neg Bool.false_ne_true]
    refine ⟨fun entry member => ?_, fun part member => ?_, fun link member => ?_⟩
    · exact bne_iff_ne.mp (List.mem_filter.mp member).2
    · exact bne_iff_ne.mp (List.mem_filter.mp member).2
    · exact bne_iff_ne.mp (List.mem_filter.mp member).2
  kept entry member other := by
    have apart : entry.id ≠ old.id := by
      intro same
      have isOld := (coherent.lookupAt?_eq_some_iff.mp found).member
      exact other (coherent.entry_eq member isOld same ▸ found)
    exact ⟨((beside_dismiss before history now old.id).rows entry apart).mpr member,
      untouched_dismiss apart⟩

/-- Entries are what they were, but the file that went is in the trash where history is kept. -/
theorem mem_of_mem_dismiss
    (coherent : before.Coherent)
    (found : before.lookupAt? path = some old)
    (member : entry ∈ (before.dismiss history now old.id).entries) :
    entry ∈ before.entries ∨
      history = true ∧ ∃ old, before.lookupAt? path = some old ∧ entry = old.trashed now := by
  by_cases isOld : entry.id = old.id
  · unfold dismiss at member
    split at member
    · rename_i keeps
      obtain ⟨other, otherMember, rfl⟩ := List.mem_map.mp member
      split at isOld
      · rename_i same
        rw [if_pos same]
        have isThere := (coherent.lookupAt?_eq_some_iff.mp found).member
        rw [coherent.entry_eq otherMember isThere same]
        exact .inr ⟨keeps, old, found, rfl⟩
      · rename_i different
        exact absurd isOld different
    · exact .inl (List.mem_of_mem_filter member)
  · exact .inl (((beside_dismiss before history now old.id).rows entry isOld).mp member)

/-! ## Look-ups -/

/-- The same is found where an edit of one file left everything. -/
theorem SameBut.lookupAt?_eq
    (same : SameBut id before after)
    (coherent : before.Coherent)
    (coherentAfter : after.Coherent)
    (was : ∀ entry, before.At path.names entry → entry.id ≠ id)
    (is : ∀ entry, after.At path.names entry → entry.id ≠ id) :
    after.lookupAt? path = before.lookupAt? path :=
  lookupAt?_eq_of_at_iff coherentAfter coherent fun entry =>
    ⟨fun here => same.symm.at_of_ne here (is entry here),
      fun here => same.at_of_ne here (was entry here)⟩

/-- What a path whose file makes way leaves: nothing there, and everything else. -/
structure Vacates (strict : Prop) (known : List Entry) (history : Bool) (now : Int)
    (before : Tables) (path : CleanPath) (after : Tables) : Prop
    extends Retired history now before path after where
  sound : after.Sound strict known
  missing : after.lookupAt? path = none
  elsewhere : ∀ other, other ≠ path → after.lookupAt? other = before.lookupAt? other
  origin :
    ∀ entry ∈ after.entries,
      entry ∈ before.entries ∨
        history = true ∧ ∃ old, before.lookupAt? path = some old ∧ entry = old.trashed now
  lastEntryId : after.lastEntryId = before.lastEntryId
  targets : after.targets = before.targets

/-- The file at a path, if there is one, makes way. -/
theorem vacates_vacated
    (sound : before.Sound strict known)
    (isFile : ∀ old, before.lookupAt? path = some old → old.isDirectory = false)
    (history : Bool)
    (now : Int) :
    Vacates strict known history now before path (before.vacated history now path) := by
  unfold vacated
  cases found : before.lookupAt? path with
  | none =>
      exact ⟨.refl found, sound, found, fun _ _ => rfl, fun entry member => .inl member, rfl, rfl⟩
  | some old =>
      have coherent := sound.coherent
      have here := coherent.lookupAt?_eq_some_iff.mp found
      have soundAfter := sound.dismiss here.member (isFile old found) history now
      have same := sameBut_dismiss sound here.member (isFile old found) history now
      have notThere (other : CleanPath) (entry : Entry)
          (there : (before.dismiss history now old.id).At other.names entry) :
          entry.id ≠ old.id :=
        id_ne_of_mem_dismiss there.member (soundAfter.coherent.live_of_at there)
      obtain ⟨lastEntryId, targets⟩ := dismiss_same before history now old.id
      refine ⟨retired_dismiss coherent found, soundAfter, ?_, fun other elsewhere => ?_,
        fun entry member => mem_of_mem_dismiss coherent found member, lastEntryId, targets⟩
      · cases still : (before.dismiss history now old.id).lookupAt? path with
        | none =>
            rfl
        | some entry =>
            have there := soundAfter.coherent.lookupAt?_eq_some_iff.mp still
            have different := notThere path entry there
            have was := same.symm.at_of_ne there different
            exact absurd (congrArg Entry.id (coherent.at_unique was here)) different
      · refine same.lookupAt?_eq coherent soundAfter.coherent (fun entry there isOld => ?_)
          (notThere other)
        exact elsewhere (SameBut.path_unique coherent here there isOld)

end Tables

namespace Txn

open Tables VersionStore.Action

variable
  {setting : Setting}
  {strict : Prop}
  {known : List Entry}
  {before : Tables}
  {entry : Entry}
  {path : CleanPath}

/-- A file that nobody has open is dismissed. -/
theorem deleteExisting_dismisses
    (now : Int)
    (member : entry ∈ before.entries)
    (isFile : entry.isDirectory = false) :
    Works setting (· = before) (deleteExisting now entry)
      (fun gone tables =>
        (gone = true ∧ ¬setting.held entry.id) ∧
          tables = before.dismiss setting.history now entry.id)
      fun _ tables => tables = before := by
  have some_ : 0 < before.entryCount entry.id :=
    List.countP_pos_iff.mpr ⟨entry, member, beq_self_eq_true _⟩
  refine .lockedAlone (fun _ alone => .get fun store inScope => ?_) fun _ same => same
  have counting (count : Nat) (tables : Tables)
      (after : 0 < count ∧ tables = before.dismiss setting.history now entry.id) :
      (decide (count > 0) = true ∧ ¬setting.held entry.id) ∧
        tables = before.dismiss setting.history now entry.id :=
    ⟨⟨decide_eq_true after.1, alone rfl⟩, after.2⟩
  simp only [inScope.history]
  refine .ite (fun keeps => ?_) fun loses => ?_
  · refine .bind _ ?_ fun count => .pure (counting count)
    refine ((counted_works (fun tables => tables.trashEntry entry.id now) entry.id).weaken
      (fun _ same => same.1) ?_ fun _ _ absurd => absurd.elim)
    rintro _ _ ⟨rfl, rfl⟩
    exact ⟨some_, (if_pos keeps).symm⟩
  · refine .bind _ ?_ fun count => .pure (counting count)
    refine ((counted_works _ entry.id).weaken (fun _ same => same.1) ?_
      fun _ _ absurd => absurd.elim)
    rintro _ _ ⟨rfl, rfl⟩
    rw [if_neg (by simp [isFile])]
    exact ⟨some_, (if_neg loses).symm⟩

/-- A path is ready for a new file: what was there made way, and directories lead to it. -/
structure Readied (setting : Setting) (strict : Prop) (known : List Entry) (now : Int)
    (before : Tables) (path : CleanPath) (id : Int) (tables : Tables) : Prop
    extends Reached strict known (before.vacated setting.history now path) path.dropLast.names id
      tables where
  proper : ¬path.isRoot = true
  free : ¬before.Occupied setting.held path
  vacant : tables.Vacant id path.name

/-- A path is made ready where what is there makes way, or nothing is changed. -/
theorem clearForWrite_readies
    (now : Int)
    (sound : before.Sound strict known)
    (path : CleanPath) :
    Works setting (· = before) (clearForWrite now path)
      (Readied setting strict known now before path)
      fun _ tables => tables = before := by
  suffices readies :
      Works setting (· = before) (clearForWrite now path)
        (Readied setting strict known now before path) fun _ _ => True by
    have spares : Spares setting (fun _ => False) before (clearForWrite now path) :=
      clearForWrite_spares now sound path
    exact (readies.both spares).weaken (fun _ same => ⟨same, same⟩) (fun _ _ done => done.1)
      fun _ _ failed => failed.2.resolve_right id
  have makeRoom
      (proper : ¬path.isRoot = true)
      (free : ¬before.Occupied setting.held path)
      (isFile : ∀ old, before.lookupAt? path = some old → old.isDirectory = false) :
      Works setting (· = before.vacated setting.history now path)
        (makeDirectoriesAt now path.dropLast) (Readied setting strict known now before path)
        fun _ _ => True := by
    have vacates := vacates_vacated sound isFile setting.history now
    exact (makeRoom_works now proper vacates.sound vacates.missing).weaken (fun _ same => same)
      (fun _ _ made => ⟨made.1, proper, free, made.2⟩) fun _ _ _ => trivial
  unfold clearForWrite
  simp only [throw_bind]
  refine .ite (fun _ => .throw fun _ _ => trivial) fun proper => ?_
  refine .bind _ (entryAt?_known path).surely fun found? => ?_
  refine .assuming (found? = before.lookupAt? path) (fun _ looked => looked.1) ?_
  rintro rfl
  cases found : before.lookupAt? path with
  | none =>
      have free : ¬before.Occupied setting.held path := by
        rintro ⟨old, isFound, -⟩
        rw [found] at isFound
        cases isFound
      refine (makeRoom proper free fun old isFound => ?_).asking ?_
      · rw [found] at isFound
        cases isFound
      · rintro _ ⟨-, rfl⟩
        rw [vacated, found]
  | some old =>
      refine .ite (fun _ => .throw fun _ _ => trivial) fun allowed => ?_
      simp only [Bool.or_eq_true, Bool.not_eq_true', not_or, Bool.not_eq_true,
        Bool.not_eq_false] at allowed
      obtain ⟨isFile, writable⟩ := allowed
      have member := (sound.coherent.lookupAt?_eq_some_iff.mp found).member
      refine .bind _ ((deleteExisting_dismisses now member isFile).loosely.asking
        fun _ looked => looked.2) fun gone => ?_
      refine .assuming (gone = true ∧ ¬setting.held old.id) (fun _ dismissed => dismissed.1) ?_
      rintro ⟨rfl, alone⟩
      refine .ite (fun absurd => (Bool.false_ne_true absurd).elim) fun _ => ?_
      have isOld {other : Entry} (isFound : before.lookupAt? path = some other) : other = old :=
        Option.some.inj (isFound.symm.trans found)
      have free : ¬before.Occupied setting.held path := by
        rintro ⟨other, isFound, obstacle⟩
        rw [isOld isFound, isFile, writable] at obstacle
        simp [alone] at obstacle
      refine (makeRoom proper free fun other isFound => isOld isFound ▸ isFile).asking ?_
      rintro _ ⟨-, rfl⟩
      rw [vacated, found]

end Txn

end VersionStore
