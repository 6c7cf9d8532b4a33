import VersionStore.Proofs.Tree.Making
import VersionStore.Proofs.Tree.Sweep
import VersionStore.Proofs.Tree.TrashListings

namespace VersionStore

/-!
# Deleting and pruning

A file may go to the trash or for good at any time, a directory when it holds no live
entry. A directory that goes for good takes its row with it, and so leaves without a
directory whatever else still lies in it: that is the one change that integrity does not
survive.
-/

namespace Tables

variable {tables : Tables} {strict : Prop} {known : List Entry} {entry : Entry}

/-- What has the id of an entry is of its kind. -/
def Agrees (entry : Entry) (tables : Tables) : Prop :=
  ∀ row ∈ tables.entries, row.id = entry.id → row.isDirectory = entry.isDirectory

/-- The tables agree with what they hold. -/
theorem Coherent.agrees
    (coherent : tables.Coherent)
    (member : entry ∈ tables.entries) :
    Agrees entry tables := by
  intro row rowMember same
  rw [coherent.entry_eq rowMember member same]

/-- No live entry lies in a file. -/
theorem Coherent.directoryId_ne
    (coherent : tables.Coherent)
    (agrees : Agrees entry tables)
    (isFile : entry.isDirectory = false)
    {other : Entry}
    (member : other ∈ tables.entries)
    (live : other.isDeleted = false) :
    other.directoryId ≠ entry.id := by
  intro held
  obtain ⟨holder, isLive, same⟩ := coherent.placed other member live
  have kind := agrees holder isLive.member (same.trans held)
  rw [isLive.isDirectory, isFile] at kind
  exact Bool.false_ne_true kind.symm

/-- The top entry is no file. -/
theorem Coherent.id_ne_rootId
    (coherent : tables.Coherent)
    (agrees : Agrees entry tables)
    (isFile : entry.isDirectory = false) :
    entry.id ≠ rootId := by
  intro isRoot
  obtain ⟨top, member, isTop⟩ := coherent.top
  have kind := agrees top member (isTop.id.trans isRoot.symm)
  rw [isTop.isDirectory, isFile] at kind
  exact Bool.false_ne_true kind.symm

/-- A directory without live entries holds none. -/
theorem directoryId_ne_of_isEmptyDirectory
    (coherent : tables.Coherent)
    {id : Int}
    (proper : id ≠ rootId)
    (empty : tables.isEmptyDirectory id = true)
    {other : Entry}
    (member : other ∈ tables.entries)
    (live : other.isDeleted = false) :
    other.directoryId ≠ id := by
  intro held
  have none := List.filter_eq_nil_iff.mp (List.isEmpty_iff.mp empty) other member
  apply none
  have otherProper : other.id ≠ rootId := by
    intro isRoot
    exact proper (held.symm.trans (coherent.isTop member isRoot).directoryId)
  simp [held, live, otherProper]

/-- Files are removed for good. -/
theorem Sound.withoutFiles
    (sound : tables.Sound strict known)
    {ids : List Int}
    (files : ∀ row ∈ tables.entries, row.id ∈ ids → row.isDirectory = false) :
    (Txn.withoutFiles tables ids).Sound strict known := by
  have coherent := sound.coherent
  have left :
      ∀ other ∈ tables.entries,
        other.isDirectory = true →
        other ∈ (Txn.withoutFiles tables ids).entries := by
    intro other member isDirectory
    refine List.mem_filter.mpr ⟨member, decide_eq_true fun taken => ?_⟩
    rw [files other member taken] at isDirectory
    exact Bool.false_ne_true isDirectory
  refine sound.thinned ⟨List.filter_sublist, .refl _, rfl, ?_, ?_, ?_, ?_, ?_⟩ ?_
  · intro other member isRoot
    exact left other member (coherent.isTop member isRoot).isDirectory
  · intro row rowMember other member same
    obtain ⟨owner, ownerMember, owns, isDirectory⟩ := coherent.owned row rowMember
    rw [coherent.entry_eq member ownerMember (same.trans owns.symm)]
    exact left owner ownerMember isDirectory
  · exact fun _ _ row rowMember _ => rowMember
  · exact fun _ _ _ holder isLive _ => left holder isLive.member isLive.isDirectory
  · exact fun _ _ _ _ _ row rowMember _ => rowMember
  · exact fun _ _ _ row rowMember _ => rowMember

/-- A file is removed for good. -/
theorem Sound.removeFile
    (sound : tables.Sound strict known)
    (agrees : Agrees entry tables)
    (isFile : entry.isDirectory = false) :
    (((tables.removeEntry entry.id).removeParts entry.id).removeLinks entry.id).Sound strict
      known := by
  have taken :
      ((tables.removeEntry entry.id).removeParts entry.id).removeLinks entry.id =
        Txn.withoutFiles tables [entry.id] :=
    Txn.eraseFile_eq tables entry.id
  rw [taken]
  refine sound.withoutFiles fun row member same => ?_
  exact (agrees row member (List.mem_singleton.mp same)).trans isFile

/-- A directory without live entries is removed for good with its row. -/
theorem Sound.removeDirectory
    (sound : tables.Sound strict known)
    {id : Int}
    (proper : id ≠ rootId)
    (empty : tables.isEmptyDirectory id = true)
    (bare : strict → ∀ other ∈ tables.entries, other.directoryId ≠ id) :
    ((tables.removeEntry id).removeDirectory id).Sound strict known := by
  have coherent := sound.coherent
  have left {other : Entry} :
      other ∈ tables.entries.filter (·.id != id) ↔ other ∈ tables.entries ∧ other.id ≠ id := by
    rw [List.mem_filter, bne_iff_ne]
  have rowLeft {row : Directory} :
      row ∈ tables.directories.filter (·.id != id) ↔ row ∈ tables.directories ∧ row.id ≠ id := by
    rw [List.mem_filter, bne_iff_ne]
  refine sound.thinned ⟨List.filter_sublist, List.filter_sublist, rfl, ?_, ?_, ?_, ?_, ?_⟩ ?_
  · intro other member isRoot
    exact left.mpr ⟨member, isRoot.trans_ne (Ne.symm proper)⟩
  · intro row rowMember other member same
    exact left.mpr ⟨member, same.trans_ne (rowLeft.mp rowMember).2⟩
  · intro other isLive row rowMember owns
    exact rowLeft.mpr ⟨rowMember, owns.trans_ne (left.mp isLive.member).2⟩
  · intro other member live holder isLive held
    refine left.mpr ⟨isLive.member, held.trans_ne ?_⟩
    exact directoryId_ne_of_isEmptyDirectory coherent proper empty (left.mp member).1 live
  · intro other _ holder holderMember _ row rowMember owns
    exact rowLeft.mpr ⟨rowMember, owns.trans_ne (left.mp holderMember).2⟩
  · intro holds other member row rowMember owns
    exact rowLeft.mpr ⟨rowMember, owns.trans_ne (bare holds other (left.mp member).1)⟩

/-- Deleting an entry for good would leave others without a directory. -/
def Strands (tables : Tables) (entry : Entry) : Prop :=
  entry.isDirectory = true ∧ entry.id ≠ rootId ∧ tables.isEmptyDirectory entry.id = true ∧
    ∃ other ∈ tables.entries, other.directoryId = entry.id

end Tables

namespace Txn

open Tables VersionStore.Action

variable
  {setting : Setting}
  {strict : Prop}
  {known : List Entry}
  {entry : Entry}

/-! ## Single rows -/

/-- Pruning removes a row with what hangs on it. -/
theorem pruneRow_works
    {pre : Tables → Prop}
    {post : Tables → Prop}
    {failed : Fault → Tables → Prop}
    (holds :
      ∀ tables,
        pre tables →
        post
          (if entry.isDirectory then
            (tables.removeEntry entry.id).removeDirectory entry.id
          else
            ((tables.removeEntry entry.id).removeParts entry.id).removeLinks entry.id)) :
    Works setting pre (pruneRow entry) (fun _ => post) failed := by
  refine .bind (fun _ => pre) (.query fun _ => id) fun count => ?_
  exact .bind (fun _ => post) (.update holds) fun _ => .pure fun _ => id

/-- Moving a row to the trash marks it as deleted. -/
theorem trashRow_works
    {now : Int}
    {pre : Tables → Prop}
    {post : Tables → Prop}
    {failed : Fault → Tables → Prop}
    (holds : ∀ tables, pre tables → post (tables.trashEntry entry.id now)) :
    Works setting pre (trashRow now entry) (fun _ => post) failed := by
  refine .bind (fun _ => pre) (.query fun _ => id) fun count => ?_
  exact .bind (fun _ => post) (.update holds) fun _ => .pure fun _ => id

/-- What a deletion leaves: sound tables, and no live entry that was not there before or that
has the id of the deleted one. -/
structure Cleared (strict : Prop) (known : List Entry) (before : Tables) (entry : Entry)
    (tables : Tables) : Prop where
  sound : tables.Sound strict known
  live :
    ∀ other ∈ tables.entries,
      other.isDeleted = false →
      other ∈ before.entries ∧ other.id ≠ entry.id

/-- An entry that may be deleted: a file, or a directory other than the top one that holds no
live entry, and nothing at all if it goes for good and integrity is asked for. -/
def Deletable (strict history : Prop) (entry : Entry) (tables : Tables) : Prop :=
  if entry.isDirectory then
    entry.id ≠ rootId ∧ tables.isEmptyDirectory entry.id = true ∧
      (strict → history ∨ ∀ other ∈ tables.entries, other.directoryId ≠ entry.id)
  else True

/-- Deleting an entry clears it away. -/
theorem deleteExisting_works
    (now : Int)
    (before : Tables) :
    Works setting
      (fun tables =>
        tables = before ∧ tables.Sound strict known ∧ Agrees entry tables ∧
          Deletable strict (setting.history = true) entry tables)
      (deleteExisting now entry)
      (fun _ => Cleared strict known before entry)
      fun _ => Tables.Sound strict known := by
  refine .locked (fun _ => .get fun store inScope => ?_) fun _ holds => holds.2.1
  simp only [inScope.history]
  refine .ite (fun kept => ?_) fun notKept => ?_
  · refine .bind (fun _ => Cleared strict known before entry) (trashRow_works ?_) fun _ => .pure fun _ => id
    rintro tables ⟨⟨rfl, sound, agrees, deletable⟩, -⟩
    have coherent := sound.coherent
    have proper : entry.id ≠ rootId ∧
        ∀ other ∈ tables.entries, other.isDeleted = false → other.directoryId ≠ entry.id := by
      unfold Deletable at deletable
      split at deletable
      · exact ⟨deletable.1, fun other member live =>
          directoryId_ne_of_isEmptyDirectory coherent deletable.1 deletable.2.1 member live⟩
      · rename_i isFile
        have isFile := Bool.eq_false_iff.mpr isFile
        exact ⟨coherent.id_ne_rootId agrees isFile, fun other member live =>
          coherent.directoryId_ne agrees isFile member live⟩
    refine ⟨sound.trashEntry proper.1 proper.2 now, ?_⟩
    intro other member live
    simp only [Tables.trashEntry, modifyEntry, List.mem_map] at member
    obtain ⟨old, oldMember, rfl⟩ := member
    by_cases meant : old.id = entry.id
    · simp [meant] at live
    · rw [if_neg meant]
      exact ⟨oldMember, meant⟩
  · refine .bind (fun _ => Cleared strict known before entry) (pruneRow_works ?_) fun _ => .pure fun _ => id
    rintro tables ⟨⟨rfl, sound, agrees, deletable⟩, -⟩
    unfold Deletable at deletable
    split
    · rename_i isDirectory
      rw [if_pos isDirectory] at deletable
      refine ⟨sound.removeDirectory deletable.1 deletable.2.1 ?_, ?_⟩
      · intro holds
        exact (deletable.2.2 holds).resolve_left notKept
      · intro other member _
        obtain ⟨oldMember, different⟩ := List.mem_filter.mp member
        exact ⟨oldMember, by simpa using different⟩
    · rename_i isFile
      refine ⟨sound.removeFile agrees (Bool.eq_false_iff.mpr isFile), ?_⟩
      intro other member _
      obtain ⟨oldMember, different⟩ := List.mem_filter.mp member
      exact ⟨oldMember, by simpa using different⟩

/-- Deleting an entry keeps sound tables sound, unless it strands others. -/
theorem deleteEntry_works
    (now : Int) :
    Works setting
      (fun tables =>
        tables.Sound strict known ∧ Agrees entry tables ∧
          (strict → setting.history = true ∨ ¬tables.Strands entry))
      (deleteEntry now entry)
      (fun _ => Tables.Sound strict known)
      fun _ => Tables.Sound strict known := by
  unfold deleteEntry
  refine .ite (fun _ => .pure fun _ holds => holds.1) fun proper => ?_
  refine .bind
    (fun empty tables =>
      (tables.Sound strict known ∧ Agrees entry tables ∧
        (strict → setting.history = true ∨ ¬tables.Strands entry)) ∧
          empty = tables.isEmptyDirectory entry.id)
    (.query fun _ holds => ⟨holds, rfl⟩) fun empty => ?_
  refine .ite (fun _ => .pure fun _ holds => holds.1.1) fun mayGo => .named fun before holds => ?_
  refine ((deleteExisting_works now before).asking ?_).promising fun _ _ left => left.sound
  rintro tables rfl
  obtain ⟨⟨sound, agrees, notStranded⟩, rfl⟩ := holds
  refine ⟨rfl, sound, agrees, ?_⟩
  unfold Deletable
  split
  · rename_i isDirectory
    have empty : tables.isEmptyDirectory entry.id = true := by
      simpa [isDirectory] using mayGo
    refine ⟨proper, empty, fun strictly => (notStranded strictly).imp_right ?_⟩
    intro notStranded other member held
    exact notStranded ⟨isDirectory, proper, empty, other, member, held⟩
  · trivial

/-- Deleting what is at a path keeps sound tables sound, unless it strands others. -/
theorem delete_works
    (now : Int)
    (text : String) :
    Works setting
      (fun tables =>
        tables.Sound strict known ∧
          (strict →
            setting.history = true ∨
              ∀ path entry,
                CleanPath.ofText text = .ok path →
                tables.lookupAt? path = some entry →
                ¬tables.Strands entry))
      (delete now text)
      (fun _ => Tables.Sound strict known)
      fun _ => Tables.Sound strict known := by
  unfold delete stat
  refine .bind
    (fun found tables =>
      tables.Sound strict known ∧
        ∀ entry,
          found = some entry →
          Agrees entry tables ∧ (strict → setting.history = true ∨ ¬tables.Strands entry))
    ?_ fun found => ?_
  · refine .bind
      (fun path tables =>
        (tables.Sound strict known ∧
          (strict →
            setting.history = true ∨
              ∀ path entry,
                CleanPath.ofText text = .ok path →
                tables.lookupAt? path = some entry →
                ¬tables.Strands entry)) ∧ CleanPath.ofText text = .ok path)
      (.clean (fun path isPath _ holds => ⟨holds, isPath⟩) fun _ _ holds => holds.1) fun path => ?_
    refine .entryAt? fun tables holds => ⟨holds.1.1, fun entry found => ⟨?_, ?_⟩⟩
    · have here := holds.1.1.coherent.lookupAt?_eq_some_iff.mp found
      exact holds.1.1.coherent.agrees here.member
    · exact fun strictly =>
        (holds.1.2 strictly).imp_right fun notStranded => notStranded path entry holds.2 found
  · cases found with
    | some entry =>
        exact (deleteEntry_works now).asking fun _ holds => ⟨holds.1, holds.2 entry rfl⟩
    | none =>
        exact .pure fun _ holds => holds.1

/-- Deleting an entry for good that strands others leaves them without a directory. -/
theorem deleteEntry_strands
    (now : Int)
    (lost : setting.history = false)
    (before : Tables)
    (coherent : before.Coherent)
    (strands : before.Strands entry) :
    Works setting (· = before)
      (deleteEntry now entry)
      (fun _ tables => ¬tables.Integral)
      fun _ tables => tables = before := by
  obtain ⟨isDirectory, proper, empty, other, member, held⟩ := strands
  unfold deleteEntry
  rw [if_neg proper]
  refine .bind (fun empty tables => tables = before ∧ empty = true) (.query ?_) fun answer => ?_
  · rintro _ rfl
    exact ⟨rfl, empty⟩
  refine .ite (fun kept => .assuming (answer = true) (fun _ holds => holds.2) fun isTrue => ?_)
    fun _ => ?_
  · simp [isTrue] at kept
  refine .locked (fun _ => .get fun store inScope => ?_) fun _ holds => holds.1
  rw [if_neg (by simp [inScope.history, lost])]
  refine .bind (fun _ tables => ¬tables.Integral) (pruneRow_works ?_) fun _ => .pure fun _ => id
  rintro _ ⟨⟨rfl, -⟩, -⟩ integral
  rw [if_pos isDirectory] at integral
  have different : other.id ≠ entry.id := by
    intro same
    obtain ⟨rank, ranked⟩ := coherent.ranked
    exact ranked.holder_ne member (same.trans_ne proper) (held.trans same.symm)
  obtain ⟨row, rowMember, same⟩ :=
    integral other (List.mem_filter.mpr ⟨member, by simpa using different⟩)
  obtain ⟨-, left⟩ := List.mem_filter.mp rowMember
  exact (by simpa using left : row.id ≠ entry.id) (same.trans held)

/-- Deleting what is at a path for good, where that strands others, leaves them without a
directory. -/
theorem delete_strands
    (now : Int)
    (lost : setting.history = false)
    {text : String}
    {path : CleanPath}
    (isPath : CleanPath.ofText text = .ok path)
    (before : Tables)
    (coherent : before.Coherent)
    (found : before.lookupAt? path = some entry)
    (strands : before.Strands entry) :
    Works setting (· = before)
      (delete now text)
      (fun _ tables => ¬tables.Integral)
      fun _ tables => tables = before := by
  unfold delete stat clean
  rw [isPath]
  refine .bind (fun answer tables => tables = before ∧ answer = some entry)
    (.bind (fun cleaned tables => tables = before ∧ cleaned = path) (.pure fun _ same => ⟨same, rfl⟩)
      fun cleaned => .entryAt? ?_) fun answer => ?_
  · rintro _ ⟨rfl, rfl⟩
    exact ⟨rfl, found⟩
  refine .assuming (answer = some entry) (fun _ holds => holds.2) fun isAnswer => ?_
  subst isAnswer
  exact (deleteEntry_strands now lost before coherent strands).asking fun _ holds => holds.1

/-- Pruning a known entry keeps sound tables sound. -/
theorem prune_works
    (now : Int) :
    Works setting
      (fun tables => tables.Sound strict known ∧ Agrees entry tables)
      (prune now entry)
      (fun _ => Tables.Sound strict known)
      fun _ => Tables.Sound strict known := by
  unfold prune
  refine .ite (fun isDirectory => ?_) fun isFile => ?_
  · refine .bind
      (fun empty tables => tables.Sound strict known ∧ empty = tables.isEmptyDirectory entry.id)
      (.query fun _ holds => ⟨holds.1, rfl⟩) fun empty => ?_
    refine .ite (fun mayGo => ?_) fun _ => .pure fun _ holds => holds.1
    refine .bind (fun _ => Tables.Sound strict known) (trashRow_works ?_)
      fun _ => .pure fun _ sound => sound
    rintro tables ⟨sound, rfl⟩
    obtain ⟨proper, isEmpty⟩ := Bool.and_eq_true_iff.mp mayGo
    rw [bne_iff_ne] at proper
    exact sound.trashEntry proper
      (fun other member live =>
        directoryId_ne_of_isEmptyDirectory sound.coherent proper isEmpty member live) now
  · refine .bind (fun _ => Tables.Sound strict known) (pruneRow_works ?_)
      fun _ => .pure fun _ sound => sound
    rintro tables ⟨sound, agrees⟩
    rw [if_neg isFile]
    exact sound.removeFile agrees (Bool.eq_false_iff.mpr isFile)

/-! ## Versions in the trash -/

/-- Pruning files keeps sound tables sound. -/
theorem pruneRows_works
    (entries : List Entry) :
    Works setting
      (fun tables =>
        tables.Sound strict known ∧
          ∀ entry ∈ entries, entry.isDirectory = false ∧ Agrees entry tables)
      (pruneRows entries)
      (fun _ => Tables.Sound strict known)
      fun _ => Tables.Sound strict known := by
  induction entries with
  | nil =>
      exact .pure fun _ holds => holds.1
  | cons entry rest inductionHypothesis =>
      rw [pruneRows]
      refine .bind
        (fun _ tables =>
          tables.Sound strict known ∧
            ∀ entry ∈ rest, entry.isDirectory = false ∧ Agrees entry tables)
        (pruneRow_works ?_) fun count => ?_
      · rintro tables ⟨sound, files⟩
        obtain ⟨isFile, agrees⟩ := files entry (by simp)
        rw [isFile]
        refine ⟨sound.removeFile agrees isFile, fun other member => ?_⟩
        obtain ⟨otherFile, otherAgrees⟩ := files other (List.mem_cons_of_mem _ member)
        exact ⟨otherFile, fun row rowMember => otherAgrees row (List.mem_of_mem_filter rowMember)⟩
      · exact .bind _ inductionHypothesis fun _ => .pure fun _ sound => sound

/-- The versions that are meant are files of the tables. -/
theorem of_mem_versionsMeant
    {tables : Tables}
    {all : Bool}
    {info : TrashEntry}
    (member : entry ∈ versionsMeant tables all info) :
    entry ∈ tables.entries ∧ entry.isDirectory = false ∧ entry.isDeleted = true := by
  obtain ⟨listed, isFile⟩ := List.mem_filter.mp member
  have kind : entry.isDirectory = false := by
    simpa [Entry.isFile] using isFile
  cases all with
  | false =>
      have found := Option.mem_toList.mp listed
      have holds := List.find?_some found
      simp only [Bool.and_eq_true, beq_iff_eq] at holds
      exact ⟨List.mem_of_find?_eq_some found, kind, holds.2⟩
  | true =>
      obtain ⟨trashed, trashedMember, rfl⟩ := List.mem_map.mp listed
      obtain ⟨isVersion, -⟩ := mem_versionsOf_iff.mp trashedMember
      have isTrashed := isVersion.isTrashed
      simp only [isTrashedFile, Bool.and_eq_true] at isTrashed
      exact ⟨isVersion.member, kind, isTrashed.1⟩

/-- Pruning versions keeps sound tables sound. -/
theorem pruneVersions_keeps
    (all : Bool)
    (infos : List TrashEntry) :
    Keeps setting (Tables.Sound strict known) (pruneVersions all infos) := by
  induction infos with
  | nil =>
      exact .pure fun _ sound => sound
  | cons info rest inductionHypothesis =>
      rw [pruneVersions]
      refine .ite (fun _ => inductionHypothesis) fun _ => ?_
      refine .bind
        (fun versions tables =>
          tables.Sound strict known ∧
            ∀ entry ∈ versions, entry.isDirectory = false ∧ Agrees entry tables)
        (.query ?_) fun versions => ?_
      · intro tables sound
        refine ⟨sound, fun entry member => ?_⟩
        obtain ⟨inTable, isFile, -⟩ := of_mem_versionsMeant member
        exact ⟨isFile, sound.coherent.agrees inTable⟩
      · exact .bind _ (pruneRows_works versions) fun _ =>
          .bind _ inductionHypothesis fun _ => .pure fun _ sound => sound

/-- A sweep changes the tables as it says. -/
theorem sweep_works
    (select? : Option Selector)
    (before : Tables) :
    Works setting (· = before) (sweep select?)
      (fun counts tables => (counts, tables) = sweepTables select? before)
      fun _ _ => False := by
  unfold sweep
  refine .bind (fun answer tables => answer = sweepTables select? before ∧ tables = before)
    (.query ?_) fun answer => .get fun store inScope => ?_
  · rintro _ rfl
    exact ⟨rfl, rfl⟩
  · refine .ite (fun unchanged => .pure ?_) fun _ => ?_
    · rintro _ ⟨⟨isAnswer, -⟩, same⟩
      rw [← isAnswer, same, ← unchanged]
    · rw [refusal?_of_alone inScope.toAlone]
      simp only [Option.isSome_none, Bool.false_eq_true, if_false]
      refine .bind (fun _ tables => (answer.1, tables) = sweepTables select? before) (.update ?_)
        fun _ => .pure fun _ holds => holds
      rintro _ ⟨⟨isAnswer, -⟩, -⟩
      rw [← isAnswer]

/-- A sweep keeps sound tables sound. -/
theorem sweep_keeps
    (select? : Option Selector) :
    Keeps setting (Tables.Sound strict known) (sweep select?) := by
  refine .named fun before sound => (sweep_works select? before).weaken (fun _ same => same) ?_
    fun _ _ absurd => absurd.elim
  intro counts tables isResult
  have same : tables = (sweepTables select? before).2 :=
    congrArg Prod.snd isResult
  rw [same]
  exact sound.sweepTables select?

/-- Pruning the history keeps sound tables sound. -/
theorem pruneHistory_keeps
    (infos : List TrashEntry)
    (all : Bool) :
    Keeps setting (Tables.Sound strict known) (pruneHistory infos all) := by
  unfold pruneHistory
  exact .bind _ (pruneVersions_keeps all infos) fun _ =>
    .bind _ (sweep_keeps none) fun _ => .pure fun _ sound => sound

end Txn

end VersionStore
