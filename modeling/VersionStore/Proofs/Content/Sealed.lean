import VersionStore.Proofs.Action.Refusing
import VersionStore.Proofs.Content.Edited

namespace VersionStore

/-!
# Files that are not to be written to

A live file that is not to be written to is sealed: it keeps its row and its parts through all
edits that are not asked to delete it or to make it writable, and through the storing of parts of
other files. What is to be written in its place is refused, and so is a version that is to be
restored in its place or below it.
-/

/-- A row has the content of a file, is live and is not to be written to. -/
structure Entry.SealedIn (version row : Entry) : Prop extends version.SameContent row where
  live : row.isDeleted = false
  barred : row.writable = false

/-- The row of a sealed file is not expendable unless it was asked for. -/
theorem Entry.SealedIn.not_expendable
    {asked : Int → Prop}
    {version row : Entry}
    (sealedIn : version.SealedIn row)
    (isFile : version.isDirectory = false)
    (spared : ¬asked version.id) :
    ¬row.Expendable asked := by
  rintro (isAsked | deleted | writable | directory)
  · exact spared (sealedIn.id ▸ isAsked)
  · exact Bool.false_ne_true (sealedIn.live.symm.trans deleted)
  · exact Bool.false_ne_true (sealedIn.barred.symm.trans writable)
  · exact Bool.false_ne_true (isFile.symm.trans (sealedIn.isDirectory.trans directory))

namespace Tables

variable
  {asked : Int → Prop}
  {version : Entry}
  {parts : List Part}
  {start tables after : Tables}

/-- A file is sealed, with these parts. -/
structure Sealed (version : Entry) (parts : List Part) (tables : Tables) : Prop where
  row : ∃ row ∈ tables.entries, version.SealedIn row
  pieces : tables.pieces version.id = parts

namespace Sealed

/-- A live file that is not to be written to is sealed. -/
theorem refl
    (member : version ∈ tables.entries)
    (live : version.isDeleted = false)
    (barred : version.writable = false) :
    tables.Sealed version (tables.pieces version.id) :=
  ⟨⟨version, member, .refl version, live, barred⟩, rfl⟩

/-- Rows may change as long as the file stays sealed in its row. -/
theorem modifyEntry
    (isSealed : tables.Sealed version parts)
    (id : Int)
    (change : Entry → Entry)
    (kept :
      ∀ row ∈ tables.entries,
        row.id = id →
        version.SealedIn row →
        version.SealedIn (change row)) :
    (tables.modifyEntry id change).Sealed version parts := by
  obtain ⟨row, member, sealedIn⟩ := isSealed.row
  refine ⟨⟨_, List.mem_map_of_mem member, ?_⟩, isSealed.pieces⟩
  split
  · exact kept row member ‹_› sealedIn
  · exact sealedIn

/-- Other rows may change in any way. -/
theorem modifyOther
    (isSealed : tables.Sealed version parts)
    {id : Int}
    (other : id ≠ version.id)
    (change : Entry → Entry) :
    (tables.modifyEntry id change).Sealed version parts :=
  isSealed.modifyEntry id change fun _ _ same sealedIn => absurd (same.symm.trans sealedIn.id.symm) other

/-- Rows may go as long as the one stays that the file is sealed in. -/
theorem filterEntries
    (isSealed : tables.Sealed version parts)
    (gone : List Int)
    (stays :
      ∀ row ∈ tables.entries,
        version.SealedIn row →
        row.id ∉ gone) :
    ∃ row ∈ tables.entries.filter fun row => row.id ∉ gone, version.SealedIn row := by
  obtain ⟨row, member, sealedIn⟩ := isSealed.row
  exact ⟨row, List.mem_filter.mpr ⟨member, by simpa using stays row member sealedIn⟩, sealedIn⟩

end Sealed

/-- A sealed file stays sealed as long as parts of other files are stored. -/
theorem stores_sealed
    (version : Entry)
    (parts : List Part) :
    EnduresStoring (· ≠ version.id) (· ≠ version.id) (Sealed version parts) where
  recorded _ _ _ _ _ other isSealed := isSealed.modifyOther other _
  stored _ _ other _ isSealed := by
    refine ⟨isSealed.row, ?_⟩
    rw [Carries.pieces_concat, if_neg other, List.append_nil, isSealed.pieces]
  replaced _ _ _ other isSealed :=
    ⟨isSealed.row, (pieces_replacePart other).trans isSealed.pieces⟩

/-- A sealed file stays sealed through an edit that was not asked for it. -/
theorem Edit.sealed
    (edit : Edit asked start tables after)
    (isFile : version.isDirectory = false)
    (spared : ¬asked version.id)
    (given : version.id ≤ start.lastEntryId)
    (isSealed : tables.Sealed version parts) :
    after.Sealed version parts := by
  have other
      {id : Int}
      (fresh : start.lastEntryId < id) :
      id ≠ version.id := by
    omega
  cases edit with
  | directories rows =>
      exact ⟨isSealed.row, isSealed.pieces⟩
  | added entry =>
      obtain ⟨row, member, sealedIn⟩ := isSealed.row
      exact ⟨⟨row, List.mem_append_left _ member, sealedIn⟩, isSealed.pieces⟩
  | modified id change same barred =>
      refine isSealed.modifyEntry id change fun row _ isRow sealedIn => ?_
      refine ⟨sealedIn.toSameContent.trans (same row).1, (same row).2.trans sealedIn.live, ?_⟩
      rcases barred with isAsked | barred
      · exact absurd (sealedIn.id.trans isRow ▸ isAsked) spared
      · exact Bool.eq_false_iff.mpr fun writable =>
          Bool.false_ne_true (sealedIn.barred.symm.trans (barred row writable))
  | trashed id now expendable =>
      exact isSealed.modifyEntry id _ fun row member isRow sealedIn =>
        absurd (expendable row member isRow) (sealedIn.not_expendable isFile spared)
  | removedFiles files areFiles =>
      have stays (row : Entry) (member : row ∈ tables.entries) (sealedIn : version.SealedIn row) :
          row.id ∉ files := fun isGone =>
        sealedIn.not_expendable isFile spared (areFiles row member isGone).2
      refine ⟨isSealed.filterEntries files stays, Eq.trans ?_ isSealed.pieces⟩
      obtain ⟨row, member, sealedIn⟩ := isSealed.row
      have kept : version.id ∉ files := sealedIn.id ▸ stays row member sealedIn
      unfold Txn.withoutFiles Tables.pieces
      rw [List.filter_filter]
      refine List.filter_congr fun part _ => ?_
      by_cases isPiece : part.fileId = version.id
      · simp [isPiece, kept]
      · simp [isPiece]
  | removedDirectories gone areDirectories =>
      refine ⟨isSealed.filterEntries gone fun row member sealedIn isGone => ?_, isSealed.pieces⟩
      exact Bool.false_ne_true
        (isFile.symm.trans (sealedIn.isDirectory.trans (areDirectories row member isGone)))
  | recorded id length modified checksum fresh =>
      exact isSealed.modifyOther (other fresh) _
  | stored part isNext fresh =>
      exact (stores_sealed version parts).stored tables part (other fresh) isNext isSealed
  | linked id paths =>
      obtain ⟨targets, links, isResult⟩ := setLinks_eq id paths tables
      rw [isResult]
      exact ⟨isSealed.row, isSealed.pieces⟩

/-! ## Where nothing is accepted -/

variable
  {gives : Int → Bool → Bool}
  {path : CleanPath}
  {entry : Entry}

/-- A path with a file that is not to be written to accepts no other one. -/
theorem not_accepts_of_barred
    (here : tables.FileAt path entry)
    (barred : entry.writable = false) :
    ¬tables.Accepts gives path := fun accepts =>
  Bool.false_ne_true (barred.symm.trans (accepts.replaceable entry here.found).2.1)

/-- Nothing is accepted below a file. -/
theorem not_accepts_below
    (here : tables.FileAt path entry)
    (name : Name) :
    ¬tables.Accepts gives ⟨path.names ++ [name]⟩ := by
  intro accepts
  have seen : tables.sights path = some (.file (tables.versionOf entry)) := by
    rw [sights, here.found, Option.map_some, sightOf_file here.isFile]
  refine accepts.leads path _ ?_ seen
  simp [CleanPath.dropLast]

end Tables

namespace Txn

open Tables VersionStore.Action

variable
  {setting : Setting}
  {gives : Int → Bool → Bool}
  {strict : Prop}
  {known : List Entry}
  {start : Tables}
  {path : CleanPath}
  {entry : Entry}

/-! ## Writing in the place of a file -/

section Barred

variable
  (here : start.FileAt path entry)
  (barred : entry.writable = false)

include here barred

/-- No room is made in the place of a file that is not to be written to. -/
theorem clearForWrite_refuses
    (now : Int) :
    Refuses setting gives start (clearForWrite now path) (.invalidDestination path.text) := by
  have refused :
      Refuses setting gives start (α := Int) (throw (.invalidDestination path.text))
        (.invalidDestination path.text) :=
    .of_works (.throw fun _ same => ⟨rfl, same⟩)
  unfold clearForWrite
  simp only [throw_bind]
  split
  · exact refused
  · refine .known _ (entryAt?_known path) ?_
    rw [here.found]
    dsimp only
    rw [if_pos (by simp [barred])]
    exact refused

/-- A file that is not to be written to is not replaced. -/
theorem writeFrom_refuses
    (now : Int)
    {text : String}
    (isPath : CleanPath.ofText text = .ok path)
    (source : Source)
    (links? : Option (List String))
    (time? : Option Int) :
    Refuses setting gives start (writeFrom now text source links? time?)
      (.invalidDestination path.text) :=
  .known _ (clean_known isPath) ((clearForWrite_refuses here barred now).stops _)

/-- A file that is not to be written to is not replaced by a copy. -/
theorem copy_refuses
    (now : Int)
    {text sourceText : String}
    (isPath : CleanPath.ofText text = .ok path)
    {sourcePath : CleanPath}
    (isSource : CleanPath.ofText sourceText = .ok sourcePath)
    {source : Entry}
    (there : start.FileAt sourcePath source)
    (isGiven : gives source.id false = true)
    (time? : Option Int) :
    Refuses setting gives start (copy now text sourceText time?) (.invalidDestination path.text) := by
  refine .known _ (clean_known isSource) (.known _ (requireFile_known there) ?_)
  refine .known _ (clean_known isPath) (.locked isGiven fun _ => ?_)
  refine .known _ (entryAt?_known path) ?_
  rw [here.found]
  simp only [throw_bind]
  split
  · exact .of_works (.throw fun _ same => ⟨rfl, same⟩)
  · exact (clearForWrite_refuses here barred now).stops _

end Barred

/-! ## Restoring versions -/

/-- A version is not restored where nothing is accepted. -/
theorem restore_fails
    (now : Int)
    (sound : start.Sound strict known)
    (unaccepted : ∀ gives, ¬start.Accepts gives path)
    (info : TrashEntry) :
    Works setting (· = start) (restore now path info) (fun _ _ => False) fun _ _ => True := by
  refine .bind (fun _ tables => tables = start) (.query fun _ same => same) fun found => ?_
  refine .bind (fun _ tables => tables = start)
    (.require (fun _ _ _ same => same) fun _ _ _ => trivial) fun version => ?_
  refine .locked (fun _ => ?_) fun _ _ => trivial
  refine .bind (fun _ tables => tables = start) (.entryAt? fun _ same => same) fun existing => ?_
  have cleared :
      Works setting (· = start) (clearForWrite now path) (fun _ _ => False) fun _ _ => True :=
    Decides.fails (fun _ => clearForWrite_decides now sound) unaccepted
  have rest (next : Int → Action Entry) :
      Works setting (· = start) (clearForWrite now path >>= next) (fun _ _ => False)
        fun _ _ => True :=
    .bind _ cleared fun _ => .assuming False (fun _ absurd => absurd) fun absurd => absurd.elim
  cases existing with
  | some other =>
      simp only [throw_bind]
      exact .ite (fun _ => .throw fun _ _ => trivial) fun _ => rest _
  | none =>
      exact rest _

/-- None of some versions is restored where nothing is accepted. -/
theorem restoreEach_fails
    (now : Int)
    (sound : start.Sound strict known)
    (target : CleanPath)
    (single : Bool)
    (infos : List TrashEntry)
    (unaccepted :
      ∀ info ∈ infos,
        ∃ path : CleanPath,
          (if single then .ok target else target.join info.entry.name) = (.ok path : Except Fault _) ∧
            ∀ gives, ¬start.Accepts gives path) :
    Works setting (· = start) (restoreEach now target single infos)
      (fun counts tables => counts = (0, infos.length) ∧ tables = start) fun _ _ => False := by
  induction infos with
  | nil =>
      exact .pure fun _ same => ⟨rfl, same⟩
  | cons info rest inductionHypothesis =>
      obtain ⟨path, isTarget, refused⟩ := unaccepted info List.mem_cons_self
      have targeted :
          restoreTarget target single info = ofExcept (.ok path : Except Fault CleanPath) := by
        rw [← isTarget, restoreTarget]
        split <;> rfl
      rw [restoreEach, targeted]
      refine .bind (fun result tables => result = path ∧ tables = start)
        (.ofExcept fun _ same => ⟨rfl, same⟩) fun result => ?_
      refine .assuming (result = path) (fun _ known => known.1) ?_
      rintro rfl
      have undone :
          Works setting (· = start) (transaction (restore now result info)) (fun _ _ => False)
            fun _ tables => tables = start :=
        (restore_fails now sound refused info).transaction fun _ _ _ same _ => same
      refine .bind _ (undone.attempt.asking fun _ known => known.2) fun outcome => ?_
      cases outcome with
      | ok entry =>
          exact .assuming False (fun _ absurd => absurd) fun absurd => absurd.elim
      | error fault =>
          refine .bind _ (inductionHypothesis fun other member =>
            unaccepted other (List.mem_cons_of_mem _ member)) fun counts => .pure ?_
          rintro _ ⟨rfl, same⟩
          exact ⟨rfl, same⟩

/-- In the place of a file that is not to be written to no version is restored, and several
versions with proper names are not restored below it. -/
theorem recover_fails
    (now : Int)
    (sound : start.Sound strict known)
    (here : start.FileAt path entry)
    (barred : entry.writable = false)
    {text : String}
    (isPath : CleanPath.ofText text = .ok path)
    {infos : List TrashEntry}
    (named : infos.length = 1 ∨ ∀ info ∈ infos, IsName info.entry.name) :
    Works setting (· = start) (recover now text infos)
      (fun counts tables => counts = (0, infos.length) ∧ tables = start) fun _ _ => False := by
  refine .bind _ (clean_known isPath) fun result => ?_
  refine .assuming (result = path) (fun _ known => known.1) ?_
  rintro rfl
  refine Works.asking (restoreEach_fails now sound result _ infos fun info member => ?_)
    fun _ known => known.2
  by_cases single : infos.length = 1
  · refine ⟨result, ?_, fun _ => not_accepts_of_barred here barred⟩
    rw [if_pos (beq_iff_eq.mpr single)]
  · have isName := named.resolve_left single info member
    refine ⟨⟨result.names ++ [⟨info.entry.name, isName⟩]⟩, ?_, fun _ => not_accepts_below here _⟩
    rw [if_neg (by simpa using single), CleanPath.join]
    have joined :
        Path.join result.text info.entry.name =
          CleanPath.text ⟨result.names ++ [⟨info.entry.name, isName⟩]⟩ :=
      CleanPath.join_joinNames result.names ⟨info.entry.name, isName⟩
    rw [joined, CleanPath.ofText_text]

end Txn

end VersionStore
