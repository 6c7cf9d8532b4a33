import VersionStore.Proofs.Content.Linked

namespace VersionStore.Tables

/-!
# Rows that belong to others

Parts belong to files, links to entries and to targets, and the rows of directories to their
entries. A file that is removed takes its parts and links along. A directory takes its row along
but not its links, so they are left behind when it had some. No other edit leaves anything
behind.
-/

variable
  {asked : Int → Prop}
  {start tables after : Tables}
  {id : Int}

/-- An entry has this id. -/
def HasEntry (id : Int) (tables : Tables) : Prop :=
  ∃ entry ∈ tables.entries, entry.id = id

/-- A directory has this id, and links of it are stored. -/
def HasLinkedDirectory (id : Int) (tables : Tables) : Prop :=
  (∃ entry ∈ tables.entries, entry.id = id ∧ entry.isDirectory = true) ∧
    ∃ link ∈ tables.links, link.source = id

/-- No row is left behind by what it belongs to. -/
structure Attached (tables : Tables) : Prop where
  parts : ∀ part ∈ tables.parts, tables.HasFile part.fileId
  sources : ∀ link ∈ tables.links, tables.HasEntry link.source
  targets : ∀ link ∈ tables.links, ∃ target ∈ tables.targets, target.id = link.target
  directories :
    ∀ row ∈ tables.directories,
      ∃ entry ∈ tables.entries, entry.id = row.id ∧ entry.isDirectory = true

theorem HasFile.hasEntry
    (file : tables.HasFile id) :
    tables.HasEntry id := by
  obtain ⟨entry, member, isId, -⟩ := file
  exact ⟨entry, member, isId⟩

/-! ## What edits leave -/

namespace Edit

/-- A file stays, or it goes with its parts and links. -/
theorem hasFile
    (edit : Edit asked start tables after)
    (file : tables.HasFile id) :
    after.HasFile id ∨
      (∀ part ∈ after.parts, part.fileId ≠ id) ∧ ∀ link ∈ after.links, link.source ≠ id := by
  obtain ⟨entry, member, isId, isFile⟩ := file
  have modified
      {other : Int}
      {change : Entry → Entry}
      (same : ∀ entry, (change entry).id = entry.id ∧ (change entry).isDirectory = entry.isDirectory) :
      (tables.modifyEntry other change).HasFile id := by
    refine ⟨_, List.mem_map_of_mem member, ?_⟩
    split
    · exact ⟨(same entry).1.trans isId, (same entry).2.trans isFile⟩
    · exact ⟨isId, isFile⟩
  cases edit with
  | directories | stored =>
      exact .inl ⟨entry, member, isId, isFile⟩
  | added new =>
      exact .inl ⟨entry, List.mem_append_left _ member, isId, isFile⟩
  | modified other change same =>
      refine .inl (modified fun entry => ?_)
      exact ⟨(same entry).1.id.symm, (same entry).1.isDirectory.symm⟩
  | trashed | recorded =>
      exact .inl (modified fun _ => ⟨rfl, rfl⟩)
  | removedFiles files =>
      by_cases gone : id ∈ files
      · refine .inr ⟨fun part isPart same => ?_, fun link isLink same => ?_⟩
        · exact absurd gone (same ▸ by simpa using (List.mem_filter.mp isPart).2)
        · exact absurd gone (same ▸ by simpa using (List.mem_filter.mp isLink).2)
      · exact .inl ⟨entry, List.mem_filter.mpr ⟨member, by simpa [isId] using gone⟩, isId, isFile⟩
  | removedDirectories gone areDirectories =>
      have stays : entry.id ∉ gone := fun isGone =>
        Bool.false_ne_true (isFile.symm.trans (areDirectories entry member isGone))
      exact .inl ⟨entry, List.mem_filter.mpr ⟨member, by simpa using stays⟩, isId, isFile⟩
  | linked other paths =>
      obtain ⟨targets, links, isResult⟩ := setLinks_eq other paths tables
      rw [isResult]
      exact .inl ⟨entry, member, isId, isFile⟩

/-- A part was there before, or its file is there. -/
theorem part_origin
    (edit : Edit asked start tables after)
    {part : Part}
    (member : part ∈ after.parts) :
    part ∈ tables.parts ∨ after.HasFile part.fileId := by
  cases edit with
  | stored new isNext fresh file =>
      rcases List.mem_append.mp member with old | isNew
      · exact .inl old
      · rw [List.mem_singleton.mp isNew]
        exact .inr file
  | removedFiles files =>
      exact .inl (List.mem_of_mem_filter member)
  | linked other paths =>
      obtain ⟨targets, links, isResult⟩ := setLinks_eq other paths tables
      rw [isResult] at member
      exact .inl member
  | _ =>
      exact .inl member

/-- A link was there before, or the file that it comes from is there. -/
theorem link_origin
    (edit : Edit asked start tables after)
    {link : Link}
    (member : link ∈ after.links) :
    link ∈ tables.links ∨ after.HasFile link.source := by
  cases edit with
  | removedFiles files =>
      exact .inl (List.mem_of_mem_filter member)
  | linked other paths file =>
      by_cases own : link.source = other
      · obtain ⟨targets, links, isResult⟩ := setLinks_eq other paths tables
        rw [isResult, own]
        exact .inr file
      · exact .inl ((mem_links_setLinks_iff tables own paths).mp member)
  | _ =>
      exact .inl member

end Edit

/-- Every part is traced to its file, and every link to its file or to a directory that had links
at the start. -/
structure Traced (start tables : Tables) : Prop where
  parts : ∀ part ∈ tables.parts, tables.HasFile part.fileId
  sources :
    ∀ link ∈ tables.links, tables.HasFile link.source ∨ start.HasLinkedDirectory link.source

namespace Attached

/-- What is attached is traced to begin with. -/
theorem traced
    (attached : start.Attached) :
    Traced start start where
  parts := attached.parts
  sources link member := by
    obtain ⟨entry, isEntry, isSource⟩ := attached.sources link member
    cases kind : entry.isDirectory with
    | true =>
        exact .inr ⟨⟨entry, isEntry, isSource, kind⟩, link, member, rfl⟩
    | false =>
        exact .inl ⟨entry, isEntry, isSource, kind⟩

/-- Setting the links of an entry leaves nothing behind. -/
theorem setLinks
    (attached : start.Attached)
    (interned : start.Interned)
    (entry : start.HasEntry id)
    (paths : List String) :
    (start.setLinks id paths).Attached := by
  have linked := (interned.setLinks id paths).1.linked
  have sources : ∀ link ∈ (start.setLinks id paths).links, start.HasEntry link.source := by
    intro link member
    by_cases own : link.source = id
    · exact own ▸ entry
    · exact attached.sources link ((mem_links_setLinks_iff start own paths).mp member)
  obtain ⟨targets, links, isResult⟩ := setLinks_eq id paths start
  rw [isResult] at linked sources ⊢
  exact ⟨attached.parts, sources, linked, attached.directories⟩

end Attached

/-- Edits leave everything traced. -/
theorem Edit.traced
    (edit : Edit asked start tables after)
    (traced : Traced start tables) :
    Traced start after where
  parts part member := by
    rcases edit.part_origin member with old | file
    · rcases edit.hasFile (traced.parts part old) with stays | ⟨parts, -⟩
      · exact stays
      · exact absurd rfl (parts part member)
    · exact file
  sources link member := by
    rcases edit.link_origin member with old | file
    · rcases traced.sources link old with file | directory
      · rcases edit.hasFile file with stays | ⟨-, links⟩
        · exact .inl stays
        · exact absurd rfl (links link member)
      · exact .inr directory
    · exact .inl file

/-- What is traced is attached when the directories that had links are there. -/
theorem Traced.attached
    (traced : Traced start tables)
    (interned : tables.Interned)
    (coherent : tables.Coherent)
    (stay : ∀ id, start.HasLinkedDirectory id → tables.HasEntry id) :
    tables.Attached where
  parts := traced.parts
  sources link member := (traced.sources link member).elim HasFile.hasEntry (stay link.source)
  targets := interned.linked
  directories := coherent.owned

/-- The links of a directory stay, whether it stays or not. -/
theorem Edited.link_stays
    (edited : Edited asked start tables)
    (listed : start.Listed)
    (linked : start.HasLinkedDirectory id) :
    ∃ link ∈ tables.links, link.source = id := by
  obtain ⟨⟨directory, isDirectory, isId, kind⟩, hasLink⟩ := linked
  induction edited with
  | refl =>
      exact hasLink
  | @tail before after edited edit inductionHypothesis =>
      obtain ⟨link, member, isSource⟩ := inductionHypothesis
      cases edit with
      | removedFiles files areFiles wereFiles =>
          refine ⟨link, List.mem_filter.mpr ⟨member, ?_⟩, isSource⟩
          have apart : id ∉ files := fun isFile =>
            Bool.false_ne_true ((wereFiles directory isDirectory (isId ▸ isFile)).symm.trans kind)
          simpa [isSource] using apart
      | linked other paths file =>
          have apart : link.source ≠ other := by
            rintro rfl
            obtain ⟨row, rowMember, isRow, isFile⟩ := file
            have same :=
              Edited.kind edited listed rowMember isDirectory (by rw [isId, isRow, isSource])
            exact Bool.false_ne_true (isFile.symm.trans (same.symm.trans kind))
          exact ⟨link, (mem_links_setLinks_iff before apart paths).mpr member, isSource⟩
      | _ =>
          exact ⟨link, member, isSource⟩

/-- Edits leave nothing behind just when the directories that had links are there. -/
theorem Edited.attached_iff
    (edited : Edited asked start tables)
    (attached : start.Attached)
    (listed : start.Listed)
    (interned : tables.Interned)
    (coherent : tables.Coherent) :
    tables.Attached ↔ ∀ id, start.HasLinkedDirectory id → tables.HasEntry id := by
  constructor
  · intro attached id linked
    obtain ⟨link, member, rfl⟩ := edited.link_stays listed linked
    exact attached.sources link member
  · have traced : Traced start tables :=
      edited.preserves (fun _ _ _ edit => edit.traced) attached.traced
    exact traced.attached interned coherent

/-! ## What writers leave -/

/-- Which entries there are, and which of them are directories. -/
def kinds (tables : Tables) : List (Int × Bool) :=
  tables.entries.map fun entry => (entry.id, entry.isDirectory)

theorem mem_kinds_iff
    {kind : Bool} :
    (id, kind) ∈ tables.kinds ↔ ∃ entry ∈ tables.entries, entry.id = id ∧ entry.isDirectory = kind := by
  simp [kinds]

/-- Recording a content changes no kinds. -/
theorem kinds_recordContent
    (tables : Tables)
    (id length modified : Int)
    (checksum : Option Checksum) :
    (tables.recordContent id length modified checksum).kinds = tables.kinds := by
  simp only [kinds, recordContent, modifyEntry, List.map_map]
  refine List.map_congr_left fun entry _ => ?_
  dsimp only [Function.comp_apply]
  split <;> rfl

/-- The rows that others belong to are the same, and those that belong to them. -/
structure Alike (start tables : Tables) : Prop where
  kinds : tables.kinds = start.kinds
  directories : tables.directories = start.directories
  targets : tables.targets = start.targets
  links : tables.links = start.links

/-- Tables that are alike have the same files. -/
theorem Alike.hasFile_iff
    (alike : Alike start tables) :
    tables.HasFile id ↔ start.HasFile id := by
  rw [HasFile, HasFile, ← mem_kinds_iff, ← mem_kinds_iff, alike.kinds]

/-- Where nothing else was changed, only parts can be left behind. -/
theorem Alike.attached
    (alike : Alike start tables)
    (attached : start.Attached)
    (parts : ∀ part ∈ tables.parts, start.HasFile part.fileId) :
    tables.Attached where
  parts part member := alike.hasFile_iff.mpr (parts part member)
  sources link member := by
    obtain ⟨entry, isEntry, isSource⟩ := attached.sources link (alike.links ▸ member)
    have isKind := mem_kinds_iff.mpr ⟨entry, isEntry, isSource, rfl⟩
    rw [← alike.kinds] at isKind
    obtain ⟨row, isRow, isId, -⟩ := mem_kinds_iff.mp isKind
    exact ⟨row, isRow, isId⟩
  targets := by
    rw [alike.links, alike.targets]
    exact attached.targets
  directories row member := by
    rw [← mem_kinds_iff, alike.kinds, mem_kinds_iff]
    exact attached.directories row (alike.directories ▸ member)

/-- A writer stored parts of its file, or none. -/
structure Appends (file : Int) (start tables : Tables) : Prop extends Alike start tables where
  parts : tables.parts = start.parts ∨ ∃ part ∈ tables.parts, part.fileId = file
  others : ∀ part ∈ tables.parts, part.fileId = file ∨ ∃ old ∈ start.parts, old.fileId = part.fileId

/-- Storing the content of a file appends to it. -/
theorem stores_appends
    (file : Int)
    (start : Tables) :
    EnduresStoring (fun _ => True) (· = file) (Appends file start) := by
  constructor
  case recorded =>
    rintro tables id length modified checksum - ⟨⟨kinds, directories, targets, links⟩, parts, others⟩
    refine ⟨⟨?_, directories, targets, links⟩, parts, others⟩
    rw [kinds_recordContent, kinds]
  case stored =>
    rintro tables part own - ⟨alike, -, others⟩
    refine ⟨⟨alike.kinds, alike.directories, alike.targets, alike.links⟩,
      .inr ⟨part, List.mem_append_right _ (List.mem_singleton_self _), own⟩, fun other member => ?_⟩
    rcases List.mem_append.mp member with old | new
    · exact others other old
    · rw [List.mem_singleton.mp new]
      exact .inl own
  case replaced =>
    rintro tables id data own ⟨alike, parts, others⟩
    refine ⟨⟨alike.kinds, alike.directories, alike.targets, alike.links⟩, ?_, fun other member => ?_⟩
    · have sameFile
          {part : Part}
          (member : part ∈ tables.parts)
          (isFile : part.fileId = file) :
          ∃ part ∈ (tables.replacePart id data).parts, part.fileId = file := by
        refine ⟨_, List.mem_map_of_mem member, ?_⟩
        split <;> exact isFile
      rcases parts with same | ⟨part, member, isFile⟩
      · by_cases isThere : ∃ part ∈ tables.parts, part.id = id
        · obtain ⟨part, member, isId⟩ := isThere
          exact .inr (sameFile member (own part member isId))
        · refine .inl (Eq.trans ?_ same)
          refine (List.map_congr_left fun part member => ?_).trans (List.map_id _)
          exact if_neg fun isId => isThere ⟨part, member, isId⟩
      · exact .inr (sameFile member isFile)
    · obtain ⟨part, isPart, rfl⟩ := List.mem_map.mp member
      split <;> exact others part isPart

/-- What a writer leaves is attached just when its file is there or it stored nothing. -/
theorem Appends.attached_iff
    {file : Int}
    (appends : Appends file start tables)
    (attached : start.Attached) :
    tables.Attached ↔ (start.HasFile file ∨ tables.parts = start.parts) := by
  constructor
  · intro after
    refine appends.parts.symm.imp_left ?_
    rintro ⟨part, member, rfl⟩
    exact appends.toAlike.hasFile_iff.mp (after.parts part member)
  · intro fine
    refine appends.toAlike.attached attached fun part member => ?_
    rcases fine with isThere | same
    · rcases appends.others part member with rfl | ⟨old, isOld, sameFile⟩
      · exact isThere
      · exact sameFile ▸ attached.parts old isOld
    · exact attached.parts part (same ▸ member)

end VersionStore.Tables
