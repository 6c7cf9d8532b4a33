import Mathlib.Data.List.Nodup
import VersionStore.Proofs.Path
import VersionStore.Tables.Seed
import VersionStore.Tables.Trash

namespace VersionStore

/-!
# Coherent tables

The tree of a store is held twice: each entry names the directory that holds it, and
each directory has a row with its path. `Tables.Coherent` says when the two agree.
What is in the trash keeps its place in the tree, but only live entries have to lie in
a live directory and to differ in their names.

`Tables.Sound` adds what a store promises about entries that were seen earlier, and,
where it is asked for, that no entry lies in a directory without a row.
-/

/-- The entry of the whole store, which holds itself. -/
structure Entry.IsTop (entry : Entry) : Prop where
  id : entry.id = rootId
  directoryId : entry.directoryId = rootId
  name : entry.name = ""
  isDirectory : entry.isDirectory = true
  live : entry.isDeleted = false

namespace Tables

/-- The entry of an id is at or below another, at any depth and in the trash or not. -/
inductive Below (tables : Tables) (above : Int) : Int → Prop where
  | self : Below tables above above
  | step {entry : Entry}
      (member : entry ∈ tables.entries)
      (proper : entry.id ≠ rootId)
      (holder : Below tables above entry.directoryId) :
      Below tables above entry.id

/-- The rank of every entry but the top one exceeds that of its directory. -/
def Ranked (tables : Tables) (rank : Int → Nat) : Prop :=
  ∀ entry ∈ tables.entries, entry.id ≠ rootId → rank entry.directoryId < rank entry.id

/-- A live directory. -/
structure IsLiveDirectory (tables : Tables) (entry : Entry) : Prop where
  member : entry ∈ tables.entries
  isDirectory : entry.isDirectory = true
  live : entry.isDeleted = false

/-- The tree that the entries make up and the paths of its directories agree. -/
structure Coherent (tables : Tables) : Prop where
  ids : (tables.entries.map (·.id)).Pairwise (· < ·)
  rowIds : (tables.directories.map (·.id)).Pairwise (· < ·)
  id_le : ∀ entry ∈ tables.entries, entry.id ≤ tables.lastEntryId
  directoryId_le : ∀ entry ∈ tables.entries, entry.directoryId ≤ tables.lastEntryId
  top : ∃ top ∈ tables.entries, top.IsTop
  topRow : ⟨rootId, ""⟩ ∈ tables.directories
  named : ∀ entry ∈ tables.entries, entry.id ≠ rootId → IsName entry.name
  /-- Every row of a directory belongs to the entry of one. -/
  owned :
    ∀ row ∈ tables.directories,
      ∃ entry ∈ tables.entries, entry.id = row.id ∧ entry.isDirectory = true
  /-- Every live directory has a row. -/
  housed :
    ∀ entry, tables.IsLiveDirectory entry → ∃ row ∈ tables.directories, row.id = entry.id
  /-- Every live entry lies in a live directory. -/
  placed :
    ∀ entry ∈ tables.entries,
      entry.isDeleted = false →
      ∃ holder, tables.IsLiveDirectory holder ∧ holder.id = entry.directoryId
  /-- Live entries in one directory differ in their names. -/
  distinct :
    ∀ first ∈ tables.entries,
      ∀ second ∈ tables.entries,
        first.isDeleted = false →
        second.isDeleted = false →
        first.directoryId = second.directoryId →
        first.name = second.name →
        first = second
  /-- The path of a directory is its name below the path of the directory that holds it. -/
  paths :
    ∀ entry ∈ tables.entries,
      entry.id ≠ rootId →
      ∀ row ∈ tables.directories,
        row.id = entry.id →
        ∀ above ∈ tables.directories,
          above.id = entry.directoryId →
          row.path = Path.join above.path entry.name
  /-- The path of a directory is a clean one, also where the row above it is gone. -/
  written : ∀ row ∈ tables.directories, ∃ names, row.path = CleanPath.joinNames names
  ranked : ∃ rank, tables.Ranked rank

/-- Every entry lies in a directory that has a row. -/
def Integral (tables : Tables) : Prop :=
  ∀ entry ∈ tables.entries, ∃ row ∈ tables.directories, row.id = entry.directoryId

/-- Every entry that holds another one has a row. -/
def Rowed (tables : Tables) : Prop :=
  ∀ entry ∈ tables.entries,
    ∀ holder ∈ tables.entries,
      holder.id = entry.directoryId →
      ∃ row ∈ tables.directories, row.id = holder.id

/-- Known entries got their ids from the store, and what has the id of one is of its kind. -/
structure Knows (tables : Tables) (known : List Entry) : Prop where
  id_le : ∀ entry ∈ known, entry.id ≤ tables.lastEntryId
  kind :
    ∀ entry ∈ known,
      ∀ row ∈ tables.entries,
        row.id = entry.id →
        row.isDirectory = entry.isDirectory

/-- What holds of tables throughout: they are coherent, what holds an entry has a row, they
agree with the entries that are known, and they are integral if that is asked for. -/
structure Sound (strict : Prop) (known : List Entry) (tables : Tables) : Prop where
  coherent : tables.Coherent
  knows : tables.Knows known
  rowed : tables.Rowed
  integral : strict → tables.Integral

/-! ## Above and below -/

section Below

variable {tables : Tables} {rank : Int → Nat}

/-- Being below passes on. -/
theorem Below.trans
    {above middle below : Int}
    (upper : tables.Below above middle)
    (lower : tables.Below middle below) :
    tables.Below above below := by
  induction lower with
  | self =>
      exact upper
  | step member proper _ inductionHypothesis =>
      exact .step member proper inductionHypothesis

/-- Ranks do not fall on the way down. -/
theorem Ranked.le_of_below
    (ranked : tables.Ranked rank)
    {above below : Int}
    (lies : tables.Below above below) :
    rank above ≤ rank below := by
  induction lies with
  | self =>
      exact le_refl _
  | step member proper _ inductionHypothesis =>
      exact le_trans inductionHypothesis (ranked _ member proper).le

/-- No entry but the top one holds the directory that it lies in. -/
theorem Ranked.not_below_holder
    (ranked : tables.Ranked rank)
    {entry : Entry}
    (member : entry ∈ tables.entries)
    (proper : entry.id ≠ rootId) :
    ¬tables.Below entry.id entry.directoryId := by
  intro below
  have rises := ranked entry member proper
  have falls := ranked.le_of_below below
  omega

/-- No entry but the top one lies in itself. -/
theorem Ranked.holder_ne
    (ranked : tables.Ranked rank)
    {entry : Entry}
    (member : entry ∈ tables.entries)
    (proper : entry.id ≠ rootId) :
    entry.directoryId ≠ entry.id := by
  intro same
  refine ranked.not_below_holder member proper ?_
  rw [same]
  exact .self

/-- Only what entries there are decides what is below what. -/
theorem Below.mono
    {other : Tables}
    (subset : tables.entries ⊆ other.entries)
    {above below : Int}
    (lies : tables.Below above below) :
    other.Below above below := by
  induction lies with
  | self =>
      exact .self
  | step member proper _ inductionHypothesis =>
      exact .step (subset member) proper inductionHypothesis

end Below

namespace Coherent

variable {tables : Tables}

/-! ## Ids -/

/-- Rows in the order of their ids are told apart by them. -/
theorem eq_of_pairwise_lt
    {rows : List α}
    {id : α → Int}
    (ordered : (rows.map id).Pairwise (· < ·))
    {first second : α}
    (firstMember : first ∈ rows)
    (secondMember : second ∈ rows)
    (same : id first = id second) :
    first = second := by
  have apart : (rows.map id).Nodup :=
    ordered.imp Int.ne_of_lt
  exact List.inj_on_of_nodup_map apart firstMember secondMember same

/-- Rows in the order of their ids are found by them. -/
theorem find?_eq_some_iff_of_pairwise_lt
    {rows : List α}
    {id : α → Int}
    (ordered : (rows.map id).Pairwise (· < ·))
    {wanted : Int}
    {row : α} :
    rows.find? (fun row => id row == wanted) = some row ↔ row ∈ rows ∧ id row = wanted := by
  constructor
  · intro found
    exact ⟨List.mem_of_find?_eq_some found, by simpa using List.find?_some found⟩
  · rintro ⟨member, rfl⟩
    cases found : rows.find? (fun other => id other == id row) with
    | none =>
        have missing := List.find?_eq_none.mp found row member
        simp at missing
    | some other =>
        have same : id other = id row := by
          simpa using List.find?_some found
        rw [eq_of_pairwise_lt ordered (List.mem_of_find?_eq_some found) member same]

/-- No two entries share an id. -/
theorem entry_eq
    (coherent : tables.Coherent)
    {first second : Entry}
    (firstMember : first ∈ tables.entries)
    (secondMember : second ∈ tables.entries)
    (same : first.id = second.id) :
    first = second :=
  eq_of_pairwise_lt coherent.ids firstMember secondMember same

/-- No two directory rows share an id. -/
theorem row_eq
    (coherent : tables.Coherent)
    {first second : Directory}
    (firstMember : first ∈ tables.directories)
    (secondMember : second ∈ tables.directories)
    (same : first.id = second.id) :
    first = second :=
  eq_of_pairwise_lt coherent.rowIds firstMember secondMember same

/-- An entry is found by its id. -/
theorem entry?_eq_some_iff
    (coherent : tables.Coherent)
    {id : Int}
    {entry : Entry} :
    tables.entry? id = some entry ↔ entry ∈ tables.entries ∧ entry.id = id :=
  find?_eq_some_iff_of_pairwise_lt coherent.ids

/-- A directory row is found by its id. -/
theorem directory?_eq_some_iff
    (coherent : tables.Coherent)
    {id : Int}
    {row : Directory} :
    tables.directory? id = some row ↔ row ∈ tables.directories ∧ row.id = id :=
  find?_eq_some_iff_of_pairwise_lt coherent.rowIds

/-- The path of a directory is read from its row. -/
theorem directoryPath?_eq_some
    (coherent : tables.Coherent)
    {row : Directory}
    (member : row ∈ tables.directories) :
    tables.directoryPath? row.id = some row.path := by
  rw [directoryPath?, coherent.directory?_eq_some_iff.mpr ⟨member, rfl⟩]
  rfl

/-- No row of a directory has an id that was not given out yet. -/
theorem rowId_le
    (coherent : tables.Coherent)
    {row : Directory}
    (member : row ∈ tables.directories) :
    row.id ≤ tables.lastEntryId := by
  obtain ⟨entry, entryMember, same, -⟩ := coherent.owned row member
  rw [← same]
  exact coherent.id_le entry entryMember

/-- The top entry has an id that was given out. -/
theorem rootId_le
    (coherent : tables.Coherent) :
    rootId ≤ tables.lastEntryId :=
  coherent.rowId_le coherent.topRow

/-- An entry with the id of the top one is the top one. -/
theorem isTop
    (coherent : tables.Coherent)
    {entry : Entry}
    (member : entry ∈ tables.entries)
    (isRoot : entry.id = rootId) :
    entry.IsTop := by
  obtain ⟨top, topMember, isTop⟩ := coherent.top
  rwa [coherent.entry_eq member topMember (isRoot.trans isTop.id.symm)]

/-- An entry that is called by a name is not the top one. -/
theorem ne_rootId_of_called
    (coherent : tables.Coherent)
    {entry : Entry}
    (member : entry ∈ tables.entries)
    {name : Name}
    (called : entry.name = name.text) :
    entry.id ≠ rootId := by
  intro isRoot
  apply name.property.1
  exact called.symm.trans (coherent.isTop member isRoot).name

/-- Where every entry lies in a directory with a row, nothing lies in a file. -/
theorem isDirectory_of_holds
    (coherent : tables.Coherent)
    (integral : tables.Integral)
    {entry holder : Entry}
    (member : entry ∈ tables.entries)
    (holderMember : holder ∈ tables.entries)
    (holds : holder.id = entry.directoryId) :
    holder.isDirectory = true := by
  obtain ⟨row, rowMember, same⟩ := integral entry member
  obtain ⟨owner, ownerMember, sameOwner, isDirectory⟩ := coherent.owned row rowMember
  rwa [coherent.entry_eq holderMember ownerMember (by rw [holds, ← same, sameOwner])]

end Coherent

/-- Tables may come to know entries of their own, and those that they know already. -/
theorem Sound.knowing
    {tables : Tables}
    {strict : Prop}
    {known more : List Entry}
    (sound : tables.Sound strict known)
    (given : ∀ entry ∈ more, entry ∈ known ∨ entry ∈ tables.entries) :
    tables.Sound strict (more ++ known) where
  coherent := sound.coherent
  rowed := sound.rowed
  integral := sound.integral
  knows := by
    have either :
        ∀ entry ∈ more ++ known, entry ∈ known ∨ entry ∈ tables.entries := by
      intro entry member
      rcases List.mem_append.mp member with inMore | inKnown
      · exact given entry inMore
      · exact .inl inKnown
    constructor
    · intro entry member
      rcases either entry member with inKnown | inTable
      · exact sound.knows.id_le entry inKnown
      · exact sound.coherent.id_le entry inTable
    · intro entry member row rowMember same
      rcases either entry member with inKnown | inTable
      · exact sound.knows.kind entry inKnown row rowMember same
      · rw [sound.coherent.entry_eq rowMember inTable same]

end Tables

end VersionStore
