import VersionStore.Proofs.Content.Carried

namespace VersionStore.Tables

/-!
# Other files

Most edits are about one file. All other rows stay then, and so do the parts of all other
files.
-/

/-- All files but some have the rows and the parts that they had. -/
structure Beside (files : Int → Prop) (before after : Tables) : Prop where
  rows : ∀ entry : Entry, ¬files entry.id → (entry ∈ after.entries ↔ entry ∈ before.entries)
  pieces : ∀ id, ¬files id → after.pieces id = before.pieces id

namespace Beside

variable {files : Int → Prop} {before middle after : Tables}

/-- Nothing happened. -/
theorem refl
    (files : Int → Prop)
    (tables : Tables) :
    Beside files tables tables :=
  ⟨fun _ _ => .rfl, fun _ _ => rfl⟩

/-- What is left alone twice is left alone. -/
theorem trans
    (first : Beside files before middle)
    (second : Beside files middle after) :
    Beside files before after :=
  ⟨fun entry other => (second.rows entry other).trans (first.rows entry other),
    fun id other => (second.pieces id other).trans (first.pieces id other)⟩

/-- What more may be touched. -/
theorem widen
    {more : Int → Prop}
    (beside : Beside files before after)
    (wider : ∀ id, files id → more id) :
    Beside more before after :=
  ⟨fun entry other => beside.rows entry fun isFile => other (wider _ isFile),
    fun id other => beside.pieces id fun isFile => other (wider _ isFile)⟩

end Beside

/-- The change of a row changes this row. -/
theorem entry?_modifyEntry
    {tables : Tables}
    {id : Int}
    {change : Entry → Entry}
    {entry : Entry}
    (sameId : ∀ entry, (change entry).id = entry.id)
    (found : tables.entry? id = some entry) :
    Tables.entry? (tables.modifyEntry id change) id = some (change entry) := by
  have changed :
      (fun entry : Entry => entry.id == id) ∘ (fun entry => if entry.id = id then change entry else entry) =
        fun entry : Entry => entry.id == id := by
    funext entry
    dsimp only [Function.comp_apply]
    split
    · rw [sameId]
    · rfl
  have isEntry : entry.id = id := by
    simpa using List.find?_some found
  unfold Tables.entry? modifyEntry
  rw [List.find?_map, changed, show List.find? _ _ = some entry from found]
  simp [isEntry]

/-- The change of a row is not about other rows. -/
theorem beside_modifyEntry
    (tables : Tables)
    (id : Int)
    {change : Entry → Entry}
    (sameId : ∀ entry, (change entry).id = entry.id) :
    Beside (· = id) tables (tables.modifyEntry id change) := by
  refine ⟨fun entry other => ?_, fun _ _ => rfl⟩
  unfold modifyEntry
  simp only [List.mem_map]
  constructor
  · rintro ⟨old, member, rfl⟩
    split at other
    · rename_i isRow
      exact absurd ((sameId old).trans isRow) other
    · rename_i notRow
      rw [if_neg notRow]
      exact member
  · exact fun member => ⟨entry, member, if_neg other⟩

/-- A new row is about no other one. -/
theorem beside_createEntry
    (tables : Tables)
    (directoryId : Int)
    (name : String)
    (isDirectory : Bool)
    (modified : Int) :
    Beside (· = tables.lastEntryId + 1) tables
      (tables.createEntry directoryId name isDirectory modified).2 := by
  refine ⟨fun entry other => ?_, fun _ _ => rfl⟩
  constructor
  · intro member
    rcases List.mem_append.mp member with old | isNew
    · exact old
    · rw [List.mem_singleton.mp isNew] at other
      exact absurd rfl other
  · exact fun member => List.mem_append_left _ member

/-- A part that is added is none of another file. -/
theorem beside_addPart
    (tables : Tables)
    (id : Int)
    (part : Part)
    (isPart : part.fileId = id)
    (lastPartId : Int) :
    Beside (· = id) tables { tables with parts := tables.parts ++ [part], lastPartId } :=
  ⟨fun _ _ => .rfl, fun _ other => by
    rw [Carries.pieces_concat, isPart, if_neg (Ne.symm other), List.append_nil]⟩

/-- Copies of parts that are added are none of another file. -/
theorem beside_addCopies
    (id : Int)
    (copied : List Part)
    (tables : Tables) :
    Beside (· = id) tables (tables.addCopies id copied) := by
  induction copied generalizing tables with
  | nil =>
      exact .refl _ _
  | cons part rest inductionHypothesis =>
      exact (beside_addPart tables id { part with id := tables.lastPartId + 1, fileId := id } rfl
        _).trans (inductionHypothesis _)

/-- A row that goes with its parts and links is no other one. -/
theorem beside_removeFile
    (tables : Tables)
    (id : Int) :
    Beside (· = id) tables (((tables.removeEntry id).removeParts id).removeLinks id) :=
  ⟨fun _ other => List.mem_filter.trans (and_iff_left (bne_iff_ne.mpr other)),
    fun _ other => Carries.pieces_removeParts other⟩

end VersionStore.Tables
