import VersionStore.Proofs.Tree.Making
import VersionStore.Proofs.Tree.Move

namespace VersionStore

/-!
# What lies where after a move

An entry was moved from the end of some names to a free name in a directory that is not below
it. What lay behind it lies behind its new place, and everything else lies where it did. The
rows of the directories below it have the paths that follow, whether these are in the trash or
not, and all other rows stay.
-/

/-- An entry in its new place. -/
def Entry.placed (entry : Entry) (directoryId : Int) (name : String) (time : Int) : Entry :=
  { entry with directoryId, name, lastModified := time }

namespace Tables

/-! ## Above and below -/

/-- What lies behind an entry is below it. -/
theorem Coherent.below_of_at
    {tables : Tables}
    (coherent : tables.Coherent)
    {names rest : List Name}
    {entry other : Entry}
    (here : tables.At names entry)
    (there : tables.At (names ++ rest) other) :
    tables.Below entry.id other.id := by
  induction rest using List.reverseRecOn generalizing other with
  | nil =>
      rw [List.append_nil] at there
      rw [coherent.at_unique here there]
      exact .self
  | append_singleton before last inductionHypothesis =>
      rw [← List.append_assoc] at there
      obtain ⟨holder, above, member, proper, -, held, -⟩ := there.of_concat
      exact .step member proper (held ▸ inductionHypothesis above)

/-- What is below an entry is the id of one. -/
theorem Below.exists_entry
    {tables : Tables}
    {entry : Entry}
    (member : entry ∈ tables.entries)
    {id : Int}
    (below : tables.Below entry.id id) :
    ∃ other ∈ tables.entries, other.id = id := by
  cases below with
  | self =>
      exact ⟨entry, member, rfl⟩
  | @step other otherMember _ _ =>
      exact ⟨other, otherMember, rfl⟩

/-- The same entry is found where the same one lies. -/
theorem lookupAt?_eq_of_at_iff
    {first second : Tables}
    (firstCoherent : first.Coherent)
    (secondCoherent : second.Coherent)
    {one other : CleanPath}
    (same : ∀ entry, first.At one.names entry ↔ second.At other.names entry) :
    first.lookupAt? one = second.lookupAt? other := by
  refine Option.ext fun entry => ?_
  rw [firstCoherent.lookupAt?_eq_some_iff, secondCoherent.lookupAt?_eq_some_iff]
  exact same entry

/-! ## Live entries -/

/-- An entry was moved from the end of some names into a directory at the end of others, and what
came of it is coherent. -/
structure Relocated
    (tables after : Tables)
    (entry holder : Entry)
    (source around : List Name)
    (name : Name)
    (time : Int) :
    Prop where
  coherent : tables.Coherent
  movable : tables.Movable entry holder name (CleanPath.joinNames (around ++ [name]))
  here : tables.At source entry
  room : tables.At around holder
  entries : after.entries = (tables.moveEntry entry.id holder.id name.text time).entries
  isCoherent : after.Coherent

namespace Relocated

variable
  {tables after : Tables}
  {entry holder : Entry}
  {source around : List Name}
  {name : Name}
  {time : Int}
  (relocated : Relocated tables after entry holder source around name time)

include relocated

/-- What is there after the move was there before or is the entry in its new place. -/
theorem mem_entries
    {other : Entry} :
    other ∈ after.entries ↔
      (other ∈ tables.entries ∧ other.id ≠ entry.id) ∨
        other = entry.placed holder.id name.text time := by
  rw [relocated.entries]
  exact mem_entries_moveEntry relocated.coherent relocated.movable.member

/-- The directory that the entry is moved to does not lie behind it. -/
theorem not_prefix :
    ¬source <+: around := by
  rintro ⟨rest, rfl⟩
  exact relocated.movable.apart (relocated.coherent.below_of_at relocated.here relocated.room)

/-- Nothing lay at the new place. -/
theorem vacant
    {other : Entry} :
    ¬tables.At (around ++ [name]) other := by
  intro there
  obtain ⟨above, isAbove, member, -, live, held, called⟩ := there.of_concat
  rw [relocated.coherent.at_unique isAbove relocated.room] at held
  exact relocated.movable.free other member live held called

/-- Nothing lay behind the new place. -/
theorem vacant_behind
    {rest : List Name}
    {other : Entry} :
    ¬tables.At (around ++ [name] ++ rest) other := by
  intro there
  obtain ⟨above, isAbove⟩ := there.of_append
  exact relocated.vacant isAbove

/-- The new place does not lie at or behind the old one. -/
theorem apart :
    ¬source <+: around ++ [name] := by
  intro along
  rcases List.prefix_concat_iff.mp along with same | before
  · have wasThere := relocated.here
    rw [same] at wasThere
    exact relocated.vacant wasThere
  · exact relocated.not_prefix before

/-- What did not lie at or behind the old place stays where it is. -/
theorem stays
    {names : List Name}
    {other : Entry}
    (there : tables.At names other)
    (apart : ¬source <+: names) :
    after.At names other := by
  induction there with
  | @top other member isRoot =>
      refine .top (relocated.mem_entries.mpr (.inl ⟨member, ?_⟩)) isRoot
      rw [isRoot]
      exact Ne.symm relocated.movable.proper
  | @child names holder other last above member proper live held called inductionHypothesis =>
      have notAbove : ¬source <+: names := fun along => apart (along.trans (List.prefix_append _ _))
      refine .child (inductionHypothesis notAbove)
        (relocated.mem_entries.mpr (.inl ⟨member, fun same => apart ?_⟩)) proper live held called
      have isEntry := relocated.coherent.entry_eq member relocated.movable.member same
      subst isEntry
      have sameNames := relocated.coherent.at_names_unique relocated.here
        (.child above member proper live held called)
      exact sameNames ▸ List.prefix_rfl

/-- The entry lies at its new place. -/
theorem arrives :
    after.At (around ++ [name]) (entry.placed holder.id name.text time) :=
  .child (relocated.stays relocated.room relocated.not_prefix)
    (relocated.mem_entries.mpr (.inr rfl)) relocated.movable.proper relocated.movable.live rfl rfl

/-- What lay behind the old place lies behind the new one. -/
theorem follows
    {rest : List Name}
    (some_ : rest ≠ [])
    {other : Entry}
    (there : tables.At (source ++ rest) other) :
    after.At (around ++ [name] ++ rest) other := by
  induction rest using List.reverseRecOn generalizing other with
  | nil =>
      exact (some_ rfl).elim
  | append_singleton before last inductionHypothesis =>
      rw [← List.append_assoc] at there ⊢
      obtain ⟨above, isAbove, member, proper, live, held, called⟩ := there.of_concat
      have different : other.id ≠ entry.id := by
        intro same
        rw [relocated.coherent.entry_eq member relocated.movable.member same] at there
        have sameNames := relocated.coherent.at_names_unique relocated.here there
        simp at sameNames
      have isOld := relocated.mem_entries.mpr (.inl ⟨member, different⟩)
      by_cases first : before = []
      · subst first
        rw [List.append_nil] at isAbove
        rw [relocated.coherent.at_unique isAbove relocated.here] at held
        rw [List.append_nil]
        exact .child relocated.arrives isOld proper live held called
      · exact .child (inductionHypothesis first isAbove) isOld proper live held called

/-- Whatever lies somewhere after the move is the entry at its new place, or lay behind the old
place, or lay where it is. -/
theorem origin
    {names : List Name}
    {other : Entry}
    (there : after.At names other) :
    (names = around ++ [name] ∧ other = entry.placed holder.id name.text time) ∨
      (∃ rest,
        rest ≠ [] ∧ names = around ++ [name] ++ rest ∧ tables.At (source ++ rest) other) ∨
        ¬source <+: names ∧ ¬around ++ [name] <+: names ∧ tables.At names other := by
  have isCoherent := relocated.isCoherent
  rcases relocated.mem_entries.mp there.member with ⟨member, different⟩ | rfl
  · obtain ⟨old, wasThere⟩ := relocated.coherent.exists_at member (isCoherent.live_of_at there)
    by_cases along : source <+: old
    · obtain ⟨rest, rfl⟩ := along
      have some_ : rest ≠ [] := by
        rintro rfl
        rw [List.append_nil] at wasThere
        exact different (congrArg Entry.id (relocated.coherent.at_unique wasThere relocated.here))
      exact .inr (.inl ⟨rest, some_,
        isCoherent.at_names_unique there (relocated.follows some_ wasThere), wasThere⟩)
    · have same := isCoherent.at_names_unique there (relocated.stays wasThere along)
      subst same
      refine .inr (.inr ⟨along, ?_, wasThere⟩)
      rintro ⟨rest, rfl⟩
      exact relocated.vacant_behind wasThere
  · exact .inl ⟨isCoherent.at_names_unique there relocated.arrives, rfl⟩

/-- Behind the new place is found what was found behind the old one. -/
theorem lookupAt?_followed
    {rest : List Name}
    (some_ : rest ≠ []) :
    after.lookupAt? ⟨around ++ [name] ++ rest⟩ = tables.lookupAt? ⟨source ++ rest⟩ := by
  refine lookupAt?_eq_of_at_iff relocated.isCoherent relocated.coherent fun other => ?_
  refine ⟨fun there => ?_, relocated.follows some_⟩
  rcases relocated.origin there with ⟨same, -⟩ | ⟨more, -, same, wasThere⟩ | ⟨-, apart, -⟩
  · exact (some_ (List.append_right_eq_self.mp same)).elim
  · rwa [List.append_cancel_left same]
  · exact (apart (List.prefix_append _ _)).elim

/-- Nothing is found at or behind the old place. -/
theorem lookupAt?_left
    (rest : List Name) :
    after.lookupAt? ⟨source ++ rest⟩ = none := by
  refine Option.eq_none_iff_forall_ne_some.mpr fun other found => ?_
  have there := relocated.isCoherent.lookupAt?_eq_some_iff.mp found
  rcases relocated.origin there with ⟨same, -⟩ | ⟨more, -, same, -⟩ | ⟨notBehind, -⟩
  · exact relocated.apart ⟨rest, same⟩
  · rcases List.append_eq_append_iff.mp same with ⟨between, isTarget, -⟩ | ⟨between, isSource, -⟩
    · exact relocated.apart ⟨between, isTarget.symm⟩
    · have wasThere := relocated.here
      rw [isSource] at wasThere
      exact relocated.vacant_behind wasThere
  · exact notBehind (List.prefix_append _ _)

/-- Elsewhere is found what was found there. -/
theorem lookupAt?_elsewhere
    {path : CleanPath}
    (notSource : ¬source <+: path.names)
    (notTarget : ¬around ++ [name] <+: path.names) :
    after.lookupAt? path = tables.lookupAt? path := by
  refine lookupAt?_eq_of_at_iff relocated.isCoherent relocated.coherent fun other => ?_
  refine ⟨fun there => ?_, fun there => relocated.stays there notSource⟩
  rcases relocated.origin there with ⟨same, -⟩ | ⟨rest, -, same, -⟩ | ⟨-, -, wasThere⟩
  · exact (notTarget (same ▸ List.prefix_rfl)).elim
  · exact (notTarget (same ▸ List.prefix_append _ _)).elim
  · exact wasThere

/-! ## Rows of directories -/

/-- The rows of the directories below the entry have the paths that follow from its new place. -/
theorem exists_row
    (rowed : tables.Rowed)
    (isDirectory : entry.isDirectory = true)
    (rowIds : after.directories.map (·.id) = tables.directories.map (·.id))
    {row : Directory}
    (member : row ∈ tables.directories)
    (below : tables.Below entry.id row.id) :
    ∃ rest,
      row.path = CleanPath.joinNames (source ++ rest) ∧
        ⟨row.id, CleanPath.joinNames (around ++ [name] ++ rest)⟩ ∈ after.directories := by
  have coherent := relocated.coherent
  have isCoherent := relocated.isCoherent
  obtain ⟨rank, ranked⟩ := coherent.ranked
  have exists_after {row : Directory} (member : row ∈ tables.directories) :
      ∃ new ∈ after.directories, new.id = row.id := by
    have listed := List.mem_map_of_mem (f := fun row : Directory => row.id) member
    rw [← rowIds] at listed
    exact List.mem_map.mp listed
  generalize isId : row.id = id at below
  induction below generalizing row with
  | self =>
      obtain ⟨own, ownMember, owns, isPath⟩ := coherent.path_of_at relocated.here isDirectory
      obtain ⟨new, newMember, newOwns, newPath⟩ :=
        isCoherent.path_of_at relocated.arrives isDirectory
      refine ⟨[], ?_, ?_⟩
      · rw [coherent.row_eq member ownMember (isId.trans owns.symm), isPath, List.append_nil]
      · rw [List.append_nil, ← newPath]
        exact (show new.id = entry.id from newOwns) ▸ newMember
  | @step other otherMember proper below inductionHypothesis =>
      obtain ⟨above, aboveMember, isAbove⟩ := below.exists_entry relocated.movable.member
      obtain ⟨aboveRow, aboveRowMember, ownsAbove⟩ := rowed other otherMember above aboveMember isAbove
      have holds := ownsAbove.trans isAbove
      obtain ⟨rest, isPath, newAbove⟩ := inductionHypothesis aboveRowMember holds
      obtain ⟨new, newMember, newOwns⟩ := exists_after member
      have different : other.id ≠ entry.id := by
        intro same
        rw [coherent.entry_eq otherMember relocated.movable.member same] at below
        exact ranked.not_below_holder relocated.movable.member relocated.movable.proper below
      obtain ⟨last, called⟩ : ∃ last : Name, other.name = last.text :=
        ⟨⟨other.name, coherent.named other otherMember proper⟩, rfl⟩
      refine ⟨rest ++ [last], ?_, ?_⟩
      · rw [coherent.paths other otherMember proper row member isId aboveRow aboveRowMember holds,
          isPath, called, CleanPath.join_joinNames, List.append_assoc]
      · have newPath := isCoherent.paths other
          (relocated.mem_entries.mpr (.inl ⟨otherMember, different⟩)) proper new newMember
          (newOwns.trans isId) _ newAbove rfl
        rw [called, CleanPath.join_joinNames, List.append_assoc] at newPath
        rw [← newPath, ← newOwns.trans isId]
        exact newMember

end Relocated

end Tables

end VersionStore
