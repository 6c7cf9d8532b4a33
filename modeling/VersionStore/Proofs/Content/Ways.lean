import VersionStore.Proofs.Content.Placing
import VersionStore.Proofs.Stream.Opening
import VersionStore.Proofs.Tree.Chain

namespace VersionStore

/-!
# Ways to a path

Before a file is opened at a path the directories that lead there are made. Where something is at
the path they are all there, and making them changes nothing. Where nothing is, they are made
exactly when no file is in the way, and then there is room for a file.
-/

open Tables VersionStore.Action

namespace Tables

variable {tables : Tables} {path : CleanPath}

/-- Where something lies live directories lead to it. -/
theorem Coherent.stands
    (coherent : tables.Coherent)
    {names : List Name}
    {entry : Entry}
    (here : tables.At names entry)
    (isDirectory : entry.isDirectory = true) :
    tables.Stands ⟨names⟩ := by
  induction here with
  | top member isRoot =>
      intro above along
      obtain rfl : above = ⟨[]⟩ := congrArg CleanPath.mk (List.prefix_nil.mp along)
      exact ⟨_, coherent.lookupAt?_eq_some_iff.mpr (.top member isRoot), isDirectory⟩
  | child above member proper live held called inductionHypothesis =>
      have holder := coherent.isLiveDirectory_of_holds member live above.member held
      exact (inductionHypothesis holder.isDirectory).concat
        (coherent.lookupAt?_eq_some_iff.mpr (.child above member proper live held called))
        isDirectory

/-- Where live directories stand they are seen. -/
theorem Stands.lead_eq
    (stands : tables.Stands path) :
    tables.sights.lead path = tables.sights := by
  funext other
  by_cases along : other.names <+: path.names
  · obtain ⟨entry, found, isDirectory⟩ := stands other along
    rw [Sights.lead_along along, sights, found]
    exact congrArg some (sightOf_directory isDirectory).symm
  · exact Sights.lead_elsewhere along

/-- Where live directories stand no file is in the way. -/
theorem Stands.leads
    (stands : tables.Stands path) :
    tables.sights.Leads path := by
  intro other version along isFile
  obtain ⟨entry, found, isDirectory⟩ := stands other along
  rw [sights, found, Option.map_some, sightOf_directory isDirectory] at isFile
  cases isFile

/-- What is at a path lies in a directory to which live directories lead. -/
theorem Coherent.stands_above
    (coherent : tables.Coherent)
    (proper : ¬path.isRoot = true)
    {entry : Entry}
    (found : tables.lookupAt? path = some entry) :
    tables.Stands path.dropLast := by
  obtain ⟨names, name, whole, above, -⟩ := Txn.exists_names_of_not_isRoot proper
  have here := coherent.lookupAt?_eq_some_iff.mp found
  rw [whole] at here
  obtain ⟨holder, holderHere, member, -, live, held, -⟩ := here.of_concat
  have isDirectory :=
    (coherent.isLiveDirectory_of_holds member live holderHere.member held).isDirectory
  have stands := coherent.stands holderHere isDirectory
  rwa [← above] at stands

/-- A text means a path to which no file is in the way. -/
def LeadsTo (tables : Tables) (text : String) : Prop :=
  ∃ path,
    CleanPath.ofText text = .ok path ∧ ¬path.isRoot = true ∧ tables.sights.Leads path.dropLast

/-- Nothing is at the path that a text means. -/
def Lacks (tables : Tables) (text : String) : Prop :=
  ∀ path, CleanPath.ofText text = .ok path → tables.lookupAt? path = none

end Tables

namespace Txn

variable
  {setting : Setting}
  {gives : Int → Bool → Bool}
  {strict : Prop}
  {known : List Entry}
  {before : Tables}
  {path : CleanPath}

/-- A path may be opened: what is there is there still and nothing changed, or there is room for
it. -/
structure Way (strict : Prop) (known : List Entry) (before : Tables) (path : CleanPath)
    (tables : Tables) : Prop where
  found : ∀ entry, before.lookupAt? path = some entry → tables = before
  room : before.lookupAt? path = none → ∃ id, Room strict known before path id tables
  numbered : tables.Numbered
  lastEntryId_le : before.lastEntryId ≤ tables.lastEntryId

/-- Where the directory of a path is there, the way is. -/
theorem Way.of_directory
    (sound : before.Sound strict known)
    (numbered : before.Numbered)
    (proper : ¬path.isRoot = true)
    {directory : Entry}
    (found : before.lookupAt? path.dropLast = some directory)
    (isDirectory : directory.isDirectory = true) :
    Way strict known before path before where
  found _ _ := rfl
  room missing := by
    have here := sound.coherent.lookupAt?_eq_some_iff.mp found
    have isParent : path.parent? = some path.dropLast := by
      rw [CleanPath.parent?, if_neg proper]
    have nothing : before.sights path = none := by
      rw [sights, missing]
      rfl
    refine ⟨directory.id, proper, sound,
      Writer.vacant_of_lookupAt? sound isParent missing found isDirectory,
      ⟨directory, here, rfl⟩, ?_⟩
    rw [Sights.set_eq_self nothing]
    exact (sound.coherent.stands here isDirectory).lead_eq.symm
  numbered := numbered
  lastEntryId_le := Int.le_refl _

/-- The directories on the way to a path are made, unless nothing is there and a file is in the
way. -/
theorem makeWay_decides
    (now : Int)
    {text : String}
    (isAbove : CleanPath.ofText text = .ok path.dropLast)
    (sound : before.Sound strict known)
    (numbered : before.Numbered)
    (proper : ¬path.isRoot = true) :
    Decides setting gives (· = before) (makeDirectories now text)
      (before.lookupAt? path = none → before.sights.Leads path.dropLast)
      (fun _ => Way strict known before path) := by
  have carrying :=
    @makeDirectoriesAt_grows setting _ (endures_carries before fun _ => False).grows now path.dropLast
  refine .known _ _ (clean_known isAbove) ?_
  cases found : before.lookupAt? path with
  | none =>
      refine ((makeRoom_decides now sound proper found).knowing carrying ?_).exactly
        ⟨fun leads _ => leads, fun leads => leads rfl⟩ |>.weaken (fun _ same => same) ?_
      · rintro _ rfl
        exact .refl numbered
      · rintro id tables ⟨isRoom, carries⟩
        refine ⟨fun entry isFound => ?_, fun _ => ⟨id, isRoom⟩, carries.toNumbered,
          carries.lastEntryId_le⟩
        cases found.symm.trans isFound
  | some entry =>
      have stands := sound.coherent.stands_above proper found
      refine .of_works ((makeDirectoriesAt_chains now sound path.dropLast).weaken
        (fun _ same => same) ?_ ?_)
      · rintro id tables chained
        have same := chained.eq_of_missing sound.coherent stands.missing
        refine ⟨nofun, fun _ _ => same, fun missing => ?_, same ▸ numbered, same ▸ Int.le_refl _⟩
        cases found.symm.trans missing
      · rintro fault tables ⟨-, above, blocks, -⟩
        exact absurd blocks stands.not_blocks

end Txn

end VersionStore
