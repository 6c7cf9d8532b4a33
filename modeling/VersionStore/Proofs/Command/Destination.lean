import VersionStore.Command.Files
import VersionStore.Proofs.Path.Following

namespace VersionStore

/-!
# Where a file is added to

Before a file is added to, the directories are made that the text of its path names in front of
the last component. This text is cut where its last separator is and is cleaned by itself. Where
the last component is a name, what is made is the directory of the path that is meant.
-/

namespace Command

open VersionStore.Path

/-- The last component of a text, without separators at its end. -/
def lastComponent (text : String) : String :=
  (split (trimEnd text)).2

/-- A text whose last component is a name means a path, or none. The text in front of that
component, unless it is left out for the root, means the directory of this path, or nothing. -/
inductive Aims (text : String) : Prop where
  | root
      (above : parentText? text = none)
      (isPath : CleanPath.ofText text = .ok .root)
  | name (above : CleanPath) (name : Name)
      (isPath : CleanPath.ofText text = .ok ⟨above.names ++ [name]⟩)
      (top : parentText? text = none → above = .root)
      (isAbove :
        ∀ directory, parentText? text = some directory → CleanPath.ofText directory = .ok above)
  | nowhere (directory : String)
      (above : parentText? text = some directory)
      (noPath : CleanPath.ofText? text = none)
      (noneAbove : CleanPath.ofText? directory = none)

/-- A text aims at what it means when the text in front of its last component, a name, does. -/
theorem aims_of_name
    {text : String}
    (name : Name)
    (above? : Option CleanPath)
    (isPath : CleanPath.ofText? text = above?.map fun above => ⟨above.names ++ [name]⟩)
    (top : parentText? text = none → above? = some .root)
    (isAbove :
      ∀ directory, parentText? text = some directory → CleanPath.ofText? directory = above?) :
    Aims text := by
  cases above? with
  | some above =>
      refine .name above name ?_ (fun isTop => Option.some.inj (top isTop))
        fun directory isSome => ?_
      · rw [CleanPath.ofText, isPath]
        rfl
      · rw [CleanPath.ofText, isAbove directory isSome]
  | none =>
      cases isParent : parentText? text with
      | none =>
          cases top isParent
      | some directory =>
          exact .nowhere directory isParent isPath (isAbove directory isParent)

/-- What is left of a text that only consists of separators. -/
theorem eq_replicate_of_trim
    {chars : List Char}
    (isEmpty : (trim (String.ofList chars)).isEmpty = true) :
    ∃ count, chars = List.replicate count separator := by
  obtain ⟨count, whole⟩ := exists_trimRight chars
  have none_ : trimLeft (trimRight chars) = [] := by
    simpa [trim] using isEmpty
  obtain ⟨more, shape⟩ : ∃ more, trimRight chars = List.replicate more separator := by
    refine ⟨_, List.eq_replicate_of_mem fun character member => ?_⟩
    simpa using List.dropWhile_eq_nil_iff.mp none_ character member
  exact ⟨more + count, by rw [whole, shape, List.replicate_append_replicate]⟩

/-- The clean form of a text is that of the text without separators at its end. -/
theorem ofText?_eq_trimmed
    (text : String) :
    CleanPath.ofText? text =
      (CleanPath.followAll? [] (trimRight text.toList)).map fun gathered => ⟨gathered.reverse⟩ := by
  rw [CleanPath.followAll?_trimRight, CleanPath.ofText?_eq]

/-- A text of one component aims at what is in the root, and one of none at the root. -/
theorem aims_of_bare
    {text : String}
    (here : lastComponent text ≠ ".")
    (above : lastComponent text ≠ "..")
    (bare : separator ∉ trimRight text.toList) :
    Aims text := by
  have isPath := ofText?_eq_trimmed text
  have isTrimmed : (trimEnd text).toList = trimRight text.toList := by
    rw [trimEnd, String.toList_ofList]
  have isParent := parentText?.eq_def text
  rw [lastComponent, split, isTrimmed, cut?_of_notMem bare] at here above
  rw [isTrimmed, cut?_of_notMem bare] at isParent
  by_cases isEmpty : trimRight text.toList = []
  · refine .root isParent ?_
    rw [CleanPath.ofText, isPath, isEmpty]
    rfl
  · obtain ⟨name, isName⟩ : ∃ name : Name, name.text = trimEnd text := by
      refine ⟨⟨trimEnd text, fun isEmptyText => isEmpty ?_, here, above, isTrimmed ▸ bare⟩, rfl⟩
      rw [← isTrimmed, isEmptyText]
      rfl
    refine aims_of_name name (some .root) (isPath.trans ?_) (fun _ => rfl)
      fun directory isSome => ?_
    · rw [← isTrimmed, ← isName, CleanPath.followAll?_name]
      rfl
    · rw [isParent] at isSome
      cases isSome

/-- A text of several components aims at what is where those before the last one lead. -/
theorem aims_of_append
    {text : String}
    (here : lastComponent text ≠ ".")
    (above : lastComponent text ≠ "..")
    {before run : List Char}
    (shape : trimRight text.toList = before ++ separator :: run)
    (bare : separator ∉ run) :
    Aims text := by
  have isPath := ofText?_eq_trimmed text
  have isTrimmed : (trimEnd text).toList = trimRight text.toList := by
    rw [trimEnd, String.toList_ofList]
  have isParent := parentText?.eq_def text
  rw [lastComponent, split, isTrimmed, shape, cut?_append before bare] at here above
  rw [isTrimmed, shape, cut?_append before bare] at isParent
  dsimp only at here above isParent
  obtain ⟨name, isName⟩ : ∃ name : Name, name.text = String.ofList run := by
    refine ⟨⟨String.ofList run, fun isEmptyRun => ?_, here, above, by simpa using bare⟩, rfl⟩
    have none_ : run = [] := by simpa using isEmptyRun
    exact trimRight_ne_append text.toList before (none_ ▸ shape)
  have isRun : run = name.text.toList := by
    rw [isName, String.toList_ofList]
  refine aims_of_name name (CleanPath.ofText? (String.ofList before)) (isPath.trans ?_) ?_ ?_
  · rw [shape, CleanPath.followAll?_append, CleanPath.ofText?_eq, String.toList_ofList, isRun]
    cases CleanPath.followAll? [] before with
    | none =>
        rfl
    | some gathered =>
        rw [Option.bind_some, CleanPath.followAll?_name, Option.map_some, List.reverse_cons]
        rfl
  · intro isNone
    rw [isParent] at isNone
    split at isNone
    · rename_i isEmpty
      obtain ⟨count, isBare⟩ := eq_replicate_of_trim isEmpty
      rw [CleanPath.ofText?_eq, String.toList_ofList, isBare, CleanPath.followAll?_replicate]
      rfl
    · cases isNone
  · intro directory isSome
    rw [isParent] at isSome
    split at isSome
    · cases isSome
    · cases isSome
      rfl

/-- A text whose last component is not one of the two that are no names aims at a path. -/
theorem aims_of_lastComponent
    {text : String}
    (here : lastComponent text ≠ ".")
    (above : lastComponent text ≠ "..") :
    Aims text := by
  rcases separator_cases (trimRight text.toList) with bare | ⟨before, run, shape, bare⟩
  · exact aims_of_bare here above bare
  · exact aims_of_append here above shape bare

end Command

end VersionStore
