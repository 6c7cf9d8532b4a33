import Mathlib.Data.List.Basic
import Mathlib.Data.List.DropRight
import Mathlib.Data.List.TakeDrop
import Mathlib.Data.List.TakeWhile
import VersionStore.Fault

namespace VersionStore

/-!
# Written paths

The written form of a clean path tells its names: two lists of names that are
written alike are alike. Joining a name to the written form of a path writes the
longer path, and splitting takes the name back.
-/

namespace Name

/-- A name has no separator. -/
theorem separator_notMem
    (name : Name) :
    Path.separator ∉ name.text.toList :=
  name.property.2.2.2

/-- A name has a character. -/
theorem toList_ne_nil
    (name : Name) :
    name.text.toList ≠ [] := by
  intro empty
  exact name.property.1 (String.toList_eq_nil_iff.mp empty)

end Name

namespace Path

/-! ## Runs of characters without a separator -/

/-- A run without a separator is trimmed of nothing at its start. -/
theorem trimLeft_of_notMem
    {run : List Char}
    (bare : separator ∉ run) :
    trimLeft run = run := by
  cases run with
  | nil =>
      rfl
  | cons first rest =>
      have other : first ≠ separator := by
        rintro rfl
        exact bare (by simp)
      simp [trimLeft, other]

/-- What ends in a run without a separator is trimmed of nothing at its end. -/
theorem trimRight_append
    (before : List Char)
    {run : List Char}
    (some_ : run ≠ [])
    (bare : separator ∉ run) :
    trimRight (before ++ run) = before ++ run := by
  obtain ⟨last, others, shape⟩ := List.exists_cons_of_ne_nil (List.reverse_ne_nil_iff.mpr some_)
  have other : last ≠ separator := by
    rintro rfl
    apply bare
    rw [← List.mem_reverse, shape]
    simp
  have stays : trimLeft (before ++ run).reverse = (before ++ run).reverse := by
    rw [List.reverse_append, shape]
    simp [trimLeft, other]
  rw [trimRight, stays, List.reverse_reverse]

/-- One run is all there is when there is no separator. -/
theorem runs_of_notMem
    {run : List Char}
    (bare : separator ∉ run) :
    runs run = [run] := by
  induction run with
  | nil =>
      rfl
  | cons first rest inductionHypothesis =>
      obtain ⟨other, bareRest⟩ := not_or.mp (mt List.mem_cons.mpr bare)
      rw [runs, if_neg (Ne.symm other), inductionHypothesis bareRest]

/-- The first run ends at the first separator. -/
theorem runs_append_separator
    {run : List Char}
    (bare : separator ∉ run)
    (rest : List Char) :
    runs (run ++ separator :: rest) = run :: runs rest := by
  induction run with
  | nil =>
      rw [List.nil_append, runs, if_pos rfl]
  | cons first others inductionHypothesis =>
      obtain ⟨other, bareOthers⟩ := not_or.mp (mt List.mem_cons.mpr bare)
      rw [List.cons_append, runs, if_neg (Ne.symm other), inductionHypothesis bareOthers]

/-- There is a first run, if an empty one. -/
theorem runs_ne_nil
    (chars : List Char) :
    runs chars ≠ [] := by
  cases chars with
  | nil =>
      simp [runs]
  | cons first rest =>
      rw [runs]
      split
      · simp
      · split <;> simp

/-- Cutting at the last separator takes off a run without one. -/
theorem cut?_append
    (before : List Char)
    {run : List Char}
    (bare : separator ∉ run) :
    cut? (before ++ separator :: run) = some (before, run) := by
  have kept : ∀ character ∈ run.reverse, (character != separator) = true := by
    intro character member
    rw [List.mem_reverse] at member
    have other : character ≠ separator := by
      rintro rfl
      exact bare member
    simpa using other
  have spanned :
      (before ++ separator :: run).reverse.span (· != separator) =
        (run.reverse, separator :: before.reverse) := by
    rw [List.span_eq_takeWhile_dropWhile, List.reverse_append, List.reverse_cons,
      List.append_assoc, List.takeWhile_append_of_pos kept, List.dropWhile_append_of_pos kept]
    simp
  rw [cut?, spanned]
  simp

/-- There is nothing to cut in a run without a separator. -/
theorem cut?_of_notMem
    {run : List Char}
    (bare : separator ∉ run) :
    cut? run = none := by
  have kept : ∀ character ∈ run.reverse, (character != separator) = true := by
    intro character member
    rw [List.mem_reverse] at member
    have other : character ≠ separator := by
      rintro rfl
      exact bare member
    simpa using other
  have spanned : run.reverse.span (· != separator) = (run.reverse, []) := by
    rw [List.span_eq_takeWhile_dropWhile, List.takeWhile_eq_self_iff.mpr kept,
      List.dropWhile_eq_nil_iff.mpr kept]
  rw [cut?, spanned]

/-! ## Joining a name -/

/-- A name below the top stands for itself. -/
theorem join_empty
    (name : Name) :
    join "" name.text = name.text := by
  rw [join, trimLeft_of_notMem name.separator_notMem]
  simp

/-- Below the top a text stands for itself, without separators at its start. -/
theorem join_empty_left
    (relative : String) :
    join "" relative = String.ofList (trimLeft relative.toList) :=
  rfl

/-- A text of separators adds nothing. -/
theorem join_of_trimLeft_eq_nil
    {base relative : String}
    (empty : trimLeft relative.toList = []) :
    join base relative = base := by
  by_cases top : base = ""
  · subst base
    rw [join_empty_left, empty]
  · simp [join, empty, top]

/-- Separators at the start of what is put below something do not matter. -/
theorem join_trimLeft
    (base relative : String) :
    join base (String.ofList (trimLeft relative.toList)) = join base relative := by
  have twice : trimLeft (trimLeft relative.toList) = trimLeft relative.toList :=
    List.dropWhile_idempotent _ relative.toList
  rw [join, join, String.toList_ofList, twice]

/-- Splitting takes the joined name back. -/
theorem split_join
    (base : String)
    (name : Name) :
    (split (join base name.text)).2 = name.text := by
  by_cases top : base = ""
  · subst base
    rw [join_empty, split, cut?_of_notMem name.separator_notMem]
  · have below : name.text.toList.isEmpty = false := by
      simpa using name.toList_ne_nil
    have shape :
        (join base name.text).toList =
          trimRight base.toList ++ separator :: name.text.toList := by
      rw [join, trimLeft_of_notMem name.separator_notMem]
      simp [top, below]
    rw [split, shape, cut?_append _ name.separator_notMem]
    simp

end Path

namespace CleanPath

/-- Names written in front of a further name. -/
theorem joinNames_cons
    (name : Name)
    {rest : List Name}
    (more : rest ≠ []) :
    joinNames (name :: rest) = name.text ++ "/" ++ joinNames rest := by
  cases rest with
  | nil =>
      exact (more rfl).elim
  | cons next others =>
      rfl

/-- Two lists of names written one behind the other. -/
theorem joinNames_append
    {first second : List Name}
    (some_ : first ≠ [])
    (more : second ≠ []) :
    joinNames (first ++ second) = joinNames first ++ "/" ++ joinNames second := by
  induction first with
  | nil =>
      exact (some_ rfl).elim
  | cons name rest inductionHypothesis =>
      rw [List.cons_append, joinNames_cons name (by simp [more])]
      by_cases last : rest = []
      · subst rest
        rfl
      · rw [inductionHypothesis last, joinNames_cons name last]
        simp [String.append_assoc]

/-- The written form of names falls into the names. -/
theorem runs_joinNames
    {names : List Name}
    (some_ : names ≠ []) :
    Path.runs (joinNames names).toList = names.map (·.text.toList) := by
  induction names with
  | nil =>
      exact (some_ rfl).elim
  | cons name rest inductionHypothesis =>
      by_cases last : rest = []
      · subst rest
        exact Path.runs_of_notMem name.separator_notMem
      · have shape :
            (joinNames (name :: rest)).toList =
              name.text.toList ++ Path.separator :: (joinNames rest).toList := by
          rw [joinNames_cons name last, String.toList_append, String.toList_append]
          simp [Path.separator]
        rw [shape, Path.runs_append_separator name.separator_notMem, inductionHypothesis last]
        rfl

/-- The components of the written form of names are the names. -/
theorem components_joinNames
    {names : List Name}
    (some_ : names ≠ []) :
    Path.components (joinNames names) = names.map (·.text) := by
  rw [Path.components, runs_joinNames some_, List.map_map]
  exact List.map_congr_left fun name _ => String.ofList_toList

/-- Written names are empty only where there are none. -/
@[simp] theorem joinNames_eq_empty_iff
    (names : List Name) :
    joinNames names = "" ↔ names = [] := by
  refine ⟨?_, fun empty => by rw [empty]; rfl⟩
  intro empty
  by_contra some_
  have runs := runs_joinNames some_
  rw [empty] at runs
  cases names with
  | nil =>
      exact some_ rfl
  | cons name rest =>
      have first : ([] : List Char) = name.text.toList :=
        (List.cons.inj runs).1
      exact name.toList_ne_nil first.symm

/-- Names that are written alike are alike. -/
theorem joinNames_injective
    {first second : List Name}
    (same : joinNames first = joinNames second) :
    first = second := by
  by_cases empty : second = []
  · subst second
    exact (joinNames_eq_empty_iff first).mp same
  · have some_ : first ≠ [] := by
      rintro rfl
      exact empty ((joinNames_eq_empty_iff second).mp same.symm)
    have runs : first.map (·.text.toList) = second.map (·.text.toList) := by
      rw [← runs_joinNames some_, ← runs_joinNames empty, same]
    apply List.map_injective_iff.mpr _ runs
    intro one other alike
    exact Subtype.ext (String.toList_inj.mp alike)

/-- Written names begin with a name and a separator exactly when it is the first of several. -/
theorem joinNames_eq_append_iff
    (names : List Name)
    (name : Name)
    (after : String) :
    joinNames names = name.text ++ "/" ++ after ↔
      ∃ rest, rest ≠ [] ∧ names = name :: rest ∧ joinNames rest = after := by
  constructor
  · intro begins
    have shape :
        (joinNames names).toList = name.text.toList ++ Path.separator :: after.toList := by
      rw [begins]
      simp [Path.separator]
    have some_ : names ≠ [] := by
      rintro rfl
      simp [joinNames] at shape
    have runs : names.map (·.text.toList) = name.text.toList :: Path.runs after.toList := by
      rw [← runs_joinNames some_, shape, Path.runs_append_separator name.separator_notMem]
    obtain ⟨first, rest, rfl⟩ := List.exists_cons_of_ne_nil some_
    obtain ⟨isFirst, isRest⟩ := List.cons.inj runs
    have same : first = name := Subtype.ext (String.toList_inj.mp isFirst)
    subst same
    have more : rest ≠ [] := by
      rintro rfl
      exact Path.runs_ne_nil _ isRest.symm
    refine ⟨rest, more, rfl, ?_⟩
    rw [joinNames_cons first more] at begins
    exact String.append_right_inj _ |>.mp begins
  · rintro ⟨rest, more, rfl, rfl⟩
    exact joinNames_cons name more

/-- Names that are followed one after the other are gathered. -/
theorem foldlM_follow?
    (names gathered : List Name) :
    (names.map (·.text)).foldlM follow? gathered = some (names.reverse ++ gathered) := by
  induction names generalizing gathered with
  | nil =>
      rfl
  | cons name rest inductionHypothesis =>
      have followed : follow? gathered name.text = some (name :: gathered) := dif_pos name.property
      rw [List.map_cons, List.foldlM_cons, followed, Option.bind_eq_bind, Option.bind_some,
        inductionHypothesis, List.reverse_cons, List.append_assoc]
      rfl

/-- A path that was written is read as the same path. -/
theorem ofText_text
    (path : CleanPath) :
    ofText path.text = .ok path := by
  have read : ofText? path.text = some path := by
    obtain ⟨names⟩ := path
    by_cases empty : names = []
    · subst empty
      rfl
    · rw [ofText?, text, components_joinNames empty, foldlM_follow?, List.append_nil,
        Option.map_some, List.reverse_reverse]
  rw [ofText, read]

/-- Written names are trimmed of nothing at their end. -/
theorem trimRight_joinNames
    (names : List Name) :
    Path.trimRight (joinNames names).toList = (joinNames names).toList := by
  rcases List.eq_nil_or_concat' names with rfl | ⟨before, last, rfl⟩
  · rfl
  · by_cases first : before = []
    · subst before
      exact Path.trimRight_append [] last.toList_ne_nil last.separator_notMem
    · rw [joinNames_append first (by simp), String.toList_append]
      exact Path.trimRight_append _ last.toList_ne_nil last.separator_notMem

/-- Written names are trimmed of nothing at their start, whatever follows them. -/
theorem trimLeft_joinNames_append
    {names : List Name}
    (some_ : names ≠ [])
    (after : List Char) :
    Path.trimLeft ((joinNames names).toList ++ after) = (joinNames names).toList ++ after := by
  obtain ⟨name, rest, rfl⟩ := List.exists_cons_of_ne_nil some_
  obtain ⟨first, others, shape⟩ := List.exists_cons_of_ne_nil name.toList_ne_nil
  have other : first ≠ Path.separator := by
    rintro rfl
    apply name.separator_notMem
    rw [shape]
    simp
  have begins : ∃ more, (joinNames (name :: rest)).toList = first :: more := by
    by_cases last : rest = []
    · subst rest
      exact ⟨others, shape⟩
    · rw [joinNames_cons name last, String.toList_append, String.toList_append, shape]
      exact ⟨_, rfl⟩
  obtain ⟨more, begins⟩ := begins
  rw [begins]
  simp [Path.trimLeft, other]

/-- What is put below written names is written behind them and a separator. -/
theorem toList_join_joinNames
    {names : List Name}
    {relative : String}
    (some_ : names ≠ [])
    (more : Path.trimLeft relative.toList ≠ []) :
    (Path.join (joinNames names) relative).toList =
      (joinNames names).toList ++ Path.separator :: Path.trimLeft relative.toList := by
  have base : (joinNames names).isEmpty = false := by
    rw [← Bool.not_eq_true, String.isEmpty_iff, joinNames_eq_empty_iff]
    exact some_
  have below : (Path.trimLeft relative.toList).isEmpty = false := by
    rwa [← Bool.not_eq_true, List.isEmpty_iff]
  rw [Path.join, base, below, trimRight_joinNames]
  simp

/-- Names put below names are written one behind the other. -/
theorem join_joinNames_append
    (first second : List Name) :
    Path.join (joinNames first) (joinNames second) = joinNames (first ++ second) := by
  by_cases last : second = []
  · subst second
    rw [List.append_nil]
    exact Path.join_of_trimLeft_eq_nil rfl
  · have untouched :
        Path.trimLeft (joinNames second).toList = (joinNames second).toList := by
      simpa using trimLeft_joinNames_append last []
    by_cases top : first = []
    · subst first
      rw [List.nil_append, joinNames, Path.join_empty_left, untouched, String.ofList_toList]
    · apply String.toList_inj.mp
      rw [toList_join_joinNames top (by rw [untouched]; simpa using last), untouched,
        joinNames_append top last]
      simp [Path.separator]

/-- A name joined to written names is the last of the longer list. -/
theorem join_joinNames
    (names : List Name)
    (name : Name) :
    Path.join (joinNames names) name.text = joinNames (names ++ [name]) :=
  join_joinNames_append names [name]

/-- A name that is joined to a path is the last one of the longer path. -/
theorem join_name
    (path : CleanPath)
    (name : Name) :
    path.join name.text = .ok ⟨path.names ++ [name]⟩ := by
  rw [join, text, join_joinNames]
  exact ofText_text ⟨path.names ++ [name]⟩

/-- Without a last name there is no name. -/
theorem eq_root_of_name
    {path : CleanPath}
    (unnamed : path.name = "") :
    path = root := by
  obtain ⟨names⟩ := path
  rcases List.eq_nil_or_concat' names with rfl | ⟨before, last, rfl⟩
  · rfl
  · rw [name, List.getLast?_concat] at unnamed
    exact (last.property.1 unnamed).elim

/-- The last name of a path put below everything before it makes the path. -/
theorem join_directory_name
    {path : CleanPath}
    (named : path.name ≠ "") :
    Path.join path.directory path.name = path.text := by
  obtain ⟨names⟩ := path
  rcases List.eq_nil_or_concat' names with rfl | ⟨before, last, rfl⟩
  · exact (named rfl).elim
  · rw [directory, dropLast, name, List.getLast?_concat, List.dropLast_concat]
    exact join_joinNames before last

/-- A text put below names that are put below others is put below all of them. -/
theorem join_join_joinNames
    (first second : List Name)
    (relative : String) :
    Path.join (joinNames first) (Path.join (joinNames second) relative) =
      Path.join (joinNames (first ++ second)) relative := by
  by_cases empty : Path.trimLeft relative.toList = []
  · rw [Path.join_of_trimLeft_eq_nil empty, Path.join_of_trimLeft_eq_nil empty,
      join_joinNames_append]
  · by_cases last : second = []
    · subst second
      rw [List.append_nil, joinNames, Path.join_empty_left, Path.join_trimLeft]
    · have shape := toList_join_joinNames last empty
      have untouched :
          Path.trimLeft (Path.join (joinNames second) relative).toList =
            (Path.join (joinNames second) relative).toList := by
        rw [shape]
        exact trimLeft_joinNames_append last _
      by_cases top : first = []
      · subst first
        rw [joinNames, Path.join_empty_left, untouched, String.ofList_toList, List.nil_append]
      · apply String.toList_inj.mp
        rw [toList_join_joinNames top (by rw [untouched, shape]; simp), untouched, shape,
          toList_join_joinNames (by simp [top]) empty, joinNames_append top last]
        simp [Path.separator]

/-- A text that ends in written names is trimmed of nothing at its end. -/
theorem trimRight_append_joinNames
    (before : List Char)
    {names : List Name}
    (some_ : names ≠ []) :
    Path.trimRight (before ++ (joinNames names).toList) = before ++ (joinNames names).toList := by
  obtain ⟨first, last, rfl⟩ := (List.eq_nil_or_concat' names).resolve_left some_
  by_cases only : first = []
  · subst only
    exact Path.trimRight_append before last.toList_ne_nil last.separator_notMem
  · have shape :
        before ++ (joinNames (first ++ [last])).toList =
          (before ++ (joinNames first ++ "/").toList) ++ last.text.toList := by
      rw [joinNames_append only (by simp), String.toList_append, List.append_assoc]
      rfl
    rw [shape]
    exact Path.trimRight_append _ last.toList_ne_nil last.separator_notMem

/-- Names that are put below a text are written behind it and a separator. -/
theorem toList_join_of_ne_empty
    {base : String}
    (some_ : base ≠ "")
    {names : List Name}
    (more : names ≠ []) :
    (Path.join base (joinNames names)).toList =
      Path.trimRight base.toList ++ Path.separator :: (joinNames names).toList := by
  have untouched : Path.trimLeft (joinNames names).toList = (joinNames names).toList := by
    simpa using trimLeft_joinNames_append more []
  rw [Path.join, untouched]
  simp [some_, more]

/-- A name put below names that are put below a text is put below the text behind them. -/
theorem join_join_name
    (base : String)
    (names : List Name)
    (name : Name) :
    Path.join (Path.join base (joinNames names)) name.text =
      Path.join base (joinNames (names ++ [name])) := by
  by_cases empty : names = []
  · subst empty
    rw [@Path.join_of_trimLeft_eq_nil base (joinNames []) rfl]
    rfl
  · by_cases top : base = ""
    · subst top
      have whole (names : List Name) : Path.join "" (joinNames names) = joinNames names :=
        join_joinNames_append [] names
      rw [whole, whole, join_joinNames]
    · have inner := toList_join_of_ne_empty top empty
      have some_ : Path.join base (joinNames names) ≠ "" := by
        intro absurd
        rw [absurd] at inner
        simp at inner
      have outer := toList_join_of_ne_empty some_ (List.cons_ne_nil name [])
      apply String.toList_inj.mp
      rw [toList_join_of_ne_empty top (by simp), joinNames_append empty (by simp),
        String.toList_append, String.toList_append]
      refine outer.trans ?_
      rw [inner, ← List.singleton_append, ← List.append_assoc, trimRight_append_joinNames _ empty]
      simp [Path.separator]

/-- A component joined to written names is written with them. -/
theorem exists_join_joinNames
    (names : List Name)
    {component : String}
    (named : IsName component) :
    ∃ longer, Path.join (joinNames names) component = joinNames longer := by
  obtain ⟨name, rfl⟩ : ∃ name : Name, name.text = component := ⟨⟨component, named⟩, rfl⟩
  exact ⟨names ++ [name], join_joinNames names name⟩

/-- The written form of names begins with that of the first of them and a separator. -/
theorem isPrefixOf_joinNames
    {first second : List Name}
    (some_ : first ≠ [])
    (more : second ≠ []) :
    ((joinNames first).toList ++ ['/']).isPrefixOf (joinNames (first ++ second)).toList = true := by
  have shape :
      (joinNames (first ++ second)).toList =
        ((joinNames first).toList ++ ['/']) ++ (joinNames second).toList := by
    rw [joinNames_append some_ more, String.toList_append, String.toList_append]
    rfl
  rw [shape, List.isPrefixOf_iff_prefix]
  exact List.prefix_append _ _

end CleanPath

end VersionStore
