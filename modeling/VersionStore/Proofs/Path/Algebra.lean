import Mathlib.Logic.Function.Iterate
import VersionStore.Proofs.Path.Following

namespace VersionStore

/-!
# The algebra of paths

A text has a clean form unless it climbs above its start, and then it has one only: two texts that
are put one below the other lead where the second one leads from the clean form of the first. So a
path may be joined to in steps or at once. The written form of a path is cut into the path above it
and its last name, and as many cuts lead to the root as the path has components.
-/

namespace Path

/-- The components that are no names. -/
def nameless : List String :=
  ["", ".", ".."]

/-- There is no separator within a run. -/
theorem notMem_of_mem_runs
    {chars run : List Char}
    (member : run ∈ runs chars) :
    separator ∉ run := by
  induction chars generalizing run with
  | nil =>
      cases List.mem_singleton.mp member
      exact List.not_mem_nil
  | cons first rest inductionHypothesis =>
      rw [runs] at member
      split at member
      · rcases List.mem_cons.mp member with rfl | inRest
        · exact List.not_mem_nil
        · exact inductionHypothesis inRest
      · rename_i other
        obtain ⟨begun, others, shape⟩ := List.exists_cons_of_ne_nil (runs_ne_nil rest)
        rw [shape] at member inductionHypothesis
        rcases List.mem_cons.mp member with rfl | inOthers
        · intro inRun
          rcases List.mem_cons.mp inRun with same | inBegun
          · exact other same.symm
          · exact inductionHypothesis List.mem_cons_self inBegun
        · exact inductionHypothesis (List.mem_cons_of_mem _ inOthers)

/-- There is no separator within a component. -/
theorem separator_notMem_of_mem_components
    {text component : String}
    (member : component ∈ components text) :
    separator ∉ component.toList := by
  obtain ⟨run, inRuns, rfl⟩ := List.mem_map.mp member
  rw [String.toList_ofList]
  exact notMem_of_mem_runs inRuns

/-- What has no separator is a name unless it is one of the components that are none. -/
theorem isName_iff_notMem_nameless
    {component : String}
    (bare : separator ∉ component.toList) :
    IsName component ↔ component ∉ nameless := by
  simp [IsName, nameless, bare]

/-- A component that is no name stays or leads up. -/
theorem mem_nameless
    {component : String} :
    component ∈ nameless ↔ (component = "" ∨ component = ".") ∨ component = ".." := by
  simp [nameless, or_assoc]

/-! ## Climbing -/

/-- Of some components in front, more lead up than are names, even with a number of further names
before them. -/
def Rises (depth : Nat) (components : List String) : Prop :=
  ∃ front, front <+: components ∧ depth + front.countP (· ∉ nameless) < front.count ".."

/-- Of some components in front, more lead up than are names. -/
def Climbs (text : String) : Prop :=
  Rises 0 (components text)

/-- Without components there is nothing that leads up. -/
theorem not_rises_nil
    (depth : Nat) :
    ¬ Rises depth [] := by
  rintro ⟨front, isFront, more⟩
  rw [List.prefix_nil.mp isFront] at more
  simp at more

/-- Some components in front rise only when there is one, and others behind it. -/
theorem rises_cons
    (depth : Nat)
    (component : String)
    (rest : List String) :
    Rises depth (component :: rest) ↔
      ∃ front, front <+: rest ∧
        depth + (component :: front).countP (· ∉ nameless) < (component :: front).count ".." := by
  constructor
  · rintro ⟨front, isFront, more⟩
    rcases List.prefix_cons_iff.mp isFront with rfl | ⟨behind, rfl, isBehind⟩
    · simp at more
    · exact ⟨behind, isBehind, more⟩
  · rintro ⟨front, isFront, more⟩
    exact ⟨component :: front, List.prefix_cons_iff.mpr (.inr ⟨front, rfl, isFront⟩), more⟩

/-- A name goes one down. -/
theorem rises_cons_name
    (depth : Nat)
    {component : String}
    (named : component ∉ nameless)
    (rest : List String) :
    Rises depth (component :: rest) ↔ Rises (depth + 1) rest := by
  have other : component ≠ ".." := by
    rintro rfl
    exact named (by decide)
  rw [rises_cons, Rises]
  refine exists_congr fun front => and_congr_right fun _ => ?_
  rw [List.countP_cons_of_pos (by simpa using named), List.count_cons_of_ne other]
  omega

/-- Two dots go one up. -/
theorem rises_cons_up
    (depth : Nat)
    (rest : List String) :
    Rises depth (".." :: rest) ↔ depth = 0 ∨ Rises (depth - 1) rest := by
  have counted (front : List String) :
      depth + (".." :: front).countP (· ∉ nameless) < (".." :: front).count ".." ↔
        depth + front.countP (· ∉ nameless) < front.count ".." + 1 := by
    rw [List.countP_cons_of_neg (by decide), List.count_cons_self]
  rw [rises_cons]
  simp only [counted]
  cases depth with
  | zero =>
      exact iff_of_true ⟨[], List.nil_prefix, by simp⟩ (.inl rfl)
  | succ depth =>
      rw [Nat.add_sub_cancel, or_iff_right (Nat.add_one_ne_zero depth), Rises]
      exact exists_congr fun front => and_congr_right fun _ => by omega

/-- Nothing and one dot stay. -/
theorem rises_cons_stay
    (depth : Nat)
    {component : String}
    (stays : component = "" ∨ component = ".")
    (rest : List String) :
    Rises depth (component :: rest) ↔ Rises depth rest := by
  rw [rises_cons, Rises]
  refine exists_congr fun front => and_congr_right fun _ => ?_
  rcases stays with rfl | rfl <;>
    rw [List.countP_cons_of_neg (by decide), List.count_cons_of_ne (by decide)]

/-- A clean text has neither components that are no names, but for the empty text, nor separators
at an end. -/
structure IsClean (text : String) : Prop where
  named : text ≠ "" → ∀ component ∈ components text, component ∉ nameless
  starts : text.toList.head? ≠ some separator
  ends : text.toList.getLast? ≠ some separator

end Path

namespace CleanPath

open VersionStore.Path

/-! ## Cleaning -/

/-- Nothing and one dot lead nowhere. -/
theorem follow?_stay
    (gathered : List Name)
    {component : String}
    (stays : component = "" ∨ component = ".") :
    follow? gathered component = some gathered := by
  rcases stays with rfl | rfl <;> rfl

/-- Components cannot be followed exactly when they rise above the names that were gathered. -/
theorem foldlM_follow?_eq_none_iff
    {components : List String}
    (bare : ∀ component ∈ components, separator ∉ component.toList)
    (gathered : List Name) :
    components.foldlM follow? gathered = none ↔ Rises gathered.length components := by
  induction components generalizing gathered with
  | nil =>
      exact iff_of_false nofun (not_rises_nil _)
  | cons component rest inductionHypothesis =>
      obtain ⟨bareHere, bareRest⟩ := List.forall_mem_cons.mp bare
      rw [List.foldlM_cons]
      by_cases named : component ∈ nameless
      · rcases mem_nameless.mp named with stays | rfl
        · rw [follow?_stay gathered stays, rises_cons_stay _ stays]
          exact inductionHypothesis bareRest gathered
        · rw [rises_cons_up]
          cases gathered with
          | nil =>
              exact iff_of_true rfl (.inl rfl)
          | cons last before =>
              rw [show follow? (last :: before) ".." = some before from rfl,
                or_iff_right (mt List.length_eq_zero_iff.mp (List.cons_ne_nil last before))]
              exact inductionHypothesis bareRest before
      · rw [rises_cons_name _ named]
        have isName : IsName component := (isName_iff_notMem_nameless bareHere).mpr named
        rw [show follow? gathered component = some (⟨component, isName⟩ :: gathered) from
          dif_pos isName]
        exact inductionHypothesis bareRest _

/-- A text has no clean form exactly when it climbs above its start. -/
theorem ofText?_eq_none_iff
    (text : String) :
    ofText? text = none ↔ Climbs text := by
  rw [ofText?, Option.map_eq_none_iff]
  exact foldlM_follow?_eq_none_iff (fun _ => separator_notMem_of_mem_components) []

/-- A text that climbs is refused by its name. -/
theorem ofText_eq_error_iff
    (text : String) :
    ofText text = .error (.invalidDestination text) ↔ Climbs text := by
  rw [← ofText?_eq_none_iff, ofText]
  cases ofText? text <;> simp

/-- The written form of a path is clean. -/
theorem isClean_text
    (path : CleanPath) :
    IsClean path.text := by
  obtain ⟨names⟩ := path
  by_cases top : names = []
  · subst top
    exact ⟨(absurd rfl ·), nofun, nofun⟩
  · refine ⟨fun _ component member => ?_, ?_, ?_⟩
    · rw [text, components_joinNames top] at member
      obtain ⟨name, -, rfl⟩ := List.mem_map.mp member
      exact (isName_iff_notMem_nameless name.separator_notMem).mp name.property
    · have untouched := trimLeft_joinNames_append top []
      rw [List.append_nil] at untouched
      intro starts
      have stays := List.head?_dropWhile_not (· == separator) (joinNames names).toList
      rw [← trimLeft, untouched, show (joinNames names).toList.head? = _ from starts] at stays
      simp at stays
    · intro ends
      obtain ⟨before, shape⟩ := List.getLast?_eq_some_iff.mp ends
      exact trimRight_ne_append (joinNames names).toList before
        ((trimRight_joinNames names).trans shape)

/-! ## Joining -/

/-- A component leads to the same names behind further ones. -/
theorem follow?_append
    {gathered next : List Name}
    {component : String}
    (before : List Name)
    (leads : follow? gathered component = some next) :
    follow? (gathered ++ before) component = some (next ++ before) := by
  unfold follow? at leads ⊢
  by_cases named : IsName component
  · rw [dif_pos named] at leads ⊢
    cases leads
    rfl
  · rw [dif_neg named] at leads ⊢
    by_cases up : component = ".."
    · rw [if_pos up] at leads ⊢
      cases gathered <;> cases leads
      rfl
    · rw [if_neg up] at leads ⊢
      cases leads
      rfl

/-- What leads somewhere from the root leads there below any path. -/
theorem followAll?_append_of_eq_some
    {gathered : List Name}
    {chars : List Char}
    (before : List Name)
    (leads : followAll? [] chars = some gathered) :
    followAll? before chars = some (gathered ++ before) := by
  have below (components : List String) {first last : List Name}
      (leads : components.foldlM follow? first = some last) :
      components.foldlM follow? (first ++ before) = some (last ++ before) := by
    induction components generalizing first with
    | nil =>
        cases leads
        rfl
    | cons component rest inductionHypothesis =>
        rw [List.foldlM_cons] at leads ⊢
        obtain ⟨next, isNext, leads⟩ := Option.bind_eq_some_iff.mp leads
        rw [follow?_append before isNext]
        exact inductionHypothesis leads
  exact below _ leads

/-- A text that is put below a path is followed from the path. -/
theorem toOption_join
    (path : CleanPath)
    (relative : String) :
    (path.join relative).toOption =
      (followAll? path.names.reverse relative.toList).map fun gathered => ⟨gathered.reverse⟩ := by
  have follows : ofText? (Path.join path.text relative) =
      (followAll? path.names.reverse relative.toList).map fun gathered => ⟨gathered.reverse⟩ := by
    rw [ofText?_eq, followAll?_join, followAll?_text, List.append_nil, Option.bind_some]
  rw [CleanPath.join, ofText, follows]
  cases followAll? path.names.reverse relative.toList <;> rfl

/-- Two texts that are put below a path one after the other lead where they lead at once. -/
theorem bind_join
    (path : CleanPath)
    (first second : String) :
    ((path.join first).toOption.bind fun between => (between.join second).toOption) =
      ((followAll? path.names.reverse first.toList).bind fun between =>
        followAll? between second.toList).map fun gathered => ⟨gathered.reverse⟩ := by
  rw [toOption_join]
  cases followAll? path.names.reverse first.toList with
  | none =>
      rfl
  | some gathered =>
      simp only [Option.map_some, Option.bind_some, toOption_join, List.reverse_reverse]

/-- A text with another one behind a separator is followed part by part. -/
theorem followAll?_separated
    (gathered : List Name)
    (first second : String) :
    followAll? gathered (first ++ "/" ++ second).toList =
      (followAll? gathered first.toList).bind fun between =>
        followAll? between second.toList := by
  have shape : (first ++ "/" ++ second).toList = first.toList ++ separator :: second.toList := by
    simp [separator]
  rw [shape, followAll?_append]

/-! ## Going up -/

/-- Going up from a path leads to the root in as many steps as it has names, and in no others. -/
theorem iterate_parent?_eq_root_iff
    (path : CleanPath)
    (count : Nat) :
    (Option.bind · parent?)^[count] (some path) = some root ↔ count = path.names.length := by
  induction count generalizing path with
  | zero =>
      obtain ⟨names⟩ := path
      rw [Function.iterate_zero_apply, Option.some_inj]
      cases names <;> simp [root]
  | succ count inductionHypothesis =>
      obtain ⟨names⟩ := path
      rw [Function.iterate_succ_apply, Option.bind_some, parent?]
      cases names with
      | nil =>
          have stuck : (Option.bind · parent?)^[count] none = none :=
            Function.iterate_fixed rfl count
          simp [isRoot, stuck]
      | cons name rest =>
          simp [isRoot, inductionHypothesis, dropLast]

/-- The written form of a path that is not the root is cut in front of its last name. -/
theorem split_text
    {path : CleanPath}
    (below : path ≠ root) :
    Path.split path.text = (path.directory, path.name) := by
  obtain ⟨names⟩ := path
  obtain ⟨before, last, rfl⟩ :=
    (List.eq_nil_or_concat' names).resolve_left fun top => below (congrArg CleanPath.mk top)
  rw [directory, dropLast, name, List.getLast?_concat, List.dropLast_concat]
  by_cases first : before = []
  · subst first
    rw [split, show (CleanPath.text ⟨[] ++ [last]⟩) = last.text from rfl,
      cut?_of_notMem last.separator_notMem]
    rfl
  · have shape :
        (CleanPath.text ⟨before ++ [last]⟩).toList =
          (joinNames before).toList ++ separator :: last.text.toList := by
      rw [text, joinNames_append first (by simp)]
      simp [separator, joinNames]
    rw [split, shape, cut?_append _ last.separator_notMem]
    simp [text]

/-! ## All together -/

/-- A text has a clean form. It is clean, it stays what it is when it is cleaned again, and what is
put below it is what the text with something behind it stands for. -/
structure Cleans (text : String) (path : CleanPath) : Prop where
  isPath : ofText text = .ok path
  clean : IsClean path.text
  again : ofText path.text = .ok path
  joins : ∀ relative,
    (path.join relative).toOption = (ofText (text ++ "/" ++ relative)).toOption

/-- A path can be joined to in steps or at once, by texts and by paths. -/
structure Joins (path : CleanPath) (first second : String) : Prop where
  texts :
    ((path.join first).toOption.bind fun between => (between.join second).toOption) =
      (path.join (Path.join first second)).toOption
  paths : ∀ middle below : CleanPath,
    middle.join first = .ok below →
      ((path.join middle.text).toOption.bind fun between => (between.join first).toOption) =
        (path.join below.text).toOption

/-- A path that is not the root is the path above it and its last name. The root is as many steps
above it as it has components. -/
structure Ends (path : CleanPath) : Prop where
  split : Path.split path.text = (path.directory, path.name)
  join : Path.join path.directory path.name = path.text
  above : ∃ parent,
    path.parent? = some parent ∧ parent.text = path.directory ∧ IsClean parent.text ∧
      ofText parent.text = .ok parent
  steps : ∀ count,
    (Option.bind · parent?)^[count] (some path) = some root ↔
      count = (components path.text).length

/-- The clean form of a text. -/
theorem cleans_of_ofText
    {text : String}
    {path : CleanPath}
    (isPath : ofText text = .ok path) :
    Cleans text path := by
  refine ⟨isPath, path.isClean_text, ofText_text path, fun relative => ?_⟩
  have leads := ofText_eq_ok_iff.mp isPath
  rw [toOption_join, ofText, ofText?_eq, followAll?_separated, leads, Option.bind_some]
  cases followAll? path.names.reverse relative.toList <;> rfl

/-- Joining in steps is joining at once. -/
theorem joins
    (path : CleanPath)
    (first second : String) :
    Joins path first second := by
  refine ⟨?_, fun middle below isBelow => ?_⟩
  · rw [bind_join, toOption_join, followAll?_join]
  · have leads :
        (followAll? middle.names.reverse first.toList).map
            (fun gathered => (⟨gathered.reverse⟩ : CleanPath)) = some below := by
      rw [← toOption_join, isBelow]
      rfl
    obtain ⟨gathered, follows, rfl⟩ := Option.map_eq_some_iff.mp leads
    have whole : followAll? [] (Path.join middle.text first).toList = some gathered := by
      rw [followAll?_join, followAll?_text, List.append_nil, Option.bind_some, follows]
    have lower := followAll?_append_of_eq_some path.names.reverse whole
    rw [followAll?_join] at lower
    rw [bind_join, lower, toOption_join, followAll?_text, List.reverse_reverse]

/-- A path that is not the root ends in a name. -/
theorem ends_of_ne_root
    {path : CleanPath}
    (below : path ≠ root) :
    Ends path := by
  have some_ : path.names ≠ [] := fun top => below (congrArg CleanPath.mk top)
  have isBelow : path.isRoot = false := by
    rwa [← Bool.not_eq_true, isRoot_iff]
  refine ⟨split_text below, join_directory_name (mt eq_root_of_name below),
    ⟨path.dropLast, ?_, rfl, path.dropLast.isClean_text, ofText_text _⟩, fun count => ?_⟩
  · rw [parent?, isBelow]
    rfl
  · rw [iterate_parent?_eq_root_iff, text, components_joinNames some_, List.length_map]

/-- A text is refused exactly when it climbs above its start, and it has a clean form otherwise.
Joining, splitting and going up agree with each other on clean forms. -/
theorem algebra_of_texts
    (first second : String) :
    (ofText first = .error (.invalidDestination first) ↔ Climbs first) ∧
      (¬ Climbs first → ∃ path, Cleans first path) ∧
        ∀ path : CleanPath, Joins path first second ∧ (path ≠ root → Ends path) := by
  refine ⟨ofText_eq_error_iff first, fun stays => ?_, fun path =>
    ⟨path.joins first second, ends_of_ne_root⟩⟩
  obtain ⟨path, isPath⟩ := Option.ne_none_iff_exists'.mp (mt (ofText?_eq_none_iff first).mp stays)
  refine ⟨path, cleans_of_ofText ?_⟩
  rw [ofText, isPath]

/-- A text that goes back and forth stays below its start and means a path of two names. One that
goes back too far is refused, although it comes down again. -/
theorem algebra_of_winding_text :
    let text := "/a//./b/../c/"
    let path : CleanPath := ⟨[⟨"a", by decide⟩, ⟨"c", by decide⟩]⟩
    path ≠ root ∧ ¬ Climbs text ∧ Climbs "a/../../b/c" ∧
      Cleans text path ∧ Joins path text "../d" ∧ Ends path := by
  intro text path
  have isPath : ofText text = .ok path := by
    decide
  have below : path ≠ root := by
    decide
  obtain ⟨refused, cleaned, further⟩ := algebra_of_texts text "../d"
  have stays : ¬ Climbs text := by
    rw [← refused, isPath]
    nofun
  obtain ⟨found, cleans⟩ := cleaned stays
  cases cleans.isPath.symm.trans isPath
  exact ⟨below, stays, (algebra_of_texts "a/../../b/c" "").1.mp (by decide), cleans,
    (further path).1, (further path).2 below⟩

end CleanPath

end VersionStore
