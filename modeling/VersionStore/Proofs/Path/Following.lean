import VersionStore.Proofs.Path

namespace VersionStore

/-!
# Following a text

What a separator divides is followed one part behind the other, and separators at either end of a
text lead nowhere. So a text that is put below another one is followed from where that one leads.
-/

namespace Path

/-! ## Runs of a longer text -/

/-- A separator ends the runs before it. -/
theorem runs_append
    (first second : List Char) :
    runs (first ++ separator :: second) = runs first ++ runs second := by
  induction first with
  | nil =>
      exact runs_append_separator List.not_mem_nil second
  | cons character rest inductionHypothesis =>
      rw [List.cons_append, runs, runs, inductionHypothesis]
      split
      · rfl
      · obtain ⟨run, others, shape⟩ := List.exists_cons_of_ne_nil (runs_ne_nil rest)
        rw [shape]
        rfl

/-- Between separators there are empty runs. -/
theorem runs_replicate
    (count : Nat) :
    runs (List.replicate count separator) = List.replicate (count + 1) [] := by
  induction count with
  | zero =>
      rfl
  | succ count inductionHypothesis =>
      rw [List.replicate_succ, runs, if_pos rfl, inductionHypothesis]
      rfl

/-- What is trimmed off the end of a text is separators. -/
theorem exists_trimRight
    (chars : List Char) :
    ∃ count, chars = trimRight chars ++ List.replicate count separator := by
  let ends := chars.reverse.takeWhile (· == separator)
  have bare : ends = List.replicate ends.length separator :=
    List.eq_replicate_of_mem fun character member => by
      simpa using List.mem_takeWhile_imp member
  refine ⟨ends.length, ?_⟩
  have whole : ends ++ trimLeft chars.reverse = chars.reverse :=
    List.takeWhile_append_dropWhile
  rw [trimRight, ← List.reverse_replicate, ← bare, ← List.reverse_append, whole,
    List.reverse_reverse]

/-- No separator is left at the end of a text. -/
theorem trimRight_ne_append
    (chars before : List Char) :
    trimRight chars ≠ before ++ [separator] := by
  intro ending
  have shape : trimLeft chars.reverse = separator :: before.reverse := by
    rw [← List.reverse_reverse (trimLeft chars.reverse), ← trimRight, ending]
    simp
  have head := List.head?_dropWhile_not (· == separator) chars.reverse
  rw [← trimLeft, shape] at head
  simp at head

/-- A text has no separator, or one behind which there is none. -/
theorem separator_cases
    (chars : List Char) :
    separator ∉ chars ∨
      ∃ before run, chars = before ++ separator :: run ∧ separator ∉ run := by
  by_cases some_ : separator ∈ chars
  · right
    obtain ⟨run, before, shape, bare⟩ := List.eq_append_cons_of_mem (List.mem_reverse.mpr some_)
    refine ⟨before.reverse, run.reverse, ?_, by simpa using bare⟩
    rw [← List.reverse_reverse chars, shape]
    simp
  · exact .inl some_

end Path

namespace CleanPath

open VersionStore.Path

/-- Follow the components of a text from some names. -/
def followAll? (gathered : List Name) (chars : List Char) : Option (List Name) :=
  ((runs chars).map String.ofList).foldlM follow? gathered

/-- A name leads to it. -/
theorem follow?_name
    (gathered : List Name)
    (name : Name) :
    follow? gathered name.text = some (name :: gathered) :=
  dif_pos name.property

/-- What is behind a separator is followed from where the rest leads. -/
theorem followAll?_append
    (gathered : List Name)
    (first second : List Char) :
    followAll? gathered (first ++ separator :: second) =
      (followAll? gathered first).bind fun between => followAll? between second := by
  rw [followAll?, runs_append, List.map_append, List.foldlM_append]
  rfl

/-- Separators alone lead nowhere. -/
theorem followAll?_replicate
    (gathered : List Name)
    (count : Nat) :
    followAll? gathered (List.replicate count separator) = some gathered := by
  rw [followAll?, runs_replicate, List.map_replicate]
  generalize count + 1 = count
  induction count with
  | zero =>
      rfl
  | succ count inductionHypothesis =>
      exact inductionHypothesis

/-- A name is followed. -/
theorem followAll?_name
    (gathered : List Name)
    (name : Name) :
    followAll? gathered name.text.toList = some (name :: gathered) := by
  rw [followAll?, runs_of_notMem name.separator_notMem, List.map_singleton, String.ofList_toList,
    List.foldlM_cons, follow?_name]
  rfl

/-- Separators at the end make no difference. -/
theorem followAll?_trimRight
    (gathered : List Name)
    (chars : List Char) :
    followAll? gathered (trimRight chars) = followAll? gathered chars := by
  obtain ⟨count, whole⟩ := exists_trimRight chars
  cases count with
  | zero =>
      rw [List.replicate_zero, List.append_nil] at whole
      rw [← whole]
  | succ count =>
      conv_rhs => rw [whole, List.replicate_succ, followAll?_append]
      simp only [followAll?_replicate]
      cases followAll? gathered (trimRight chars) <;> rfl

/-- Separators at the start make no difference. -/
theorem followAll?_trimLeft
    (gathered : List Name)
    (chars : List Char) :
    followAll? gathered (trimLeft chars) = followAll? gathered chars := by
  induction chars with
  | nil =>
      rfl
  | cons first rest inductionHypothesis =>
      by_cases divides : first = separator
      · subst first
        have dropped : trimLeft (separator :: rest) = trimLeft rest :=
          List.dropWhile_cons_of_pos (beq_self_eq_true separator)
        have skipped : followAll? gathered (separator :: rest) = followAll? gathered rest :=
          followAll?_append gathered [] rest
        rw [dropped, skipped, inductionHypothesis]
      · have stays : trimLeft (first :: rest) = first :: rest :=
          List.dropWhile_cons_of_neg (by simpa using divides)
        rw [stays]

/-- A text that is put below another one is followed from where that one leads. -/
theorem followAll?_join
    (gathered : List Name)
    (base relative : String) :
    followAll? gathered (Path.join base relative).toList =
      (followAll? gathered base.toList).bind fun between => followAll? between relative.toList := by
  simp only [← followAll?_trimLeft _ relative.toList]
  by_cases top : base = ""
  · subst top
    rw [join_empty_left, String.toList_ofList]
    rfl
  · by_cases nothing : trimLeft relative.toList = []
    · rw [join_of_trimLeft_eq_nil nothing, nothing]
      cases followAll? gathered base.toList <;> rfl
    · have shape :
          (Path.join base relative).toList =
            trimRight base.toList ++ separator :: trimLeft relative.toList := by
        simp [Path.join, top, nothing]
      rw [shape, followAll?_append, followAll?_trimRight]

/-- The written form of a path leads along the path. -/
theorem followAll?_text
    (gathered : List Name)
    (path : CleanPath) :
    followAll? gathered path.text.toList = some (path.names.reverse ++ gathered) := by
  obtain ⟨names⟩ := path
  by_cases top : names = []
  · subst top
    rfl
  · exact (congrArg (List.foldlM follow? gathered) (components_joinNames top)).trans
      (foldlM_follow? names gathered)

/-- The clean form of a text is where its components lead. -/
theorem ofText?_eq
    (text : String) :
    ofText? text = (followAll? [] text.toList).map fun gathered => ⟨gathered.reverse⟩ :=
  rfl

/-- A text leads to its clean form. -/
theorem ofText_eq_ok_iff
    {text : String}
    {path : CleanPath} :
    ofText text = .ok path ↔ followAll? [] text.toList = some path.names.reverse := by
  obtain ⟨names⟩ := path
  rw [ofText, ofText?_eq]
  cases followAll? [] text.toList with
  | none =>
      simp
  | some gathered =>
      simp [List.reverse_eq_iff]

/-- Separators at the ends of a text make no difference to its clean form. -/
theorem ofText_trim
    {text : String}
    {path : CleanPath}
    (isPath : ofText text = .ok path) :
    ofText (Path.trim text) = .ok path := by
  rw [ofText_eq_ok_iff] at isPath ⊢
  rwa [Path.trim, String.toList_ofList, followAll?_trimLeft, followAll?_trimRight]

end CleanPath

end VersionStore
