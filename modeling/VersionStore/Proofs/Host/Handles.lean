import VersionStore.Host.FileHandle
import VersionStore.Proofs.Host.Turning
import VersionStore.Proofs.Path

namespace VersionStore

/-!
# Handles stay in their root

A handle comes from a root by a text, or from a handle by a text, by going to its parent or by
listing what is in it. However often this is done, and whatever the texts are, the handle is at
or below the root: every one of these steps cleans the text from the root on and refuses what
lies elsewhere.
-/

namespace Root

/-- A path of a store is that of a root, or begins with it and a separator. -/
def Holds (root : Root) (path : String) : Prop :=
  path = root.text ∨ ∃ after, path = root.text ++ "/" ++ after

/-- A root holds the clean paths that have its name first. -/
theorem holds_text_iff
    (root : Root)
    (path : CleanPath) :
    root.Holds path.text ↔ ∃ rest, path.names = root.name :: rest := by
  constructor
  · rintro (isRoot | ⟨after, begins⟩)
    · exact ⟨[], CleanPath.joinNames_injective isRoot⟩
    · obtain ⟨rest, -, isPath, -⟩ :=
        (CleanPath.joinNames_eq_append_iff path.names root.name after).mp begins
      exact ⟨rest, isPath⟩
  · rintro ⟨rest, isPath⟩
    by_cases last : rest = []
    · exact Or.inl (by rw [CleanPath.text, isPath, last]; rfl)
    · exact Or.inr ⟨_, by rw [CleanPath.text, isPath, CleanPath.joinNames_cons _ last]; rfl⟩

/-- What comes of a text put below another one, as seen from a root: the handle of the place
that the text leads to, or a refusal if the text climbs above the top or the root does not hold
the place. -/
def Leads (root : Root) (base text : String) : Except Fault FileHandle → Prop
  | .ok file => file.root = root ∧ CleanPath.ofText (Path.join base text) = .ok file.path
  | .error fault =>
      (∃ named, fault = .invalidDestination named) ∧
        ∀ path, CleanPath.ofText (Path.join base text) = .ok path → ¬root.Holds path.text

/-- Where a text leads depends on what it is as a whole. -/
theorem Leads.of_join_eq
    {root : Root}
    {base text base' text' : String}
    {outcome : Except Fault FileHandle}
    (leads : root.Leads base text outcome)
    (same : Path.join base text = Path.join base' text') :
    root.Leads base' text' outcome := by
  cases outcome with
  | error fault =>
      exact ⟨leads.1, same ▸ leads.2⟩
  | ok file =>
      exact ⟨leads.1, same ▸ leads.2⟩

end Root

/-- A text that cleaning leaves as it is. -/
def CleanPath.IsWritten (text : String) : Prop :=
  ∃ path, CleanPath.ofText text = .ok path ∧ path.text = text

/-- A path is written clean. -/
theorem CleanPath.isWritten_text
    (path : CleanPath) :
    IsWritten path.text :=
  ⟨path, path.ofText_text, rfl⟩

namespace FileHandle

variable
  {root : Root}
  {file next : FileHandle}
  {text : String}
  {fault : Fault}

/-- What is written of a handle is its path. -/
theorem isPath_text
    (file : FileHandle) :
    CleanPath.ofText file.text = .ok file.path :=
  CleanPath.ofText_text file.path

/-- Handles of one root with one path are the same. -/
theorem ext_path
    (sameRoot : file.root = next.root)
    (samePath : file.path = next.path) :
    file = next := by
  obtain ⟨root, below⟩ := file
  obtain ⟨root', below'⟩ := next
  obtain rfl : root = root' := sameRoot
  have same : root.name :: below.names = root.name :: below'.names :=
    congrArg CleanPath.names samePath
  rw [FileHandle.mk.injEq]
  exact ⟨rfl, congrArg CleanPath.mk (List.cons.inj same).2⟩

/-! ## From a text to a handle -/

/-- A root gives the handle of what a text comes to below it. -/
theorem ofText_leads
    (root : Root)
    (text : String) :
    root.Leads root.text text (ofText root text) := by
  rw [ofText]
  rcases cleaned : CleanPath.ofText (Path.join root.text text) with fault | path
  · refine ⟨?_, fun path led => ?_⟩
    · rw [CleanPath.ofText] at cleaned
      split at cleaned
      · cases cleaned
      · exact ⟨_, (Except.error.inj cleaned).symm⟩
    · rw [cleaned] at led
      cases led
  · obtain ⟨names⟩ := path
    have elsewhere (other : ∀ rest, names ≠ root.name :: rest) :
        root.Leads root.text text (.error (.invalidDestination text)) := by
      refine ⟨⟨text, rfl⟩, fun path led held => ?_⟩
      rw [cleaned] at led
      cases led
      obtain ⟨rest, inside⟩ := (root.holds_text_iff _).mp held
      exact other rest inside
    cases names with
    | nil =>
        exact elsewhere fun rest => by simp
    | cons first rest =>
        dsimp only
        split
        · rename_i same
          subst same
          exact ⟨rfl, cleaned⟩
        · rename_i different
          exact elsewhere fun others same => different (List.cons.inj same).1

/-- The text of a handle is the one that the root gives this handle for. -/
theorem ofText_eq_ok_iff :
    ofText root text = .ok file ↔
      file.root = root ∧ CleanPath.ofText (Path.join root.text text) = .ok file.path := by
  have leads := ofText_leads root text
  rcases opened : ofText root text with fault | given
  · rw [opened] at leads
    refine ⟨fun absurd => (nomatch absurd), fun ⟨isRoot, led⟩ => ?_⟩
    refine (leads.2 _ led ((root.holds_text_iff _).mpr ⟨file.below.names, ?_⟩)).elim
    rw [← isRoot]
    rfl
  · rw [opened] at leads
    obtain ⟨isRoot, led⟩ := leads
    refine ⟨fun same => Except.ok.inj same ▸ ⟨isRoot, led⟩, fun ⟨isRootToo, ledToo⟩ => ?_⟩
    have samePath : given.path = file.path := Except.ok.inj (led.symm.trans ledToo)
    rw [ext_path (isRoot.trans isRootToo.symm) samePath]

/-- The path of a handle is that of its root with its own below. -/
theorem text_eq_join
    (file : FileHandle) :
    file.text = Path.join file.root.text file.below.text :=
  (CleanPath.join_joinNames_append [file.root.name] file.below.names).symm

/-- A text below a handle is put below the handle's path. -/
theorem join_text
    (file : FileHandle)
    (text : String) :
    Path.join file.root.text (Path.join file.below.text text) = Path.join file.text text :=
  CleanPath.join_join_joinNames [file.root.name] file.below.names text

/-- A handle gives the handle of what a text comes to below it. -/
theorem child_leads
    (file : FileHandle)
    (text : String) :
    file.root.Leads file.text text (file.child text) :=
  (ofText_leads file.root (Path.join file.below.text text)).of_join_eq (file.join_text text)

/-- The handles below a handle are those of the places below its path. -/
theorem child_eq_ok_iff :
    file.child text = .ok next ↔
      next.root = file.root ∧ CleanPath.ofText (Path.join file.text text) = .ok next.path := by
  rw [child, ofText_eq_ok_iff, join_text]

/-! ## Up and down by a name -/

/-- A name below a handle leads to the path that is longer by it. -/
theorem child_name_eq_ok_iff
    (name : Name) :
    file.child name.text = .ok next ↔
      next.root = file.root ∧ next.path.names = file.path.names ++ [name] := by
  have written :
      CleanPath.ofText (Path.join file.text name.text) = .ok ⟨file.path.names ++ [name]⟩ :=
    file.path.join_name name
  rw [child_eq_ok_iff, written, Except.ok.injEq, CleanPath.mk.injEq]
  exact and_congr_right fun _ => eq_comm

/-- A handle has no parent when it is the root. -/
theorem parent?_eq_none_iff :
    file.parent? = none ↔ file.text = file.root.text := by
  have whole : file.text = file.root.text ↔ file.path.names = [file.root.name] :=
    ⟨fun same => CleanPath.joinNames_injective same, congrArg CleanPath.joinNames⟩
  rw [whole, parent?]
  simp [path, CleanPath.isRoot]

/-- The parent of a handle is what a name leads from to the handle. -/
theorem parent?_eq_some_iff :
    file.parent? = some next ↔ ∃ name : Name, next.child name.text = .ok file := by
  obtain ⟨root, ⟨names⟩⟩ := file
  rcases List.eq_nil_or_concat' names with rfl | ⟨before, last, rfl⟩
  · refine ⟨fun absurd => (nomatch absurd), fun ⟨name, led⟩ => ?_⟩
    obtain ⟨-, longer⟩ := (child_name_eq_ok_iff name).mp led
    simp [path] at longer
  · have parent : parent? ⟨root, ⟨before ++ [last]⟩⟩ = some ⟨root, ⟨before⟩⟩ := by
      simp [parent?, CleanPath.isRoot, CleanPath.dropLast]
    simp only [parent, Option.some.injEq, child_name_eq_ok_iff]
    constructor
    · rintro rfl
      exact ⟨last, rfl, rfl⟩
    · rintro ⟨name, sameRoot, longer⟩
      have split : (root.name :: before) ++ [last] = next.path.names ++ [name] := longer
      exact ext_path sameRoot (congrArg CleanPath.mk (List.append_inj' split rfl).1)

/-! ## Listed handles -/

/-- Handles for entries are those that the names of the entries lead to. -/
theorem childrenOf_eq_ok
    {entries : List Entry}
    {files : List FileHandle}
    (given : file.childrenOf entries = .ok files) :
    entries.map (fun entry => file.child entry.name) = files.map .ok := by
  induction entries generalizing files with
  | nil =>
      cases given
      rfl
  | cons entry rest inductionHypothesis =>
      rw [childrenOf] at given
      rcases first : file.child entry.name with fault | next
      · rw [first] at given
        cases given
      · rcases others : file.childrenOf rest with fault | files
        · rw [first, others] at given
          cases given
        · rw [first, others] at given
          cases given
          rw [List.map_cons, List.map_cons, first, inductionHypothesis others]

/-- Handles for entries are refused when the name of one of them is. -/
theorem childrenOf_eq_error
    {entries : List Entry}
    (refused : file.childrenOf entries = .error fault) :
    ∃ entry ∈ entries, file.child entry.name = .error fault := by
  induction entries with
  | nil =>
      cases refused
  | cons entry rest inductionHypothesis =>
      rw [childrenOf] at refused
      rcases first : file.child entry.name with isFault | next
      · rw [first] at refused
        cases refused
        exact ⟨entry, List.mem_cons_self, first⟩
      · rcases others : file.childrenOf rest with isFault | files
        · rw [first, others] at refused
          cases refused
          obtain ⟨found, isRest, led⟩ := inductionHypothesis others
          exact ⟨found, List.mem_cons_of_mem entry isRest, led⟩
        · rw [first, others] at refused
          cases refused

/-- What a handle lists: a handle for each live entry of its directory by the name of the
entry, or a failure to list the entries, or a refusal of a name. -/
def Lists (file : FileHandle) (host : Host) : Except Fault (List FileHandle) → Prop
  | .ok files =>
      ∃ entries,
        (file.list.runOn host).1 = .ok entries ∧
          entries.map (fun entry => file.child entry.name) = files.map .ok
  | .error fault =>
      (file.list.runOn host).1 = .error fault ∨ ∃ named, fault = .invalidDestination named

/-- The handles for what is in a directory come from the names of its entries. -/
theorem children_lists
    (file : FileHandle)
    (host : Host) :
    file.Lists host (file.children.runOn host).1 := by
  rw [children, HostAction.runOn_bind]
  rcases listed : file.list.runOn host with ⟨fault | entries, left⟩
  · exact Or.inl (congrArg Prod.fst listed)
  · change file.Lists host (file.childrenOf entries)
    rcases given : file.childrenOf entries with fault | files
    · obtain ⟨entry, -, refused⟩ := childrenOf_eq_error given
      have leads := file.child_leads entry.name
      rw [refused] at leads
      exact Or.inr leads.1
    · exact ⟨entries, congrArg Prod.fst listed, childrenOf_eq_ok given⟩

/-! ## Handles derived from a root -/

/-- The handles that a root leads to, step by step. -/
inductive Derived (root : Root) : FileHandle → Prop
  | ofText
      {text : String}
      {file : FileHandle}
      (given : ofText root text = .ok file) :
      Derived root file
  | child
      {text : String}
      {file next : FileHandle}
      (derived : Derived root file)
      (given : file.child text = .ok next) :
      Derived root next
  | parent
      {file before : FileHandle}
      (derived : Derived root file)
      (given : file.parent? = some before) :
      Derived root before
  | listed
      {file next : FileHandle}
      {files : List FileHandle}
      {host left : Host}
      (derived : Derived root file)
      (given : file.children.runOn host = (.ok files, left))
      (member : next ∈ files) :
      Derived root next

/-- Where a handle of a root is: the root holds its path, which is clean and that of the root
with a clean path below it, and that path leads from the root to the handle again. -/
structure Confined (root : Root) (file : FileHandle) : Prop where
  root_eq : file.root = root
  held : root.Holds file.text
  clean : CleanPath.IsWritten file.text
  joined : file.text = Path.join root.text file.below.text
  cleanBelow : CleanPath.IsWritten file.below.text
  again : ofText root file.below.text = .ok file

/-- Where the steps from a handle lead. -/
structure Onward (root : Root) (file : FileHandle) : Prop where
  child : ∀ text, root.Leads file.text text (file.child text)
  top : file.parent? = none ↔ file.text = root.text
  parent : ∀ before, file.parent? = some before ↔ ∃ name : Name, before.child name.text = .ok file
  back : ∀ name : Name, ∃ next, file.child name.text = .ok next ∧ next.parent? = some file
  listed : ∀ host, file.Lists host (file.children.runOn host).1

/-- Every step from a handle stays in its root. -/
theorem Derived.root_eq
    (derived : Derived root file) :
    file.root = root := by
  induction derived with
  | ofText given =>
      exact (ofText_eq_ok_iff.mp given).1
  | child derived given inductionHypothesis =>
      exact (child_eq_ok_iff.mp given).1.trans inductionHypothesis
  | parent derived given inductionHypothesis =>
      obtain ⟨name, led⟩ := parent?_eq_some_iff.mp given
      exact (child_eq_ok_iff.mp led).1.symm.trans inductionHypothesis
  | @listed file next files host left derived given member inductionHypothesis =>
      have lists := file.children_lists host
      rw [given] at lists
      obtain ⟨entries, -, led⟩ := lists
      have isLed : .ok next ∈ entries.map (fun entry => file.child entry.name) := by
        rw [led]
        exact List.mem_map_of_mem member
      obtain ⟨entry, -, ledTo⟩ := List.mem_map.mp isLed
      exact (child_eq_ok_iff.mp ledTo).1.trans inductionHypothesis

/-- A handle is confined to its root. -/
theorem confined
    (file : FileHandle) :
    file.Confined file.root where
  root_eq := rfl
  held := (file.root.holds_text_iff file.path).mpr ⟨file.below.names, rfl⟩
  clean := file.path.isWritten_text
  joined := file.text_eq_join
  cleanBelow := file.below.isWritten_text
  again := ofText_eq_ok_iff.mpr ⟨rfl, by rw [← text_eq_join]; exact file.isPath_text⟩

/-- The steps from a handle lead into its root. -/
theorem onward
    (file : FileHandle) :
    file.Onward file.root where
  child := file.child_leads
  top := parent?_eq_none_iff
  parent before := parent?_eq_some_iff
  back name := by
    refine ⟨⟨file.root, ⟨file.below.names ++ [name]⟩⟩, ?_⟩
    have led : file.child name.text = .ok ⟨file.root, ⟨file.below.names ++ [name]⟩⟩ :=
      (child_name_eq_ok_iff name).mpr ⟨rfl, rfl⟩
    exact ⟨led, parent?_eq_some_iff.mpr ⟨name, led⟩⟩
  listed := file.children_lists

/-- A text below a root leads to a handle inside or is refused, and so does every step from a
handle that steps led to. -/
theorem confined_of_derived
    (root : Root) :
    (∀ text, root.Leads root.text text (ofText root text)) ∧
      ∀ file, Derived root file → file.Confined root ∧ file.Onward root := by
  refine ⟨ofText_leads root, fun file derived => ?_⟩
  rw [← derived.root_eq]
  exact ⟨file.confined, file.onward⟩

/-- A text leaves a root and enters it again, and a later one goes up past the handle that it
is put below: the handle at the end is where both lead together. -/
theorem confined_roundabout :
    let home : Root := ⟨0, ⟨"home", by decide⟩, default⟩
    let first : FileHandle := ⟨home, ⟨[⟨"d", by decide⟩, ⟨"f", by decide⟩]⟩⟩
    let second : FileHandle := ⟨home, ⟨[⟨"e", by decide⟩]⟩⟩
    ofText home "../home/d//./f" = .ok first ∧
      first.child "/../.././e/" = .ok second ∧
        second.Confined home ∧ second.Onward home ∧
          second.child "../../homes" = .error (.invalidDestination "e/../../homes") := by
  intro home first second
  have opened : ofText home "../home/d//./f" = .ok first := by decide
  have led : first.child "/../.././e/" = .ok second := by decide
  have holds := (confined_of_derived home).2 second (.child (.ofText opened) led)
  exact ⟨opened, led, holds.1, holds.2, by decide⟩

end FileHandle

end VersionStore
