namespace VersionStore

/-!
# Paths

A path text is a run of components between separators. Cleaning drops empty
components and `.`, and lets `..` take back the component before it; a text that
climbs above its start has no clean form. A clean path is kept as the list of
its names, each a valid name by its type; the root is the empty list.

`Path.join` and `Path.split` work on texts and clean nothing.
-/

namespace Path

/-- The character between two components. -/
def separator : Char := '/'

/-- The runs between separators, empty ones included. -/
def runs : List Char → List (List Char)
  | [] => [[]]
  | c :: rest =>
      if c = separator then [] :: runs rest
      else
        match runs rest with
        | [] => [[c]]
        | first :: others => (c :: first) :: others

/-- The components of a path text, empty ones included. -/
def components (text : String) : List String :=
  (runs text.toList).map String.ofList

/-- Remove separators at the start. -/
def trimLeft (chars : List Char) : List Char :=
  chars.dropWhile (· == separator)

/-- Remove separators at the end. -/
def trimRight (chars : List Char) : List Char :=
  (trimLeft chars.reverse).reverse

/-- A text without the separators at both its ends. -/
def trim (text : String) : String :=
  String.ofList (trimLeft (trimRight text.toList))

/-- A text without the separators at its end. -/
def trimEnd (text : String) : String :=
  String.ofList (trimRight text.toList)

/-- True when a text ends in a separator. -/
def endsInSeparator (text : String) : Bool :=
  text.toList.getLast? == some separator

/-- Put a relative text below a base text. An empty side leaves the other one. -/
def join (base relative : String) : String :=
  let below := trimLeft relative.toList
  if base.isEmpty then String.ofList below
  else if below.isEmpty then base
  else String.ofList (trimRight base.toList ++ separator :: below)

/-- The characters before and after the last separator, when there is one. -/
def cut? (chars : List Char) : Option (List Char × List Char) :=
  match chars.reverse.span (· != separator) with
  | (_, []) => none
  | (name, _ :: directory) => some (directory.reverse, name.reverse)

/-- The directory part and the last component of a text. -/
def split (text : String) : String × String :=
  match cut? text.toList with
  | some (directory, name) => (String.ofList directory, String.ofList name)
  | none => ("", text)

end Path

/-- What can stand between two separators of a clean path. -/
def IsName (text : String) : Prop :=
  text ≠ "" ∧ text ≠ "." ∧ text ≠ ".." ∧ Path.separator ∉ text.toList

instance (text : String) : Decidable (IsName text) := by
  unfold IsName
  infer_instance

/-- A component that a clean path can hold. -/
def Name : Type :=
  { text : String // IsName text }

namespace Name

instance : DecidableEq Name :=
  inferInstanceAs (DecidableEq { text : String // IsName text })

/-- The characters of a name. -/
def text (name : Name) : String :=
  name.val

end Name

/-- A path from the root, as the names along it. -/
structure CleanPath where
  names : List Name
  deriving DecidableEq

namespace CleanPath

/-- The path of no names. -/
def root : CleanPath := ⟨[]⟩

/-- Follow one component from the names gathered so far, the last one first. -/
def follow? (gathered : List Name) (component : String) : Option (List Name) :=
  if h : IsName component then some (⟨component, h⟩ :: gathered)
  else if component = ".." then
    match gathered with
    | [] => none
    | _ :: before => some before
  else some gathered

/-- The clean form of a path text, or nothing when it climbs above its start. -/
def ofText? (text : String) : Option CleanPath :=
  ((Path.components text).foldlM follow? []).map fun gathered => ⟨gathered.reverse⟩

/-- Names with a separator between neighbours. -/
def joinNames : List Name → String
  | [] => ""
  | [name] => name.text
  | name :: rest => name.text ++ "/" ++ joinNames rest

/-- The written form: no separator at either end, empty for the root. -/
def text (path : CleanPath) : String :=
  joinNames path.names

/-- True for the path of no names. -/
def isRoot (path : CleanPath) : Bool :=
  path.names.isEmpty

/-- The path of all names but the last; the root stays where it is. -/
def dropLast (path : CleanPath) : CleanPath :=
  ⟨path.names.dropLast⟩

/-- The written form of everything before the last name. -/
def directory (path : CleanPath) : String :=
  path.dropLast.text

/-- The last name, empty for the root. -/
def name (path : CleanPath) : String :=
  match path.names.getLast? with
  | some name => name.text
  | none => ""

/-- The path one name shorter, which the root does not have. -/
def parent? (path : CleanPath) : Option CleanPath :=
  if path.isRoot then none else some path.dropLast

/-- The clean path of a text put below this one. -/
def join? (path : CleanPath) (relative : String) : Option CleanPath :=
  ofText? (Path.join path.text relative)

/-- Texts of the paths to each name along a path, with that name. -/
def ancestry (before : String) : List Name → List (String × Name)
  | [] => []
  | name :: rest =>
      let here := Path.join before name.text
      (here, name) :: ancestry here rest

/-- The root has no names, and only the root. -/
@[simp] theorem isRoot_iff (path : CleanPath) :
    path.isRoot = true ↔ path = root := by
  cases path
  simp [isRoot, root]

end CleanPath

end VersionStore
