import VersionStore.Path
import VersionStore.Fault
import VersionStore.Tables.Image

namespace VersionStore

/-!
# The working directory

The working directory holds files under their names and no directories. A path is walked
name by name from the working directory or, when it starts with a separator, from a
directory outside of it, of which nothing is known but that it is there. The name of a
database file is found another way: by cleaning its path first, so that what the path
leads through need not be there, unless it is a file.
-/

/-- What a file of the working directory holds. -/
inductive HostFile where
  | plain (data : ByteArray) (modified : Int)
  | database (tables : Tables)
  deriving Inhabited

/-- The bytes of a file. -/
def HostFile.bytes : HostFile → ByteArray
  | plain data _ => data
  | database tables => tables.image

/-- The files of the working directory by their names. -/
abbrev Folder : Type :=
  List (String × HostFile)

namespace Folder

/-- The most bytes that a name has. -/
def longestName : Nat := 255

/-- The most bytes that a path has. -/
def longestPath : Nat := 4095

/-- Put a file under a name. -/
def put (folder : Folder) (name : String) (file : HostFile) : Folder :=
  (name, file) :: folder.filter (·.1 != name)

/-! ## Paths of files -/

/-- Where a walk along a path has come to. -/
inductive Place where
  /-- The working directory. -/
  | here
  /-- A directory outside of it. -/
  | outside
  | file (file : HostFile)

/-- Go on from a place by one component of a path. -/
def enter (folder : Folder) (place : Place) (component : String) : Except IoFault Place :=
  match place with
  | .file _ => .error .notADirectory
  | _ =>
      if component = "" ∨ component = "." then .ok place
      else if component = ".." then .ok .outside
      else if longestName < component.utf8ByteSize then .error .nameTooLong
      else
        match place, folder.lookup component with
        | .here, some file => .ok (.file file)
        | _, _ => .error .noSuchFile

/-- Where a path starts. -/
def start (path : String) : Place :=
  if path.startsWith "/" then .outside else .here

/-- The place of a path. -/
def place (folder : Folder) (path : String) : Except IoFault Place :=
  if path.contains '\x00' then .error .zeroByte
  else if path.isEmpty then .error .noSuchFile
  else if longestPath < path.utf8ByteSize then .error .nameTooLong
  else (Path.components path).foldlM folder.enter (start path)

/-- The file at a path. -/
def find (folder : Folder) (path : String) : Except IoFault HostFile := do
  match ← folder.place path with
  | .file file => return file
  | _ => throw .isADirectory

/-- The bytes of the file at a path. -/
def read (folder : Folder) (path : String) : Except IoFault ByteArray := do
  return (← folder.find path).bytes

/-- The time of a plain file's last change, if it does not lie before 1970. -/
def modified? (folder : Folder) (path : String) : Option Int :=
  match folder.find path with
  | .ok (.plain _ modified) => if modified < 0 then none else some modified
  | _ => none

/-- Write a plain file at a path that is a name, or a way around to one. -/
def write (folder : Folder) (path : String) (data : ByteArray) (modified : Int) : Folder :=
  let components := Path.components path
  match components.filter fun component => component != "" && component != "." with
  | [name] =>
      if components.getLast? = some name then folder.put name (.plain data modified) else folder
  | _ => folder

/-! ## Paths of databases -/

/-- Follow one component of a database's path from the names gathered so far, the last one
first. Nothing lies below a file. -/
def follow? (folder : Folder) (gathered : List String) (component : String) :
    Option (List String) :=
  if component = "" ∨ component = "." then some gathered
  else if component = ".." then
    match gathered with
    | [] => none
    | _ :: before => some before
  else if longestName < component.utf8ByteSize then none
  else if gathered.getLast?.any fun top => (folder.lookup top).isSome then none
  else some (component :: gathered)

/-- The name that a database's path comes to. -/
def databaseName? (folder : Folder) (path : String) : Option String :=
  if path.startsWith "/" then none
  else
    match (Path.components path).foldlM folder.follow? [] with
    | some [name] => some name
    | _ => none

/-- True when a journal can be kept next to a database, under its name and an ending. -/
def hasRoomForJournal (name : String) : Bool :=
  (name ++ "-journal").utf8ByteSize ≤ longestName

end Folder

end VersionStore
