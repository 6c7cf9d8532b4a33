import VersionStore.Bytes.Hex
import VersionStore.Bytes.Utf8
import VersionStore.Fault

namespace VersionStore

/-!
# Database addresses

The path of a database names its file, or is an address: `file:` with a name in which `%`
and two digits stand for a byte, and behind `?` options that say how the file is opened.
The name "" and the name ":memory:" stand for databases that are kept in no file.
-/

/-- How much of a database's file is asked for. -/
inductive OpenMode where
  /-- A file that is there, to be read. -/
  | reading
  /-- A file that is there. -/
  | existing
  /-- A file that is made when it is missing. -/
  | creating
  /-- No file at all. -/
  | memory
  deriving DecidableEq, Repr

/-- What the path of a database says. -/
structure DatabaseAddress where
  name : String
  mode : OpenMode := .creating
  deriving DecidableEq, Repr

/-- What the path of a file starts with when it is an address. -/
def DatabaseAddress.scheme : String := "file:"

namespace OpenMode

/-- The mode that an option names. -/
def ofText? (text : String) : Option OpenMode :=
  [("ro", reading), ("rw", existing), ("rwc", creating), ("memory", memory)].lookup text

/-- What a mode asks for, as a sum of rights. -/
def rights : OpenMode → Nat
  | reading => 1
  | existing => 2
  | creating => 6
  | memory => 0

/-- The greatest sum of rights that may be asked for in place of a mode. -/
def limit (mode : OpenMode) : Nat :=
  if mode = memory then 128 else mode.rights

end OpenMode

namespace DatabaseAddress

/-! ## Reading an address -/

/-- The texts before and behind the first place of a mark. -/
def cut (mark text : String) : String × String :=
  match text.splitOn mark with
  | first :: rest => (first, mark.intercalate rest)
  | [] => (text, "")

/-- Bytes with each `%` and its two digits replaced by what they stand for. A zero byte
ends the text. -/
def unescape : List UInt8 → List UInt8
  | 37 :: high :: low :: rest =>
      match Hex.value? high, Hex.value? low with
      | some 0, some 0 => []
      | some h, some l => (h * 16 + l) :: unescape rest
      | _, _ => 37 :: unescape (high :: low :: rest)
  | byte :: rest => byte :: unescape rest
  | [] => []

/-- What a part of an address stands for. Bytes that are no text are taken one by one. -/
def unescaped (part : String) : String :=
  let bytes := unescape part.toUTF8.toList
  (String.fromUTF8? bytes.toByteArray).getD
    (String.ofList (bytes.map fun byte => Char.ofNat byte.toNat))

/-- The names and values of options, in order. One without a name counts for nothing. -/
def options (query : String) : List (String × String) :=
  ((query.splitOn "&").map fun option =>
    let (name, value) := cut "=" option
    (unescaped name, unescaped value)).filter (·.1 != "")

/-- An address without the machine that it leads to, which has to be this one. -/
def withoutAuthority (address : String) : Except DatabaseFault String :=
  match address.toList with
  | '/' :: '/' :: rest =>
      let authority := String.ofList (rest.takeWhile (· != Path.separator))
      if authority = "" ∨ authority = "localhost" then
        .ok (String.ofList (rest.dropWhile (· != Path.separator)))
      else .error (.foreignAuthority authority)
  | _ => .ok address

/-- The layers that keep databases in files. -/
def fileLayers : List String :=
  ["unix", "unix-none", "unix-dotfile", "unix-excl"]

/-- An address under way: the file layer that was asked for last. -/
structure Draft where
  address : DatabaseAddress
  layer : Option String := none
  deriving DecidableEq, Repr

namespace Draft

/-- Follow one option. -/
def follow (draft : Draft) : String × String → Except DatabaseFault Draft
  | ("vfs", layer) => .ok { draft with layer := some layer }
  | ("cache", mode) =>
      if mode = "shared" ∨ mode = "private" then .ok draft
      else .error (.unknownMode "cache" mode)
  | ("mode", text) =>
      match OpenMode.ofText? text with
      | none => .error (.unknownMode "access" text)
      | some mode =>
          if draft.address.mode.limit < mode.rights then .error (.forbiddenMode "access" text)
          else .ok { draft with address := { draft.address with mode } }
  | _ => .ok draft

/-- The address of a draft, whose layer has to be known. -/
def finish (draft : Draft) : Except DatabaseFault DatabaseAddress :=
  match draft.layer with
  | none => .ok draft.address
  | some layer =>
      if layer ∈ fileLayers then .ok draft.address
      else if layer = "memdb" then .ok { draft.address with mode := .memory }
      else .error (.unknownLayer layer)

end Draft

/-- The index of the first zero byte. -/
def zeroByte? (text : String) : Option Nat :=
  text.toUTF8.toList.findIdx? (· == 0)

/-- Read the path of a database. -/
def ofText (path : String) : Except DatabaseFault DatabaseAddress := do
  if let some index := zeroByte? path then throw (.zeroByte index)
  match (path.dropPrefix? scheme).map (·.toString) with
  | none => return { name := path }
  | some rest =>
      let path ← withoutAuthority rest
      let (file, query) := cut "?" (cut "#" path).1
      let draft ← (options query).foldlM Draft.follow ⟨{ name := unescaped file }, none⟩
      draft.finish

/-- True for a database that is kept in no file. -/
def isUnnamed (address : DatabaseAddress) : Bool :=
  address.mode == .memory || address.name == "" || address.name == ":memory:"

end DatabaseAddress

end VersionStore
