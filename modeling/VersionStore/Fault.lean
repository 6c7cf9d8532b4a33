import VersionStore.Path

namespace VersionStore

/-!
# Faults

Every way in which an operation on a store can fail, as a cause with the facts
that its message names. `Fault.message` holds the wording, `Fault.toIo` the view
of a fault from a byte stream, and `causes` the messages of what lies below a
fault, outermost first.
-/

/-- The kinds of failure that a byte stream or a host file tells apart. -/
inductive IoKind where
  | notFound
  | wouldBlock
  | invalidInput
  | invalidData
  | interrupted
  | unexpectedEof
  | isADirectory
  | notADirectory
  | invalidFilename
  | other
  deriving DecidableEq, Repr

/-- A failure of a byte stream or of a host file. -/
structure IoFault where
  kind : IoKind
  message : String
  /-- Messages of what lies below this failure, outermost first. -/
  causes : List String := []
  deriving DecidableEq, Repr

namespace IoFault

/-- A host file that does not exist. -/
def noSuchFile : IoFault where
  kind := .notFound
  message := "No such file or directory (os error 2)"

/-- A host file that turns out to be a directory. -/
def isADirectory : IoFault where
  kind := .isADirectory
  message := "Is a directory (os error 21)"

/-- A path that leads through a host file. -/
def notADirectory : IoFault where
  kind := .notADirectory
  message := "Not a directory (os error 20)"

/-- A path, or a name along it, that is longer than any can be. -/
def nameTooLong : IoFault where
  kind := .invalidFilename
  message := "File name too long (os error 36)"

/-- A path with a zero byte, which no host file can have. -/
def zeroByte : IoFault where
  kind := .invalidInput
  message := "file name contained an unexpected NUL byte"

/-- Bytes that were to be text and are not. -/
def notText : IoFault where
  kind := .invalidData
  message := "stream did not contain valid UTF-8"

/-- An exact read that met the end of its stream. -/
def shortRead : IoFault where
  kind := .unexpectedEof
  message := "failed to fill whole buffer"

end IoFault

/-- The tables of a database. -/
inductive TableName where
  | directories
  | entries
  | parts
  | targets
  | links
  deriving DecidableEq, Repr

namespace TableName

/-- The tables under the names that the database has for them. -/
def all : List (String × TableName) :=
  [("dirs", directories), ("files", entries), ("contents", parts), ("xinfos", targets),
    ("xrefs", links)]

/-- The name of a table in the database. -/
def text (table : TableName) : String :=
  ((all.find? fun (_, named) => named = table).map Prod.fst).getD ""

end TableName

/-- A failure of the database that holds a store. -/
inductive DatabaseFault where
  /-- The path has a zero byte at an index. -/
  | zeroByte (index : Nat)
  | unableToOpen (path : String)
  /-- The file is there, but not the room for a journal next to it. -/
  | unableToCreate
  | notADatabase
  /-- The tables went away under an open store. -/
  | noTable (table : TableName)
  | duplicateDirectory
  /-- Another store keeps the database as it is. -/
  | locked
  | readOnly
  /-- An address that leads to another machine. -/
  | foreignAuthority (authority : String)
  /-- An address that asks for a mode which there is not. -/
  | unknownMode (kind mode : String)
  /-- An address that asks for more than was granted before. -/
  | forbiddenMode (kind mode : String)
  /-- An address that asks for a file layer which there is not. -/
  | unknownLayer (layer : String)
  deriving DecidableEq, Repr

namespace DatabaseFault

/-- The wording of a database failure. -/
def message : DatabaseFault → String
  | zeroByte index => "nul byte found in provided data at position: " ++ toString index
  | unableToOpen path => "unable to open database file: " ++ path
  | unableToCreate => "unable to open database file"
  | notADatabase => "file is not a database"
  | noTable table => "no such table: " ++ table.text
  | duplicateDirectory => "UNIQUE constraint failed: dirs.id"
  | locked => "database is locked"
  | readOnly => "attempt to write a readonly database"
  | foreignAuthority authority => "invalid uri authority: " ++ authority
  | unknownMode kind mode => "no such " ++ kind ++ " mode: " ++ mode
  | forbiddenMode kind mode => kind ++ " mode not allowed: " ++ mode
  | unknownLayer layer => "no such vfs: " ++ layer

/-- The failure's number and class, as the database engine words it. A zero byte never
gets as far as the engine. -/
def code : DatabaseFault → String
  | zeroByte index => message (zeroByte index)
  | unableToOpen _ | unableToCreate => "Error code 14: Unable to open the database file"
  | notADatabase => "Error code 26: File opened that is not a database file"
  | noTable _ | foreignAuthority _ | unknownMode _ _ | unknownLayer _ =>
      "Error code 1: SQL logic error"
  | duplicateDirectory => "Error code 1555: A PRIMARY KEY constraint failed"
  | locked => "Error code 5: The database file is locked"
  | readOnly => "Error code 8: Attempt to write a readonly database"
  | forbiddenMode _ _ => "Error code 3: Access permission denied"

/-- The failure as it shows when a table is asked for: of tables that are gone, that one is
missed. -/
def missing (table : TableName) : DatabaseFault → DatabaseFault
  | noTable _ => noTable table
  | cause => cause

end DatabaseFault

/-- A failure of a store operation. -/
inductive Fault where
  | database (cause : DatabaseFault)
  | io (cause : IoFault)
  | notFound (path : String)
  | notAFile (path : String)
  | notADirectory (path : String)
  | directoryNotEmpty (path : String)
  /-- A lock on a file is held elsewhere. -/
  | inUse (what : String)
  /-- The destination is taken and may not be replaced, or has no place. -/
  | invalidDestination (path : String)
  | endOfStream
  | closed
  /-- A store was reached through itself while its own transaction was open. -/
  | reentered
  /-- The body of a transaction gave up. -/
  | aborted (reason : String)
  deriving DecidableEq, Repr

namespace Fault

/-- The wording of a failure. -/
def message : Fault → String
  | database cause => "SQLite error: " ++ cause.message
  | io cause => "IO error: " ++ cause.message
  | notFound path => "Path not found: " ++ path
  | notAFile path => "Not a file: " ++ path
  | notADirectory path => "Not a directory: " ++ path
  | directoryNotEmpty path => "Directory not empty: " ++ path
  | inUse what => "File in use: " ++ what
  | invalidDestination path => "Invalid destination: " ++ path
  | endOfStream => "End of stream"
  | closed => "Database is closed"
  | reentered =>
      "Transaction error: store re-entered from inside a transaction on the same thread"
  | aborted reason => "Transaction error: " ++ reason

/-- Messages of what lies below a failure, outermost first. -/
def causes : Fault → List String
  | database cause => [cause.message, cause.code]
  | io cause => cause.message :: cause.causes
  | _ => []

/-- True for contention on a file's lock. -/
def isInUse : Fault → Bool
  | inUse _ => true
  | _ => false

/-- The kind that a byte stream reports for a failure. -/
def ioKind : Fault → IoKind
  | io cause => cause.kind
  | notFound _ => .notFound
  | inUse _ => .wouldBlock
  | endOfStream => .unexpectedEof
  | invalidDestination _ => .invalidInput
  | _ => .other

/-- A failure as a byte stream reports it. One that came from a byte stream in
the first place is handed back unchanged. -/
def toIo (fault : Fault) : IoFault :=
  match fault with
  | io cause => cause
  | _ => { kind := fault.ioKind, message := fault.message, causes := fault.causes }

end Fault

/-- The clean form of a path text, which a text that climbs above its start
does not have. -/
def CleanPath.ofText (text : String) : Except Fault CleanPath :=
  match CleanPath.ofText? text with
  | some path => .ok path
  | none => .error (.invalidDestination text)

/-- The clean path of a text put below a path. -/
def CleanPath.join (path : CleanPath) (relative : String) : Except Fault CleanPath :=
  CleanPath.ofText (Path.join path.text relative)

end VersionStore
