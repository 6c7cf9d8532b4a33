import VersionStore.Bytes.Utf8
import VersionStore.Command.Console
import VersionStore.Yaml.Config

namespace VersionStore.Command

/-!
# Opening a store

Settings come from a file, if one is given, and the database from an option, the
environment or that file. A store is opened for a command, or created anew.
-/

open ConsoleAction

/-- What is given besides a command. -/
structure Options where
  database : Option String := none
  config : Option String := none
  noHistory : Bool := false
  deriving DecidableEq, Repr

/-- The variable that names the database. -/
def databaseVariable : String := "DBFS_DB"

/-- Succeed with what a host file gave. -/
def ofHostFile (result : Except IoFault α) : ConsoleAction α :=
  match result with
  | .ok value => return value
  | .error fault => throw (Failure.ofIo fault)

/-- The text of a host file. -/
def readText (path : String) : ConsoleAction String := do
  let data ← ofHostFile ((← get).host.files.read path)
  match Utf8.decode data with
  | .ok text => return text
  | .error _ => throw (Failure.ofIo .notText)

/-- Read settings from a host file. -/
def readConfig (path : String) : ConsoleAction Config := do
  let text ← within ("Failed to read config " ++ path) (readText path)
  match Config.ofYaml text with
  | .ok config => return config
  | .error fault => within ("Invalid config " ++ path) (fail fault.message)

/-- The database that is meant, as far as options and environment tell. -/
def databaseOf (options : Options) (host : Host) : Option String :=
  match options.database with
  | some path => some path
  | none => host.environment.lookup databaseVariable

/-- The settings that options come to. -/
def loadConfig (options : Options) : ConsoleAction Config := do
  let base ←
    match options.config with
    | some path => readConfig path
    | none => pure {}
  let config ←
    match databaseOf options (← get).host, options.config with
    | some path, _ => pure { base with path }
    | none, some _ => pure base
    | none, none => fail ("No database given, use --db or set " ++ databaseVariable)
  return if options.noHistory then { config with keepHistory := false } else config

/-- Open a store on the host. -/
def openWith (now : Int) (config : Config) (discard : Bool) : ConsoleAction StoreId := do
  let console ← get
  let (outcome, host) := console.host.openStore config discard now
  set { console with host }
  match outcome with
  | .ok id => return id
  | .error fault => throw (Failure.ofFault fault)

/-- Open the store that options name. -/
def openStore (now : Int) (options : Options) : ConsoleAction StoreId := do
  let config ← loadConfig options
  within ("Failed to open " ++ config.path) (openWith now config false)

/-- Close a store. -/
def closeStore (id : StoreId) : ConsoleAction Unit :=
  modify fun console =>
    { console with host := (console.host.visit id Store.close).2 }

/-- Create a fresh store, discarding what was there, and list its roots. -/
def init (now : Int) (options : Options) : ConsoleAction Unit := do
  let config ← loadConfig options
  let id ← within ("Failed to initialize " ++ config.path) (openWith now config true)
  let entries ← onStore id (Store.list "")
  printLine ("Initialized " ++ config.path)
  printLines (entries.map fun entry => "  /" ++ entry.name)
  closeStore id

end VersionStore.Command
