import VersionStore.Host.DatabaseAddress
import VersionStore.Host.Folder
import VersionStore.Stream.Reader
import VersionStore.Stream.Writer
import VersionStore.Tables.Seed

namespace VersionStore

/-!
# The host

Stores live in database files of a working directory, next to plain files. The
host keeps these files and every store that was opened, under a number each.
Before each piece of work a store takes over what its file holds, unless a scope of it
got at the tables already, and afterwards the file holds what the store kept. Two stores
may thus share a file. Streams that are used for longer are held under names.
-/

/-- The number of a store that was opened. -/
abbrev StoreId : Type := Nat

/-- A stream that is held under a name. -/
structure Held (σ : Type) where
  store : StoreId
  stream : σ
  /-- The number of streams that were held before this one. -/
  rank : Nat

/-- The working directory, the stores that were opened, and the environment. -/
structure Host where
  files : Folder := []
  stores : Array Store := #[]
  readers : List (String × Held Reader) := []
  writers : List (String × Held Writer) := []
  /-- The number of streams that were held so far. -/
  heldStreams : Nat := 0
  /-- Variables and their values. -/
  environment : List (String × String) := []
  /-- The time, which a database is given that has to be made anew. -/
  clock : Int := 0
  /-- True when stores are opened with watchdogs for their streams. -/
  timed : Bool := false
  deriving Inhabited

/-- A computation on the host. -/
abbrev HostAction (α : Type) : Type :=
  ExceptT Fault (StateM Host) α

namespace Host

/-! ## Databases -/

/-- Write a plain file at a path, if there can be one. -/
def writeFile (host : Host) (path : String) (data : ByteArray) (modified : Int) : Host :=
  { host with files := host.files.write path data modified }

/-- The file of a database path that names one. -/
def databaseFile? (host : Host) (path : String) : Except DatabaseFault (Option String) := do
  let address ← DatabaseAddress.ofText path
  if address.isUnnamed then return none
  match host.files.databaseName? address.name with
  | some name => return some name
  | none => throw (.unableToOpen path)

/-- What stores do with the database in a file, except for one of them. -/
def accessTo (host : Host) (file : String) (except? : Option StoreId) : Access :=
  (host.stores.toList.zipIdx.filter fun (store, id) =>
    store.file == some file && some id != except?).foldl
    (fun most (store, _) => most.max store.access) .idle

/-- Fail when a store is in the way of everyone else who would read a file. -/
def requireReadable (host : Host) (file : String) : Except DatabaseFault Unit := do
  if host.accessTo file none = .stuck then throw .locked

/-- The tables that the database at a path holds, when one of them is asked for. An empty
file holds no table. -/
def databaseTables (host : Host) (path : String) (first? : Option TableName) :
    Except DatabaseFault Tables := do
  let name? ← host.databaseFile? path
  name?.forM host.requireReadable
  match name?.bind fun name => host.files.lookup name with
  | some (.database tables) => return tables
  | some (.plain data _) =>
      if !data.isEmpty then throw .notADatabase
      if let some table := first? then throw (.noTable table)
      return {}
  | none => throw (.unableToOpen path)

/-- Put tables into the database at a path from outside of all stores, which fails when one
of them is in the way. -/
def changeDatabase (host : Host) (path : String) (tables : Tables) :
    Except DatabaseFault Host := do
  match ← host.databaseFile? path with
  | none => return host
  | some name =>
      if host.accessTo name none ≠ .idle then throw .locked
      return { host with files := host.files.put name (.database tables) }

/-! ## Stores -/

/-- What a store is opened on. -/
structure Opening where
  file : Option String
  readOnly : Bool
  tables : Tables

/-- What a store with a configuration is opened on: the tables of its database, or fresh ones
when there are none or they are to be discarded. Fresh tables of a file need it to be free for
writing. -/
def opening (host : Host) (config : Config) (discard : Bool) (now : Int) :
    Except DatabaseFault Opening := do
  let address ← DatabaseAddress.ofText config.path
  let fresh := Tables.seed config.roots now
  match ← host.databaseFile? config.path with
  | none => return ⟨none, false, fresh⟩
  | some name =>
      host.requireReadable name
      let readOnly := address.mode == .reading
      let found := host.files.lookup name
      if found.isNone && address.mode != .creating then throw (.unableToOpen config.path)
      match found, discard with
      | some (.database tables), false => return ⟨some name, readOnly, tables⟩
      | _, _ =>
          if let some (.plain data _) := found then
            if !data.isEmpty then throw .notADatabase
          if readOnly then throw .readOnly
          if !Folder.hasRoomForJournal name then throw .unableToCreate
          if host.accessTo name none != .idle then throw .locked
          return ⟨some name, readOnly, fresh⟩

/-- A store on what it is opened on. -/
def Opening.connect (opened : Opening) (store : Store) : Store :=
  { store with
    kept := opened.tables
    tables := opened.tables
    file := opened.file
    readOnly := opened.readOnly
    damage := none }

/-- Put what a store keeps into its file. -/
def save (host : Host) (store : Store) : Host :=
  match store.file, store.connected, store.damage with
  | some name, true, none => { host with files := host.files.put name (.database store.kept) }
  | _, _, _ => host

/-- Open a store and give its number. -/
def openStore
    (host : Host)
    (config : Config)
    (discard : Bool)
    (now : Int) :
    Except Fault StoreId × Host :=
  match host.opening config discard now with
  | .error cause => (.error (.database cause), host)
  | .ok opened =>
      let store := opened.connect { Store.ofTables config {} with timed := host.timed }
      let held := host.save store
      (.ok held.stores.size, { held with stores := held.stores.push store })

/-- Open a store's file anew, under the locks that the store has taken. -/
def reopenStore
    (host : Host)
    (id : StoreId)
    (discard : Bool)
    (now : Int) :
    Except Fault StoreId × Host :=
  let old := host.stores.getD id default
  match host.openStore old.config discard now with
  | (.ok next, opened) =>
      (.ok next, { opened with
        stores := opened.stores.modify next fun store => { store with locks := old.locks } })
  | failed => failed

/-- A store with the tables of its file, unless it got at them in an open scope. -/
def refresh (store : Store) (file : HostFile) : Store :=
  match store.access, file with
  | .idle, .database tables =>
      { store with
        kept := tables
        tables
        savepoints := store.savepoints.map fun _ => tables
        damage := none }
  | .idle, .plain data _ =>
      { store with damage := some (if data.isEmpty then .noTable .entries else .notADatabase) }
  | _, _ => store

/-- A store as its file makes it: up to date, or ready to be connected. -/
def upToDate (host : Host) (store : Store) : Store :=
  if store.connected then
    match store.file.bind fun name => host.files.lookup name with
    | some file => refresh store file
    | none => store
  else
    match host.opening store.config false host.clock with
    | .ok opened => opened.connect store
    | .error cause => { store with damage := some cause }

/-- A store as its work finds it. -/
def attach (host : Host) (id : StoreId) (store : Store) : Store :=
  let found := host.upToDate store
  { found with
    others := (found.file.map fun name => host.accessTo name (some id)).getD .idle }

/-- The host after work on a store. -/
def keep (host : Host) (id : StoreId) (store : Store) : Host :=
  { host with stores := host.stores.setIfInBounds id store }.save store

/-- Work on a store. -/
def visit (host : Host) (id : StoreId) (work : Store → β × Store) : β × Host :=
  let store := host.attach id (host.stores.getD id default)
  let (outcome, left) := work store
  (outcome, host.keep id left)

/-- Run an action on a store. -/
def runOn (host : Host) (id : StoreId) (action : Action α) : Except Fault α × Host :=
  host.visit id action.runOn

/-- Run an action on a stream of a store. -/
def runStream
    (host : Host)
    (id : StoreId)
    (stream : σ)
    (action : StreamAction σ α) :
    (Except Fault α × σ) × Host :=
  host.visit id fun store =>
    let (outcome, after, left) := action.runOn stream store
    ((outcome, after), left)

/-- The store of a number as it is, without a look at its file. -/
def store (host : Host) (id : StoreId) : Store :=
  host.stores.getD id default

end Host

namespace HostAction

/-- Run an action on the host. -/
def runOn (action : HostAction α) (host : Host) : Except Fault α × Host :=
  Id.run (StateT.run (ExceptT.run action) host)

/-- Run an action on a store. -/
def on (id : StoreId) (action : Action α) : HostAction α :=
  ExceptT.mk fun host => host.runOn id action

/-- Run an action on a stream of a store. A failure leaves no stream behind. -/
def onStream (id : StoreId) (stream : σ) (action : StreamAction σ α) :
    HostAction (Except Fault α × σ) :=
  ExceptT.mk fun host =>
    let (outcome, left) := host.runStream id stream action
    (.ok outcome, left)

/-- Succeed with what a database gave. -/
def ofDatabase (result : Except DatabaseFault α) : HostAction α :=
  match result with
  | .ok value => return value
  | .error cause => throw (.database cause)

/-- The tables that the database of a store holds, whatever the store does, when one of them
is asked for. -/
def databaseOf (id : StoreId) (first? : Option TableName) : HostAction Tables := do
  let host ← get
  ofDatabase (host.databaseTables (host.store id).config.path first?)

/-- Put tables into the database of a store, past the store. -/
def replaceDatabaseOf (id : StoreId) (tables : Tables) : HostAction Unit := do
  let host ← get
  set (← ofDatabase (host.changeDatabase (host.store id).config.path tables))

/-- Run an action and hand its failure over as a value. -/
def attempt (action : HostAction α) : HostAction (Except Fault α) :=
  ExceptT.mk (do return .ok (← ExceptT.run action))

end HostAction

end VersionStore
