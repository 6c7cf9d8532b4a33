import Std.Time.DateTime.Timestamp
import VersionStore.CommandLine.Run
import VersionStore.Tables.Image

/-!
# The program

The files of the working directory are read before a command line is run, and those that
hold a changed store are written after it. The command line itself runs on the host that
the files make up.
-/

namespace VersionStore.Program

/-- How the command line is used. -/
def usage : String :=
  "Usage: dbfs [--db <DB>] [--config <CONFIG>] [--no-history] <COMMAND>\n"

/-- A moment in milliseconds. -/
def milliseconds (time : IO.FS.SystemTime) : Int :=
  time.sec * 1000 + time.nsec.toNat / 1000000

/-- What a file holds. -/
def content (data : ByteArray) (modified : Int) : HostFile :=
  match Tables.ofImage? data with
  | some tables => .database tables
  | none => .plain data modified

/-- The files of the working directory that can be read. -/
def files : IO (List (String × HostFile)) := do
  let mut found := []
  for entry in ← (← IO.currentDir).readDir do
    try
      let data ← IO.FS.readBinFile entry.path
      let about ← entry.path.metadata
      found := (entry.fileName, content data (milliseconds about.modified)) :: found
    catch _ => continue
  return found

/-- Write the files that hold another store than before. -/
def keepChanges (before after : List (String × HostFile)) : IO Unit := do
  for (name, file) in after do
    match file, before.lookup name with
    | .plain _ _, _ => continue
    | .database tables, some (.database known) =>
        if tables != known then IO.FS.writeBinFile name tables.image
    | .database tables, _ => IO.FS.writeBinFile name tables.image

/-- Read a stream to its end. -/
partial def readAll (stream : IO.FS.Stream) (done : ByteArray) : IO ByteArray := do
  let data ← stream.read 65536
  if data.isEmpty then return done
  readAll stream (done ++ data)

/-- The standard input of a command line that stores it. -/
def input (arguments : List String) : IO Source := do
  match CommandLine.parse arguments with
  | .ok { request := .put _ none _, .. } =>
      return Source.ofBytes (← readAll (← IO.getStdin) .empty)
  | _ => return Source.ofBytes .empty

/-- Run a command line on the working directory. -/
def run (arguments : List String) : IO UInt32 := do
  let now := (← Std.Time.Timestamp.now).toMillisecondsSinceUnixEpoch.val
  let database ← IO.getEnv Command.databaseVariable
  let environment := database.toList.map fun path => (Command.databaseVariable, path)
  let before ← files
  let (ended, after) :=
    CommandLine.run now arguments (← input arguments) { files := before, environment }
  keepChanges before after.files
  let output ← IO.getStdout
  let errors ← IO.getStderr
  match CommandLine.parse arguments with
  | .error .help => output.putStr usage
  | .error .usage => errors.putStr usage
  | _ => output.write ended.output
  output.flush
  errors.putStr ended.errors
  return ended.code.toUInt32

end VersionStore.Program

/-- Run the command line that the program was started with. -/
def main (arguments : List String) : IO UInt32 :=
  VersionStore.Program.run arguments
