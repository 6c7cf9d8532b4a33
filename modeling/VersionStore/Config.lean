namespace VersionStore

/-!
# Store configuration

Settings read once, when a store is opened, and the size of a stored part.
-/

/-- The size of every stored part of a file but the last one. -/
def partSize : Nat := 1024 * 1024

/-- A part holds at least one byte. -/
theorem partSize_pos : 0 < partSize := by
  rw [partSize]
  exact Nat.zero_lt_succ _

/-- How a store is opened and kept. -/
structure Config where
  /-- The database file. -/
  path : String := "dbfs.db"
  /-- Move deleted entries to the trash rather than removing them at once. -/
  keepHistory : Bool := true
  /-- Top level directories of a freshly created store. -/
  roots : List String := ["home", "internal-backup", "external-backup"]
  /-- Idle time after which a forgotten stream is closed. -/
  autoCloseMs : Nat := 5000
  /-- Polls made while waiting for streams to end before a close is forced. -/
  closeIterations : Nat := 40
  /-- Time between two such polls. -/
  closeTickMs : Nat := 200
  /-- Parts that a reader keeps in memory. -/
  cacheEntries : Nat := 3
  deriving DecidableEq, Repr

namespace Config

instance : Inhabited Config := ⟨{}⟩

/-- The names of the settings in order, as files of settings spell them. -/
def settings : List String :=
  ["path", "keep_history", "roots", "auto_close_ms", "close_iterations",
    "close_tick_ms", "cache_entries"]

end Config

end VersionStore
