import VersionStore.Config
import VersionStore.Json.Decode

namespace VersionStore.Config

/-!
# Settings as data values

Settings are an object, or the list of its fields in order. A setting that is
left out keeps its default, and fields that are not known are passed over.
-/

open Json

/-- Read one setting. -/
def read (config : Config) (field : String) (value : Json) : Decoded Config :=
  match field with
  | "path" => do return { config with path := ← value.asText "path string" }
  | "keep_history" => do return { config with keepHistory := ← value.asBool }
  | "roots" => do return { config with roots := ← value.asStrings }
  | "auto_close_ms" => do return { config with autoCloseMs := ← value.asNat 64 "u64" }
  | "close_iterations" => do return { config with closeIterations := ← value.asNat 32 "u32" }
  | "close_tick_ms" => do return { config with closeTickMs := ← value.asNat 64 "u64" }
  | "cache_entries" => do return { config with cacheEntries := ← value.asNat 64 "usize" }
  | _ => .ok config

/-- Read settings in order. -/
def readAll (config : Config) : List (String × Json) → Decoded Config
  | [] => .ok config
  | (field, value) :: rest => do (← config.read field value).readAll rest

/-- Read settings from a value. -/
def ofJson : Json → Decoded Config
  | .obj fields => readAll {} fields
  | .arr items => do
      let config ← readAll {} (settings.zip items)
      if items.length > settings.length then
        throw (.wrongLength items.length "fewer elements in array")
      return config
  | value => value.mismatch "struct DbfsConfig"

/-- Settings as a value, in the order of their names. -/
def toJson (config : Config) : Json :=
  .obj [("auto_close_ms", .int config.autoCloseMs),
    ("cache_entries", .int config.cacheEntries),
    ("close_iterations", .int config.closeIterations),
    ("close_tick_ms", .int config.closeTickMs),
    ("keep_history", .bool config.keepHistory),
    ("path", .str config.path),
    ("roots", .arr (config.roots.map .str))]

end VersionStore.Config
