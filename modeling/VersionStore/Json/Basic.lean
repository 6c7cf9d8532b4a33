import VersionStore.Text.Double
import VersionStore.Text.Quoted

namespace VersionStore

/-!
# Data values

The values that entries and settings are exchanged in. The fields of an object
stand in their order. A number is an integer or a double, as it was written.
-/

/-- A value with named and listed parts. -/
inductive Json where
  | null
  | bool (value : Bool)
  | int (value : Int)
  /-- A double and its sign, which zero has as well. -/
  | float (negative : Bool) (value : Text.Double)
  | str (text : String)
  | arr (items : List Json)
  | obj (fields : List (String × Json))
  deriving Inhabited

namespace Json

/-- The text of a double. -/
def floatText (negative : Bool) (value : Text.Double) : String :=
  (if negative then "-" else "") ++ value.compact

/-- What a value is, as a complaint about it says. -/
def describe (value : Json) : String :=
  match value with
  | null => "null"
  | bool value => "boolean `" ++ toString value ++ "`"
  | int value => "integer `" ++ toString value ++ "`"
  | float negative value => "floating point `" ++ floatText negative value ++ "`"
  | str text => "string " ++ Text.quoted text
  | arr _ => "sequence"
  | obj _ => "map"

end Json

end VersionStore
