import VersionStore.Checksum
import VersionStore.Json.Basic

namespace VersionStore.Json

/-!
# Reading data values

Readers for the plain kinds of values, with the complaint that each makes about
a value of another kind. A value that is an integer but out of range gets a
complaint of its own.
-/

/-- Why a value was not accepted. -/
inductive Fault where
  | wrongType (found expected : String)
  | wrongValue (found expected : String)
  | wrongLength (length : Nat) (expected : String)
  | missingField (name : String)
  | duplicateField (name : String)
  | badHex (fault : Hex.Fault)
  | badChecksum (text : String)
  deriving DecidableEq, Repr

namespace Fault

/-- The wording of a complaint. -/
def message : Fault → String
  | wrongType found expected => "invalid type: " ++ found ++ ", expected " ++ expected
  | wrongValue found expected => "invalid value: " ++ found ++ ", expected " ++ expected
  | wrongLength length expected =>
      "invalid length " ++ toString length ++ ", expected " ++ expected
  | missingField name => "missing field `" ++ name ++ "`"
  | duplicateField name => "duplicate field `" ++ name ++ "`"
  | badHex .oddLength => "Odd number of digits"
  | badHex (.badDigit byte position) =>
      "Invalid character " ++ Text.quotedChar (Char.ofNat byte.toNat) ++
        " at position " ++ toString position
  | badChecksum text => "bad checksum length: " ++ text

end Fault

/-- A result that may be a complaint. -/
abbrev Decoded (α : Type) : Type :=
  Except Fault α

/-- The complaint about a value of another kind. -/
def mismatch (value : Json) (expected : String) : Decoded α :=
  .error (.wrongType value.describe expected)

/-- Read a text; `expected` is what a complaint calls it. -/
def asText (expected : String) : Json → Decoded String
  | str text => .ok text
  | value => value.mismatch expected

/-- Read a string. -/
def asString : Json → Decoded String :=
  asText "a string"

/-- Read a truth value. -/
def asBool : Json → Decoded Bool
  | bool value => .ok value
  | value => value.mismatch "a boolean"

/-- Read an integer from `least` to `greatest`. -/
def asIntBetween (least greatest : Int) (expected : String) (value : Json) : Decoded Int :=
  match value with
  | int whole =>
      if least ≤ whole ∧ whole ≤ greatest then .ok whole
      else .error (.wrongValue value.describe expected)
  | value => value.mismatch expected

/-- Read an integer of sixty-four bits with a sign. -/
def asInt64 : Json → Decoded Int :=
  asIntBetween (-(Int.pow 2 63)) (Int.pow 2 63 - 1) "i64"

/-- Read an integer of some bits without a sign. -/
def asNat (bits : Nat) (expected : String) (value : Json) : Decoded Nat := do
  return (← asIntBetween 0 (Int.pow 2 bits - 1) expected value).toNat

/-- Read the items of a list of strings. -/
def stringsOf : List Json → Decoded (List String)
  | [] => .ok []
  | item :: rest => do
      let text ← item.asString
      return text :: (← stringsOf rest)

/-- Read a list of strings. -/
def asStrings : Json → Decoded (List String)
  | arr items => stringsOf items
  | value => value.mismatch "a sequence"

/-- Read a checksum from its hexadecimal digits. -/
def asChecksum (value : Json) : Decoded Checksum := do
  let text ← value.asString
  match Hex.decode text with
  | .error fault => throw (.badHex fault)
  | .ok bytes =>
      match Checksum.ofBytes? bytes with
      | some checksum => return checksum
      | none => throw (.badChecksum text)

/-- Read a value that may be null. -/
def asOptional (read : Json → Decoded α) : Json → Decoded (Option α)
  | null => .ok none
  | value => do return some (← read value)

end VersionStore.Json
