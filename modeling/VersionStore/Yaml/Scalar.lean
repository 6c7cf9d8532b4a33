import VersionStore.Text.Double
import VersionStore.Yaml.Document

namespace VersionStore.Yaml

/-!
# The values of scalars

What a plain scalar stands for: nothing, a truth value, a whole number in base
ten, sixteen, eight or two, a double, or text. A whole number that is too long is
read as a double, and a number that begins with a needless zero is text. A tag may
say what a scalar has to stand for.
-/

/-- The value of a scalar. -/
inductive Resolved where
  | nothing
  | truth (value : Bool)
  | whole (value : Int)
  | double (negative : Bool) (value : Text.Double)
  | infinite (negative : Bool)
  | notANumber
  | text (value : String)
  deriving DecidableEq, Repr

/-! ## Numbers -/

/-- Read digits of a base, in front of which `gathered` was read. -/
def digitsFrom? (base gathered : Nat) : List Char → Option Nat
  | [] => some gathered
  | c :: rest =>
      match hexDigit? c with
      | some value => if value < base then digitsFrom? base (gathered * base + value) rest else none
      | none => none

/-- Read at least one digit of a base. -/
def digits? (base : Nat) (chars : List Char) : Option Nat :=
  if chars.isEmpty then none else digitsFrom? base 0 chars

/-- A whole number without a sign. -/
def natural? : List Char → Option Nat
  | '0' :: 'x' :: rest => digits? 16 rest
  | '0' :: 'o' :: rest => digits? 8 rest
  | '0' :: 'b' :: rest => digits? 2 rest
  | ['0'] => some 0
  | '0' :: _ => none
  | chars => digits? 10 chars

/-- A whole number with at most a plus sign. -/
def unsigned? : List Char → Option Nat
  | '+' :: rest => natural? rest
  | chars => natural? chars

/-- A whole number with a minus sign. -/
def negative? : List Char → Option Int
  | '-' :: rest => (natural? rest).map fun value => -Int.ofNat value
  | _ => none

/-- A whole number of a hundred and twenty-eight bits, with or without a sign. -/
def whole? (chars : List Char) : Option Int :=
  let unsigned := (unsigned? chars).filter (· < Nat.pow 2 128)
  (unsigned.map Int.ofNat).or ((negative? chars).filter (-(Int.pow 2 127) ≤ ·))

/-- The exponent behind a decimal. -/
def exponent? : List Char → Option Int
  | [] => some 0
  | mark :: rest =>
      if mark = 'e' ∨ mark = 'E' then
        match rest with
        | '+' :: digits => (digits? 10 digits).map Int.ofNat
        | '-' :: digits => (digits? 10 digits).map fun value => -Int.ofNat value
        | digits => (digits? 10 digits).map Int.ofNat
      else none

/-- A decimal without a sign, as a mantissa and a power of ten. -/
def decimal? (chars : List Char) : Option (Nat × Int) :=
  let whole := chars.takeWhile Char.isDigit
  let behind := chars.dropWhile Char.isDigit
  let (fraction, tail) :=
    match behind with
    | '.' :: rest => (rest.takeWhile Char.isDigit, rest.dropWhile Char.isDigit)
    | rest => ([], rest)
  match digits? 10 (whole ++ fraction), exponent? tail with
  | some mantissa, some exponent => some (mantissa, exponent - fraction.length)
  | _, _ => none

/-- The characters behind a sign, if there is one, and whether it is a minus sign. -/
def splitSign : List Char → Bool × List Char
  | '-' :: rest => (true, rest)
  | '+' :: rest => (false, rest)
  | chars => (false, chars)

/-- True for digits with a zero in front that does not belong there. -/
def hasNeedlessZero (chars : List Char) : Bool :=
  match chars with
  | '0' :: rest => !rest.isEmpty && rest.all Char.isDigit
  | _ => false

/-- A finite double. What is too great is none. -/
def double? (chars : List Char) : Option (Bool × Text.Double) := do
  let (negative, body) := splitSign chars
  let (mantissa, exponent) ← decimal? body
  return (negative, ← Text.Double.ofDecimal? mantissa exponent)

/-! ## Words -/

/-- A truth value. -/
def truth? (text : String) : Option Bool :=
  if ["true", "True", "TRUE"].contains text then some true
  else if ["false", "False", "FALSE"].contains text then some false
  else none

/-- True for a word for nothing. -/
def isNull (text : String) : Bool :=
  ["~", "null", "Null", "NULL"].contains text

/-- A number that is written as a word. -/
def numberWord? (text : String) : Option Resolved :=
  if [".inf", ".Inf", ".INF", "+.inf", "+.Inf", "+.INF"].contains text then some (.infinite false)
  else if ["-.inf", "-.Inf", "-.INF"].contains text then some (.infinite true)
  else if [".nan", ".NaN", ".NAN"].contains text then some .notANumber
  else none

/-- A double, infinite or not. -/
def float? (text : String) : Option Resolved :=
  (numberWord? text).or ((double? text.toList).map fun (negative, value) => .double negative value)

/-- What a text without a tag stands for. -/
def Resolved.ofText (text : String) : Resolved :=
  if text.isEmpty || isNull text then .nothing
  else
    match truth? text, whole? text.toList, float? text with
    | some value, _, _ => .truth value
    | _, some value, _ => .whole value
    | _, _, some number => if hasNeedlessZero (splitSign text.toList).2 then .text text else number
    | _, _, _ => .text text

namespace Resolved

/-- True for a whole number of sixty-four bits, with or without a sign. -/
def isShort (value : Int) : Bool :=
  -(Int.pow 2 63) ≤ value && value < Int.pow 2 64

/-- What a value is, as a complaint about it says. -/
def describe : Resolved → String
  | nothing => "unit value"
  | truth value => "boolean `" ++ toString value ++ "`"
  | whole value =>
      if isShort value then "integer `" ++ toString value ++ "`"
      else if 0 ≤ value then "integer `" ++ toString value ++ "` as u128"
      else "integer `" ++ toString value ++ "` as i128"
  | double negative value =>
      "floating point `" ++ (if negative then "-" else "") ++ value.positional ++ "`"
  | infinite negative => "floating point `" ++ (if negative then "-inf" else "inf") ++ "`"
  | notANumber => "floating point `NaN`"
  | text value => "string " ++ Text.quoted value

end Resolved

/-! ## Tags -/

/-- The tags with a meaning of their own. -/
inductive KnownTag where
  | bool
  | int
  | float
  | null
  deriving DecidableEq, Repr

namespace KnownTag

/-- The name of a tag. -/
def name : KnownTag → String
  | bool => "tag:yaml.org,2002:bool"
  | int => "tag:yaml.org,2002:int"
  | float => "tag:yaml.org,2002:float"
  | null => "tag:yaml.org,2002:null"

/-- The tag with a name. -/
def ofName? (name : String) : Option KnownTag :=
  [bool, int, float, null].find? (·.name == name)

/-- What a scalar with a tag has to be, as a complaint says. -/
def expected : KnownTag → String
  | bool => "a boolean"
  | int => "an integer"
  | float => "a float"
  | null => "null"

/-- What a text with a tag stands for. -/
def resolve? (text : String) : KnownTag → Option Resolved
  | bool => (truth? text).map .truth
  | int => (whole? text.toList).map .whole
  | float => float? text
  | null => if isNull text then some .nothing else none

end KnownTag

namespace Scalar

/-- What a scalar stands for, or a complaint when it is not what its tag says. -/
def resolve (scalar : Scalar) : Except Json.Fault Resolved :=
  let plain : Resolved :=
    if scalar.style = .plain then .ofText scalar.text else .text scalar.text
  match scalar.tag with
  | none => .ok plain
  | some tag =>
      match KnownTag.ofName? tag with
      | some known =>
          match known.resolve? scalar.text with
          | some value => .ok value
          | none =>
              .error (.wrongValue (Resolved.text scalar.text).describe known.expected)
      | none => .ok (if tag.startsWith "!" then plain else .text scalar.text)

/-- True when the text of a scalar is read as it stands, where values with a tag are
wanted. -/
def isReadable (tag : KnownTag) (scalar : Scalar) : Bool :=
  scalar.style == .plain || (scalar.style == .literal && scalar.tag == some tag.name)

/-- The complaint about a scalar of another kind. -/
def complaint (expected : String) (scalar : Scalar) : Json.Fault :=
  match scalar.resolve with
  | .ok value => .wrongType value.describe expected
  | .error fault => fault

end Scalar

end VersionStore.Yaml
