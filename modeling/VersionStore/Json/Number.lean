import VersionStore.Json.Basic

namespace VersionStore.Json

/-!
# Numbers in text

A number without a point and a power of ten is an integer if it fits sixty-four
bits, with or without a sign. Any other number is a double, worked out from the
digits that fit sixty-four bits: as a double they are multiplied or divided by a
power of ten, which is a double too, so the result may be off in its last place.
-/

/-- The number that digits make up as far as it fits sixty-four bits, and the digits
that are left. -/
def takeDigits (value : Nat) : List Char → Nat × List Char
  | [] => (value, [])
  | c :: rest =>
      let more := value * 10 + (c.toNat - 48)
      if more < Nat.pow 2 64 then takeDigits more rest else (value, c :: rest)

/-- The greatest power of ten that is a double. -/
def greatestTen : Nat := 308

/-- A power of ten as a double. -/
def ten (exponent : Nat) : Text.Double :=
  .ofRatio (Nat.pow 10 exponent) 1

/-- A double over powers of ten as great as can be, until a power is left that a
double can be multiplied with, or nothing is left of it. -/
def shrink (fuel : Nat) (value : Text.Double) (exponent : Int) : Text.Double × Int :=
  match fuel with
  | 0 => (.zero, 0)
  | fuel + 1 =>
      if value.mantissa = 0 then (.zero, 0)
      else if exponent < -(greatestTen : Int) then
        shrink fuel (value.div (ten greatestTen)) (exponent + greatestTen)
      else (value, exponent)

/-- A double times a power of ten, unless that is too great. -/
def scale? (value : Text.Double) (exponent : Int) : Option Text.Double :=
  if value.mantissa = 0 then some .zero
  else if (greatestTen : Int) < exponent then none
  else
    let (value, exponent) := shrink 4 value exponent
    if 0 ≤ exponent then value.mul? (ten exponent.toNat)
    else some (value.div (ten (-exponent).toNat))

/-- The number with some digits before and behind the point. -/
def double? (negative : Bool) (whole fraction : List Char) (exponent : Int) : Option Json :=
  let (value, beyond) := takeDigits 0 whole
  let (value, unread) := takeDigits value fraction
  let places : Int := fraction.length - unread.length
  (scale? (.ofRatio value 1) (beyond.length - places + exponent)).map (float negative)

/-- The number with some digits and no point. -/
def integer? (negative : Bool) (digits : List Char) : Option Json :=
  match takeDigits 0 digits with
  | (value, []) =>
      if !negative then some (int value)
      else if 0 < value ∧ value ≤ Nat.pow 2 63 then some (int (-(value : Int)))
      else double? true digits [] 0
  | _ => double? negative digits [] 0

/-- The power of ten behind its mark, and what is left. -/
def exponent? (chars : List Char) : Option (Int × List Char) :=
  let (negative, chars) :=
    match chars with
    | '-' :: rest => (true, rest)
    | '+' :: rest => (false, rest)
    | rest => (false, rest)
  let digits := chars.takeWhile Char.isDigit
  let value := digits.foldl (fun (value : Nat) c => value * 10 + (c.toNat - 48)) 0
  if digits.isEmpty then none
  else some (if negative then -(value : Int) else value, chars.dropWhile Char.isDigit)

/-- A number, and what is left behind it. -/
def number? (chars : List Char) : Option (Json × List Char) := do
  let (negative, chars) :=
    match chars with
    | '-' :: rest => (true, rest)
    | rest => (false, rest)
  let whole := chars.takeWhile Char.isDigit
  let behind := chars.dropWhile Char.isDigit
  if whole.isEmpty || (whole.head? == some '0' && whole.length != 1) then none
  else
    let (fraction, tail) :=
      match behind with
      | '.' :: rest => (some (rest.takeWhile Char.isDigit), rest.dropWhile Char.isDigit)
      | rest => (none, rest)
    if fraction == some [] then none
    else
      match tail with
      | mark :: rest =>
          if mark == 'e' || mark == 'E' then
            let (exponent, rest) ← exponent? rest
            return (← double? negative whole (fraction.getD []) exponent, rest)
      | [] => pure ()
      match fraction with
      | some fraction => return (← double? negative whole fraction 0, tail)
      | none => return (← integer? negative whole, tail)

end VersionStore.Json
