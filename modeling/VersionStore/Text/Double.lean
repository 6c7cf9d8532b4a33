namespace VersionStore.Text

/-!
# Doubles and decimal text

A finite double is a whole number below `2 ^ 53` times a power of two, but for its
sign. A ratio is rounded to the nearest double, a tie going to the even one. A
double is written with the fewest digits that no other double is nearer to.
-/

/-- The value `mantissa * 2 ^ power`. -/
structure Double where
  mantissa : Nat
  power : Int
  deriving DecidableEq, Repr

/-- The quotient rounded to the nearest whole number, a tie to the even one. -/
def roundDiv (numerator denominator : Nat) : Nat :=
  let quotient := numerator / denominator
  let twice := 2 * (numerator % denominator)
  if twice < denominator then quotient
  else if denominator < twice then quotient + 1
  else quotient + quotient % 2

/-- The two sides of a ratio multiplied so that it is scaled by `base ^ power`. -/
def scaled (base : Nat) (power : Int) (ratio : Nat × Nat) : Nat × Nat :=
  if 0 ≤ power then (ratio.1 * base.pow power.toNat, ratio.2)
  else (ratio.1, ratio.2 * base.pow (-power).toNat)

namespace Double

/-- The least power of two of a double. -/
def leastPower : Int := -1074

/-- The power that brings a ratio between `2 ^ 52` and `2 ^ 53`, or the least. -/
def powerFor (numerator denominator : Nat) : Int :=
  let guess : Int := (numerator.log2 : Int) - denominator.log2 - 52
  let (n, d) := scaled 2 (-guess) (numerator, denominator)
  max leastPower (if n < d * Nat.pow 2 52 then guess - 1 else guess)

/-- The double nearest to a ratio. -/
def ofRatio (numerator denominator : Nat) : Double :=
  let power := powerFor numerator denominator
  let (n, d) := scaled 2 (-power) (numerator, denominator)
  let mantissa := roundDiv n d
  if mantissa = Nat.pow 2 53 then ⟨Nat.pow 2 52, power + 1⟩ else ⟨mantissa, power⟩

/-- The value as a ratio. -/
def ratio (x : Double) : Nat × Nat :=
  scaled 2 x.power (x.mantissa, 1)

/-- Nothing. -/
def zero : Double := ⟨0, leastPower⟩

/-- The greatest power of two of a finite double. -/
def greatestPower : Int := 971

/-- A double unless it is too great. -/
def finite? (x : Double) : Option Double :=
  if x.power ≤ greatestPower then some x else none

/-- The double nearest to `mantissa * 10 ^ exponent`, unless that is too great. What is
far too great or too small is not worked out. -/
def ofDecimal? (mantissa : Nat) (exponent : Int) : Option Double :=
  let digits : Int := (toString mantissa).length
  if mantissa = 0 ∨ digits + exponent < -330 then some zero
  else if 310 < digits + exponent then none
  else
    let (n, d) := scaled 10 exponent (mantissa, 1)
    (ofRatio n d).finite?

/-- The double nearest to a product, unless that is too great. -/
def mul? (x y : Double) : Option Double :=
  let (n, d) := scaled 2 (x.power + y.power) (x.mantissa * y.mantissa, 1)
  (ofRatio n d).finite?

/-- The double nearest to a quotient. -/
def div (x y : Double) : Double :=
  let (n, d) := scaled 2 (x.power - y.power) (x.mantissa, y.mantissa)
  ofRatio n d

/-- The ends of the interval of values that round to a double, as ratios. -/
def ends (x : Double) : (Nat × Nat) × (Nat × Nat) :=
  let below :=
    if x.mantissa = Nat.pow 2 52 && x.power != leastPower then
      scaled 2 (x.power - 2) (4 * x.mantissa - 1, 1)
    else scaled 2 (x.power - 1) (2 * x.mantissa - 1, 1)
  (below, scaled 2 (x.power - 1) (2 * x.mantissa + 1, 1))

/-- True when the ratio `value` rounds to a double. -/
def admits (x : Double) (value : Nat × Nat) : Bool :=
  let (low, high) := x.ends
  let left := low.1 * value.2
  let mid := value.1 * low.2
  let here := value.1 * high.2
  let right := high.1 * value.2
  if x.mantissa % 2 = 0 then left ≤ mid && here ≤ right else left < mid && here < right

/-- The number of decimal digits before the point, negative for zeros behind it. -/
def magnitude (ratio : Nat × Nat) : Int :=
  let guess : Int := (toString ratio.1).length - (toString ratio.2).length
  let (n, d) := scaled 10 (-guess) ratio
  if n < d then guess else guess + 1

/-- The digits and the power of ten of the shortest decimal, tried from `count`
digits on. -/
def shortestFrom (x : Double) (count : Nat) : Nat → Nat × Int
  | 0 => (0, 0)
  | tries + 1 =>
      let power := magnitude x.ratio - count
      let (n, d) := scaled 10 (-power) x.ratio
      let near := roundDiv n d
      let other := if near * d ≤ n then near + 1 else near - 1
      if x.admits (scaled 10 power (near, 1)) then (near, power)
      else if x.admits (scaled 10 power (other, 1)) then (other, power)
      else x.shortestFrom (count + 1) tries

/-- A decimal with at most `count` zeros at its end left out. -/
def trimZeros : Nat → Nat × Int → Nat × Int
  | 0, decimal => decimal
  | count + 1, (digits, power) =>
      if digits % 10 = 0 then trimZeros count (digits / 10, power + 1) else (digits, power)

/-- The digits and the power of ten of the shortest decimal. -/
def shortest (x : Double) : Nat × Int :=
  if x.mantissa = 0 then (0, 0) else trimZeros 20 (x.shortestFrom 1 20)

/-- A whole number of tenths to the `places`, with a decimal point. -/
def pointed (digits : Nat) (places : Nat) : String :=
  let text := toString digits
  let padded := "".pushn '0' (places + 1 - text.length) ++ text
  let whole := padded.toList.take (padded.length - places)
  let fraction := padded.toList.drop (padded.length - places)
  String.ofList (whole ++ '.' :: fraction)

/-- The shortest positional text, with at least one decimal place. -/
def positional (x : Double) : String :=
  let (digits, power) := x.shortest
  if 0 ≤ power then toString (digits * Nat.pow 10 power.toNat) ++ ".0"
  else pointed digits (-power).toNat

/-- The shortest text with a power of ten, whose sign is written. -/
def scientific (x : Double) : String :=
  let (digits, power) := x.shortest
  let text := toString digits
  let exponent := (text.length : Int) - 1 + power
  let places := text.length - 1
  (if places = 0 then text else pointed digits places) ++
    "e" ++ (if 0 ≤ exponent then "+" else "") ++ toString exponent

/-- The shortest text: positional where the first digit stands for a power of ten from
`-5` to `15`, and with a power of ten elsewhere. -/
def compact (x : Double) : String :=
  let (digits, power) := x.shortest
  let exponent := ((toString digits).length : Int) - 1 + power
  if -5 ≤ exponent ∧ exponent ≤ 15 then x.positional else x.scientific

end Double

end VersionStore.Text
