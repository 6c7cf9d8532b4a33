namespace VersionStore

/-!
# Layouts

How values are laid out as bytes, one behind the other. A number takes eight bytes,
the lowest first; bytes and lists begin with their length. A layout is made from
smaller ones, so that writing and reading follow one description.
-/

/-- How the values of a type are written behind some bytes, and how one is read at a
place in them, together with the place behind it. -/
structure Layout (α : Type) where
  write : α → ByteArray → ByteArray
  read : ByteArray → Nat → Option (α × Nat)

namespace Layout

/-- Write the lowest bytes of a number. -/
def putLowest : Nat → Nat → ByteArray → ByteArray
  | 0, _, written => written
  | count + 1, value, written =>
      putLowest count (value / 256) (written.push (UInt8.ofNat (value % 256)))

/-- Read a number of some bytes at a place. -/
def takeLowest : Nat → ByteArray → Nat → Option Nat
  | 0, _, _ => some 0
  | count + 1, data, place =>
      if _inside : place < data.size then
        (takeLowest count data (place + 1)).map fun high => data[place].toNat + 256 * high
      else none

/-- A number of sixty-four bits without a sign. -/
def natural : Layout Nat where
  write := putLowest 8
  read data place := (takeLowest 8 data place).map fun value => (value, place + 8)

/-- The values of a type that stand for values of another. -/
def through (back : β → α) (there : α → Option β) (layout : Layout α) : Layout β where
  write value := layout.write (back value)
  read data place := do
    let (read, next) ← layout.read data place
    return (← there read, next)

/-- One value behind another. -/
def both (first : Layout α) (second : Layout β) : Layout (α × β) where
  write value written := second.write value.2 (first.write value.1 written)
  read data place := do
    let (one, middle) ← first.read data place
    let (other, next) ← second.read data middle
    return ((one, other), next)

/-- Read a number of values one behind the other. -/
def takeEach (layout : Layout α) (data : ByteArray) : Nat → Nat → Option (List α × Nat)
  | 0, place => some ([], place)
  | count + 1, place => do
      let (value, next) ← layout.read data place
      let (rest, final) ← takeEach layout data count next
      return (value :: rest, final)

/-- A list of values. -/
def list (layout : Layout α) : Layout (List α) where
  write values written :=
    values.foldl (fun (done : ByteArray) value => layout.write value done)
      (natural.write values.length written)
  read data place := do
    let (count, next) ← natural.read data place
    takeEach layout data count next

/-- A value that may be missing. -/
def optional (layout : Layout α) : Layout (Option α) :=
  (list layout).through Option.toList fun values => some values.head?

/-- A number of sixty-four bits with a sign. -/
def integer : Layout Int :=
  natural.through (fun value => (value % Int.pow 2 64).toNat) fun value =>
    some (if value < Nat.pow 2 63 then (value : Int) else value - Int.pow 2 64)

/-- A truth value. -/
def truth : Layout Bool :=
  natural.through Bool.toNat fun value => some (value != 0)

/-- Bytes. -/
def bytes : Layout ByteArray where
  write data written := natural.write data.size written ++ data
  read data place := do
    let (size, start) ← natural.read data place
    if start + size ≤ data.size then return (data.extract start (start + size), start + size)
    else none

/-- A text. -/
def text : Layout String :=
  bytes.through String.toUTF8 String.fromUTF8?

end Layout

end VersionStore
