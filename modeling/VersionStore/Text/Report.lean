import VersionStore.Entry
import VersionStore.Text.Double

namespace VersionStore.Text

/-!
# Sizes, times and listing lines

A size is written in bytes, kilobytes or megabytes with one decimal; what is
rounded is the nearest double of the size, and a tie goes to the even tenth. A
time is written as a date and a time of day, years beyond four digits with a
sign. A time beyond the range of dates is written as its number.
-/

/-! ## Sizes -/

/-- A size over a unit, to one decimal. -/
def sizeIn (size unit : Nat) : String :=
  let (numerator, denominator) := (Double.ofRatio size 1).ratio
  Double.pointed (roundDiv (numerator * 10) (denominator * unit)) 1

/-- A size with its unit. -/
def fileSize (size : Int) : String :=
  if size ≥ 1024 * 1024 then sizeIn size.toNat (1024 * 1024) ++ "MB"
  else if size ≥ 1024 then sizeIn size.toNat 1024 ++ "KB"
  else toString size ++ "B"

/-! ## Times -/

/-- A text of at least `width` characters, filled up on the left. -/
def padLeft (fill : Char) (width : Nat) (text : String) : String :=
  "".pushn fill (width - text.length) ++ text

/-- A number of two digits. -/
def twoDigits (value : Nat) : String :=
  padLeft '0' 2 (toString value)

/-- A day of some year, counted with the years that begin in March. -/
structure CivilDate where
  year : Int
  month : Nat
  day : Nat
  deriving DecidableEq, Repr

/-- The date that lies `days` days after the first day of 1970. Days are counted
in eras of four hundred years from the first of March of the year 0. -/
def CivilDate.ofDays (days : Int) : CivilDate :=
  let shifted := days + 719468
  let era := shifted / 146097
  let dayOfEra := (shifted % 146097).toNat
  let yearOfEra := (dayOfEra - dayOfEra / 1460 + dayOfEra / 36524 - dayOfEra / 146096) / 365
  let dayOfYear := dayOfEra - (365 * yearOfEra + yearOfEra / 4 - yearOfEra / 100)
  let monthFromMarch := (5 * dayOfYear + 2) / 153
  let day := dayOfYear - (153 * monthFromMarch + 2) / 5 + 1
  let month := if monthFromMarch < 10 then monthFromMarch + 3 else monthFromMarch - 9
  let year := yearOfEra + era * 400
  ⟨if month ≤ 2 then year + 1 else year, month, day⟩

/-- A year: four digits, or a sign and at least four. -/
def yearText (year : Int) : String :=
  let digits := padLeft '0' 4 (toString year.natAbs)
  if 0 ≤ year ∧ year ≤ 9999 then digits
  else (if year < 0 then "-" else "+") ++ digits

/-- The first and the last millisecond of the range of dates. -/
def timeRange : Int × Int :=
  (-8334601228800000, 8210266876799999)

/-- True for a time in milliseconds that has a date. -/
def hasDate (milliseconds : Int) : Bool :=
  timeRange.1 ≤ milliseconds && milliseconds ≤ timeRange.2

/-- A time in milliseconds as date and time of day. -/
def timestamp (milliseconds : Int) : String :=
  if hasDate milliseconds then
    let seconds := milliseconds / 1000
    let date := CivilDate.ofDays (seconds / 86400)
    let second := (seconds % 86400).toNat
    yearText date.year ++ "-" ++ twoDigits date.month ++ "-" ++ twoDigits date.day ++ " " ++
      twoDigits (second / 3600) ++ ":" ++ twoDigits (second / 60 % 60) ++ ":" ++
      twoDigits (second % 60)
  else toString milliseconds

/-! ## Listing lines -/

/-- One line of a directory listing. -/
def entryLine (entry : Entry) : String :=
  let size := if entry.isDirectory then "" else fileSize entry.length
  (if entry.isDirectory then "d" else "-") ++ entry.permissions ++ " " ++
    padLeft ' ' 9 size ++ " " ++ timestamp entry.lastModified ++ " " ++
    entry.name ++ (if entry.isDirectory then "/" else "")

/-- One line of a trash listing. -/
def trashLine (trashed : TrashEntry) : String :=
  let entry := trashed.entry
  let size := if entry.isDirectory then "dir" else fileSize entry.length
  padLeft ' ' 6 (toString entry.id) ++ " " ++ timestamp entry.lastDeleted ++ " " ++
    padLeft ' ' 9 size ++ " /" ++ trashed.path

end VersionStore.Text
