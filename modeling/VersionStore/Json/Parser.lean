import VersionStore.Json.Number

namespace VersionStore.Json

/-!
# Reading data values from text

The fields of an object are put in the order of their names; of two with one name
the later one stands.
-/

/-- Fields in order with one more, which replaces one with the same name. -/
def insertField (name : String) (value : Json) : List (String × Json) → List (String × Json)
  | [] => [(name, value)]
  | (other, kept) :: rest =>
      if name = other then (name, value) :: rest
      else if name < other then (name, value) :: (other, kept) :: rest
      else (other, kept) :: insertField name value rest

/-- The value of a hexadecimal digit. -/
def hexDigit? (c : Char) : Option Nat :=
  if c.isDigit then some (c.toNat - 48)
  else if 'a' ≤ c ∧ c ≤ 'f' then some (c.toNat - 87)
  else if 'A' ≤ c ∧ c ≤ 'F' then some (c.toNat - 55)
  else none

/-- The number that four hexadecimal digits make up. -/
def unit? (a b c d : Char) : Option Nat := do
  let high := 16 * (← hexDigit? a) + (← hexDigit? b)
  return 256 * high + 16 * (← hexDigit? c) + (← hexDigit? d)

/-- The character of a one-letter escape. -/
def escaped? (c : Char) : Option Char :=
  match c with
  | '"' => some '"'
  | '\\' => some '\\'
  | '/' => some '/'
  | 'b' => some '\x08'
  | 'f' => some '\x0c'
  | 'n' => some '\n'
  | 'r' => some '\r'
  | 't' => some '\t'
  | _ => none

/-- The character that two halves make up. -/
def joined? (high low : Nat) : Option Char :=
  if 0xD800 ≤ high ∧ high < 0xDC00 ∧ 0xDC00 ≤ low ∧ low < 0xE000 then
    some (Char.ofNat (0x10000 + 0x400 * (high - 0xD800) + (low - 0xDC00)))
  else none

/-- The rest of a string, of which `text` was read in reverse, and what is left behind
it. -/
def stringFrom? (text : List Char) : List Char → Option (String × List Char)
  | '"' :: rest => some (String.ofList text.reverse, rest)
  | '\\' :: 'u' :: a :: b :: c :: d :: rest =>
      match unit? a b c d with
      | none => none
      | some number =>
          if number.isValidChar then stringFrom? (Char.ofNat number :: text) rest
          else
            match rest with
            | '\\' :: 'u' :: e :: f :: g :: h :: rest =>
                match (unit? e f g h).bind (joined? number) with
                | some whole => stringFrom? (whole :: text) rest
                | none => none
            | _ => none
  | '\\' :: c :: rest =>
      match escaped? c with
      | some plain => stringFrom? (plain :: text) rest
      | none => none
  | c :: rest => if c.toNat < 32 then none else stringFrom? (c :: text) rest
  | [] => none

/-- What is left behind blanks. -/
def skipBlanks (chars : List Char) : List Char :=
  chars.dropWhile fun c => c == ' ' || c == '\t' || c == '\n' || c == '\r'

mutual

/-- A value, and what is left behind it. -/
def valueFrom? (fuel : Nat) (chars : List Char) : Option (Json × List Char) :=
  match fuel with
  | 0 => none
  | fuel + 1 =>
      match skipBlanks chars with
      | 'n' :: 'u' :: 'l' :: 'l' :: rest => some (null, rest)
      | 't' :: 'r' :: 'u' :: 'e' :: rest => some (bool true, rest)
      | 'f' :: 'a' :: 'l' :: 's' :: 'e' :: rest => some (bool false, rest)
      | '"' :: rest => (stringFrom? [] rest).map fun (text, rest) => (str text, rest)
      | '[' :: rest =>
          match skipBlanks rest with
          | ']' :: rest => some (arr [], rest)
          | rest => itemsFrom? fuel [] rest
      | '\x7b' :: rest =>
          match skipBlanks rest with
          | '\x7d' :: rest => some (obj [], rest)
          | rest => fieldsFrom? fuel [] rest
      | chars => number? chars

/-- The rest of a list, of which `items` were read in reverse. -/
def itemsFrom? (fuel : Nat) (items : List Json) (chars : List Char) :
    Option (Json × List Char) := do
  match fuel with
  | 0 => none
  | fuel + 1 =>
      let (item, rest) ← valueFrom? fuel chars
      match skipBlanks rest with
      | ',' :: rest => itemsFrom? fuel (item :: items) rest
      | ']' :: rest => return (arr (item :: items).reverse, rest)
      | _ => none

/-- The rest of an object, of which `fields` were read. -/
def fieldsFrom? (fuel : Nat) (fields : List (String × Json)) (chars : List Char) :
    Option (Json × List Char) := do
  match fuel with
  | 0 => none
  | fuel + 1 =>
      match skipBlanks chars with
      | '"' :: rest =>
          let (name, rest) ← stringFrom? [] rest
          match skipBlanks rest with
          | ':' :: rest =>
              let (value, rest) ← valueFrom? fuel rest
              match skipBlanks rest with
              | ',' :: rest => fieldsFrom? fuel (insertField name value fields) rest
              | '\x7d' :: rest => return (obj (insertField name value fields), rest)
              | _ => none
          | _ => none
      | _ => none

end

/-- Read a text that holds one value. Each call passes a character or is made by one
that does. -/
def parse? (text : String) : Option Json := do
  let (value, rest) ← valueFrom? (2 * text.length + 2) text.toList
  if (skipBlanks rest).isEmpty then some value else none

end VersionStore.Json
