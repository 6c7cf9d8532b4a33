namespace VersionStore.Hex

/-!
# Hexadecimal text

Bytes are written as two lower-case digits each, the high half first. Reading
accepts digits of either case. A text of odd length is refused before any digit
is looked at; otherwise the first byte that is no digit is reported together
with its position, counted in bytes.
-/

/-- The digit for a value below sixteen. -/
def digit (value : Nat) : Char :=
  if value < 10 then Char.ofNat (48 + value) else Char.ofNat (87 + value)

/-- The two digits of one byte. -/
def ofByte (byte : UInt8) : List Char :=
  [digit (byte.toNat / 16), digit (byte.toNat % 16)]

/-- The digits of a list of bytes. -/
def ofBytes (bytes : List UInt8) : List Char :=
  bytes.flatMap ofByte

/-- The written form of a byte string. -/
def encode (bytes : ByteArray) : String :=
  String.ofList (ofBytes bytes.toList)

/-- Why a text is no written form of bytes. -/
inductive Fault where
  | oddLength
  | badDigit (byte : UInt8) (position : Nat)
  deriving DecidableEq, Repr

/-- The value of one digit of either case. -/
def value? (byte : UInt8) : Option UInt8 :=
  if 48 ≤ byte ∧ byte ≤ 57 then some (byte - 48)
  else if 97 ≤ byte ∧ byte ≤ 102 then some (byte - 87)
  else if 65 ≤ byte ∧ byte ≤ 70 then some (byte - 55)
  else none

/-- Read pairs of digits, `position` being the place of the first of them. -/
def decodeFrom (position : Nat) : List UInt8 → Except Fault (List UInt8)
  | [] => .ok []
  | [_] => .error .oddLength
  | high :: low :: rest =>
      match value? high, value? low with
      | some h, some l => (decodeFrom (position + 2) rest).map ((h * 16 + l) :: ·)
      | none, _ => .error (.badDigit high position)
      | some _, none => .error (.badDigit low (position + 1))

/-- Read the bytes that a text stands for. -/
def decode (text : String) : Except Fault ByteArray :=
  let digits := text.toUTF8.toList
  if digits.length % 2 = 1 then .error .oddLength
  else (decodeFrom 0 digits).map List.toByteArray

end VersionStore.Hex
