namespace VersionStore.Utf8

/-!
# UTF-8 text

Bytes are read as text when they are well formed. Otherwise the fault says where
the first character begins that is not, and how many of its bytes could have
begun a character, or that the bytes end in the middle of it.
-/

/-- Why bytes are not well formed. -/
inductive Fault where
  /-- The bytes from `index` on begin no character; `count` of them are at fault. -/
  | invalid (index count : Nat)
  /-- The bytes end within the character that begins at `index`. -/
  | incomplete (index : Nat)
  deriving DecidableEq, Repr

namespace Fault

/-- The wording of a fault. -/
def message : Fault → String
  | invalid index count =>
      "invalid utf-8 sequence of " ++ toString count ++ " bytes from index " ++ toString index
  | incomplete index => "incomplete utf-8 byte sequence from index " ++ toString index

end Fault

/-- The bytes that have to follow: how many, and the range of the next one. -/
structure Tail where
  left : Nat
  least : UInt8
  greatest : UInt8
  deriving DecidableEq, Repr

/-- What has to follow a first byte. Overlong forms, surrogates and numbers beyond
the last character are ruled out by the range of the second byte. -/
def tail? (first : UInt8) : Option Tail :=
  if first < 0x80 then some ⟨0, 0x80, 0xBF⟩
  else if first < 0xC2 then none
  else if first < 0xE0 then some ⟨1, 0x80, 0xBF⟩
  else if first = 0xE0 then some ⟨2, 0xA0, 0xBF⟩
  else if first = 0xED then some ⟨2, 0x80, 0x9F⟩
  else if first < 0xF0 then some ⟨2, 0x80, 0xBF⟩
  else if first = 0xF0 then some ⟨3, 0x90, 0xBF⟩
  else if first < 0xF4 then some ⟨3, 0x80, 0xBF⟩
  else if first = 0xF4 then some ⟨3, 0x80, 0x8F⟩
  else none

/-- The first fault from a position on, within a character that began at `start`
when `tail` still asks for bytes. -/
def faultFrom? (start position : Nat) (tail : Tail) : List UInt8 → Option Fault
  | [] => if tail.left = 0 then none else some (.incomplete start)
  | byte :: rest =>
      if tail.left = 0 then
        match tail? byte with
        | some next => faultFrom? position (position + 1) next rest
        | none => some (.invalid position 1)
      else if tail.least ≤ byte ∧ byte ≤ tail.greatest then
        faultFrom? start (position + 1) ⟨tail.left - 1, 0x80, 0xBF⟩ rest
      else some (.invalid start (position - start))

/-- The first fault of some bytes. -/
def fault? (bytes : List UInt8) : Option Fault :=
  faultFrom? 0 0 ⟨0, 0x80, 0xBF⟩ bytes

/-- Read bytes as text. -/
def decode (data : ByteArray) : Except Fault String :=
  match String.fromUTF8? data with
  | some text => .ok text
  | none => .error ((fault? data.toList).getD (.incomplete data.size))

end VersionStore.Utf8
