import VersionStore.Bytes.Hex
import VersionStore.Bytes.Sha256

namespace VersionStore

/-!
# Checksums

A checksum is the SHA-256 of a file's whole byte stream, thirty-two bytes long
by its type. A checksum is finished from a running digest, taken of a byte
string at once, or read back from a stored column.
-/

/-- Byte strings are equal if their bytes are. -/
instance instDecidableEqBytes : DecidableEq ByteArray :=
  ByteArray.decEq

/-- Thirty-two bytes that identify a byte stream. -/
structure Checksum where
  bytes : ByteArray
  size_eq : bytes.size = 32
  deriving DecidableEq

namespace Checksum

/-- The checksum held in a column, when it has the right width. -/
def ofBytes? (bytes : ByteArray) : Option Checksum :=
  if h : bytes.size = 32 then some ⟨bytes, h⟩ else none

/-- The checksum that a running digest comes to. -/
def finish (digest : Sha256.Digest) : Checksum where
  bytes := digest.finish.toBytes.toByteArray
  size_eq := by
    rw [List.size_toByteArray, Sha256.Words.length_toBytes]

/-- The checksum of a byte string. -/
def ofData (data : ByteArray) : Checksum :=
  finish (Sha256.Digest.empty.update data)

/-- Lower-case hexadecimal digits. -/
def toHex (checksum : Checksum) : String :=
  Hex.encode checksum.bytes

instance : Inhabited Checksum := ⟨ofData .empty⟩

/-- A checksum is read back from its own bytes. -/
@[simp] theorem ofBytes?_bytes (checksum : Checksum) :
    ofBytes? checksum.bytes = some checksum := by
  rw [ofBytes?, dif_pos checksum.size_eq]

end Checksum

end VersionStore
