namespace VersionStore.Sha256

/-!
# SHA-256

A running digest takes its message one byte at a time: bytes gather in a block,
and every full block is compressed into the chaining state. Feeding a message in
pieces therefore is the same as feeding it at once (`update_append`).
-/

/-- The eight words of the chaining state. -/
structure Words where
  a : UInt32
  b : UInt32
  c : UInt32
  d : UInt32
  e : UInt32
  f : UInt32
  g : UInt32
  h : UInt32
  deriving DecidableEq, Inhabited

/-- The chaining state before any block. -/
def Words.start : Words where
  a := 0x6a09e667
  b := 0xbb67ae85
  c := 0x3c6ef372
  d := 0xa54ff53a
  e := 0x510e527f
  f := 0x9b05688c
  g := 0x1f83d9ab
  h := 0x5be0cd19

/-- One constant for each of the sixty-four rounds. -/
def roundConstants : Array UInt32 := #[
  0x428a2f98, 0x71374491, 0xb5c0fbcf, 0xe9b5dba5, 0x3956c25b, 0x59f111f1, 0x923f82a4, 0xab1c5ed5,
  0xd807aa98, 0x12835b01, 0x243185be, 0x550c7dc3, 0x72be5d74, 0x80deb1fe, 0x9bdc06a7, 0xc19bf174,
  0xe49b69c1, 0xefbe4786, 0x0fc19dc6, 0x240ca1cc, 0x2de92c6f, 0x4a7484aa, 0x5cb0a9dc, 0x76f988da,
  0x983e5152, 0xa831c66d, 0xb00327c8, 0xbf597fc7, 0xc6e00bf3, 0xd5a79147, 0x06ca6351, 0x14292967,
  0x27b70a85, 0x2e1b2138, 0x4d2c6dfc, 0x53380d13, 0x650a7354, 0x766a0abb, 0x81c2c92e, 0x92722c85,
  0xa2bfe8a1, 0xa81a664b, 0xc24b8b70, 0xc76c51a3, 0xd192e819, 0xd6990624, 0xf40e3585, 0x106aa070,
  0x19a4c116, 0x1e376c08, 0x2748774c, 0x34b0bcb5, 0x391c0cb3, 0x4ed8aa4a, 0x5b9cca4f, 0x682e6ff3,
  0x748f82ee, 0x78a5636f, 0x84c87814, 0x8cc70208, 0x90befffa, 0xa4506ceb, 0xbef9a3f7, 0xc67178f2]

/-- Rotate a word to the right. -/
@[inline] def rotate (word amount : UInt32) : UInt32 :=
  (word >>> amount) ||| (word <<< (32 - amount))

/-- The big-endian word at `position` of a block. -/
@[inline] def wordAt (block : ByteArray) (position : Nat) : UInt32 :=
  ((block.get! position).toUInt32 <<< 24) |||
    ((block.get! (position + 1)).toUInt32 <<< 16) |||
    ((block.get! (position + 2)).toUInt32 <<< 8) |||
    (block.get! (position + 3)).toUInt32

/-- The first `count` input words of a block. -/
def inputWords (block : ByteArray) : Nat → Array UInt32
  | 0 => Array.emptyWithCapacity 64
  | count + 1 => (inputWords block count).push (wordAt block (4 * count))

/-- The next word of a message schedule. -/
@[inline] def nextWord (schedule : Array UInt32) : UInt32 :=
  let t := schedule.size
  let x := schedule.getD (t - 15) 0
  let y := schedule.getD (t - 2) 0
  let s0 := rotate x 7 ^^^ rotate x 18 ^^^ (x >>> 3)
  let s1 := rotate y 17 ^^^ rotate y 19 ^^^ (y >>> 10)
  schedule.getD (t - 16) 0 + s0 + schedule.getD (t - 7) 0 + s1

/-- Extend a message schedule by `count` words. -/
def extendSchedule (schedule : Array UInt32) : Nat → Array UInt32
  | 0 => schedule
  | count + 1 => extendSchedule (schedule.push (nextWord schedule)) count

/-- The sixty-four words that the rounds over a block use. -/
def schedule (block : ByteArray) : Array UInt32 :=
  extendSchedule (inputWords block 16) 48

/-- Run `count` rounds, the first of them numbered `64 - count`. -/
def rounds
    (words : Array UInt32)
    (count : Nat)
    (a b c d e f g h : UInt32) :
    Words :=
  match count with
  | 0 => { a, b, c, d, e, f, g, h }
  | rest + 1 =>
      let t := 63 - rest
      let s1 := rotate e 6 ^^^ rotate e 11 ^^^ rotate e 25
      let choice := (e &&& f) ^^^ ((~~~ e) &&& g)
      let t1 := h + s1 + choice + roundConstants.getD t 0 + words.getD t 0
      let s0 := rotate a 2 ^^^ rotate a 13 ^^^ rotate a 22
      let majority := (a &&& b) ^^^ (a &&& c) ^^^ (b &&& c)
      rounds words rest (t1 + s0 + majority) a b c (d + t1) e f g

/-- Mix one full block into the chaining state. -/
def compress (state : Words) (block : ByteArray) : Words :=
  let mixed := rounds (schedule block) 64
    state.a state.b state.c state.d state.e state.f state.g state.h
  { a := state.a + mixed.a
    b := state.b + mixed.b
    c := state.c + mixed.c
    d := state.d + mixed.d
    e := state.e + mixed.e
    f := state.f + mixed.f
    g := state.g + mixed.g
    h := state.h + mixed.h }

/-- A digest under way: the compressed blocks, the bytes of the block that is
not full yet, and the number of bytes taken so far. -/
structure Digest where
  state : Words := Words.start
  block : ByteArray := .empty
  length : Nat := 0
  deriving Inhabited

/-- The digest of no bytes yet. -/
def Digest.empty : Digest := {}

/-- Take one more byte. -/
def Digest.push : Digest → UInt8 → Digest
  | ⟨state, block, length⟩, byte =>
      let block := block.push byte
      if block.size = 64 then
        ⟨compress state block, ByteArray.emptyWithCapacity 64, length + 1⟩
      else
        ⟨state, block, length + 1⟩

/-- Take the bytes of `data` from position `i` on. -/
def Digest.updateFrom
    (data : ByteArray)
    (i : Nat)
    (digest : Digest) :
    Digest :=
  if h : i < data.size then
    updateFrom data (i + 1) (digest.push data[i])
  else
    digest
termination_by data.size - i

/-- Take every byte of `data` in order. -/
def Digest.update (digest : Digest) (data : ByteArray) : Digest :=
  digest.updateFrom data 0

/-- Take `count` zero bytes. -/
def Digest.pushZeros (digest : Digest) : Nat → Digest
  | 0 => digest
  | count + 1 => (digest.push 0).pushZeros count

/-- The bytes of a word, the highest first. -/
def bytesOfWord (word : UInt32) : List UInt8 :=
  [(word >>> 24).toUInt8, (word >>> 16).toUInt8, (word >>> 8).toUInt8, word.toUInt8]

/-- The bytes of a 64-bit number, the highest first. -/
def bytesOfLength (bits : UInt64) : List UInt8 :=
  [56, 48, 40, 32, 24, 16, 8, 0].map fun (shift : UInt64) => (bits >>> shift).toUInt8

/-- The thirty-two bytes of a chaining state. -/
def Words.toBytes (words : Words) : List UInt8 :=
  [words.a, words.b, words.c, words.d, words.e, words.f, words.g, words.h].flatMap bytesOfWord

/-- Every chaining state has thirty-two bytes. -/
theorem Words.length_toBytes (words : Words) : words.toBytes.length = 32 := rfl

/-- Zeros after the closing bit that leave room for the length in the last block. -/
def paddingZeros (length : Nat) : Nat :=
  (119 - length % 64) % 64

/-- Close the message with its padding and give the final state. -/
def Digest.finish (digest : Digest) : Words :=
  let padded := (digest.push 0x80).pushZeros (paddingZeros digest.length)
  ((bytesOfLength (UInt64.ofNat (digest.length * 8))).foldl Digest.push padded).state

/-- The SHA-256 state of a whole message. -/
def hash (data : ByteArray) : Words :=
  (Digest.empty.update data).finish

/-- Taking bytes from a position on is a fold over the bytes that are left. -/
theorem Digest.updateFrom_eq_foldl
    (data : ByteArray)
    (i : Nat)
    (digest : Digest) :
    digest.updateFrom data i = (data.data.toList.drop i).foldl Digest.push digest := by
  induction hn : data.size - i generalizing i digest with
  | zero =>
      have past : ¬ i < data.size := by omega
      rw [Digest.updateFrom, dif_neg past]
      have short : data.data.toList.length ≤ i := by
        have : data.data.toList.length = data.size := rfl
        omega
      rw [List.drop_eq_nil_of_le short]
      rfl
  | succ n ih =>
      have within : i < data.size := by omega
      rw [Digest.updateFrom, dif_pos within, ih (i + 1) _ (by omega)]
      have within' : i < data.data.toList.length := within
      rw [List.drop_eq_getElem_cons within', List.foldl_cons]
      rfl

/-- Taking a byte string is a fold over its bytes. -/
theorem Digest.update_eq_foldl (digest : Digest) (data : ByteArray) :
    digest.update data = data.data.toList.foldl Digest.push digest := by
  rw [Digest.update, Digest.updateFrom_eq_foldl, List.drop_zero]

/-- Taking two byte strings in turn is taking their concatenation. -/
theorem Digest.update_append (digest : Digest) (first second : ByteArray) :
    digest.update (first ++ second) = (digest.update first).update second := by
  simp only [Digest.update_eq_foldl, ByteArray.data_append, Array.toList_append,
    List.foldl_append]

/-- Taking no bytes changes nothing. -/
@[simp] theorem Digest.update_empty (digest : Digest) :
    digest.update ByteArray.empty = digest := by
  rw [Digest.update_eq_foldl]
  rfl

end VersionStore.Sha256
