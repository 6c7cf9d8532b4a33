import Mathlib.Data.List.Lex
import Mathlib.Data.UInt
import Mathlib.Data.String.Basic

namespace VersionStore.Text

/-!
# The order of texts

Texts are compared character by character, and rows of a listing are sorted so. This is the order
of their bytes: of two characters the lesser one has the lesser bytes, and its bytes are no
beginning of those of the other.
-/

/-- The bytes of the lesser of two characters come first, whatever follows. -/
theorem utf8EncodeChar_append_lt
    {first second : Char}
    (less : first < second)
    (rest others : List UInt8) :
    String.utf8EncodeChar first ++ rest < String.utf8EncodeChar second ++ others := by
  have lessCode : first.val.toNat < second.val.toNat := less
  have bounded : second.val.toNat < 0x110000 := by
    rcases second.valid with low | ⟨-, high⟩
    · exact low.trans (by decide)
    · exact high
  unfold String.utf8EncodeChar
  dsimp only
  generalize first.val.toNat = code at *
  generalize second.val.toNat = other at *
  -- The codes compare as their digits do, from the leading one on.
  have rises (unit : Nat) : code / unit < other / unit ∨ code / unit = other / unit :=
    lt_or_eq_of_le (Nat.div_le_div_right lessCode.le)
  have byOne := rises 64
  have byTwo := rises 4096
  have byThree := rises 262144
  have leading : code / 262144 % 8 = code / 262144 ∧ other / 262144 % 8 = other / 262144 := by
    omega
  have middle (value : Nat) : value / 4096 % 64 + 64 * (value / 262144) = value / 4096 := by
    omega
  have last (value : Nat) : value / 64 % 64 + 64 * (value / 4096) = value / 64 := by
    omega
  have codeMiddle := middle code
  have otherMiddle := middle other
  have codeLast := last code
  have otherLast := last other
  have lead (value : Nat) : (value % 8 + 240) % 256 = value % 8 + 240 := by
    omega
  have follow (value : Nat) : (value % 64 + 128) % 256 = value % 64 + 128 := by
    omega
  split_ifs <;>
    simp only [List.cons_append, List.nil_append, List.cons_lt_cons_iff, UInt8.lt_iff_toNat_lt,
      ← UInt8.toNat_inj, UInt8.toNat_ofNat', lead, follow] <;>
    clear rises middle last lead follow <;>
    omega

/-- The lesser of two lists of characters has the lesser bytes. -/
theorem flatMap_utf8EncodeChar_lt
    {first second : List Char}
    (less : first < second) :
    first.flatMap String.utf8EncodeChar < second.flatMap String.utf8EncodeChar := by
  induction less with
  | @nil character rest =>
      obtain ⟨byte, others, shape⟩ :=
        List.exists_cons_of_ne_nil (String.utf8EncodeChar_ne_nil (c := character))
      rw [List.flatMap_cons, shape]
      exact List.nil_lt_cons _ _
  | rel less =>
      exact utf8EncodeChar_append_lt less _ _
  | cons _ inductionHypothesis =>
      exact List.append_left_lt inductionHypothesis

/-- The bytes of a text are those of its characters. -/
theorem toUTF8_data_toList
    (text : String) :
    text.toUTF8.data.toList = text.toList.flatMap String.utf8EncodeChar := by
  rw [String.toUTF8, ← String.utf8Encode_toList]
  simp [List.utf8Encode]

/-- Texts are in the order of their bytes. -/
theorem toUTF8_lt_iff
    {first second : String} :
    first.toUTF8.data.toList < second.toUTF8.data.toList ↔ first < second := by
  rw [toUTF8_data_toList, toUTF8_data_toList, String.lt_iff_toList_lt]
  constructor
  · intro less
    rcases lt_trichotomy first second with before | rfl | after
    · exact String.lt_iff_toList_lt.mp before
    · exact (List.lt_irrefl _ less).elim
    · exact (List.lt_asymm less (flatMap_utf8EncodeChar_lt (String.lt_iff_toList_lt.mp after))).elim
  · exact flatMap_utf8EncodeChar_lt

end VersionStore.Text
