import Mathlib.Data.List.Forall2
import VersionStore.Bytes.Hex
import VersionStore.Proofs.Text.Order

namespace VersionStore.Hex

/-!
# Hexadecimal text and its bytes

A text is read as bytes exactly when it is made of digits of either case, two for each byte, and
then the bytes are written as the text in lower case. So what was written is read back.
-/

/-- The digits of either case. -/
def digits : List Char :=
  "0123456789abcdefABCDEF".toList

/-- A text in lower case. -/
def lowered (text : String) : String :=
  String.ofList (text.toList.map Char.toLower)

/-- A text is as long in lower case. -/
theorem length_lowered
    (text : String) :
    (lowered text).length = text.length := by
  rw [lowered, String.length_ofList, List.length_map, String.length_toList]

/-! ## Bytes and their halves -/

/-- What is left to list of a byte string is put behind what was listed before. -/
theorem toList_loop
    (bytes : ByteArray)
    (index : Nat)
    (listed : List UInt8) :
    ByteArray.toList.loop bytes index listed =
      listed.reverse ++ bytes.data.toList.drop index := by
  induction index, listed using ByteArray.toList.loop.induct bytes with
  | case1 index listed within inductionHypothesis =>
      have inList : index < bytes.data.toList.length := within
      have here : bytes.get! index = bytes.data.toList[index] := by
        have inArray : index < bytes.data.size := within
        rw [Array.getElem_toList, ← getElem!_pos bytes.data index inArray]
        rfl
      rw [ByteArray.toList.loop, if_pos within, inductionHypothesis,
        List.drop_eq_getElem_cons inList, here, List.reverse_cons, List.append_assoc]
      rfl
  | case2 index listed outside =>
      have short : bytes.data.toList.length ≤ index := Nat.le_of_not_lt outside
      rw [ByteArray.toList.loop, if_neg outside, List.drop_eq_nil_of_le short, List.append_nil]

/-- The bytes of a byte string in a list. -/
theorem toList_eq
    (bytes : ByteArray) :
    bytes.toList = bytes.data.toList :=
  toList_loop bytes 0 []

/-- The values of the two digits of a byte. -/
def halves (byte : UInt8) : List UInt8 :=
  [byte / 16, byte % 16]

/-- Two values below sixteen are the halves of one byte. -/
theorem halves_of_lt
    {high low : UInt8}
    (highLess : high < 16)
    (lowLess : low < 16) :
    halves (high * 16 + low) = [high, low] := by
  have atMost : high.toNat < 16 := highLess
  have below : low.toNat < 16 := lowLess
  have whole : (high * 16 + low).toNat = high.toNat * 16 + low.toNat := by
    rw [UInt8.toNat_add, UInt8.toNat_mul]
    change (high.toNat * 16 % 256 + low.toNat) % 256 = _
    omega
  rw [halves, List.cons_eq_cons, List.cons_eq_cons, ← UInt8.toNat_inj, ← UInt8.toNat_inj,
    UInt8.toNat_div, UInt8.toNat_mod, whole]
  refine ⟨?_, ?_, rfl⟩
  · change (high.toNat * 16 + low.toNat) / 16 = high.toNat
    omega
  · change (high.toNat * 16 + low.toNat) % 16 = low.toNat
    omega

/-- Both halves of a byte are below sixteen. -/
theorem halves_lt
    {byte value : UInt8}
    (member : value ∈ halves byte) :
    value < 16 := by
  have bounded := byte.toNat_lt
  rcases List.mem_cons.mp member with rfl | inRest
  · change byte.toNat / 16 < 16
    omega
  · cases List.mem_singleton.mp inRest
    change byte.toNat % 16 < 16
    omega

/-- The halves of a byte make it up. -/
theorem halves_whole
    (byte : UInt8) :
    byte / 16 * 16 + byte % 16 = byte := by
  rw [← UInt8.toNat_inj, UInt8.toNat_add, UInt8.toNat_mul, UInt8.toNat_div, UInt8.toNat_mod]
  have bounded := byte.toNat_lt
  change (byte.toNat / 16 * 16 % 256 + byte.toNat % 16) % 256 = byte.toNat
  omega

/-- Bytes are written as the digits of their halves. -/
theorem ofBytes_eq_map
    (bytes : List UInt8) :
    ofBytes bytes = (bytes.flatMap halves).map fun value => digit value.toNat := by
  rw [ofBytes, List.map_flatMap]
  rfl

/-! ## Reading -/

/-- What a digit stands for is below sixteen. -/
theorem value?_lt
    {byte value : UInt8}
    (isValue : value? byte = some value) :
    value < 16 := by
  unfold value? at isValue
  grind

/-- The bytes of a text are the digits of some bytes. -/
def Spells (text bytes : List UInt8) : Prop :=
  List.Forall₂ (fun byte value => value? byte = some value) text (bytes.flatMap halves)

/-- Two bytes of a text spell the first byte. -/
theorem spells_cons_cons
    {high low : UInt8}
    {text bytes : List UInt8} :
    Spells (high :: low :: text) bytes ↔
      ∃ byte rest, bytes = byte :: rest ∧ value? high = some (byte / 16) ∧
        value? low = some (byte % 16) ∧ Spells text rest := by
  constructor
  · intro spells
    cases bytes with
    | nil =>
        cases spells
    | cons byte rest =>
        cases spells with
        | cons isHigh spells =>
            cases spells with
            | cons isLow spells =>
                exact ⟨byte, rest, rfl, isHigh, isLow, spells⟩
  · rintro ⟨byte, rest, rfl, isHigh, isLow, spells⟩
    exact .cons isHigh (.cons isLow spells)

/-- A text is read as the bytes that it spells. -/
theorem decodeFrom_eq_ok_iff
    (position : Nat)
    (text bytes : List UInt8) :
    decodeFrom position text = .ok bytes ↔ Spells text bytes := by
  induction position, text using decodeFrom.induct generalizing bytes with
  | case1 position =>
      rw [decodeFrom, Spells, List.forall₂_nil_left_iff]
      cases bytes <;> simp [halves]
  | case2 position byte =>
      refine iff_of_false nofun fun spells => ?_
      cases bytes with
      | nil =>
          cases spells
      | cons first rest =>
          cases spells with
          | cons _ more =>
              cases more
  | case3 position high low rest highValue lowValue isLow isHigh inductionHypothesis =>
      have isByte := halves_of_lt (value?_lt isHigh) (value?_lt isLow)
      rw [halves, List.cons_eq_cons, List.cons_eq_cons] at isByte
      rw [decodeFrom, isHigh, isLow, spells_cons_cons, isHigh, isLow]
      constructor
      · intro decoded
        cases isRest : decodeFrom (position + 2) rest with
        | error fault =>
            rw [isRest] at decoded
            cases decoded
        | ok others =>
            rw [isRest] at decoded
            cases decoded
            exact ⟨_, others, rfl, congrArg some isByte.1.symm, congrArg some isByte.2.1.symm,
              (inductionHypothesis others).mp isRest⟩
      · rintro ⟨byte, others, rfl, high, low, spells⟩
        cases high
        cases low
        rw [(inductionHypothesis others).mpr spells]
        exact congrArg (fun first => Except.ok (first :: others)) (halves_whole byte)
  | case4 position high low rest notHigh =>
      rw [decodeFrom, notHigh, spells_cons_cons, notHigh]
      exact iff_of_false nofun fun ⟨_, _, _, absurd, _⟩ => nomatch absurd
  | case5 position high low rest highValue notLow isHigh =>
      rw [decodeFrom, isHigh, notLow, spells_cons_cons, notLow]
      exact iff_of_false nofun fun ⟨_, _, _, _, absurd, _⟩ => nomatch absurd

/-- Bytes that are digits, an even number of them, can be read. -/
theorem exists_spells
    {text : List UInt8}
    (even : text.length % 2 = 0)
    (isDigit : ∀ byte ∈ text, (value? byte).isSome) :
    ∃ bytes, Spells text bytes := by
  induction text using List.twoStepInduction with
  | nil =>
      exact ⟨[], .nil⟩
  | singleton byte =>
      simp at even
  | cons_cons high low rest inductionHypothesis _ =>
      have evenRest : rest.length % 2 = 0 := by
        simpa [Nat.add_assoc] using even
      obtain ⟨highDigit, lowDigit, isDigit⟩ :
          (value? high).isSome ∧ (value? low).isSome ∧ ∀ byte ∈ rest, (value? byte).isSome := by
        simpa using isDigit
      obtain ⟨highValue, isHigh⟩ := Option.isSome_iff_exists.mp highDigit
      obtain ⟨lowValue, isLow⟩ := Option.isSome_iff_exists.mp lowDigit
      obtain ⟨bytes, spells⟩ := inductionHypothesis evenRest isDigit
      have isByte := halves_of_lt (value?_lt isHigh) (value?_lt isLow)
      rw [halves, List.cons_eq_cons, List.cons_eq_cons] at isByte
      exact ⟨_, spells_cons_cons.mpr
        ⟨_, bytes, rfl, isHigh.trans (congrArg some isByte.1.symm),
          isLow.trans (congrArg some isByte.2.1.symm), spells⟩⟩

/-! ## Characters -/

/-- A digit has one byte, which stands for its value. -/
theorem value?_of_mem_digits :
    ∀ character ∈ digits,
      String.utf8EncodeChar character = [character.val.toUInt8] ∧
        ∃ value, value? character.val.toUInt8 = some value ∧
          digit value.toNat = character.toLower := by
  have spelled :
      digits.all fun character =>
        String.utf8EncodeChar character == [character.val.toUInt8] &&
          (value? character.val.toUInt8).map (fun value => digit value.toNat) ==
            some character.toLower := by
    decide
  intro character member
  obtain ⟨encoded, isDigit⟩ := Bool.and_eq_true_iff.mp (List.all_eq_true.mp spelled character member)
  exact ⟨beq_iff_eq.mp encoded, Option.map_eq_some_iff.mp (beq_iff_eq.mp isDigit)⟩

/-- Different values have different digits. -/
theorem digit_injective :
    ∀ first < 16, ∀ second < 16, digit first = digit second → first = second := by
  decide

/-- A byte that is a digit is that of a character which is one. -/
theorem mem_digits_of_value?
    {character : Char}
    {byte : UInt8}
    (member : byte ∈ String.utf8EncodeChar character)
    (isDigit : (value? byte).isSome) :
    character ∈ digits := by
  have ascii : ∀ code < 128, (value? (UInt8.ofNat code)).isSome → Char.ofNat code ∈ digits := by
    decide
  have bounded : byte < 128 := by
    unfold value? at isDigit
    grind
  have small : character.val.toNat ≤ 127 := by
    by_contra large
    have atLeast : 128 ≤ byte.toNat := by
      unfold String.utf8EncodeChar at member
      simp only [large, if_false] at member
      split_ifs at member <;>
        simp only [List.mem_cons, List.not_mem_nil, or_false, ← UInt8.toNat_inj,
          UInt8.toNat_ofNat'] at member <;>
        omega
    exact absurd bounded (UInt8.not_lt.mpr atLeast)
  have isByte : byte = UInt8.ofNat character.val.toNat := by
    rw [String.utf8EncodeChar, if_pos small] at member
    exact List.mem_singleton.mp member
  rw [isByte] at isDigit
  rw [← Char.ofNat_toNat character]
  exact ascii character.val.toNat (Nat.lt_succ_of_le small) isDigit

/-- The bytes of a text spell values when its characters are their digits. -/
theorem forall₂_utf8EncodeChar_iff
    (characters : List Char)
    {values : List UInt8}
    (small : ∀ value ∈ values, value < 16) :
    List.Forall₂ (fun byte value => value? byte = some value)
        (characters.flatMap String.utf8EncodeChar) values ↔
      List.Forall₂ (fun character value =>
        character ∈ digits ∧ character.toLower = digit value.toNat) characters values := by
  induction characters generalizing values with
  | nil =>
      rw [List.flatMap_nil, List.forall₂_nil_left_iff, List.forall₂_nil_left_iff]
  | cons character rest inductionHypothesis =>
      rw [List.flatMap_cons]
      constructor
      · intro spells
        obtain ⟨first, others, shape⟩ :=
          List.exists_cons_of_ne_nil (String.utf8EncodeChar_ne_nil (c := character))
        rw [shape, List.cons_append] at spells
        cases spells with
        | @cons _ value _ further isValue spells =>
            have isDigit : character ∈ digits :=
              mem_digits_of_value? (shape ▸ List.mem_cons_self) (Option.isSome_of_eq_some isValue)
            obtain ⟨alone, found, isFound, written⟩ := value?_of_mem_digits character isDigit
            obtain ⟨rfl, rfl⟩ := List.cons_eq_cons.mp (shape.symm.trans alone)
            cases isValue.symm.trans isFound
            exact .cons ⟨isDigit, written.symm⟩
              ((inductionHypothesis (List.forall_mem_cons.mp small).2).mp spells)
      · intro spells
        cases spells with
        | @cons _ value _ further written spells =>
            obtain ⟨below, small⟩ := List.forall_mem_cons.mp small
            obtain ⟨alone, found, isFound, same⟩ := value?_of_mem_digits character written.1
            have isValue : found = value :=
              UInt8.toNat_inj.mp
                (digit_injective _ (value?_lt isFound) _ below (same.trans written.2))
            rw [alone]
            exact .cons (isValue ▸ isFound) ((inductionHypothesis small).mpr spells)

/-- The characters of a text are digits. -/
def AllDigits (text : String) : Prop :=
  ∀ character ∈ text.toList, character ∈ digits

/-- A text spells bytes when it is made of digits, in lower case those of the bytes. -/
theorem spells_toUTF8_iff
    (text : String)
    (bytes : List UInt8) :
    Spells text.toUTF8.data.toList bytes ↔
      AllDigits text ∧ text.toList.map Char.toLower = ofBytes bytes := by
  have small : ∀ value ∈ bytes.flatMap halves, value < 16 := by
    intro value member
    obtain ⟨byte, -, inHalves⟩ := List.mem_flatMap.mp member
    exact halves_lt inHalves
  rw [Spells, Text.toUTF8_data_toList, forall₂_utf8EncodeChar_iff _ small, List.forall₂_and_left,
    ofBytes_eq_map, ← List.forall₂_eq_eq_eq, List.forall₂_map_left_iff,
    List.forall₂_map_right_iff]
  rfl

/-! ## Reading and writing -/

/-- Each byte of a text of digits is one of them, and there are as many. -/
theorem toUTF8_of_allDigits
    {text : String}
    (allDigits : AllDigits text) :
    text.toUTF8.data.toList = text.toList.map fun character => character.val.toUInt8 := by
  rw [Text.toUTF8_data_toList, ← List.flatMap_pure_eq_map]
  exact List.flatMap_congr fun character member =>
    (value?_of_mem_digits character (allDigits character member)).1

/-- A text is read as the bytes that its own bytes spell. -/
theorem decode_eq_ok_iff_spells
    (text : String)
    (bytes : ByteArray) :
    decode text = .ok bytes ↔ Spells text.toUTF8.data.toList bytes.data.toList := by
  rw [decode, toList_eq]
  constructor
  · intro decoded
    split at decoded
    · cases decoded
    · cases isList : decodeFrom 0 text.toUTF8.data.toList with
      | error fault =>
          rw [isList] at decoded
          cases decoded
      | ok list =>
          rw [isList] at decoded
          cases decoded
          rw [List.toList_data_toByteArray]
          exact (decodeFrom_eq_ok_iff 0 _ list).mp isList
  · intro spells
    have even : text.toUTF8.data.toList.length % 2 ≠ 1 := by
      rw [spells.length_eq, List.length_flatMap]
      simp [halves]
    rw [if_neg even, (decodeFrom_eq_ok_iff 0 _ _).mpr spells]
    exact congrArg Except.ok (ByteArray.ext (Array.toList_inj.mp List.toList_data_toByteArray))

/-- A text is read as bytes exactly when it is made of digits of either case, and when the bytes
are written as the text in lower case. -/
theorem decode_eq_ok_iff
    (text : String)
    (bytes : ByteArray) :
    decode text = .ok bytes ↔ AllDigits text ∧ encode bytes = lowered text := by
  rw [decode_eq_ok_iff_spells, spells_toUTF8_iff, encode, lowered, toList_eq, String.ofList_inj,
    eq_comm]

/-- The digits of values are in lower case. -/
theorem digit_lower :
    ∀ value < 16, digit value ∈ "0123456789abcdef".toList ∧ digit value ∈ digits ∧
      (digit value).toLower = digit value := by
  decide

/-- Whatever is written is made of the digits of values. -/
theorem exists_digit_of_mem_encode
    {bytes : ByteArray}
    {character : Char}
    (member : character ∈ (encode bytes).toList) :
    ∃ value < 16, digit value = character := by
  rw [encode, String.toList_ofList, ofBytes_eq_map] at member
  obtain ⟨value, inValues, rfl⟩ := List.mem_map.mp member
  obtain ⟨byte, -, inHalves⟩ := List.mem_flatMap.mp inValues
  exact ⟨value.toNat, halves_lt inHalves, rfl⟩

/-- Two digits are written for each byte. -/
theorem length_encode
    (bytes : ByteArray) :
    (encode bytes).length = 2 * bytes.size := by
  have sized : bytes.data.toList.length = bytes.size := rfl
  rw [encode, String.length_ofList, ofBytes_eq_map, List.length_map, List.length_flatMap, toList_eq]
  simp [halves, sized, Nat.mul_comm]

/-- What was written is read back. -/
theorem decode_encode
    (bytes : ByteArray) :
    decode (encode bytes) = .ok bytes := by
  refine (decode_eq_ok_iff _ bytes).mpr ⟨fun character member => ?_, ?_⟩
  · obtain ⟨value, small, rfl⟩ := exists_digit_of_mem_encode member
    exact (digit_lower value small).2.1
  · have unchanged : (encode bytes).toList.map Char.toLower = (encode bytes).toList := by
      refine (List.map_congr_left fun character member => ?_).trans (List.map_id _)
      obtain ⟨value, small, rfl⟩ := exists_digit_of_mem_encode member
      exact (digit_lower value small).2.2
    rw [lowered, unchanged, String.ofList_toList]

/-- Digits of either case, two for each byte, are read. -/
theorem exists_decode
    {text : String}
    {count : Nat}
    (allDigits : AllDigits text)
    (length : text.length = 2 * count) :
    ∃ bytes, decode text = .ok bytes ∧ bytes.size = count := by
  have isDigit : ∀ byte ∈ text.toUTF8.data.toList, (value? byte).isSome := by
    intro byte member
    rw [toUTF8_of_allDigits allDigits] at member
    obtain ⟨character, inText, rfl⟩ := List.mem_map.mp member
    obtain ⟨-, value, isValue, -⟩ := value?_of_mem_digits character (allDigits character inText)
    exact Option.isSome_of_eq_some isValue
  have even : text.toUTF8.data.toList.length % 2 = 0 := by
    rw [toUTF8_of_allDigits allDigits, List.length_map, String.length_toList, length]
    exact Nat.mul_mod_right 2 count
  obtain ⟨list, spells⟩ := exists_spells even isDigit
  rw [← @List.toList_data_toByteArray list] at spells
  have isBytes := (decode_eq_ok_iff_spells text list.toByteArray).mpr spells
  refine ⟨list.toByteArray, isBytes, ?_⟩
  have written := congrArg String.length ((decode_eq_ok_iff text _).mp isBytes).2
  rw [length_encode, length_lowered, length] at written
  exact Nat.eq_of_mul_eq_mul_left Nat.zero_lt_two written

end VersionStore.Hex
