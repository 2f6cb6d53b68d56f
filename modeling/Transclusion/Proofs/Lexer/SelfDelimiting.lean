import Transclusion.Proofs.Lexer.CallTexts
import Transclusion.Proofs.Lexer.Extents
import Transclusion.Proofs.Lexer.Slicing

/-!
# Calls with a parameter list delimit themselves

The parenthesis that opens the parameter list of a call is closed by the call's last
byte, and nothing behind that byte is looked at. So the bytes of such a call, from behind its
marker on, are read alike wherever they stand: in any other text that has them at some
offset, the same method and the same parameters are read there, and as many bytes are taken
(`Call.readAt_of_bytes`).

Two things go into this. A list is read from its own characters (`Call.readParams_append`),
so what follows may be exchanged (`Call.ReadsListed.before`). And since UTF-8 is a prefix
code, the bytes of some characters that begin with one of ASCII can stand in a text only
where the characters do (`Text.exists_parts_of_byteSlice?`).
-/

set_option autoImplicit false

namespace Transclusion

/-! ## Characters from their bytes -/

namespace Text

/-- A text whose bytes begin with those of some characters begins with the characters. -/
theorem exists_append_of_utf8 {text part : List Char} {bytes : List UInt8}
    (encoded : utf8 text = utf8 part ++ bytes) : ∃ rest, text = part ++ rest := by
  have joined : part.utf8Encode ++ bytes.toByteArray = text.utf8Encode := by
    apply ByteArray.ext
    rw [ByteArray.data_append, List.utf8Encode, List.utf8Encode, List.data_toByteArray,
      List.data_toByteArray, List.data_toByteArray, List.append_toArray]
    exact congrArg List.toArray encoded.symm
  obtain ⟨rest, whole⟩ := List.isPrefix_of_utf8Encode_append_eq_utf8Encode _ joined
  exact ⟨rest, whole.symm⟩

/-- The bytes of a part of a text are those between the ends of the part. -/
theorem byteSlice?_utf8 (before part after : List Char) :
    Cursor.byteSlice? (utf8 (before ++ (part ++ after))) (byteLength before)
      (byteLength before + byteLength part) = some (utf8 part) := by
  have bytes : utf8 (before ++ (part ++ after)) = utf8 before ++ (utf8 part ++ utf8 after) := by
    simp only [utf8, List.flatMap_append]
  rw [Cursor.byteSlice?, if_pos, bytes, Nat.add_sub_cancel_left, ← length_utf8 before,
    List.drop_left, ← length_utf8 part, List.take_left]
  rw [length_utf8, byteLength_append, byteLength_append]
  omega

/-- The byte of a character that takes one byte stands at the offset of the character. -/
theorem getElem?_utf8 {char : Char} {byte : UInt8} (single : String.utf8EncodeChar char = [byte])
    (before after : List Char) :
    (utf8 (before ++ char :: after))[byteLength before]? = some byte := by
  have bytes : utf8 (before ++ char :: after) = utf8 before ++ byte :: utf8 after := by
    rw [utf8, List.flatMap_append, List.flatMap_cons, single]
    rfl
  rw [bytes, ← length_utf8 before, List.getElem?_append_right (Nat.le_refl _), Nat.sub_self]
  rfl

/-- **Where the bytes of some characters stand in a text, the characters do**, if the first of
them is one of ASCII. -/
theorem exists_parts_of_byteSlice? {text part : List Char} {char : Char} {start stop : Nat}
    (ascii : char.toNat < 128)
    (slice : Cursor.byteSlice? (utf8 text) start stop = some (utf8 (char :: part))) :
    ∃ before after, before ++ (char :: part ++ after) = text ∧ byteLength before = start := by
  unfold Cursor.byteSlice? at slice
  split at slice
  · rw [Option.some.injEq] at slice
    have bytes := List.take_append_drop (stop - start) ((utf8 text).drop start)
    rw [slice] at bytes
    rcases utf8EncodeChar_cases char with ⟨byte, written, rfl⟩ | ⟨high, -⟩
    · have single : byte.toNat < 128 := by
        change (Char.ofUInt8 byte).val.toNat < 128 at ascii
        rwa [val_ofUInt8, UInt8.toNat_toUInt32] at ascii
      have begins := bytes.symm
      rw [utf8_cons, written, List.singleton_append, List.cons_append] at begins
      obtain ⟨before, marked, whole, measured, left⟩ := exists_append_of_drop_utf8 begins single
      rw [← List.cons_append, ← List.singleton_append, ← written, ← utf8_cons] at left
      obtain ⟨after, rfl⟩ := exists_append_of_utf8 left
      exact ⟨before, after, whole, measured⟩
    · omega
  · cases slice

end Text

namespace Call

open CallText

/-! ## Lists of parameters -/

/-- The call at an offset of a text has a parameter list: behind the bytes of the marker and a
method, if there is one, a parenthesis opens. -/
def ListedAt (source : List Char) (offset : Nat) : Prop :=
  ∃ before method rest, before ++ (methodText method ++ '(' :: rest) = source ∧
    Text.byteLength before = offset + Text.byteLength marker

/-- What is known of a call that was read with a parameter list. -/
structure ReadsListed (reading : Reading Call) : Prop where
  /-- It begins with the point of its method or with the parenthesis. -/
  opens : ∃ char others, reading.taken = char :: others ∧ char.toNat < 128
  /-- It ends with a parenthesis. -/
  closes : reading.taken.getLast? = some ')'
  /-- It is read alike in front of any text. -/
  before : ∀ rest, read (reading.taken ++ rest) = .ok (reading.withRest rest)

theorem readsListed_of_read {method : Option Method} {input : List Char} {reading : Reading Call}
    (success : read (methodText method ++ '(' :: input) = .ok reading) :
    ReadsListed reading := by
  rw [read_listed] at success
  obtain ⟨values, listed, rfl⟩ := Reading.eq_ok_of_map success
  refine ⟨?_, ?_, fun rest => ?_⟩
  · cases method with
    | none => exact ⟨'(', values.taken, rfl, by decide⟩
    | some method => exact ⟨'.', _, rfl, by decide⟩
  · rw [List.getLast?_append, List.getLast?_cons, readParams_getLast? listed]
    rfl
  · simp only [List.append_assoc, List.cons_append, read_listed, readParams_append listed rest]
    rfl

/-- What is read at an offset is what is read behind the bytes of the marker. -/
theorem readAt_eq_ok_iff {before input : List Char} {offset stop : Nat} {call : Call}
    (measured : Text.byteLength before = offset + Text.byteLength marker) :
    readAt (before ++ input) offset = .ok (call, stop) ↔ ∃ reading, read input = .ok reading ∧
      reading.value = call ∧ Text.byteLength before + Text.byteLength reading.taken = stop := by
  simp only [readAt, ← measured, Text.onward_byteLength]
  cases read input with
  | error fault => simp
  | ok reading => simp

/-! ## Calls in other texts -/

/-- **A call with a parameter list delimits itself.** It takes a byte behind its marker, it ends
inside the text with a parenthesis, and wherever the bytes behind its marker stand in a
text, the same call is read there and takes as many bytes. -/
theorem readAt_of_bytes {source : String} {offset stop : Nat} {call : Call}
    (reads : readAt source.toList offset = .ok (call, stop))
    (listed : ListedAt source.toList offset) :
    (offset + Text.byteLength marker < stop ∧ stop ≤ source.utf8ByteSize ∧
      source.toUTF8.data.toList[stop - 1]? = some ')'.toUInt8) ∧
    ∀ (other : String) (place : Nat),
      Cursor.byteSlice? other.toUTF8.data.toList (place + Text.byteLength marker)
          (place + (stop - offset)) =
        Cursor.byteSlice? source.toUTF8.data.toList (offset + Text.byteLength marker) stop →
      readAt other.toList place = .ok (call, place + (stop - offset)) := by
  obtain ⟨before, method, input, whole, measured⟩ := listed
  rw [← whole, readAt_eq_ok_iff measured] at reads
  obtain ⟨reading, success, rfl, rfl⟩ := reads
  obtain ⟨⟨char, others, taken, ascii⟩, closes, again⟩ := readsListed_of_read success
  have parts : before ++ (reading.taken ++ reading.rest) = source.toList := by
    rw [← whole, read_of success]
  have size : source.utf8ByteSize = Text.byteLength before + (Text.byteLength reading.taken +
      Text.byteLength reading.rest) := by
    rw [← Text.byteLength_append, ← Text.byteLength_append, parts, ← Text.utf8ByteSize_ofList,
      String.ofList_toList]
  have slice := Text.byteSlice?_utf8 before reading.taken reading.rest
  rw [parts, Text.utf8_toList] at slice
  have positive := char.utf8Size_pos
  have progress : 0 < Text.byteLength reading.taken := by
    rw [taken, Text.byteLength_cons]
    omega
  refine ⟨⟨by omega, by omega, ?_⟩, fun other place same => ?_⟩
  · obtain ⟨front, ends⟩ := List.getLast?_eq_some_iff.1 closes
    have single : String.utf8EncodeChar ')' = [')'.toUInt8] := rfl
    have place : Text.byteLength before + Text.byteLength reading.taken - 1 =
        Text.byteLength (before ++ front) := by
      rw [ends, Text.byteLength_append, Text.byteLength_append]
      exact Nat.add_sub_cancel_right _ 1
    rw [place, ← Text.utf8_toList, ← parts, ends, List.append_assoc front, ← List.append_assoc]
    exact Text.getElem?_utf8 single (before ++ front) reading.rest
  · rw [← measured, slice, ← Text.utf8_toList, taken] at same
    obtain ⟨front, after, rebuilt, reached⟩ := Text.exists_parts_of_byteSlice? ascii same
    rw [← taken] at rebuilt
    rw [← rebuilt, readAt_eq_ok_iff reached]
    refine ⟨_, again after, rfl, ?_⟩
    simp only [Reading.withRest]
    omega

/-- A call with a comment, a number and a string that hold parentheses and a character of two
bytes, and the same bytes between other characters. -/
theorem readAt_of_bytes_moved :
    readAt "é$inline.x(/*)*/0x1F,'é)' )é".toList 2 =
        .ok (⟨some "x", [.number ⟨0x403F000000000000⟩, .text "é)"]⟩, 29) ∧
      ListedAt "é$inline.x(/*)*/0x1F,'é)' )é".toList 2 ∧
      readAt "(é) no é.x(/*)*/0x1F,'é)' )(2".toList 3 =
        .ok (⟨some "x", [.number ⟨0x403F000000000000⟩, .text "é)"]⟩, 30) := by
  have reads : readAt "é$inline.x(/*)*/0x1F,'é)' )é".toList 2 =
      .ok (⟨some "x", [.number ⟨0x403F000000000000⟩, .text "é)"]⟩, 29) := by decide +kernel
  have listed : ListedAt "é$inline.x(/*)*/0x1F,'é)' )é".toList 2 :=
    ⟨"é$inline".toList, some ⟨"x", by decide, List.all_eq_true.1 (by decide +kernel)⟩,
      "/*)*/0x1F,'é)' )é".toList, by decide +kernel, by decide⟩
  refine ⟨reads, listed, (readAt_of_bytes reads listed).2 _ 3 ?_⟩
  decide +kernel

end Call

end Transclusion
