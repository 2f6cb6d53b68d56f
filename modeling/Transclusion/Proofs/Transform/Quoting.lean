import Transclusion.Proofs.Lexer.CallTexts
import Transclusion.Transform.Builtin

/-!
# Quoted strings as parameters

The transform `string` writes a text between double quotes, with escapes for the quote, the
backslash and the control characters. The reader of calls has rules of its own for what
stands between quotes: it takes three kinds of quotes and more escapes than the transform
ever writes. The two agree on what they share. Each character is written in one of the
ways that the reader takes back to it (`Literal.written_encodeChar`), so a quoted text is
one parameter of a call, with exactly the characters it had before
(`Transform.quote_readAt`).
-/

set_option autoImplicit false

namespace Transclusion

open Text.Quoted CallText

/-! ## Characters -/

namespace Literal

theorem isHexDigit_hexDigit : ∀ value < 16, isHexDigit (hexDigit value) = true := by decide

theorem hexDigitValue_hexDigit : ∀ value < 16, hexDigitValue (hexDigit value) = value := by decide

/-- The four digits of a code below 256. -/
theorem natOfDigits_code {high low : Nat} (first : high < 16) (second : low < 16) :
    natOfDigits 16 ['0', '0', hexDigit high, hexDigit low] = 16 * high + low := by
  have zero : hexDigitValue '0' = 0 := by decide
  simp [natOfDigits, zero, hexDigitValue_hexDigit high first, hexDigitValue_hexDigit low second]

/-- A control character may be written by its code. -/
theorem written_code (quote : Quote) {char : Char} (control : char.toNat < 0x20) :
    Written quote char
      ['\\', 'u', '0', '0', hexDigit (char.toNat / 16), hexDigit (char.toNat % 16)] := by
  have high : char.toNat / 16 < 16 := by omega
  have low : char.toNat % 16 < 16 := by omega
  refine .code ?_ rfl ?_
  · intro digit member
    simp only [List.mem_cons, List.not_mem_nil, or_false] at member
    rcases member with rfl | rfl | rfl | rfl
    · rfl
    · rfl
    · exact isHexDigit_hexDigit _ high
    · exact isHexDigit_hexDigit _ low
  · have valid : char.toNat.isValidChar := char.valid
    simp [charOfHex?, natOfDigits_code high low, Nat.div_add_mod, valid]

/-- **A quoted character is written in a way that is read as the character.** -/
theorem written_encodeChar (char : Char) : Written .double char (encodeChar char) := by
  by_cases special : char ∈ ['"', '\\', '\x08', '\x0c', '\n', '\r', '\t']
  · have lettered (letter : Char) (coded : letter ≠ 'u') (solid : letter ≠ '\n') :
        Written .double (escaped letter) ['\\', letter] := .letter coded solid
    simp only [List.mem_cons, List.not_mem_nil, or_false] at special
    rcases special with rfl | rfl | rfl | rfl | rfl | rfl | rfl
    · exact lettered '"' (by decide) (by decide)
    · exact lettered '\\' (by decide) (by decide)
    · exact lettered 'b' (by decide) (by decide)
    · exact lettered 'f' (by decide) (by decide)
    · exact lettered 'n' (by decide) (by decide)
    · exact lettered 'r' (by decide) (by decide)
    · exact lettered 't' (by decide) (by decide)
  · simp only [List.mem_cons, List.not_mem_nil, or_false, not_or] at special
    obtain ⟨quote, bare, backspace, feed, newline, carriage, tab⟩ := special
    rw [encodeChar, if_neg quote, if_neg bare, if_neg backspace, if_neg feed, if_neg newline,
      if_neg carriage, if_neg tab]
    split
    · next control => exact written_code .double control
    · exact .plain quote bare newline

end Literal

/-! ## Calls -/

namespace Call

/-- A quoted text is the only parameter of a list that holds nothing else. -/
theorem readParams_encode (value : String) (rest : List Char) :
    readParams true (encode value.toList ++ ')' :: rest) =
      .ok ⟨[.text value], encode value.toList ++ [')'], rest⟩ := by
  have parts (tail : List Char) : encode value.toList ++ tail =
      Filler.texts [] ++ Quote.double.char :: (value.toList.flatMap encodeChar ++
        Quote.double.char :: (Filler.texts [] ++ tail)) := by
    simp [encode, Filler.texts, Quote.char]
  rw [parts, parts, readParams_string Literal.written_encodeChar, readParams_fillers_close]
  simp [Except.map, Reading.map, Reading.behind]

theorem read_encode (value : String) (rest : List Char) :
    read ('(' :: (encode value.toList ++ ')' :: rest)) =
      .ok ⟨⟨none, [.text value]⟩, '(' :: (encode value.toList ++ [')']), rest⟩ := by
  rw [read, readArguments, readParams_encode]
  · rfl
  · simp

end Call

namespace Transform

/-- **What the transform `string` makes of a text is read as a parameter with that text.** A
call of it without a method has this one parameter and ends with its parenthesis, whatever
characters the text holds and whatever stands before and behind the call. -/
theorem quote_readAt {m : Type → Type} [Monad m] (context : TransformContext)
    (args : List String) (value : String) (before after : List Char) :
    ∃ written : String,
      (quote : Transform m).apply context (.text value) args = pure (.ok (.text written)) ∧
      Call.readAt (before ++ ("$inline(" ++ written ++ ")").toList ++ after)
          (Text.byteLength before) =
        .ok (⟨none, [.text value]⟩,
          Text.byteLength (before ++ ("$inline(" ++ written ++ ")").toList)) := by
  refine ⟨String.ofList (encode value.toList), rfl, ?_⟩
  have parts : ("$inline(" ++ String.ofList (encode value.toList) ++ ")").toList =
      Call.marker ++ '(' :: (encode value.toList ++ [')']) := by
    simp [Call.marker]
  have starts : startsMarker (Call.marker ++ '(' :: (encode value.toList ++ ')' :: after)) = true :=
    rfl
  have whole :
      before ++ ("$inline(" ++ String.ofList (encode value.toList) ++ ")").toList ++ after =
      before ++ (Call.marker ++ '(' :: (encode value.toList ++ ')' :: after)) := by
    simp [parts]
  rw [whole, Call.readAt_append_ok before starts (Call.read_encode value after), parts,
    Text.byteLength_append before]
  rfl

end Transform

end Transclusion
