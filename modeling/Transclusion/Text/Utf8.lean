/-!
# Reading bytes as UTF-8

`decode` turns any sequence of bytes into characters. A well-formed sequence of
one to four bytes gives its character. Where no character can be read, one
replacement character stands for the longest run of bytes that could have begun
one, and reading goes on behind that run.

The bytes that may follow a leading byte are fixed by two tables: the number of
continuation bytes and the range of the first of them. The narrower ranges shut
out overlong forms, surrogates and code points beyond U+10FFFF.
-/

set_option autoImplicit false

namespace Transclusion.Text.Utf8

/-- What a leading byte announces: the bits it contributes, how many bytes
follow, and the range of the first of these. -/
structure Lead where
  bits : Nat
  following : Nat
  low : Nat
  high : Nat

/-- The announcement of a leading byte, if it can begin a character. -/
def lead? (byte : UInt8) : Option Lead :=
  let value := byte.toNat
  if value < 0x80 then some ⟨value, 0, 0, 0⟩
  else if value < 0xC2 then none
  else if value < 0xE0 then some ⟨value - 0xC0, 1, 0x80, 0xBF⟩
  else if value < 0xF0 then
    some ⟨value - 0xE0, 2, if value = 0xE0 then 0xA0 else 0x80, if value = 0xED then 0x9F else 0xBF⟩
  else if value < 0xF5 then
    some ⟨value - 0xF0, 3, if value = 0xF0 then 0x90 else 0x80, if value = 0xF4 then 0x8F else 0xBF⟩
  else none

/-- Reads continuation bytes onto the bits collected so far; the first must lie
in the given range, the others in the full one. Gives the code point, if all
the bytes were there, and the bytes behind those that were taken. -/
def continuation : Nat → Nat → Nat → Nat → List UInt8 → Option Nat × List UInt8
  | bits, 0, _, _, bytes => (some bits, bytes)
  | _, _ + 1, _, _, [] => (none, [])
  | bits, following + 1, low, high, byte :: rest =>
      if low ≤ byte.toNat && byte.toNat ≤ high then
        continuation (bits * 64 + (byte.toNat - 0x80)) following 0x80 0xBF rest
      else (none, byte :: rest)

theorem length_continuation_le (bits following low high : Nat) (bytes : List UInt8) :
    (continuation bits following low high bytes).2.length ≤ bytes.length := by
  fun_induction continuation bits following low high bytes with
  | case1 => simp
  | case2 => simp
  | case3 bits following low high byte rest inside ih => simp only [List.length_cons]; omega
  | case4 => simp

/-- The character that stands for bytes that cannot be read. -/
def replacement : Char := '�'

/-- The characters of a sequence of bytes, each run that cannot be read giving
one replacement character. -/
def decode : List UInt8 → List Char
  | [] => []
  | byte :: rest =>
      match lead? byte with
      | none => replacement :: decode rest
      | some announced =>
          let read := continuation announced.bits announced.following announced.low
            announced.high rest
          (match read.1 with
            | some code => Char.ofNat code
            | none => replacement) :: decode read.2
termination_by bytes => bytes.length
decreasing_by
  · simp
  · have := length_continuation_le announced.bits announced.following announced.low
      announced.high rest
    simp only [List.length_cons]
    omega

end Transclusion.Text.Utf8
