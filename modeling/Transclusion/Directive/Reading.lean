import Transclusion.Directive.SyntaxError

/-!
# Readings

A reader takes the characters that are left of a text. It returns a value, the
characters the value was read from and what is left behind them, and loses
nothing in between (`Reading.Of`). A reader that fails says between which two
remainders the fault lies. So no reader counts bytes, and none depends on what
stands before it.
-/

set_option autoImplicit false

namespace Transclusion

/-- A fault between two places of a text, each given by what is left there. -/
structure Fault where
  cause : SyntaxCause
  start : List Char
  stop : List Char
deriving DecidableEq, Repr

namespace Fault

/-- A fault at one place. -/
def point (cause : SyntaxCause) (place : List Char) : Fault := ⟨cause, place, place⟩

/-- The error a fault amounts to in a text whose characters from `offset` on
are `input`. -/
def locate (fault : Fault) (input : List Char) (offset : Nat) : SyntaxError :=
  let place (left : List Char) := offset + (Text.byteLength input - Text.byteLength left)
  ⟨fault.cause, ⟨place fault.start, place fault.stop⟩⟩

end Fault

/-- A value with the characters it was read from and what is left behind them. -/
structure Reading (α : Type) where
  value : α
  taken : List Char
  rest : List Char
deriving DecidableEq, Repr

namespace Reading

variable {α β : Type}

/-- The reading with another value. -/
def map (change : α → β) (reading : Reading α) : Reading β :=
  ⟨change reading.value, reading.taken, reading.rest⟩

/-- The reading with further characters taken before it. -/
def behind (front : List Char) (reading : Reading α) : Reading α :=
  ⟨reading.value, front ++ reading.taken, reading.rest⟩

/-- A reading of a text: what it took and what it left make up the text. -/
def Of (reading : Reading α) (input : List Char) : Prop :=
  reading.taken ++ reading.rest = input

theorem Of.behind {reading : Reading α} {input : List Char} (whole : reading.Of input)
    (front : List Char) : (reading.behind front).Of (front ++ input) := by
  simp only [Of] at whole
  simp [Of, Reading.behind, whole]

/-- Two readings in a row are one reading. -/
theorem Of.trans {first : Reading α} {second : Reading β} {input : List Char}
    (outer : first.Of input) (inner : second.Of first.rest) :
    (second.behind first.taken).Of input := by
  simp only [Of] at outer
  exact outer ▸ inner.behind first.taken

theorem Of.suffix {reading : Reading α} {input : List Char} (whole : reading.Of input) :
    reading.rest <:+ input :=
  ⟨reading.taken, whole⟩

theorem Of.length_le {reading : Reading α} {input : List Char} (whole : reading.Of input) :
    reading.rest.length ≤ input.length :=
  whole.suffix.length_le

/-- A changed result that succeeds was changed from one that succeeded. -/
theorem eq_ok_of_map {ε : Type} {change : α → β} {result : Except ε α} {after : β}
    (mapped : result.map change = .ok after) :
    ∃ before, result = .ok before ∧ change before = after := by
  match result with
  | .error fault => simp [Except.map] at mapped
  | .ok before =>
      simp only [Except.map, Except.ok.injEq] at mapped
      exact ⟨before, rfl, mapped⟩

/-- A changed result that fails was changed from one that failed. -/
theorem eq_error_of_map {ε : Type} {change : α → β} {result : Except ε α} {fault : ε}
    (mapped : result.map change = .error fault) : result = .error fault := by
  match result with
  | .error other => exact congrArg _ (Except.error.inj mapped)
  | .ok before => simp [Except.map] at mapped

end Reading

end Transclusion
