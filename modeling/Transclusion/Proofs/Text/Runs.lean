/-!
# Runs of characters

Readers take characters of a class for as long as there are any. What they take is told by
two facts: all of it belongs to the class, and what is left does not begin with a character
of the class. The second fact holds of what is left (`Text.stop_dropWhile`), and together
they leave one way to take the run (`Text.takeWhile_append_of_stop`).
-/

set_option autoImplicit false

namespace Transclusion.Text

/-- What a class of characters leaves begins with another character. -/
theorem stop_dropWhile (accept : Char → Bool) (text : List Char) :
    ∀ char ∈ (text.dropWhile accept).head?, accept char = false := by
  intro char member
  have stops := List.head?_dropWhile_not accept text
  rw [Option.mem_def.1 member] at stops
  exact stops

section Stopping

variable {accept : Char → Bool} {rest : List Char}

/-- Nothing is taken in front of another character. -/
theorem takeWhile_eq_nil_of_stop (stop : ∀ char ∈ rest.head?, accept char = false) :
    rest.takeWhile accept = [] ∧ rest.dropWhile accept = rest := by
  cases rest with
  | nil => exact ⟨rfl, rfl⟩
  | cons char rest => simp [stop char rfl]

/-- A class of characters takes exactly a text of it when what follows begins with another
character. -/
theorem takeWhile_append_of_stop {chars : List Char}
    (inside : ∀ char ∈ chars, accept char = true)
    (stop : ∀ char ∈ rest.head?, accept char = false) :
    (chars ++ rest).takeWhile accept = chars ∧ (chars ++ rest).dropWhile accept = rest := by
  obtain ⟨none, all⟩ := takeWhile_eq_nil_of_stop stop
  rw [List.takeWhile_append_of_pos inside, List.dropWhile_append_of_pos inside, none, all]
  exact ⟨List.append_nil chars, rfl⟩

end Stopping

end Transclusion.Text
