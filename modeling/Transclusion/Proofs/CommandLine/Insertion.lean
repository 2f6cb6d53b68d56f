import Transclusion.CommandLine.DefaultCommand

/-!
# Where the default command is put

An argument is positional if it is not the name of the program, does not look like an option
and is not the value of one. Whether it is a value is told by the arguments in front of it:
the option `--config` or `--max-depth` stands right before it and is not itself the value of
another option (`IsValue`). The first positional argument of a call leads it (`Leading`).

The arguments in front of the leading one are options, each with its value (`Passed`). They
keep their meaning whatever follows, so a command that is put behind them leads the new call,
and a second look finds it there and changes nothing (`withCommand_conservative`).
-/

set_option autoImplicit false

namespace Transclusion.CommandLine

/-! ## Positional arguments -/

/-- The argument at a place is the value of the option before it. The name of the program is
no option, and neither is a value that is spelled like one. -/
def IsValue (call : List String) : Nat → Prop
  | 0 => False
  | place + 1 =>
      0 < place ∧ (call[place]? = some "--config" ∨ call[place]? = some "--max-depth") ∧
        ¬ IsValue call place

/-- A word stands at a place of a call as an argument of its own. -/
structure Positional (call : List String) (place : Nat) (word : String) : Prop where
  /-- The first place is that of the program. -/
  behind : 0 < place
  present : call[place]? = some word
  undashed : word.toList.head? ≠ some '-'
  free : ¬ IsValue call place

/-- The first positional argument of a call. -/
structure Leading (call : List String) (place : Nat) (word : String) : Prop where
  positional : Positional call place word
  first : ∀ earlier < place, ∀ other, ¬ Positional call earlier other

/-! ## What the arguments in front of a place tell -/

theorem isDashed_iff {argument : String} :
    isDashed argument = true ↔ argument.toList.head? = some '-' := by
  rw [isDashed, beq_iff_eq]

section Front

variable {front rest : List String} {place : Nat} {word argument : String}

/-- What follows a place has no say in whether a value is expected there. -/
theorem isValue_append (within : place ≤ front.length) :
    IsValue (front ++ rest) place ↔ IsValue front place := by
  induction place with
  | zero => exact Iff.rfl
  | succ place ih => rw [IsValue, IsValue, List.getElem?_append_left within, ih (by omega)]

/-- What follows an argument has no say in whether it is positional. -/
theorem positional_append (within : place < front.length) :
    Positional (front ++ rest) place word ↔ Positional front place word := by
  have value : IsValue (front ++ rest) place ↔ IsValue front place :=
    isValue_append (Nat.le_of_lt within)
  have same : (front ++ rest)[place]? = front[place]? := List.getElem?_append_left within
  constructor
  · rintro ⟨behind, present, undashed, free⟩
    exact ⟨behind, same ▸ present, undashed, mt value.2 free⟩
  · rintro ⟨behind, present, undashed, free⟩
    exact ⟨behind, same.trans present, undashed, mt value.1 free⟩

/-- A value is expected behind an option that is not a value itself. -/
theorem isValue_append_singleton :
    IsValue (front ++ [argument]) (front ++ [argument]).length ↔
      0 < front.length ∧ argument ∈ valueOptions ∧ ¬ IsValue front front.length := by
  rw [List.length_append, List.length_singleton, IsValue,
    isValue_append (Nat.le_refl front.length), List.getElem?_concat_length]
  simp [valueOptions]

/-- One more argument is positional itself, or the call has no positional argument that was
not there before. -/
theorem positional_append_singleton
    (positional : Positional (front ++ [argument]) place word) :
    Positional front place word ∨
      argument.toList.head? ≠ some '-' ∧ ¬ IsValue front front.length := by
  have bound : place < (front ++ [argument]).length :=
    (List.getElem?_eq_some_iff.1 positional.present).1
  rw [List.length_append, List.length_singleton] at bound
  rcases Nat.lt_succ_iff_lt_or_eq.1 bound with earlier | rfl
  · exact .inl ((positional_append earlier).1 positional)
  · have last : argument = word := by
      simpa only [List.getElem?_concat_length, Option.some.injEq] using positional.present
    have free := mt (isValue_append (Nat.le_refl front.length)).2 positional.free
    exact .inr ⟨last ▸ positional.undashed, free⟩

/-- One more argument that looks like an option is not positional. -/
theorem not_positional_append_dashed (none : ¬ Positional front place word)
    (dashed : isDashed argument = true) : ¬ Positional (front ++ [argument]) place word := by
  intro positional
  rcases positional_append_singleton positional with earlier | ⟨undashed, -⟩
  · exact none earlier
  · exact undashed (isDashed_iff.1 dashed)

end Front

/-- A call has at most one leading argument. -/
theorem Leading.unique {call : List String} {place another : Nat} {word other : String}
    (leading : Leading call place word) (again : Leading call another other) :
    place = another ∧ word = other := by
  have same : place = another := by
    rcases Nat.lt_trichotomy place another with before | same | behind
    · exact absurd leading.positional (again.first place before word)
    · exact same
    · exact absurd again.positional (leading.first another behind other)
  subst same
  exact ⟨rfl, Option.some.inj (leading.positional.present.symm.trans again.positional.present)⟩

/-! ## The steps of the scan -/

section Steps

variable {argument : String} {rest : List String}

theorem isDashed_of_mem_valueOptions (takes : argument ∈ valueOptions) :
    isDashed argument = true := by
  simp only [valueOptions, List.mem_cons, List.not_mem_nil, or_false] at takes
  rcases takes with rfl | rfl <;> decide

theorem insertCommand_flag (plain : argument ∉ valueOptions) (dashed : isDashed argument = true) :
    insertCommand (argument :: rest) = argument :: insertCommand rest := by
  rw [insertCommand.eq_def]
  simp only [if_neg plain, if_pos dashed]

theorem insertCommand_valued (takes : argument ∈ valueOptions) (value : String) :
    insertCommand (argument :: value :: rest) = argument :: value :: insertCommand rest := by
  rw [insertCommand, if_pos takes]

theorem insertCommand_waiting (takes : argument ∈ valueOptions) :
    insertCommand [argument] = [argument] := by
  rw [insertCommand, if_pos takes]

theorem insertCommand_word (undashed : isDashed argument = false) :
    insertCommand (argument :: rest) =
      if argument ∈ commandWords then argument :: rest
      else defaultCommand :: argument :: rest := by
  have plain : argument ∉ valueOptions := by
    intro takes
    rw [isDashed_of_mem_valueOptions takes] at undashed
    exact Bool.noConfusion undashed
  rw [insertCommand.eq_def]
  simp only [if_neg plain, undashed, Bool.false_eq_true, if_false]

end Steps

/-! ## The arguments in front of the leading one -/

/-- The name of the program and options behind it, those that take a value with their value. -/
inductive Passed : List String → Prop
  | program (name : String) : Passed [name]
  | flag {front : List String} {argument : String} (passed : Passed front)
      (plain : argument ∉ valueOptions) (dashed : isDashed argument = true) :
      Passed (front ++ [argument])
  | valued {front : List String} {option : String} (passed : Passed front)
      (takes : option ∈ valueOptions) (value : String) : Passed (front ++ [option] ++ [value])

namespace Passed

variable {front : List String} {place : Nat} {word : String}

theorem length_pos (passed : Passed front) : 0 < front.length := by
  cases passed with
  | program name => exact Nat.zero_lt_one
  | flag | valued => simp

/-- No value is expected behind options that have theirs. -/
theorem free (passed : Passed front) : ¬ IsValue front front.length := by
  induction passed with
  | program name => exact fun value => Nat.lt_irrefl 0 value.1
  | flag passed plain dashed ih =>
      exact fun value => plain (isValue_append_singleton.1 value).2.1
  | valued passed takes value ih =>
      -- the value is one itself, so it asks for none even if it is spelled like an option
      intro again
      refine (isValue_append_singleton.1 again).2.2 ?_
      exact isValue_append_singleton.2 ⟨passed.length_pos, takes, ih⟩

/-- No option is positional, and the value of one is not either. -/
theorem not_positional (passed : Passed front) : ¬ Positional front place word := by
  induction passed with
  | program name =>
      intro positional
      have bound := (List.getElem?_eq_some_iff.1 positional.present).1
      exact Nat.lt_irrefl 0 (Nat.lt_of_lt_of_le positional.behind (Nat.le_of_lt_succ bound))
  | flag passed plain dashed ih => exact not_positional_append_dashed ih dashed
  | valued passed takes value ih =>
      have option := not_positional_append_dashed ih (isDashed_of_mem_valueOptions takes)
      intro positional
      rcases positional_append_singleton positional with earlier | ⟨-, free⟩
      · exact option earlier
      · exact free (isValue_append_singleton.2 ⟨passed.length_pos, takes, passed.free⟩)

/-- A word that does not look like an option leads the call behind passed arguments. -/
theorem leading (passed : Passed front) (undashed : isDashed word = false)
    (back : List String) : Leading (front ++ word :: back) front.length word where
  positional := {
    behind := passed.length_pos
    present := by simp
    undashed := fun dashed => by simp [isDashed_iff.2 dashed] at undashed
    free := mt (isValue_append (Nat.le_refl front.length)).1 passed.free }
  first := fun _ before _ => mt (positional_append before).1 passed.not_positional

/-- Passed arguments stay in front of the command. -/
theorem withCommand_append (passed : Passed front) (rest : List String) :
    withCommand (front ++ rest) = front ++ insertCommand rest := by
  induction passed generalizing rest with
  | program name => rfl
  | flag passed plain dashed ih =>
      rw [List.append_assoc, List.append_assoc, ih, List.singleton_append, List.singleton_append,
        insertCommand_flag plain dashed]
  | valued passed takes value ih =>
      simp only [List.append_assoc, ih, List.cons_append, List.nil_append,
        insertCommand_valued takes]

end Passed

/-! ## What a call consists of -/

/-- A call is empty, or all of it is passed, or only the value of its last option is missing,
or a word leads it. -/
inductive Shape : List String → Prop
  | empty : Shape []
  | passed {call : List String} (passed : Passed call) : Shape call
  | waiting {front : List String} {option : String} (passed : Passed front)
      (takes : option ∈ valueOptions) : Shape (front ++ [option])
  | led {front : List String} {word : String} (passed : Passed front)
      (undashed : isDashed word = false) (back : List String) :
      Shape (front ++ word :: back)

/-- Each step of the scan passes an option, with its value if it takes one, or stops. -/
theorem Passed.shape {front : List String} (passed : Passed front) (rest : List String) :
    Shape (front ++ rest) := by
  -- along the scan: what is passed grows at its end by what the step takes from the rest
  fun_induction insertCommand rest generalizing front with
  | case1 => exact .passed (by rwa [List.append_nil])
  | case2 option takes => exact .waiting passed takes
  | case3 option takes value others ih =>
      have further := ih (passed.valued takes value)
      rwa [List.append_assoc, List.append_assoc] at further
  | case4 argument rest plain dashed ih =>
      have further := ih (passed.flag plain dashed)
      rwa [List.append_assoc] at further
  | case5 word rest plain undashed command => exact .led passed (by simpa using undashed) rest
  | case6 word rest plain undashed command => exact .led passed (by simpa using undashed) rest

theorem shape (call : List String) : Shape call := by
  cases call with
  | nil => exact .empty
  | cons name arguments => exact (Passed.program name).shape arguments

/-! ## What becomes of a call -/

section Call

variable {call : List String} {place : Nat} {word : String}

/-- A call is left as it is if no other word than a command leads it, and else the default
command is put in front of the leading word and leads the new call. -/
theorem withCommand_cases (call : List String) :
    (withCommand call = call ∧ ∀ place word, Leading call place word → word ∈ commandWords) ∨
    ∃ front word back, call = front ++ word :: back ∧ Leading call front.length word ∧
      word ∉ commandWords ∧ withCommand call = front ++ defaultCommand :: word :: back ∧
      Leading (withCommand call) front.length defaultCommand := by
  cases shape call with
  | empty =>
      refine .inl ⟨rfl, fun place word leading => ?_⟩
      exact absurd leading.positional.present (by simp)
  | passed passed =>
      refine .inl ⟨?_, fun place word leading => ?_⟩
      · simpa only [List.append_nil, insertCommand] using passed.withCommand_append []
      · exact absurd leading.positional passed.not_positional
  | waiting passed takes =>
      refine .inl ⟨?_, fun place word leading => ?_⟩
      · rw [passed.withCommand_append, insertCommand_waiting takes]
      · exact absurd leading.positional
          (not_positional_append_dashed passed.not_positional (isDashed_of_mem_valueOptions takes))
  | @led front word passed undashed back =>
      have leading := passed.leading undashed back
      have scanned := passed.withCommand_append (word :: back)
      rw [insertCommand_word undashed] at scanned
      by_cases command : word ∈ commandWords
      · rw [if_pos command] at scanned
        refine .inl ⟨scanned, fun place other again => ?_⟩
        exact (leading.unique again).2 ▸ command
      · rw [if_neg command] at scanned
        refine .inr ⟨front, word, back, rfl, leading, command, scanned, ?_⟩
        rw [scanned]
        exact passed.leading (by decide) (word :: back)

/-- A call that a command leads is left as it is. -/
theorem withCommand_eq_self
    (commands : ∀ place word, Leading call place word → word ∈ commandWords) :
    withCommand call = call := by
  rcases withCommand_cases call with ⟨same, -⟩ | ⟨front, word, back, -, leading, other, -⟩
  · exact same
  · exact absurd (commands front.length word leading) other

/-- Only a command leads a call with the command in its place. -/
theorem leading_withCommand (leading : Leading (withCommand call) place word) :
    word ∈ commandWords := by
  rcases withCommand_cases call with ⟨same, commands⟩ | ⟨front, other, back, -, -, -, -, inserted⟩
  · rw [same] at leading
    exact commands place word leading
  · rw [(leading.unique inserted).2]
    decide

/-- No argument is lost or moved. -/
theorem sublist_withCommand (call : List String) : call.Sublist (withCommand call) := by
  rcases withCommand_cases call with ⟨same, -⟩ | ⟨front, word, back, split, -, -, inserted, -⟩
  · exact same.symm ▸ List.Sublist.refl call
  · rw [inserted, split]
    exact (List.sublist_cons_self defaultCommand (word :: back)).append_left front

end Call

/-- **A call is left as it is, or one `run` is put right in front of its first positional
argument.** It is left exactly if that argument, where there is one, is a command already. No
argument is lost or moved, only a command leads the result, and to look at it again changes
nothing. -/
theorem withCommand_conservative (call : List String) :
    ((withCommand call = call ∧
        ∀ place word, Leading call place word → word ∈ ["run", "tree", "test", "help"]) ∨
      ∃ front word back, call = front ++ word :: back ∧ Leading call front.length word ∧
        word ∉ ["run", "tree", "test", "help"] ∧
        withCommand call = front ++ "run" :: word :: back ∧
        Leading (withCommand call) front.length "run") ∧
    call.Sublist (withCommand call) ∧
    (∀ place word, Leading (withCommand call) place word →
      word ∈ ["run", "tree", "test", "help"]) ∧
    withCommand (withCommand call) = withCommand call :=
  ⟨withCommand_cases call, sublist_withCommand call, fun _ _ leading => leading_withCommand leading,
    withCommand_eq_self fun _ _ leading => leading_withCommand leading⟩

/-- The second `--config` is the value of the first one and takes none. -/
example : withCommand ["inline", "--config", "--config", "-v", "doc.md"] =
    ["inline", "--config", "--config", "-v", "run", "doc.md"] := by
  decide

end Transclusion.CommandLine
