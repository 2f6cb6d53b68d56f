import Transclusion.Proofs.Pipe.RoundTrip

/-!
# Text appended to a pipe expression

What becomes of a pipe expression when a bar and a further chain are written
behind it depends on how it ends. Reading goes through a text from left to right
and keeps nothing but the role of the piece it is at, a name or an argument, so
all that matters is the part behind the last delimiter (`lastPart`).

The pieces of a text, each with its role, form one list (`entriesFrom`), from
which the chain can be gathered again (`flatMap_entries_injective`). Text behind an
expression changes the entries from the last part on and no others
(`exists_entriesFrom_append`). This leaves three cases:

* the last part is empty: the bar ends an empty piece that was not read before;
* it ends in a backslash: the bar becomes a part of it, and it reads differently;
* otherwise the expression is complete, and the chains are read one after the
  other (`readSegments_append_of_complete`).

`readSegments_append_iff` puts them together.
-/

set_option autoImplicit false

namespace Transclusion

namespace Pipe

/-! ## Cutting and unescaping a text with a tail -/

section Tails

variable {delimiters : List Char}

theorem undelimited_cons {char : Char} (absent : char ∉ delimiters) (rest : List Char) :
    Undelimited delimiters (char :: rest) := by
  intro first member
  cases member
  exact absent

/-- A cut does not depend on what stands behind the delimiter. -/
theorem cut_append_of_some (delimiting : Delimiting delimiters) {input part rest : List Char}
    {delimiter : Char} (result : cut delimiters input = (part, some (delimiter, rest)))
    (tail : List Char) :
    cut delimiters (input ++ tail) = (part, some (delimiter, rest ++ tail)) := by
  fun_induction cut delimiters input generalizing part with
  | case1 => cases result
  | case2 char others member inside behind inner ih =>
      cases result
      rw [List.cons_append, List.cons_append, cut_backslash_cons member, ih inner]
  | case3 char others absent inside behind inner ih =>
      cases result
      have bare : Undelimited delimiters (char :: others ++ tail) := undelimited_cons absent _
      rw [List.cons_append, cut_backslash delimiting.backslash bare, ih inner]
  | case4 char others _ member =>
      have plain : char ≠ '\\' := fun same => delimiting.backslash (same ▸ member)
      cases result
      rw [List.cons_append, cut_cons_of_mem plain member]
  | case5 char others single absent inside behind inner ih =>
      cases result
      have plain : char ≠ '\\' := by
        rintro rfl
        cases others with
        | nil => cases inner
        | cons next others => exact single next others rfl rfl
      rw [List.cons_append, cut_cons_of_not_mem plain absent, ih inner]

/-- A text is cut at a delimiter. -/
theorem mem_of_cut {input part rest : List Char} {delimiter : Char}
    (result : cut delimiters input = (part, some (delimiter, rest))) : delimiter ∈ delimiters := by
  fun_induction cut delimiters input generalizing part with
  | case1 => cases result
  | case2 char others _ inside behind inner ih =>
      cases result
      exact ih inner
  | case3 char others _ inside behind inner ih =>
      cases result
      exact ih inner
  | case4 char others _ member =>
      cases result
      exact member
  | case5 char others _ _ inside behind inner ih =>
      cases result
      exact ih inner

/-- A text that is not cut is one part. -/
theorem eq_of_cut_none {input part : List Char} (result : cut delimiters input = (part, none)) :
    part = input := by
  fun_induction cut delimiters input generalizing part with
  | case1 =>
      cases result
      rfl
  | case2 char others _ inside behind inner ih =>
      cases result
      rw [ih inner]
  | case3 char others _ inside behind inner ih =>
      cases result
      rw [ih inner]
  | case4 => cases result
  | case5 char others _ _ inside behind inner ih =>
      cases result
      rw [ih inner]

/-- No part of a text that is not cut is cut. -/
theorem cut_none_of_append (delimiting : Delimiting delimiters) {front back part : List Char}
    (result : cut delimiters (front ++ back) = (part, none)) :
    cut delimiters front = (front, none) := by
  cases inner : cut delimiters front with
  | mk inside behind =>
      cases behind with
      | none => rw [eq_of_cut_none inner]
      | some found =>
          rw [cut_append_of_some delimiting inner] at result
          cases result

/-- A text that does not end in a backslash before a delimiter: what it means does not
depend on what follows it. -/
def Detached (delimiters text tail : List Char) : Prop :=
  text.getLast? = some '\\' → Undelimited delimiters tail

theorem Detached.of_cons {char : Char} {rest tail : List Char}
    (detached : Detached delimiters (char :: rest) tail) : Detached delimiters rest tail := by
  intro last
  refine detached ?_
  rw [List.getLast?_cons, last]
  rfl

/-- A cut passes over a text that is not cut. -/
theorem cut_append_of_none (delimiting : Delimiting delimiters) {input tail : List Char}
    (result : cut delimiters input = (input, none)) (detached : Detached delimiters input tail) :
    cut delimiters (input ++ tail) =
      (input ++ (cut delimiters tail).1, (cut delimiters tail).2) := by
  fun_induction cut delimiters input with
  | case1 => rfl
  | case2 char others member inside behind inner ih =>
      cases result
      rw [List.cons_append, List.cons_append, cut_backslash_cons member,
        ih inner detached.of_cons.of_cons]
      rfl
  | case3 char others absent inside behind inner ih =>
      cases result
      have bare : Undelimited delimiters (char :: others ++ tail) := undelimited_cons absent _
      rw [List.cons_append, cut_backslash delimiting.backslash bare, ih inner detached.of_cons]
      rfl
  | case4 => cases result
  | case5 char others single absent inside behind inner ih =>
      cases result
      by_cases plain : char = '\\'
      · subst plain
        cases others with
        | nil => exact cut_backslash delimiting.backslash (detached rfl)
        | cons next others => exact (single next others rfl rfl).elim
      · rw [List.cons_append, cut_cons_of_not_mem plain absent, ih inner detached.of_cons]
        rfl

/-- Unescaping goes over a text and then over its tail. -/
theorem unescape_append {input tail : List Char} (detached : Detached delimiters input tail) :
    unescape delimiters (input ++ tail) =
      unescape delimiters input ++ unescape delimiters tail := by
  fun_induction unescape delimiters input with
  | case1 => rfl
  | case2 char others member ih =>
      rw [List.cons_append, List.cons_append, unescape_backslash_cons member,
        ih detached.of_cons.of_cons]
      rfl
  | case3 char others absent ih =>
      have bare : Undelimited delimiters (char :: others ++ tail) := undelimited_cons absent _
      rw [List.cons_append, unescape_backslash bare, ih detached.of_cons]
      rfl
  | case4 char others single ih =>
      by_cases plain : char = '\\'
      · subst plain
        cases others with
        | nil => exact unescape_backslash (detached rfl)
        | cons next others => exact (single next others rfl rfl).elim
      · rw [List.cons_append, unescape_cons_of_ne plain, ih detached.of_cons]
        rfl

theorem detached_backslash_cons (delimiting : Delimiting delimiters) (text rest : List Char) :
    Detached delimiters text ('\\' :: rest) :=
  fun _ => undelimited_cons delimiting.backslash rest

/-- A text that is not cut is cut at the delimiter behind it, unless it ends in a
backslash. -/
theorem cut_append_delimiter (delimiting : Delimiting delimiters) {input tail : List Char}
    {delimiter : Char} (result : cut delimiters input = (input, none))
    (noBackslash : input.getLast? ≠ some '\\') (member : delimiter ∈ delimiters) :
    cut delimiters (input ++ delimiter :: tail) = (input, some (delimiter, tail)) := by
  have plain : delimiter ≠ '\\' := fun same => delimiting.backslash (same ▸ member)
  rw [cut_append_of_none delimiting result fun last => absurd last noBackslash,
    cut_cons_of_mem plain member, List.append_nil]

/-- A delimiter behind a backslash is passed over with the text that it ends. -/
theorem cut_backslash_delimiter (delimiting : Delimiting delimiters) {input part tail : List Char}
    {delimiter : Char} (result : cut delimiters (input ++ ['\\']) = (part, none))
    (member : delimiter ∈ delimiters) :
    cut delimiters (input ++ '\\' :: delimiter :: tail) =
      (input ++ '\\' :: delimiter :: (cut delimiters tail).1, (cut delimiters tail).2) := by
  rw [cut_append_of_none delimiting (cut_none_of_append delimiting result)
    (detached_backslash_cons delimiting input _), cut_backslash_cons member]

/-- A part that ends in a backslash reads differently with a delimiter behind it. -/
theorem piece_backslash_delimiter_ne (delimiting : Delimiting delimiters)
    {input tail : List Char} {delimiter : Char} (member : delimiter ∈ delimiters) :
    piece delimiters (input ++ '\\' :: delimiter :: tail) ≠
      piece delimiters (input ++ ['\\']) := by
  have solid : Text.isBlank '\\' = false := by decide
  have start (rest : List Char) : Text.trimStart (input ++ '\\' :: rest) =
      Text.trimStart input ++ '\\' :: rest := by
    rw [Text.trimStart, List.dropWhile_append]
    split
    · next empty =>
        rw [List.isEmpty_iff] at empty
        rw [Text.trimStart, empty, List.dropWhile_cons_of_neg (by simp [solid])]
        rfl
    · rfl
  obtain ⟨kept, long⟩ := Text.exists_trimEnd_append_cons (Text.trimStart input ++ ['\\']) tail
    (delimiting.notBlank delimiter member)
  have short : Text.trimEnd (Text.trimStart input ++ ['\\']) = Text.trimStart input ++ ['\\'] :=
    List.rdropWhile_concat_neg Text.isBlank _ _ (by simp [solid])
  rw [List.append_assoc, List.append_assoc, List.singleton_append, List.singleton_append] at long
  intro same
  have apart (rest : List Char) := unescape_append
    (detached_backslash_cons delimiting (Text.trimStart input) rest)
  rw [piece_eq_iff, piece, String.toList_ofList, Text.trim, Text.trim, start, start, long, short,
    apart, apart, unescape_backslash_cons member] at same
  obtain ⟨rfl, -⟩ := List.cons.inj (List.append_cancel_left same)
  exact delimiting.backslash member

end Tails

/-! ## Entries -/

/-- What a piece of a text is read as. -/
inductive Role where
  | name
  | argument
deriving DecidableEq, Repr

namespace Role

/-- The delimiters that may end a piece. -/
def delimiters : Role → List Char
  | .name => nameDelimiters
  | .argument => valueDelimiters

/-- What the piece behind a delimiter is read as. -/
def behind (delimiter : Char) : Role :=
  if delimiter = '|' then .name else .argument

theorem delimiting (role : Role) : Delimiting role.delimiters := by
  cases role with
  | name => exact delimiting_nameDelimiters
  | argument => exact delimiting_valueDelimiters

theorem bar_mem (role : Role) : '|' ∈ role.delimiters := by
  cases role <;> decide

end Role

/-- The pieces of a text, the first of them in a given role. -/
def entriesFrom (role : Role) (input : List Char) : List (Role × String) :=
  if input = [] then []
  else
    match _ : cut role.delimiters input with
    | (part, none) => [(role, piece role.delimiters part)]
    | (part, some (delimiter, rest)) =>
        (role, piece role.delimiters part) :: entriesFrom (.behind delimiter) rest
termination_by input.length
decreasing_by exact cut_length_lt ‹_›

theorem entriesFrom_nil (role : Role) : entriesFrom role [] = [] := by
  rw [entriesFrom, if_pos rfl]

theorem entriesFrom_of_cut_none (role : Role) {input part : List Char} (nonempty : input ≠ [])
    (result : cut role.delimiters input = (part, none)) :
    entriesFrom role input = [(role, piece role.delimiters part)] := by
  rw [entriesFrom, if_neg nonempty]
  split <;> simp_all

theorem entriesFrom_of_cut_some (role : Role) {input part rest : List Char} {delimiter : Char}
    (result : cut role.delimiters input = (part, some (delimiter, rest))) :
    entriesFrom role input =
      (role, piece role.delimiters part) :: entriesFrom (.behind delimiter) rest := by
  rw [entriesFrom, if_neg (ne_nil_of_cut result)]
  split <;> simp_all

/-- The first entry is read from the part before the first delimiter. -/
theorem head?_entriesFrom (role : Role) {input : List Char} (nonempty : input ≠ []) :
    (entriesFrom role input).head? =
      some (role, piece role.delimiters (cut role.delimiters input).1) := by
  rw [entriesFrom, if_neg nonempty]
  split <;> simp_all

/-- Every piece that is read is trimmed. -/
theorem trimmed_of_mem_entriesFrom {role : Role} {input : List Char} {entry : Role × String}
    (member : entry ∈ entriesFrom role input) : Text.Trimmed entry.2.toList := by
  fun_induction entriesFrom role input with
  | case1 => cases member
  | case2 role =>
      rw [List.mem_singleton] at member
      exact trimmed_of_piece_eq role.delimiting (congrArg Prod.snd member).symm
  | case3 role _ _ _ _ _ _ ih =>
      rcases List.mem_cons.1 member with rfl | later
      · exact trimmed_of_piece_eq role.delimiting rfl
      · exact ih later

end Pipe

/-- The name and the arguments of a segment with their roles. -/
def Segment.entries (segment : Segment) : List (Pipe.Role × String) :=
  (.name, segment.name) :: segment.args.map (.argument, ·)

namespace Pipe

theorem entriesFrom_argument (input : List Char) :
    entriesFrom .argument input =
      (readArgs input).1.map (.argument, ·) ++ entriesFrom .name (readArgs input).2 := by
  fun_induction readArgs input with
  | case1 =>
      rw [entriesFrom_nil, entriesFrom_nil]
      rfl
  | case2 input nonempty part result =>
      rw [entriesFrom_of_cut_none .argument nonempty result, entriesFrom_nil]
      rfl
  | case3 input nonempty part rest result =>
      rw [entriesFrom_of_cut_some .argument result]
      rfl
  | case4 input nonempty part delimiter rest result other others behind inner ih =>
      rw [inner] at ih
      have role : Role.behind delimiter = .argument := if_neg other
      rw [entriesFrom_of_cut_some .argument result, role, ih]
      rfl

/-- The entries of a text are those of the chain that it denotes. -/
theorem entriesFrom_name (input : List Char) :
    entriesFrom .name input = (readSegments input).flatMap Segment.entries := by
  fun_induction readSegments input with
  | case1 => rw [entriesFrom_nil, List.flatMap_nil]
  | case2 input nonempty part result =>
      rw [entriesFrom_of_cut_none .name nonempty result]
      rfl
  | case3 input nonempty part rest args behind inner result ih =>
      have role : Role.behind ':' = .argument := rfl
      rw [entriesFrom_of_cut_some .name result, role, entriesFrom_argument, inner, ih]
      rfl
  | case4 input nonempty part delimiter rest result other ih =>
      have bar : delimiter = '|' := (List.mem_pair.1 (mem_of_cut result)).resolve_left other
      have role : Role.behind delimiter = .name := if_pos bar
      rw [entriesFrom_of_cut_some .name result, role, ih]
      rfl

/-- Gathers entries into a chain: the arguments before the first name, and the
segments from there on. -/
def gather : List (Role × String) → List String × List Segment
  | [] => ([], [])
  | (.name, text) :: rest => ([], ⟨text, (gather rest).1⟩ :: (gather rest).2)
  | (.argument, text) :: rest => (text :: (gather rest).1, (gather rest).2)

theorem gather_map_argument (args : List String) (rest : List (Role × String)) :
    gather (args.map (.argument, ·) ++ rest) = (args ++ (gather rest).1, (gather rest).2) := by
  induction args with
  | nil => rfl
  | cons value args ih => rw [List.map_cons, List.cons_append, gather, ih, List.cons_append]

theorem gather_flatMap_entries (segments : List Segment) :
    gather (segments.flatMap Segment.entries) = ([], segments) := by
  induction segments with
  | nil => rfl
  | cons segment rest ih =>
      rw [List.flatMap_cons, Segment.entries, List.cons_append, gather, gather_map_argument, ih,
        List.append_nil]

/-- A chain is determined by its entries. -/
theorem flatMap_entries_injective :
    Function.Injective fun segments : List Segment => segments.flatMap Segment.entries := by
  intro left right same
  have gathered := congrArg gather same
  simp only [gather_flatMap_entries] at gathered
  exact (Prod.mk.inj gathered).2

/-- What is read from a text, by its entries. -/
theorem readSegments_eq_iff {input : List Char} {segments : List Segment} :
    readSegments input = segments ↔ entriesFrom .name input = segments.flatMap Segment.entries := by
  rw [entriesFrom_name]
  exact flatMap_entries_injective.eq_iff.symm

/-- All names and arguments of a chain that is read are trimmed. -/
theorem trimmed_of_mem_readSegments {input : List Char} {text : String}
    (member : text ∈ (readSegments input).flatMap Segment.pieces) : Text.Trimmed text.toList := by
  obtain ⟨segment, inside, piece⟩ := List.mem_flatMap.1 member
  have entry : ∃ role, (role, text) ∈ segment.entries := by
    rcases List.mem_cons.1 piece with rfl | argument
    · exact ⟨.name, List.mem_cons_self⟩
    · exact ⟨.argument, List.mem_cons_of_mem _ (List.mem_map_of_mem argument)⟩
  obtain ⟨role, entry⟩ := entry
  have among : (role, text) ∈ entriesFrom .name input := by
    rw [entriesFrom_name]
    exact List.mem_flatMap.2 ⟨segment, inside, entry⟩
  exact trimmed_of_mem_entriesFrom among

/-! ## The end of a text -/

/-- The part of a text behind its last delimiter, with the role it is read in. -/
def lastPart (role : Role) (input : List Char) : Role × List Char :=
  match _ : cut role.delimiters input with
  | (part, none) => (role, part)
  | (_, some (delimiter, rest)) => lastPart (.behind delimiter) rest
termination_by input.length
decreasing_by exact cut_length_lt ‹_›

/-- The last part of a text is not cut. -/
theorem cut_lastPart (role : Role) (input : List Char) :
    cut (lastPart role input).1.delimiters (lastPart role input).2 =
      ((lastPart role input).2, none) := by
  fun_induction lastPart role input with
  | case1 role input part result =>
      have same := eq_of_cut_none result
      subst same
      exact result
  | case2 _ _ _ _ _ _ ih => exact ih

/-- **What follows a text meets no more of it than its last part.** -/
theorem exists_entriesFrom_append (role : Role) (input : List Char) :
    ∃ front, ∀ tail, entriesFrom role (input ++ tail) =
      front ++ entriesFrom (lastPart role input).1 ((lastPart role input).2 ++ tail) := by
  fun_induction lastPart role input with
  | case1 role input part result =>
      have same := eq_of_cut_none result
      subst same
      exact ⟨[], fun tail => rfl⟩
  | case2 role input part delimiter rest result ih =>
      obtain ⟨front, entries⟩ := ih
      refine ⟨(role, piece role.delimiters part) :: front, fun tail => ?_⟩
      rw [entriesFrom_of_cut_some role (cut_append_of_some role.delimiting result tail),
        entries tail, List.cons_append]

/-- A text that nothing is missing from: it does not end in a delimiter, nor in a
backslash that waits for one. -/
structure Complete (input : List Char) : Prop where
  filled : (lastPart .name input).2 ≠ []
  noBackslash : (lastPart .name input).2.getLast? ≠ some '\\'

theorem not_complete_iff {input : List Char} :
    ¬ Complete input ↔
      (lastPart .name input).2 = [] ∨ (lastPart .name input).2.getLast? = some '\\' := by
  constructor
  · intro incomplete
    by_cases empty : (lastPart .name input).2 = []
    · exact .inl empty
    · exact .inr (Decidable.not_not.1 fun last => incomplete ⟨empty, last⟩)
  · rintro (empty | last) complete
    · exact complete.filled empty
    · exact complete.noBackslash last

/-- A bar behind a part that is not empty and does not end in a backslash ends it. -/
theorem entriesFrom_append_bar {role : Role} {part : List Char}
    (result : cut role.delimiters part = (part, none)) (filled : part ≠ [])
    (noBackslash : part.getLast? ≠ some '\\') (tail : List Char) :
    entriesFrom role (part ++ '|' :: tail) = entriesFrom role part ++ entriesFrom .name tail := by
  rw [entriesFrom_of_cut_some role
      (cut_append_delimiter role.delimiting result noBackslash role.bar_mem),
    entriesFrom_of_cut_none role filled result]
  rfl

/-- A bar ends an empty piece where nothing stands before it. -/
theorem entriesFrom_bar (role : Role) (tail : List Char) :
    entriesFrom role ('|' :: tail) = (role, "") :: entriesFrom .name tail := by
  rw [entriesFrom_of_cut_some role (cut_cons_of_mem (by decide) role.bar_mem tail)]
  cases role <;> rfl

/-- A bar behind a part that ends in a backslash changes the part. -/
theorem entriesFrom_backslash_bar_ne {role : Role} {part : List Char}
    (result : cut role.delimiters (part ++ ['\\']) = (part ++ ['\\'], none)) (tail : List Char)
    (others : List (Role × String)) :
    entriesFrom role (part ++ ['\\'] ++ '|' :: tail) ≠
      entriesFrom role (part ++ ['\\']) ++ others := by
  intro same
  have first := head?_entriesFrom role (List.append_ne_nil_of_right_ne_nil (part ++ ['\\'])
    (List.cons_ne_nil '|' tail))
  have bar : cut role.delimiters (part ++ ['\\'] ++ '|' :: tail) = _ :=
    List.append_assoc part ['\\'] _ ▸ cut_backslash_delimiter role.delimiting result role.bar_mem
  rw [same, entriesFrom_of_cut_none role (by simp) result, bar] at first
  have piece := (Prod.mk.inj (Option.some.inj first)).2
  exact piece_backslash_delimiter_ne role.delimiting role.bar_mem piece.symm

/-! ## A chain behind a text -/

/-- The segment that is read where nothing is written. -/
def blank : Segment := ⟨"", []⟩

/-- What follows a bar is added to what is read before it if that is so at the last part. -/
theorem readSegments_append_eq_iff (input tail : List Char) (segments : List Segment) :
    readSegments (input ++ '|' :: tail) = readSegments input ++ segments ↔
      entriesFrom (lastPart .name input).1 ((lastPart .name input).2 ++ '|' :: tail) =
        entriesFrom (lastPart .name input).1 (lastPart .name input).2 ++
          segments.flatMap Segment.entries := by
  obtain ⟨front, entries⟩ := exists_entriesFrom_append .name input
  have alone := entries []
  rw [List.append_nil, List.append_nil] at alone
  rw [readSegments_eq_iff, List.flatMap_append, ← entriesFrom_name, entries, alone,
    List.append_assoc, List.append_right_inj]

/-- **Behind a complete text a chain is read as it is read alone.** -/
theorem readSegments_append_of_complete {input : List Char} (complete : Complete input)
    (tail : List Char) :
    readSegments (input ++ '|' :: tail) = readSegments input ++ readSegments tail := by
  rw [readSegments_append_eq_iff, ← entriesFrom_name]
  exact entriesFrom_append_bar (cut_lastPart .name input) complete.filled complete.noBackslash tail

/-- Behind an empty piece a chain comes back with one segment less exactly if all its
segments are blank. -/
theorem blank_cons_readSegments_iff (segment : Segment) (rest : List Segment) :
    blank :: readSegments (render (segment :: rest)).toList = segment :: rest ↔
      ∀ other ∈ segment :: rest, other = blank := by
  induction rest generalizing segment with
  | nil =>
      rw [List.forall_mem_singleton, List.cons.injEq]
      constructor
      · rintro ⟨rfl, -⟩
        rfl
      · rintro rfl
        exact ⟨rfl, readSegments_nil⟩
  | cons next rest ih =>
      rw [List.forall_mem_cons, ← ih next, List.cons.injEq, eq_comm]
      refine and_congr_right ?_
      rintro rfl
      have bar : readSegments (render (blank :: next :: rest)).toList =
          blank :: readSegments (render (next :: rest)).toList := by
        rw [toList_render_cons_cons]
        exact readSegments_of_cut_bar (cut_cons_of_mem (by decide) (by decide) _)
      rw [bar]

/-- Where a piece is missing before the bar, an empty one is read in its place. It belongs
to the chain behind the bar only if it is a name and the chain is blank. -/
theorem entriesFrom_bar_iff (role : Role) (segment : Segment) (rest : List Segment) :
    entriesFrom role ('|' :: (render (segment :: rest)).toList) =
        (segment :: rest).flatMap Segment.entries ↔
      role = .name ∧ ∀ other ∈ segment :: rest, other = blank := by
  rw [entriesFrom_bar]
  cases role with
  | name =>
      rw [and_iff_right rfl, ← blank_cons_readSegments_iff, ← flatMap_entries_injective.eq_iff,
        entriesFrom_name]
      rfl
  | argument =>
      refine iff_of_false (fun same => ?_) fun ⟨role, _⟩ => by cases role
      cases same

/-- A last part that is empty or ends in a backslash keeps its entries with a chain behind
it only if it is an empty name and the chain is blank. -/
theorem entriesFrom_append_bar_iff {role : Role} {part : List Char}
    (result : cut role.delimiters part = (part, none))
    (ends : part = [] ∨ part.getLast? = some '\\') (segment : Segment) (rest : List Segment) :
    entriesFrom role (part ++ '|' :: (render (segment :: rest)).toList) =
        entriesFrom role part ++ (segment :: rest).flatMap Segment.entries ↔
      (role, part) = (.name, []) ∧ ∀ other ∈ segment :: rest, other = blank := by
  rcases ends with rfl | last
  · rw [entriesFrom_nil, List.nil_append, List.nil_append, entriesFrom_bar_iff, Prod.mk.injEq,
      and_iff_left rfl]
  · obtain ⟨front, rfl⟩ := List.getLast?_eq_some_iff.1 last
    refine iff_of_false (entriesFrom_backslash_bar_ne result _ _) fun both => ?_
    simp at both

/-- **A chain behind a bar is read as it was, and what stands before the bar too, exactly
if either the text before the bar is complete and the pieces of the chain are stable,
or a name is missing before the bar and the chain is blank.** -/
theorem readSegments_append_iff (input : List Char) (segment : Segment) (rest : List Segment) :
    readSegments (input ++ '|' :: (render (segment :: rest)).toList) =
        readSegments input ++ segment :: rest ↔
      (Complete input ∧ Stable ((segment :: rest).flatMap Segment.pieces)) ∨
        (lastPart .name input = (.name, []) ∧ ∀ other ∈ segment :: rest, other = blank) := by
  by_cases complete : Complete input
  · have filled : lastPart .name input ≠ (.name, []) :=
      fun same => complete.filled (congrArg Prod.snd same)
    rw [readSegments_append_of_complete complete, List.append_right_inj,
      readSegments_render_cons_iff, and_iff_right complete,
      or_iff_left fun both => filled both.1]
  · rw [readSegments_append_eq_iff, or_iff_right fun both => complete both.1]
    exact entriesFrom_append_bar_iff (cut_lastPart .name input) (not_complete_iff.1 complete)
      segment rest

end Pipe

end Transclusion
