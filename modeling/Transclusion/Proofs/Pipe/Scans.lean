import Transclusion.Proofs.Pipe.Seam

/-!
# Reading across a bar

A pipe expression is read by scanning it part by part, each scan for the delimiters of the
name or argument that is due and on from where the scan before it stopped. `scansFrom` lists
the scans: what each of them passed and the delimiter at which it stopped, or none if it
reached the end of the text. Only a text that ends in a delimiter has no scan that reaches
its end, since nothing is scanned where nothing is left.

This tells when reading is a homomorphism at a bar: the segments before the bar and those
behind it are read as if they stood alone exactly if the last scan of the text before the bar
reaches its end and the bar is not escaped (`parse_append_bar_iff`).
-/

set_option autoImplicit false

namespace Transclusion

namespace Pipe

/-! ## Scans -/

/-- A scan of a text for the delimiters of one role. -/
structure Scan where
  role : Role
  /-- What was passed. -/
  part : List Char
  /-- Where the scan stopped; nothing at the end of the text. -/
  delimiter : Option Char
deriving DecidableEq, Repr

/-- The piece that is read from a scan. -/
def Scan.entry (scan : Scan) : Role × String :=
  (scan.role, piece scan.role.delimiters scan.part)

/-- The scans of a text, the first of them in a given role. -/
def scansFrom (role : Role) (input : List Char) : List Scan :=
  if input = [] then []
  else
    match _ : cut role.delimiters input with
    | (part, none) => [⟨role, part, none⟩]
    | (part, some (delimiter, rest)) =>
        ⟨role, part, some delimiter⟩ :: scansFrom (.behind delimiter) rest
termination_by input.length
decreasing_by exact cut_length_lt ‹_›

theorem scansFrom_nil (role : Role) : scansFrom role [] = [] := by
  rw [scansFrom, if_pos rfl]

theorem scansFrom_of_cut_none (role : Role) {input part : List Char} (nonempty : input ≠ [])
    (result : cut role.delimiters input = (part, none)) :
    scansFrom role input = [⟨role, part, none⟩] := by
  rw [scansFrom, if_neg nonempty]
  split <;> simp_all

theorem scansFrom_of_cut_some (role : Role) {input part rest : List Char} {delimiter : Char}
    (result : cut role.delimiters input = (part, some (delimiter, rest))) :
    scansFrom role input = ⟨role, part, some delimiter⟩ :: scansFrom (.behind delimiter) rest := by
  rw [scansFrom, if_neg (ne_nil_of_cut result)]
  split <;> simp_all

/-- The names and arguments of a chain are read from the scans, one from each. -/
theorem entries_readSegments (input : List Char) :
    (readSegments input).flatMap Segment.entries = (scansFrom .name input).map Scan.entry := by
  have each (role : Role) : entriesFrom role input = (scansFrom role input).map Scan.entry := by
    fun_induction scansFrom role input with
    | case1 role => exact entriesFrom_nil role
    | case2 role input nonempty part result => exact entriesFrom_of_cut_none role nonempty result
    | case3 role input nonempty part delimiter rest result ih =>
        rw [entriesFrom_of_cut_some role result, ih]
        rfl
  rw [← entriesFrom_name, each]

/-- The last scan of a text reaches its end. -/
def ReachesEnd (role : Role) (input : List Char) : Prop :=
  ∃ scan ∈ (scansFrom role input).getLast?, scan.delimiter = none

theorem reachesEnd_of_cut_some (role : Role) {input part rest : List Char} {delimiter : Char}
    (result : cut role.delimiters input = (part, some (delimiter, rest))) :
    ReachesEnd role input ↔ ReachesEnd (.behind delimiter) rest := by
  rw [ReachesEnd, ReachesEnd, scansFrom_of_cut_some role result, List.getLast?_cons]
  cases (scansFrom (.behind delimiter) rest).getLast? with
  | none => simp
  | some scan => simp

/-- The last scan reaches the end exactly if something is left behind the last delimiter. -/
theorem reachesEnd_iff (role : Role) (input : List Char) :
    ReachesEnd role input ↔ (lastPart role input).2 ≠ [] := by
  fun_induction lastPart role input with
  | case1 role input part result =>
      have same := eq_of_cut_none result
      subst same
      by_cases nonempty : part = []
      · subst nonempty
        rw [ReachesEnd, scansFrom_nil]
        simp
      · rw [ReachesEnd, scansFrom_of_cut_none role nonempty result]
        simp [nonempty]
  | case2 role input part delimiter rest result ih =>
      rw [reachesEnd_of_cut_some role result, ih]

/-! ## The end of a text -/

/-- A cut loses nothing. -/
theorem append_of_cut {delimiters input part rest : List Char} {delimiter : Char}
    (result : cut delimiters input = (part, some (delimiter, rest))) :
    part ++ delimiter :: rest = input := by
  fun_induction cut delimiters input generalizing part with
  | case1 => cases result
  | case2 char others _ inside behind inner ih =>
      cases result
      rw [List.cons_append, List.cons_append, ih inner]
  | case3 char others _ inside behind inner ih =>
      cases result
      rw [List.cons_append, ih inner]
  | case4 char others =>
      cases result
      rfl
  | case5 char others _ _ inside behind inner ih =>
      cases result
      rw [List.cons_append, ih inner]

/-- A text ends with what stands behind its last delimiter. -/
theorem lastPart_suffix (role : Role) (input : List Char) : (lastPart role input).2 <:+ input := by
  fun_induction lastPart role input with
  | case1 role input part result =>
      exact ⟨[], eq_of_cut_none result⟩
  | case2 role input part delimiter rest result ih =>
      apply ih.trans
      exact ⟨part ++ [delimiter], by simpa using append_of_cut result⟩

/-- A text is complete if its last scan reaches its end and meets no backslash there. -/
theorem complete_iff {input : List Char} :
    Complete input ↔
      input ≠ [] ∧ input.getLast? ≠ some '\\' ∧ ReachesEnd .name input := by
  obtain ⟨front, whole⟩ := lastPart_suffix .name input
  have last (filled : (lastPart .name input).2 ≠ []) :
      (lastPart .name input).2.getLast? = input.getLast? := by
    conv => rhs; rw [← whole]
    exact (List.getLast?_append_of_ne_nil front filled).symm
  constructor
  · intro complete
    have filled := complete.filled
    refine ⟨?_, last filled ▸ complete.noBackslash, (reachesEnd_iff .name input).2 filled⟩
    rintro rfl
    exact filled (List.append_eq_nil_iff.1 whole).2
  · rintro ⟨-, noBackslash, reaches⟩
    have filled := (reachesEnd_iff .name input).1 reaches
    exact ⟨filled, (last filled).symm ▸ noBackslash⟩

/-! ## Reading across a bar -/

/-- Behind a text that is not complete nothing is read as it is read alone. -/
theorem complete_of_readSegments_append {input tail : List Char}
    (same : readSegments (input ++ '|' :: tail) = readSegments input ++ readSegments tail) :
    Complete input := by
  rw [readSegments_append_eq_iff, ← entriesFrom_name] at same
  by_contra incomplete
  rcases not_complete_iff.1 incomplete with empty | last
  · -- the bar ends an empty piece, so there is one entry more
    rw [empty, List.nil_append, entriesFrom_nil, List.nil_append, entriesFrom_bar] at same
    exact List.cons_ne_self _ _ same
  · obtain ⟨front, shape⟩ := List.getLast?_eq_some_iff.1 last
    have uncut := cut_lastPart .name input
    rw [shape] at same uncut
    exact entriesFrom_backslash_bar_ne uncut tail _ same

/-- **Reading is a homomorphism at a bar exactly if the last scan before the bar reaches it.**
The segments of a text, a bar and a further text are those of the two texts one after the
other if the first text is not empty, does not end in a backslash and is scanned to its end,
and otherwise they are not, whatever the further text is. -/
theorem parse_append_bar_iff (text other : String) :
    parse (text ++ "|" ++ other) = parse text ++ parse other ↔
      text ≠ "" ∧ text.toList.getLast? ≠ some '\\' ∧ ReachesEnd .name text.toList := by
  have written : (text ++ "|" ++ other).toList = text.toList ++ '|' :: other.toList := by
    simp
  have nonempty : text ≠ "" ↔ text.toList ≠ [] := by simp
  rw [parse, parse, parse, written, nonempty, ← complete_iff]
  constructor
  · exact complete_of_readSegments_append
  · intro complete
    exact readSegments_append_of_complete complete other.toList

end Pipe

end Transclusion
