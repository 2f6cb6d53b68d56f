import Transclusion.Proofs.Path.Components

/-!
# Normal forms of paths

Bringing components into normal form goes over them once and does one of three things with
each: it passes a point over, takes a name back with two points, or keeps the component
(`normalize_concat_cases`). What is kept is a root or none, then steps up, then names
(`IsNormal.exists_parts`). Such components are read from their own text again
(`IsNormal.components_render`).

The same is done with texts: a component is put behind a path, or the last one is cut off.
On the text of a normal form both do what they do to the components (`join_render`,
`parent?_render`), so a path that is tidied component by component is the text of the normal
form of its components (`tidy_eq_render`).
-/

set_option autoImplicit false

namespace Transclusion

namespace Path

/-- The text of a list of components. -/
def render : List PathComponent → String
  | .root :: rest => "/" ++ String.intercalate "/" (rest.map PathComponent.text)
  | list => String.intercalate "/" (list.map PathComponent.text)

/-- Takes one more component onto a reversed list of components, dropping
points and letting two points take back a name. -/
def advance (reversed : List PathComponent) (component : PathComponent) : List PathComponent :=
  match component, reversed with
  | .here, _ => reversed
  | .up, .name _ :: rest => rest
  | _, _ => component :: reversed

/-- The components without points and with as few steps up as possible. -/
def normalize (list : List PathComponent) : List PathComponent :=
  (list.foldl advance []).reverse

/-- **One more component is passed over, takes back a name or is kept.** -/
theorem normalize_concat_cases (list : List PathComponent) (component : PathComponent) :
    (component = .here ∧ normalize (list ++ [component]) = normalize list) ∨
    (component = .up ∧
      ∃ value, normalize list = normalize (list ++ [component]) ++ [.name value]) ∨
    (component ≠ .here ∧
      (component = .up → ∀ value, (normalize list).getLast? ≠ some (.name value)) ∧
      normalize (list ++ [component]) = normalize list ++ [component]) := by
  simp only [normalize, List.foldl_append, List.foldl_cons, List.foldl_nil, List.getLast?_reverse]
  generalize list.foldl advance [] = reversed
  fun_cases advance reversed component with
  | case1 => exact .inl ⟨rfl, rfl⟩
  | case2 value rest => exact .inr (.inl ⟨rfl, value, by simp⟩)
  | case3 _ _ other bare =>
      refine .inr (.inr ⟨other, ?_, by simp⟩)
      rintro rfl value last
      obtain ⟨rest, rfl⟩ := List.head?_eq_some_iff.1 last
      exact bare value rest rfl rfl

/-- Points are passed over wherever they stand. -/
theorem normalize_append_here (front back : List PathComponent) :
    normalize (front ++ .here :: back) = normalize (front ++ back) := by
  simp only [normalize, List.foldl_append, List.foldl_cons]
  rfl

end Path

/-! ## Components in normal form -/

/-- A component that is found again between slashes. -/
structure PathComponent.Written (component : PathComponent) : Prop where
  solid : '/' ∉ component.text.toList
  read : ofPiece? component.text.toList = some component

theorem PathComponent.Written.text_ne_nil {component : PathComponent} (written : component.Written) :
    component.text.toList ≠ [] := by
  intro empty
  have read := written.read
  rw [empty] at read
  cases read

namespace Path

/-- Components in normal form: the root or nothing, then steps up, then names. -/
inductive IsNormal : List PathComponent → Prop
  | nothing : IsNormal []
  | root : IsNormal [.root]
  | up {list : List PathComponent} (normal : IsNormal list)
      (bare : ∀ value, list.getLast? ≠ some (.name value)) : IsNormal (list ++ [.up])
  | name {list : List PathComponent} {value : String} (normal : IsNormal list)
      (written : (PathComponent.name value).Written) : IsNormal (list ++ [.name value])

theorem written_up : PathComponent.up.Written := ⟨by decide, rfl⟩

namespace IsNormal

/-- What stands before a name is in normal form by itself, and the name is found again. -/
theorem of_concat_name {list : List PathComponent} {value : String}
    (normal : IsNormal (list ++ [.name value])) :
    IsNormal list ∧ (PathComponent.name value).Written := by
  generalize whole : list ++ [PathComponent.name value] = longer at normal
  cases normal with
  | nothing => simp at whole
  | root => simpa using congrArg List.getLast? whole
  | up => simpa using congrArg List.getLast? whole
  | name normal written =>
      obtain ⟨rfl, same⟩ := List.append_inj' whole rfl
      cases same
      exact ⟨normal, written⟩

/-- **The parts of a normal form.** -/
theorem exists_parts {list : List PathComponent} (normal : IsNormal list) :
    ∃ (root : List PathComponent) (ups : Nat) (names : List String),
      (root = [] ∨ root = [.root]) ∧
      list = root ++ (List.replicate ups .up ++ names.map .name) ∧
      ∀ value ∈ names, (PathComponent.name value).Written := by
  induction normal with
  | nothing => exact ⟨[], 0, [], .inl rfl, rfl, by simp⟩
  | root => exact ⟨[.root], 0, [], .inr rfl, rfl, by simp⟩
  | up normal bare ih =>
      obtain ⟨root, ups, names, kind, rfl, written⟩ := ih
      have unnamed : names = [] := by
        rcases List.eq_nil_or_concat' names with none | ⟨front, last, rfl⟩
        · exact none
        · refine absurd ?_ (bare last)
          simp
      subst unnamed
      exact ⟨root, ups + 1, [], kind, by simp [List.replicate_succ'], written⟩
  | @name _ value normal named ih =>
      obtain ⟨root, ups, names, kind, rfl, written⟩ := ih
      refine ⟨root, ups, names ++ [value], kind, by simp, ?_⟩
      intro other member
      rcases List.mem_append.1 member with earlier | last
      · exact written other earlier
      · rw [List.mem_singleton.1 last]
        exact named

theorem here_notMem {list : List PathComponent} (normal : IsNormal list) :
    PathComponent.here ∉ list := by
  induction normal with
  | nothing | root => simp
  | up _ _ ih | name _ _ ih => simpa using ih

/-- A normal form stays as it is. -/
theorem normalize_eq {list : List PathComponent} (normal : IsNormal list) :
    normalize list = list := by
  induction normal with
  | nothing => rfl
  | root => rfl
  | @up list normal bare ih =>
      rcases normalize_concat_cases list .up with ⟨⟨⟩, -⟩ | ⟨-, value, taken⟩ | ⟨-, -, kept⟩
      · rw [ih] at taken
        refine absurd ?_ (bare value)
        rw [taken, List.getLast?_concat]
      · rw [kept, ih]
  | @name list value normal written ih =>
      rcases normalize_concat_cases list (.name value) with ⟨⟨⟩, -⟩ | ⟨⟨⟩, -⟩ | ⟨-, -, kept⟩
      rw [kept, ih]

end IsNormal

/-- **Components behind a root or none are brought into normal form.** -/
theorem isNormal_normalize {root inner : List PathComponent} (kind : root = [] ∨ root = [.root])
    (proper : ∀ component ∈ inner, component = .here ∨ component.Written) :
    IsNormal (normalize (root ++ inner)) := by
  induction inner using List.reverseRecOn with
  | nil =>
      rcases kind with rfl | rfl
      · exact .nothing
      · exact .root
  | append_singleton inner component ih =>
      have normal := ih fun other member => proper other (List.mem_append_left _ member)
      have last := proper component (by simp)
      rw [← List.append_assoc]
      rcases normalize_concat_cases (root ++ inner) component with
        ⟨-, same⟩ | ⟨-, value, taken⟩ | ⟨further, bare, kept⟩
      · rw [same]
        exact normal
      · rw [taken] at normal
        exact normal.of_concat_name.1
      · have written := last.resolve_left further
        rw [kept]
        cases component with
        | root => exact absurd written.solid (by decide)
        | here => exact absurd rfl further
        | up => exact .up normal (bare rfl)
        | name value => exact .name normal written

/-! ## Reading a normal form again -/

/-- A piece that means something is the text of what it means. -/
theorem text_of_ofPiece? {piece : List Char} {component : PathComponent}
    (read : PathComponent.ofPiece? piece = some component) : component.text.toList = piece := by
  revert read
  fun_cases PathComponent.ofPiece? piece with
  | case1 => simp
  | case2 _ points =>
      rintro ⟨⟩
      exact points.symm
  | case3 =>
      rintro ⟨⟩
      exact String.toList_ofList

/-- The components of a path: a root or none, and behind it points and components that are
found again. -/
theorem exists_components (path : String) :
    ∃ root inner, (root = [] ∨ root = [.root]) ∧ components path = root ++ inner ∧
      ∀ component ∈ inner, component = .here ∨ component.Written := by
  cases split : front path.toList with
  | mk first body =>
      have written : ∀ component ∈ (pieces body).filterMap PathComponent.ofPiece?,
          component = .here ∨ component.Written := by
        intro component member
        obtain ⟨piece, inside, read⟩ := List.mem_filterMap.1 member
        have text := text_of_ofPiece? read
        refine .inr ⟨?_, ?_⟩
        · rw [text]
          exact slash_notMem_of_mem_pieces inside
        · rw [text, read]
      have kind := front_cases path.toList
      rw [split] at kind
      rw [components_of_front split]
      rcases kind with ⟨-, rfl⟩ | ⟨-, rfl | rfl⟩
      · exact ⟨[.root], _, .inr rfl, rfl, written⟩
      · exact ⟨[], _, .inl rfl, rfl, written⟩
      · refine ⟨[], .here :: (pieces body).filterMap PathComponent.ofPiece?, .inl rfl, rfl, ?_⟩
        rw [List.forall_mem_cons]
        exact ⟨.inl rfl, written⟩

/-- The components of a path have a normal form. -/
theorem isNormal_components (path : String) : IsNormal (normalize (components path)) := by
  obtain ⟨root, inner, kind, shape, proper⟩ := exists_components path
  rw [shape]
  exact isNormal_normalize kind proper

/-- The characters of components between slashes. -/
theorem toList_intercalate_text (list : List PathComponent) :
    (String.intercalate "/" (list.map PathComponent.text)).toList =
      ['/'].intercalate (list.map (·.text.toList)) := by
  simp [String.toList_intercalate, Function.comp_def]

section Rendering

variable {inner : List PathComponent}

theorem solid_of_written (written : ∀ component ∈ inner, component.Written) :
    ∀ piece ∈ inner.map (·.text.toList), '/' ∉ piece := by
  intro piece member
  obtain ⟨component, inside, rfl⟩ := List.mem_map.1 member
  exact (written component inside).solid

/-- Components between slashes are found again. -/
theorem filterMap_pieces_text (written : ∀ component ∈ inner, component.Written) :
    (pieces (['/'].intercalate (inner.map (·.text.toList)))).filterMap PathComponent.ofPiece? =
      inner := by
  rw [filterMap_pieces_intercalate (solid_of_written written), List.filterMap_map]
  calc inner.filterMap (PathComponent.ofPiece? ∘ (·.text.toList))
      = inner.filterMap some :=
        List.filterMap_congr fun component member => (written component member).read
    _ = inner := List.filterMap_some

/-- No piece is void at the end of components that are found again. -/
theorem dropVoidEnd_text (written : ∀ component ∈ inner, component.Written) :
    dropVoidEnd (inner.map (·.text.toList)) = inner.map (·.text.toList) := by
  rw [dropVoidEnd_eq_rdropWhile, List.rdropWhile_eq_self_iff]
  intro filled
  obtain ⟨component, inside, same⟩ := List.mem_map.1 (List.getLast_mem filled)
  rw [← same, ← ofPiece?_eq_none_iff, (written component inside).read]
  exact Option.some_ne_none component

/-- Nothing is taken off the front of components between slashes. -/
theorem front_text (written : ∀ component ∈ inner, component.Written) :
    front (['/'].intercalate (inner.map (·.text.toList))) =
      ([], ['/'].intercalate (inner.map (·.text.toList))) := by
  rw [front_eq_self_iff]
  cases inner with
  | nil => exact .inl rfl
  | cons component inner =>
      have read := (written component List.mem_cons_self).read
      refine .inr fun first member => ?_
      rw [pieces_intercalate (by simp) (solid_of_written written)] at member
      cases member
      rw [Bool.eq_false_iff, ne_eq, ← ofPiece?_eq_none_iff, read]
      exact Option.some_ne_none component

variable {root : List PathComponent} (kind : root = [] ∨ root = [.root])
include kind

theorem render_eq (written : ∀ component ∈ inner, component.Written) :
    render (root ++ inner) = String.join (root.map PathComponent.text) ++
      String.intercalate "/" (inner.map PathComponent.text) := by
  rcases kind with rfl | rfl
  · have relative : render inner = String.intercalate "/" (inner.map PathComponent.text) := by
      rw [render]
      rintro rest rfl
      exact absurd (written .root List.mem_cons_self).solid (by decide)
    rw [List.nil_append, relative]
    exact String.empty_append.symm
  · rfl

theorem front_render (written : ∀ component ∈ inner, component.Written) :
    front (render (root ++ inner)).toList =
      (root, ['/'].intercalate (inner.map (·.text.toList))) := by
  rw [render_eq kind written, String.toList_append, toList_intercalate_text]
  rcases kind with rfl | rfl
  · exact front_text written
  · rfl

/-- Components behind a root or none are read from their own text. -/
theorem components_render (written : ∀ component ∈ inner, component.Written) :
    components (render (root ++ inner)) = root ++ inner := by
  rw [components_of_front (front_render kind written), filterMap_pieces_text written]

variable {last : PathComponent}

/-- **The text before the last component is the text of the other components.** -/
theorem parent?_render (written : ∀ component ∈ inner ++ [last], component.Written) :
    parent? (render (root ++ (inner ++ [last]))) = some (render (root ++ inner)) := by
  have others := (List.forall_mem_append.1 written).1
  have cut : pieces (['/'].intercalate ((inner ++ [last]).map (·.text.toList))) =
      inner.map (·.text.toList) ++ [last.text.toList] := by
    rw [pieces_intercalate (by simp) (solid_of_written written), List.map_append]
    rfl
  have kept := dropVoidEnd_text written
  rw [List.map_append, List.map_singleton] at kept
  simp only [parent?, front_render kind written, cut, kept, List.reverse_append,
    List.reverse_singleton, List.singleton_append, List.reverse_reverse, dropVoidEnd_text others]
  rw [render_eq kind others]
  simp [Function.comp_def]

/-- The text of some components ends with the text of the last one. -/
theorem exists_render_concat (written : ∀ component ∈ inner ++ [last], component.Written) :
    ∃ front, render (root ++ (inner ++ [last])) = front ++ last.text := by
  rw [render_eq kind written, List.map_append, List.map_singleton]
  by_cases alone : inner.map PathComponent.text = []
  · exact ⟨_, by rw [alone, List.nil_append, String.intercalate_singleton]⟩
  · refine ⟨String.join (root.map PathComponent.text) ++
      (String.intercalate "/" (inner.map PathComponent.text) ++ "/"), ?_⟩
    rw [String.intercalate_append_of_ne_nil alone (by simp), String.intercalate_singleton,
      String.append_assoc, String.append_assoc, String.append_assoc]

/-- **A component behind the text of some components.** -/
theorem join_render (written : ∀ component ∈ inner ++ [last], component.Written) :
    join (render (root ++ inner)) last.text = render (root ++ (inner ++ [last])) := by
  obtain ⟨others, ending⟩ := List.forall_mem_append.1 written
  have relative : isAbsolute last.text = false := by
    rw [isAbsolute, beq_eq_false_iff_ne]
    exact fun slash => (ending last (.head _)).solid (List.mem_of_head? slash)
  rw [render_eq kind written, List.map_append, List.map_singleton]
  rcases List.eq_nil_or_concat' inner with rfl | ⟨init, before, rfl⟩
  · rcases kind with rfl | rfl
    · simp [render, join, String.join]
    · have root : render ([.root] ++ []) = "/" := rfl
      have slash : "/".toList.getLast? = some '/' := rfl
      rw [root, join, if_neg (by simp [relative]), if_pos slash, List.map_nil, List.nil_append,
        String.intercalate_singleton]
      rfl
  · -- the last component does not end with a slash
    have found := others before (by simp)
    obtain ⟨front, shape⟩ := exists_render_concat kind others
    have divided : (render (root ++ (init ++ [before]))).toList.getLast? ≠ some '/' := by
      rw [shape, String.toList_append, List.getLast?_append_of_ne_nil _ found.text_ne_nil]
      exact fun slash => found.solid (List.mem_of_getLast? slash)
    have present : render (root ++ (init ++ [before])) ≠ "" := by
      intro empty
      rw [shape, String.append_eq_empty_iff] at empty
      exact found.text_ne_nil (by simp [empty.2])
    rw [join, if_neg (by simp [present, relative]), if_neg divided, render_eq kind others,
      String.intercalate_append_of_ne_nil (by simp) (by simp), String.intercalate_singleton,
      String.append_assoc, String.append_assoc, String.append_assoc]

end Rendering

namespace IsNormal

/-- The components of a normal form behind its root are found again. -/
theorem exists_written {list : List PathComponent} (normal : IsNormal list) :
    ∃ root inner, (root = [] ∨ root = [.root]) ∧ list = root ++ inner ∧
      ∀ component ∈ inner, component.Written := by
  obtain ⟨root, ups, names, kind, rfl, named⟩ := normal.exists_parts
  refine ⟨root, _, kind, rfl, fun component member => ?_⟩
  rcases List.mem_append.1 member with up | name
  · rw [List.eq_of_mem_replicate up]
    exact written_up
  · obtain ⟨value, inside, rfl⟩ := List.mem_map.1 name
    exact named value inside

/-- **A normal form is read from its own text.** -/
theorem components_render {list : List PathComponent} (normal : IsNormal list) :
    components (render list) = list := by
  obtain ⟨root, inner, kind, rfl, written⟩ := normal.exists_written
  exact Path.components_render kind written

end IsNormal

/-! ## Tidying a text -/

theorem isSome_fileName? (path : String) :
    (fileName? path).isSome = true ↔ ∃ value, (components path).getLast? = some (.name value) := by
  rw [fileName?]
  split
  · next value last => exact iff_of_true rfl ⟨value, last⟩
  · next unnamed => exact iff_of_false (by simp) fun ⟨value, last⟩ => unnamed value last

namespace IsNormal

variable {list : List PathComponent} (normal : IsNormal list)
include normal

theorem join_render {last : PathComponent} (ending : last.Written) :
    join (render list) last.text = render (list ++ [last]) := by
  obtain ⟨root, inner, kind, rfl, written⟩ := normal.exists_written
  rw [List.append_assoc]
  exact Path.join_render kind
    (List.forall_mem_append.2 ⟨written, List.forall_mem_singleton.2 ending⟩)

theorem parent?_render {last : PathComponent} (ending : last.Written) :
    parent? (render (list ++ [last])) = some (render list) := by
  obtain ⟨root, inner, kind, rfl, written⟩ := normal.exists_written
  rw [List.append_assoc]
  exact Path.parent?_render kind
    (List.forall_mem_append.2 ⟨written, List.forall_mem_singleton.2 ending⟩)

/-- Two points behind a normal form without a name at its end. -/
theorem push_up (bare : ∀ value, list.getLast? ≠ some (.name value)) :
    push (render list) .up = render (list ++ [.up]) := by
  have unnamed : ¬ (fileName? (render list)).isSome = true := by
    rw [isSome_fileName?, normal.components_render]
    exact fun ⟨value, last⟩ => bare value last
  rw [push, if_neg unnamed]
  exact normal.join_render written_up

/-- Two points behind a normal form with a name at its end. -/
theorem push_up_name {value : String} (named : (PathComponent.name value).Written) :
    push (render (list ++ [.name value])) .up = render list := by
  have longer : IsNormal (list ++ [.name value]) := .name normal named
  have ends : (fileName? (render (list ++ [.name value]))).isSome = true := by
    rw [isSome_fileName?, longer.components_render]
    exact ⟨value, List.getLast?_concat⟩
  rw [push, if_pos ends, normal.parent?_render named]
  rfl

end IsNormal

/-- **Tidying component by component keeps the text of a normal form.** -/
theorem foldl_push {root inner : List PathComponent} (kind : root = [] ∨ root = [.root])
    (proper : ∀ component ∈ inner, component = .here ∨ component.Written) :
    (root ++ inner).foldl push "" = render (normalize (root ++ inner)) := by
  induction inner using List.reverseRecOn with
  | nil => rcases kind with rfl | rfl <;> rfl
  | append_singleton inner component ih =>
      have others := fun other member => proper other (List.mem_append_left [component] member)
      have last := proper component (by simp)
      have normal := isNormal_normalize kind others
      rw [← List.append_assoc, List.foldl_concat, ih others]
      rcases normalize_concat_cases (root ++ inner) component with
        ⟨rfl, same⟩ | ⟨rfl, value, taken⟩ | ⟨further, bare, kept⟩
      · rw [same]
        rfl
      · rw [taken] at normal ⊢
        obtain ⟨shorter, named⟩ := normal.of_concat_name
        exact shorter.push_up_name named
      · have written := last.resolve_left further
        rw [kept]
        cases component with
        | root => exact absurd written.solid (by decide)
        | here => exact absurd rfl further
        | up => exact normal.push_up (bare rfl)
        | name value => exact normal.join_render written

/-- **A tidied path is the text of the normal form of its components.** -/
theorem tidy_eq_render (path : String) : tidy path = render (normalize (components path)) := by
  obtain ⟨root, inner, kind, shape, proper⟩ := exists_components path
  rw [tidy, shape]
  exact foldl_push kind proper

end Path

end Transclusion
