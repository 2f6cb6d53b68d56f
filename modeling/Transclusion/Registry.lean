/-!
# Registries

A registry keeps values under names. Registering a value puts it in the place
of any other of that name; a look-up gives the value registered last and not
removed since (`find?_insert`, `find?_erase`).
-/

set_option autoImplicit false

namespace Transclusion

universe u

/-- Values under distinct names, the one registered last in front. -/
structure Registry (α : Type u) where
  entries : List (String × α)

namespace Registry

variable {α : Type u}

/-- The registry with nothing in it. -/
def empty : Registry α := ⟨[]⟩

instance : Inhabited (Registry α) := ⟨empty⟩

/-- The value under a name. -/
def find? (registry : Registry α) (name : String) : Option α :=
  registry.entries.lookup name

/-- Whether there is a value under a name. -/
def contains (registry : Registry α) (name : String) : Bool :=
  (registry.find? name).isSome

/-- Drops the value under a name. -/
def erase (registry : Registry α) (name : String) : Registry α :=
  ⟨registry.entries.filter (·.1 != name)⟩

/-- Drops the value under a name, and gives it back. -/
def remove (registry : Registry α) (name : String) : Option α × Registry α :=
  (registry.find? name, registry.erase name)

/-- Puts a value under a name. -/
def insert (registry : Registry α) (name : String) (value : α) : Registry α :=
  ⟨(name, value) :: (registry.erase name).entries⟩

/-- The names, the one registered last in front. -/
def names (registry : Registry α) : List String :=
  registry.entries.map Prod.fst

/-- The number of names. -/
def size (registry : Registry α) : Nat :=
  registry.entries.length

@[simp] theorem find?_empty (name : String) : (empty : Registry α).find? name = none := rfl

theorem lookup_cons_eq (key name : String) (value : α) (rest : List (String × α)) :
    ((key, value) :: rest).lookup name = if name = key then some value else rest.lookup name := by
  by_cases same : name = key
  · simp [same]
  · have distinct : (name == key) = false := by simpa using same
    simp [List.lookup_cons, distinct, same]

theorem find?_erase (registry : Registry α) (name other : String) :
    (registry.erase name).find? other = if other = name then none else registry.find? other := by
  obtain ⟨entries⟩ := registry
  simp only [find?, erase]
  induction entries with
  | nil => simp
  | cons entry rest ih =>
      obtain ⟨key, value⟩ := entry
      by_cases same : key = name
      · have dropped : (key != name) = false := by simpa using same
        rw [List.filter_cons_of_neg (by simp [dropped]), ih, lookup_cons_eq, same]
        split <;> rfl
      · rw [List.filter_cons_of_pos (by simpa using same), lookup_cons_eq, ih, lookup_cons_eq]
        by_cases asked : other = key
        · simp [asked, same]
        · simp [asked]

theorem find?_insert (registry : Registry α) (name other : String) (value : α) :
    (registry.insert name value).find? other =
      if other = name then some value else registry.find? other := by
  have erased := find?_erase registry name other
  simp only [find?] at erased ⊢
  rw [insert, lookup_cons_eq, erased]
  split <;> rfl

/-- A name under which there is a value is among the names. -/
theorem mem_names_of_find? {registry : Registry α} {name : String} {value : α}
    (found : registry.find? name = some value) : name ∈ registry.names := by
  obtain ⟨entries⟩ := registry
  simp only [find?, names] at found ⊢
  induction entries with
  | nil => simp at found
  | cons entry rest ih =>
      obtain ⟨key, kept⟩ := entry
      rw [lookup_cons_eq] at found
      split at found
      · next same => simp [same]
      · exact List.mem_cons.2 (.inr (ih found))

end Registry

end Transclusion
