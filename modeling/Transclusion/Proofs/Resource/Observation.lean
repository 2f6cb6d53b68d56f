import Transclusion.Proofs.Resource.Caching

/-!
# Reads under observation

Handlers may do anything to the world, so what they are asked cannot be seen in the
world. Handlers under observation write down every read that is made of them, its
key and its outcome (`Handler.observed`); they run in a monad that hands the records
along (`Observed`).

Observation changes nothing else: an observed read through a cache has the result, the
cache and the world of the plain one (`Handlers.exec_readThrough_observed`). And the
records tell what became of the cache. A read without a key left it alone; a read with
a key was made where the cache had no outcome under that key, and put one there
(`Cache.Fills`). So the cache keeps what it holds, its new names are the keys of the
reads made, and no key occurs twice.
-/

set_option autoImplicit false

namespace Transclusion

/-- A read: its key in the cache, if it has one, and its outcome. -/
structure ReadRecord where
  key : Option String
  outcome : Except ResolveError Content

/-- The keys of some reads, in the order of the reads. -/
def ReadRecord.keys (records : List ReadRecord) : List String :=
  records.filterMap ReadRecord.key

theorem ReadRecord.keys_cons (key : String) (outcome : Except ResolveError Content)
    (records : List ReadRecord) : keys (⟨some key, outcome⟩ :: records) = key :: keys records :=
  rfl

/-! ## Computations under observation -/

/-- A computation that hands the records of the reads made so far along. -/
def Observed (m : Type → Type) (α : Type) : Type :=
  List ReadRecord → m (α × List ReadRecord)

namespace Observed

variable {m : Type → Type} [Monad m]

instance : Monad (Observed m) where
  pure value := fun records => pure (value, records)
  bind first next := fun records => first records >>= fun reached => next reached.1 reached.2

variable {World : Type} [Runs m World]

instance : Runs (Observed m) (List ReadRecord × World) where
  run computation state :=
    let after := Runs.run (computation state.1) state.2
    (after.1.1, after.1.2, after.2)
  run_pure value state := by
    have plain : (pure value : Observed m _) state.1 = pure (value, state.1) := rfl
    rw [plain, Runs.run_pure]
  run_bind first next state := by
    have sequence : (first >>= next) state.1 =
        first state.1 >>= fun reached => next reached.1 reached.2 := rfl
    rw [sequence, Runs.run_bind]

end Observed

/-! ## Handlers under observation -/

section Handlers

variable {m : Type → Type}

/-- The key in the cache of a read. A target that nothing serves has none. -/
def Handlers.keyOf (handlers : Handlers m) (source : Option Target) (target : Target) :
    Option String :=
  match handlers.handlerOf target with
  | .error _ => none
  | .ok handler => (handler.key source target).map (Cache.key target.name)

theorem Handlers.keyOf_of_served {handlers : Handlers m} {handler : Handler m} {target : Target}
    (served : handlers.handlerOf target = .ok handler) (source : Option Target) :
    handlers.keyOf source target = (handler.key source target).map (Cache.key target.name) := by
  rw [keyOf, served]

variable [Monad m]

/-- The handler that writes down every read that is made of it. -/
def Handler.observed (handler : Handler m) : Handler (Observed m) where
  name := handler.name
  read source target := fun records => do
    let outcome ← handler.read source target
    return (outcome, records ++ [⟨(handler.key source target).map (Cache.key target.name), outcome⟩])
  key := handler.key
  relocate := handler.relocate

/-- The handlers, each under observation. -/
def Handlers.observed (handlers : Handlers m) : Handlers (Observed m) :=
  handlers.map Handler.observed

theorem Handlers.handlerOf_observed (handlers : Handlers m) (target : Target) :
    handlers.observed.handlerOf target = (handlers.handlerOf target).map Handler.observed :=
  handlerOf_map Handler.observed handlers target

variable {World : Type} [Runs m World]

theorem Handler.run_read_observed (handler : Handler m) (source : Option Target)
    (target : Target) (records : List ReadRecord) (world : World) :
    Runs.run (handler.observed.read source target) (records, world) =
      ((Runs.run (handler.read source target) world).1,
        records ++ [⟨(handler.key source target).map (Cache.key target.name),
          (Runs.run (handler.read source target) world).1⟩],
        (Runs.run (handler.read source target) world).2) := by
  simp only [observed, Runs.run]
  rw [Runs.run_bind, Runs.run_pure]

end Handlers

/-! ## What reads make of a cache -/

/-- The names of a registry grow by a name that is new to it. -/
theorem Registry.names_insert_of_find?_none {α : Type} {registry : Registry α} {name : String}
    (absent : registry.find? name = none) (value : α) :
    (registry.insert name value).names = name :: registry.names := by
  have others : ∀ entry ∈ registry.entries, (entry.1 != name) = true := by
    intro entry member
    rw [bne_comm]
    exact List.lookup_eq_none_iff.1 absent entry member
  rw [names, insert, erase, List.filter_eq_self.2 others]
  rfl

/-- The reads made between two states of a cache. A read under a key is made where the
cache has no outcome for it, and its outcome is kept. -/
inductive Cache.Fills : Cache → List ReadRecord → Cache → Prop where
  | nil (cache : Cache) : Fills cache [] cache
  | keyless {cache after : Cache} {made : List ReadRecord}
      (outcome : Except ResolveError Content) (rest : Fills cache made after) :
      Fills cache (⟨none, outcome⟩ :: made) after
  | keyed {cache after : Cache} {made : List ReadRecord} {key : String}
      {outcome : Except ResolveError Content} (absent : cache.find? key = none)
      (rest : Fills (cache.insert key outcome) made after) :
      Fills cache (⟨some key, outcome⟩ :: made) after

/-- A cache has the outcomes that another one has, and perhaps more. -/
def Cache.Extends (later earlier : Cache) : Prop :=
  ∀ ⦃key : String⦄ ⦃outcome : Except ResolveError Content⦄, earlier.find? key = some outcome →
    later.find? key = some outcome

namespace Cache.Extends

theorem refl (cache : Cache) : cache.Extends cache := by
  intro key outcome kept
  exact kept

theorem trans {latest later earlier : Cache} (further : latest.Extends later)
    (first : later.Extends earlier) : latest.Extends earlier := by
  intro key outcome kept
  exact further (first kept)

/-- To keep an outcome under a new key takes nothing away. -/
theorem insert {cache : Cache} {key : String} (absent : cache.find? key = none)
    (outcome : Except ResolveError Content) : Cache.Extends (cache.insert key outcome) cache := by
  intro other kept found
  rw [Registry.find?_insert, if_neg]
  · exact found
  · rintro rfl
    rw [absent] at found
    cases found

end Cache.Extends

namespace Cache.Fills

variable {cache between after : Cache} {made further : List ReadRecord}

theorem append (first : Fills cache made between) (second : Fills between further after) :
    Fills cache (made ++ further) after := by
  induction first with
  | nil _ => exact second
  | keyless outcome _ ih => exact .keyless outcome (ih second)
  | keyed absent _ ih => exact .keyed absent (ih second)

/-- Reads take nothing from a cache, and change nothing in it. -/
theorem after_extends (fills : Fills cache made after) : after.Extends cache := by
  induction fills with
  | nil cache => exact .refl cache
  | keyless _ _ ih => exact ih
  | keyed absent _ ih => exact ih.trans (.insert absent _)

/-- An outcome in the cache was there, or belongs to a read that was made. -/
theorem find?_or_mem (fills : Fills cache made after) {key : String}
    {outcome : Except ResolveError Content} (kept : after.find? key = some outcome) :
    cache.find? key = some outcome ∨ ⟨some key, outcome⟩ ∈ made := by
  induction fills with
  | nil _ => exact .inl kept
  | keyless _ _ ih => exact (ih kept).imp_right (List.mem_cons_of_mem _)
  | keyed _ _ ih =>
      rcases ih kept with inserted | later
      · rw [Registry.find?_insert] at inserted
        split at inserted
        · next same =>
            cases same
            cases inserted
            exact .inr List.mem_cons_self
        · exact .inl inserted
      · exact .inr (List.mem_cons_of_mem _ later)

/-- The keys of the reads made are the names that the cache has gained. -/
theorem names_eq (fills : Fills cache made after) :
    after.names = (ReadRecord.keys made).reverse ++ cache.names := by
  induction fills with
  | nil _ => rfl
  | keyless _ _ ih => exact ih
  | keyed absent _ ih =>
      rw [ih, Registry.names_insert_of_find?_none absent, ReadRecord.keys_cons, List.reverse_cons,
        List.append_assoc]
      rfl

/-- No two reads were made under one key, and none under a key with an outcome. -/
theorem nodup_keys (fills : Fills cache made after) :
    (ReadRecord.keys made).Nodup ∧
      ∀ key ∈ ReadRecord.keys made, cache.find? key = none := by
  induction fills with
  | nil _ => exact ⟨List.nodup_nil, fun key member => nomatch member⟩
  | keyless _ _ ih => exact ih
  | @keyed cache _ made key outcome absent _ ih =>
      obtain ⟨distinct, fresh⟩ := ih
      have others : ∀ other ∈ ReadRecord.keys made, other ≠ key ∧ cache.find? other = none := by
        intro other member
        have found := fresh other member
        rw [Registry.find?_insert] at found
        split at found
        · cases found
        · next differs => exact ⟨differs, found⟩
      rw [ReadRecord.keys_cons]
      refine ⟨List.nodup_cons.2 ⟨fun again => (others key again).1 rfl, distinct⟩, ?_⟩
      intro other member
      rcases List.mem_cons.1 member with rfl | later
      · exact absent
      · exact (others other later).2

end Cache.Fills

/-! ## Observation changes nothing -/

section Observation

variable {m : Type → Type} [Monad m] {World : Type} [Runs m World]

namespace Handlers

variable {handlers : Handlers m} {source : Option Target} {target : Target}

/-- A read through the cache makes at most the read that it answers. -/
theorem exec_readThrough_observed (handlers : Handlers m) (source : Option Target)
    (target : Target) (cache : Cache) (records : List ReadRecord) (world : World) :
    let after := (handlers.readThrough source target).exec (cache, world)
    ∃ made, cache.Fills made after.2.1 ∧
      made.Sublist [⟨handlers.keyOf source target, after.1⟩] ∧
      (handlers.observed.readThrough source target).exec (cache, records, world) =
        (after.1, after.2.1, records ++ made, after.2.2) := by
  intro after
  have observed := handlers.handlerOf_observed target
  cases served : handlers.handlerOf target with
  | error error =>
      rw [served] at observed
      simp only [after, exec_readThrough_unknown served, exec_readThrough_unknown observed]
      exact ⟨[], .nil cache, List.nil_sublist _, by rw [List.append_nil]⟩
  | ok handler =>
      rw [served] at observed
      have asked := handler.run_read_observed source target records world
      cases keyed : handler.key source target with
      | none =>
          rw [keyed] at asked
          simp only [after, exec_readThrough_keyless served keyed, keyOf_of_served served, keyed,
            exec_readThrough_keyless observed keyed, asked]
          exact ⟨_, .keyless _ (.nil cache), List.Sublist.refl _, rfl⟩
      | some key =>
          rw [keyed] at asked
          cases found : cache.find? (Cache.key target.name key) with
          | some outcome =>
              simp only [after, exec_readThrough_hit served keyed found,
                exec_readThrough_hit observed keyed found]
              exact ⟨[], .nil cache, List.nil_sublist _, by rw [List.append_nil]⟩
          | none =>
              simp only [after, exec_readThrough_miss served keyed found, keyOf_of_served served,
                keyed, exec_readThrough_miss observed keyed found, asked]
              exact ⟨_, .keyed found (.nil _), List.Sublist.refl _, rfl⟩

/-- A read under a key leaves its outcome in the cache. -/
theorem find?_of_keyOf {key : String} (keyed : handlers.keyOf source target = some key)
    (cache : Cache) (world : World) :
    ((handlers.readThrough source target).exec (cache, world)).2.1.find? key =
      some ((handlers.readThrough source target).exec (cache, world)).1 := by
  cases served : handlers.handlerOf target with
  | error error =>
      rw [keyOf, served] at keyed
      cases keyed
  | ok handler =>
      rw [keyOf_of_served served] at keyed
      obtain ⟨own, given, rfl⟩ := Option.map_eq_some_iff.1 keyed
      cases found : cache.find? (Cache.key target.name own) with
      | some outcome =>
          rw [exec_readThrough_hit served given found]
          exact found
      | none =>
          rw [exec_readThrough_miss served given found]
          simp only [Registry.find?_insert, if_true]

/-- A read without a key leaves the cache alone. -/
theorem exec_readThrough_of_keyOf_none (keyless : handlers.keyOf source target = none)
    (cache : Cache) (world : World) :
    ((handlers.readThrough source target).exec (cache, world)).2.1 = cache := by
  cases served : handlers.handlerOf target with
  | error error => rw [exec_readThrough_unknown served]
  | ok handler =>
      rw [keyOf_of_served served, Option.map_eq_none_iff] at keyless
      rw [exec_readThrough_keyless served keyless]

end Handlers

end Observation

end Transclusion
