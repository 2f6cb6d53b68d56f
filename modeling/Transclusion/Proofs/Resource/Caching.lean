import Transclusion.Proofs.Engine.Execution

/-!
# Reading through the cache

A read through the cache takes one of four courses: nothing serves the target,
its handler gives no key, the cache answers, or the handler is asked and the
cache filled. Each course has its equation (`exec_readThrough_unknown` and the
three behind it), and nothing else of `Handlers.read` is used from here on.

A handler is faithful if its reads are pure and reads under one key have one
outcome. The outcomes that a cache holds for faithful handlers are those that
the handlers would give (`Cache.Consistent`). This is kept by every read, since
names without NUL keep the keys of different handlers apart
(`Cache.key_injective`), and so a read through a consistent cache agrees with
one that always asks the handler (`readThrough_mirrors`).
-/

set_option autoImplicit false

namespace Transclusion

/-! ## Keys -/

/-- A key of the cache tells the handler and the handler's key, if names hold no NUL. -/
theorem Cache.key_injective {name other key otherKey : String} (solid : '\x00' ∉ name.toList)
    (otherSolid : '\x00' ∉ other.toList) (same : Cache.key name key = Cache.key other otherKey) :
    name = other ∧ key = otherKey := by
  have parts (text rest : String) (absent : '\x00' ∉ text.toList) :
      (Cache.key text rest).toList.takeWhile (· ≠ '\x00') = text.toList := by
    have passes : ∀ char ∈ text.toList, decide (char ≠ '\x00') = true := by
      intro char member
      rw [decide_eq_true_iff]
      rintro rfl
      exact absent member
    simp only [Cache.key, String.toList_append, List.append_assoc]
    rw [List.takeWhile_append_of_pos passes]
    exact List.append_nil _
  have names : name = other := by
    rw [← String.toList_inj, ← parts name key solid, ← parts other otherKey otherSolid, same]
  subst names
  refine ⟨rfl, ?_⟩
  rw [← String.toList_inj] at same ⊢
  simp only [Cache.key, String.toList_append, List.append_assoc] at same
  exact List.append_cancel_left (List.append_cancel_left same)

/-! ## The course of a read -/

section Reading

variable {m : Type → Type} [Monad m]

/-- A read through the cache as a computation of a resolution. -/
def Handlers.readThrough (handlers : Handlers m) (source : Option Target) (target : Target) :
    Resolution m Content :=
  ExceptT.mk (handlers.read source target)

variable {World : Type} [Runs m World]

namespace Handlers

variable {handlers : Handlers m} {handler : Handler m} {source : Option Target} {target : Target}
  {cache : Cache} {world : World}

theorem exec_readThrough :
    (handlers.readThrough source target).exec (cache, world) =
      ((Runs.run (handlers.read source target cache) world).1.1,
        (Runs.run (handlers.read source target cache) world).1.2,
        (Runs.run (handlers.read source target cache) world).2) :=
  rfl

/-- Nothing serves the target. -/
theorem exec_readThrough_unknown {error : ResolveError}
    (unknown : handlers.handlerOf target = .error error) :
    (handlers.readThrough source target).exec (cache, world) = (.error error, cache, world) := by
  have course : handlers.read source target cache = pure (.error error, cache) := by
    simp only [Handlers.read, unknown]
  rw [exec_readThrough, course, Runs.run_pure]

/-- The handler gives no key: it is asked, and the cache is left alone. -/
theorem exec_readThrough_keyless (served : handlers.handlerOf target = .ok handler)
    (keyless : handler.key source target = none) :
    (handlers.readThrough source target).exec (cache, world) =
      ((Runs.run (handler.read source target) world).1, cache,
        (Runs.run (handler.read source target) world).2) := by
  have course : handlers.read source target cache =
      handler.read source target >>= fun outcome => pure (outcome, cache) := by
    simp only [Handlers.read, served, keyless]
  rw [exec_readThrough, course, Runs.run_bind, Runs.run_pure]

/-- The cache answers, and the handler is not asked. -/
theorem exec_readThrough_hit {key : String} {outcome : Except ResolveError Content}
    (served : handlers.handlerOf target = .ok handler)
    (keyed : handler.key source target = some key)
    (kept : cache.find? (Cache.key target.name key) = some outcome) :
    (handlers.readThrough source target).exec (cache, world) = (outcome, cache, world) := by
  have course : handlers.read source target cache = pure (outcome, cache) := by
    simp only [Handlers.read, served, keyed, kept]
  rw [exec_readThrough, course, Runs.run_pure]

/-- The cache has no answer: the handler is asked, and its outcome is kept. -/
theorem exec_readThrough_miss {key : String} (served : handlers.handlerOf target = .ok handler)
    (keyed : handler.key source target = some key)
    (absent : cache.find? (Cache.key target.name key) = none) :
    (handlers.readThrough source target).exec (cache, world) =
      ((Runs.run (handler.read source target) world).1,
        cache.insert (Cache.key target.name key) (Runs.run (handler.read source target) world).1,
        (Runs.run (handler.read source target) world).2) := by
  have course : handlers.read source target cache =
      handler.read source target >>= fun outcome =>
        pure (outcome, cache.insert (Cache.key target.name key) outcome) := by
    simp only [Handlers.read, served, keyed, absent]
  rw [exec_readThrough, course, Runs.run_bind, Runs.run_pure]

end Handlers

end Reading

/-! ## Handlers that are always asked -/

/-- The registry with every value changed. -/
def Registry.map {α β : Type} (change : α → β) (registry : Registry α) : Registry β :=
  ⟨registry.entries.map fun entry => (entry.1, change entry.2)⟩

theorem Registry.find?_map {α β : Type} (change : α → β) (registry : Registry α) (name : String) :
    (registry.map change).find? name = (registry.find? name).map change := by
  obtain ⟨entries⟩ := registry
  simp only [find?, map]
  induction entries with
  | nil => rfl
  | cons entry rest ih =>
      rw [List.map_cons, lookup_cons_eq, lookup_cons_eq, ih]
      split <;> rfl

/-- What is found after a value was put under a name is that value, or was there. -/
theorem Registry.eq_or_find?_of_insert {α : Type} {registry : Registry α} {name other : String}
    {value found : α} (lookup : (registry.insert name value).find? other = some found) :
    (other = name ∧ found = value) ∨ registry.find? other = some found := by
  rw [find?_insert] at lookup
  split at lookup
  · next same => exact .inl ⟨same, (Option.some.inj lookup).symm⟩
  · exact .inr lookup

namespace Handlers

variable {m : Type → Type}

/-- The handlers without their keys: no outcome of them is kept, and they are
asked every time. -/
def uncached (handlers : Handlers m) : Handlers m :=
  handlers.map fun handler => { handler with key := fun _ _ => none }

theorem find?_uncached_eq_some {handlers : Handlers m} {name : String} {handler : Handler m} :
    handlers.uncached.find? name = some handler ↔
      ∃ keyed, handlers.find? name = some keyed ∧ { keyed with key := fun _ _ => none } = handler := by
  rw [uncached, Registry.find?_map, Option.map_eq_some_iff]

theorem handlerOf_eq_ok_iff {handlers : Handlers m} {target : Target} {handler : Handler m} :
    handlers.handlerOf target = .ok handler ↔ handlers.find? target.name = some handler := by
  unfold handlerOf
  split <;> simp_all

theorem handlerOf_map {n : Type → Type} (change : Handler m → Handler n) (handlers : Handlers m)
    (target : Target) : Handlers.handlerOf (handlers.map change) target =
      (handlers.handlerOf target).map change := by
  simp only [handlerOf, Registry.find?_map]
  cases handlers.find? target.name <;> rfl

/-- Handlers that take targets as the handlers they are made from do locate them alike. -/
theorem locate_map {n : Type → Type} (change : Handler m → Handler n)
    (same : ∀ handler, (change handler).relocate = handler.relocate) (handlers : Handlers m)
    (source : Option Target) (target : Target) :
    Handlers.locate (handlers.map change) source target = handlers.locate source target := by
  rw [locate, locate, handlerOf_map]
  cases handlers.handlerOf target with
  | error error => rfl
  | ok handler =>
      cases source with
      | none => rfl
      | some includer => simp only [Except.map, same handler]

theorem handlerOf_uncached (handlers : Handlers m) (target : Target) :
    handlers.uncached.handlerOf target =
      (handlers.handlerOf target).map fun handler => { handler with key := fun _ _ => none } :=
  handlerOf_map _ handlers target

@[simp] theorem locate_uncached (handlers : Handlers m) (source : Option Target)
    (target : Target) : handlers.uncached.locate source target = handlers.locate source target :=
  locate_map (fun handler => { handler with key := fun _ _ => none }) (fun _ => rfl) handlers
    source target

/-- Every read asks the handler, and no read touches the cache. -/
theorem read_uncached [Monad m] (handlers : Handlers m) (source : Option Target) (target : Target)
    (cache : Cache) :
    handlers.uncached.read source target cache =
      match handlers.handlerOf target with
      | .error error => pure (.error error, cache)
      | .ok handler => handler.read source target >>= fun outcome => pure (outcome, cache) := by
  rw [read, handlerOf_uncached]
  cases handlers.handlerOf target <;> rfl

end Handlers

/-! ## Faithful handlers and consistent caches -/

section Faithful

variable {m : Type → Type} [Monad m] {World : Type} [Runs m World]

/-- To read a target for an including target has an outcome of its own, whatever
the world is, and leaves the world as it is. -/
def Handler.Reads (handler : Handler m) (source : Option Target) (target : Target)
    (outcome : Except ResolveError Content) : Prop :=
  ∀ world : World, Runs.run (handler.read source target) world = (outcome, world)

/-- A handler whose reads are pure, and have the same outcome where they have the
same key. -/
structure Handler.Faithful (handler : Handler m) : Prop where
  pure : ∀ source target, ∃ outcome, handler.Reads source target outcome
  keyed : ∀ {source other : Option Target} {target another : Target} {key : String}
    {outcome : Except ResolveError Content}, handler.key source target = some key →
    handler.key other another = some key → handler.Reads source target outcome →
    handler.Reads other another outcome

/-- Faithful handlers under names that hold no NUL. -/
structure Handlers.Faithful (handlers : Handlers m) : Prop where
  solid : ∀ {name : String} {handler : Handler m}, handlers.find? name = some handler →
    '\x00' ∉ name.toList
  faithful : ∀ {name : String} {handler : Handler m}, handlers.find? name = some handler →
    handler.Faithful

/-- Entries in memory are served faithfully. -/
theorem Engine.faithful_ofEntries (entries : List (String × Content)) :
    (Engine.ofEntries entries).handlers.Faithful := by
  have served {name : String} {handler : Handler Id}
      (found : (Engine.ofEntries entries).handlers.find? name = some handler) :
      name = "file" ∧ handler = .table "file" ⟨entries⟩ :=
    (Registry.eq_or_find?_of_insert found).resolve_right nofun
  constructor
  · intro name handler found
    rw [(served found).1]
    decide
  · intro name handler found
    obtain ⟨-, rfl⟩ := served found
    refine ⟨fun source target => ⟨_, fun _ => rfl⟩, ?_⟩
    intro source other target another key outcome keyed otherKeyed read world
    have same : another.firstArg? = target.firstArg? := otherKeyed.trans keyed.symm
    rw [← read world]
    simp only [Handler.table, same]

/-- What a cache holds is what the handlers would give. -/
def Cache.Consistent (handlers : Handlers m) (cache : Cache) : Prop :=
  ∀ {name key : String} {handler : Handler m} {source : Option Target} {target : Target}
    {outcome : Except ResolveError Content}, handlers.find? name = some handler →
    handler.key source target = some key → cache.find? (Cache.key name key) = some outcome →
    handler.Reads source target outcome

theorem Cache.consistent_empty (handlers : Handlers m) : Cache.Consistent handlers .empty := by
  intro name key handler source target outcome _ _ kept
  cases kept

/-- To keep the outcome of a read leaves a cache consistent. -/
theorem Cache.Consistent.insert {handlers : Handlers m} {cache : Cache} {name key : String}
    {handler : Handler m} {source : Option Target} {target : Target}
    {outcome : Except ResolveError Content} (consistent : Cache.Consistent handlers cache)
    (faithful : handlers.Faithful) (served : handlers.find? name = some handler)
    (keyed : handler.key source target = some key) (reads : handler.Reads source target outcome) :
    Cache.Consistent handlers (Registry.insert cache (Cache.key name key) outcome) := by
  intro otherName otherKey other otherSource otherTarget kept otherServed otherKeyed found
  rw [Registry.find?_insert] at found
  split at found
  · next same =>
      -- a key belongs to one handler only, since no name holds a NUL
      obtain ⟨rfl, rfl⟩ :=
        Cache.key_injective (faithful.solid otherServed) (faithful.solid served) same
      obtain rfl : other = handler := Option.some.inj (otherServed.symm.trans served)
      obtain rfl : outcome = kept := Option.some.inj found
      exact (faithful.faithful served).keyed keyed otherKeyed reads
  · exact consistent otherServed otherKeyed found

end Faithful

/-! ## Computations that a cache does not show in -/

section Mirroring

variable {m : Type → Type} [Monad m] {World : Type} [Runs m World] {α β : Type}

/-- From a consistent cache, a computation has the result of a plain one, which
leaves its own cache alone, and does the same to the world; and it leaves its
cache consistent. -/
def Mirrors (handlers : Handlers m) (cached plain : Resolution m α) : Prop :=
  ∀ (cache spare : Cache) (world : World), cache.Consistent handlers →
    (cached.exec (cache, world)).2.1.Consistent handlers ∧
      plain.exec (spare, world) =
        ((cached.exec (cache, world)).1, spare, (cached.exec (cache, world)).2.2)

namespace Mirrors

variable {handlers : Handlers m}

theorem ofExcept (outcome : Except ResolveError α) :
    Mirrors handlers (Resolution.ofExcept outcome : Resolution m α)
      (Resolution.ofExcept outcome) := by
  intro cache spare world consistent
  rw [Resolution.exec_ofExcept, Resolution.exec_ofExcept]
  exact ⟨consistent, rfl⟩

theorem lift (computation : m (Except ResolveError α)) :
    Mirrors handlers (ExceptT.mk (StateT.lift computation) : Resolution m α)
      (ExceptT.mk (StateT.lift computation)) := by
  intro cache spare world consistent
  rw [Resolution.exec_lift, Resolution.exec_lift]
  exact ⟨consistent, rfl⟩

theorem bind {cached plain : Resolution m α} {cachedNext plainNext : α → Resolution m β}
    (first : Mirrors handlers cached plain)
    (next : ∀ value, Mirrors handlers (cachedNext value) (plainNext value)) :
    Mirrors handlers (cached >>= cachedNext) (plain >>= plainNext) := by
  intro cache spare world consistent
  obtain ⟨kept, same⟩ := first cache spare world consistent
  rw [Resolution.exec_bind, Resolution.exec_bind, same]
  cases course : cached.exec (cache, world) with
  | mk outcome after =>
      rw [course] at kept
      cases outcome with
      | ok value => exact next value after.1 spare after.2 kept
      | error error => exact ⟨kept, rfl⟩

end Mirrors

/-- **A read through a consistent cache agrees with a read that always asks the
handler.** -/
theorem Handlers.readThrough_mirrors {handlers : Handlers m} (faithful : handlers.Faithful)
    (source : Option Target) (target : Target) :
    Mirrors handlers (handlers.readThrough source target)
      (handlers.uncached.readThrough source target) := by
  intro cache spare world consistent
  cases served : handlers.handlerOf target with
  | error error =>
      have plain : (handlers.uncached.readThrough source target).exec (spare, world) =
          (.error error, spare, world) := by
        rw [exec_readThrough, read_uncached, served]
        simp only [Runs.run_pure]
      rw [plain, exec_readThrough_unknown served]
      exact ⟨consistent, rfl⟩
  | ok handler =>
      have registered := handlerOf_eq_ok_iff.1 served
      obtain ⟨outcome, reads⟩ := (faithful.faithful registered).pure source target
      have plain : (handlers.uncached.readThrough source target).exec (spare, world) =
          (outcome, spare, world) := by
        rw [exec_readThrough, read_uncached, served]
        simp only [Runs.run_bind, Runs.run_pure, reads world]
      rw [plain]
      cases keyed : handler.key source target with
      | none =>
          rw [exec_readThrough_keyless served keyed, reads world]
          exact ⟨consistent, rfl⟩
      | some key =>
          cases found : cache.find? (Cache.key target.name key) with
          | none =>
              rw [exec_readThrough_miss served keyed found, reads world]
              exact ⟨consistent.insert faithful registered keyed reads, rfl⟩
          | some kept =>
              have held := consistent registered keyed found world
              rw [reads world] at held
              rw [exec_readThrough_hit served keyed found, (Prod.mk.inj held).1]
              exact ⟨consistent, rfl⟩

end Mirroring

end Transclusion
