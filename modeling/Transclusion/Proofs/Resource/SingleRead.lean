import Mathlib.Data.List.Dedup
import Transclusion.Proofs.Resource.Observation

/-!
# One read for a key

A loader is a set of handlers with the cache in front of them. Handlers are
registered, replaced and removed while targets are read, and each of them may depend
on the world and change it. Over a whole run there is still at most one read for a
key, and it is the outcome of that read that answers every read under the key
(`Loader.run_reads_once`).

A step of the run adds to the answers, to the reads made and to the cache. What holds
between the three is said in `Explains`: the reads made fill the cache, each of them
is made for an answer, and the cache has every answer under a key. It holds of one
operation (`Loader.perform_observed`), adds up (`Explains.append`), and so holds of a
run (`Loader.run_observed`).
-/

set_option autoImplicit false

namespace Transclusion

/-! ## Loaders -/

/-- Handlers, and the cache in front of them. -/
structure Loader (m : Type → Type) where
  handlers : Handlers m := .empty
  cache : Cache := .empty

/-- What a loader can be asked for. -/
inductive Loader.Operation (m : Type → Type) where
  | add (handler : Handler m)
  | remove (name : String)
  | read (source : Option Target) (target : Target)

namespace Loader

variable {m : Type → Type} [Monad m]

section Running

variable {World : Type} [Runs m World]

/-- Carries an operation out. A read is answered; its key is the one that the handler
gives which is registered at the time. -/
def perform : Operation m → Loader m × World → List ReadRecord × (Loader m × World)
  | .add handler, (loader, world) =>
      ([], { loader with handlers := loader.handlers.add handler }, world)
  | .remove name, (loader, world) =>
      ([], { loader with handlers := loader.handlers.erase name }, world)
  | .read source target, (loader, world) =>
      let after := (loader.handlers.readThrough source target).exec (loader.cache, world)
      ([⟨loader.handlers.keyOf source target, after.1⟩], { loader with cache := after.2.1 },
        after.2.2)

/-- Carries some operations out, one after the other. -/
def run : List (Operation m) → Loader m × World → List ReadRecord × (Loader m × World)
  | [], state => ([], state)
  | operation :: rest, state =>
      let first := perform operation state
      let others := run rest first.2
      (first.1 ++ others.1, others.2)

theorem run_append (first second : List (Operation m)) (state : Loader m × World) :
    run (first ++ second) state =
      ((run first state).1 ++ (run second (run first state).2).1,
        (run second (run first state).2).2) := by
  induction first generalizing state with
  | nil => rfl
  | cons operation rest ih =>
      simp only [List.cons_append, run, ih, List.append_assoc]

end Running

/-- The loader whose handlers are under observation. -/
def observed (loader : Loader m) : Loader (Observed m) :=
  ⟨loader.handlers.observed, loader.cache⟩

/-- The operation that registers its handler under observation. -/
def Operation.observed : Operation m → Operation (Observed m)
  | .add handler => .add handler.observed
  | .remove name => .remove name
  | .read source target => .read source target

end Loader

/-! ## What a registry of changed values is changed by -/

theorem Registry.map_erase {α β : Type} (change : α → β) (registry : Registry α) (name : String) :
    (registry.erase name).map change = (registry.map change).erase name := by
  simp only [map, erase, List.filter_map]
  rfl

theorem Registry.map_insert {α β : Type} (change : α → β) (registry : Registry α) (name : String)
    (value : α) :
    (registry.insert name value).map change = (registry.map change).insert name (change value) := by
  have others := congrArg Registry.entries (registry.map_erase change name)
  simp only [insert, map, List.map_cons] at others ⊢
  rw [others]

/-- A read has the same key under observation. -/
theorem Handlers.keyOf_observed {m : Type → Type} [Monad m] (handlers : Handlers m)
    (source : Option Target) (target : Target) :
    handlers.observed.keyOf source target = handlers.keyOf source target := by
  rw [keyOf, keyOf, handlerOf_observed]
  cases handlers.handlerOf target <;> rfl

/-! ## Answers and the reads behind them -/

/-- The reads that were made explain the answers that were given and what has become
of the cache. -/
structure Explains (before : Cache) (answers made : List ReadRecord) (after : Cache) : Prop where
  fills : before.Fills made after
  /-- A read is made for an answer only. -/
  needed : made.Sublist answers
  /-- The cache has every answer under a key. -/
  kept : ∀ {key : String} {outcome : Except ResolveError Content},
    ⟨some key, outcome⟩ ∈ answers → after.find? key = some outcome

namespace Explains

variable {before between after : Cache} {answers others made further : List ReadRecord}

theorem nil (cache : Cache) : Explains cache [] [] cache :=
  ⟨.nil cache, .slnil, fun member => nomatch member⟩

theorem append (first : Explains before answers made between)
    (second : Explains between others further after) :
    Explains before (answers ++ others) (made ++ further) after := by
  refine ⟨first.fills.append second.fills, first.needed.append second.needed, ?_⟩
  intro key outcome member
  rcases List.mem_append.1 member with earlier | later
  · exact second.fills.after_extends (first.kept earlier)
  · exact second.kept later

/-- No two reads have one key. -/
theorem length_filter_le (explains : Explains before answers made after) (key : String) :
    (made.filter (·.key = some key)).length ≤ 1 := by
  have counted := List.nodup_iff_count_le_one.1 explains.fills.nodup_keys.1 key
  rw [ReadRecord.keys, List.count_filterMap, List.countP_eq_length_filter] at counted
  simpa only [beq_eq_decide] using counted

/-- Behind an answer under a key stands the one read that was made under it, if the
cache was empty. -/
theorem filter_eq (explains : Explains .empty answers made after) {answer : ReadRecord}
    (given : answer ∈ answers) {key : String} (keyed : answer.key = some key) :
    made.filter (·.key = some key) = [answer] := by
  obtain ⟨_, outcome⟩ := answer
  cases keyed
  have asked : ⟨some key, outcome⟩ ∈ made := by
    rcases explains.fills.find?_or_mem (explains.kept given) with present | asked
    · cases present
    · exact asked
  have among : ⟨some key, outcome⟩ ∈ made.filter (·.key = some key) :=
    List.mem_filter.2 ⟨asked, decide_eq_true rfl⟩
  obtain ⟨only, alone⟩ := List.length_eq_one_iff.1
    (Nat.le_antisymm (explains.length_filter_le key) (List.length_pos_of_mem among))
  rw [alone, List.mem_singleton] at among
  rw [alone, among]

/-- The names in the cache, if it was empty, are the keys of the reads made. -/
theorem size_eq (explains : Explains .empty answers made after) :
    after.size = (ReadRecord.keys made).length := by
  have names := congrArg List.length explains.fills.names_eq
  rw [Registry.names, List.length_map, List.length_append, List.length_reverse] at names
  exact names

/-- Every key under which a read was answered is the key of one read made. -/
theorem perm_dedup (explains : Explains .empty answers made after) :
    (ReadRecord.keys made).Perm (ReadRecord.keys answers).dedup := by
  rw [List.perm_ext_iff_of_nodup explains.fills.nodup_keys.1 (List.nodup_dedup _)]
  intro key
  rw [List.mem_dedup]
  constructor
  · intro asked
    exact (explains.needed.filterMap ReadRecord.key).subset asked
  · intro answered
    obtain ⟨answer, given, keyed⟩ := List.mem_filterMap.1 answered
    have only := explains.filter_eq given keyed
    have asked : answer ∈ made.filter (·.key = some key) := by
      rw [only]
      exact List.mem_singleton_self answer
    exact List.mem_filterMap.2 ⟨answer, (List.mem_filter.1 asked).1, keyed⟩

end Explains

/-! ## Runs -/

namespace Loader

variable {m : Type → Type} [Monad m] {World : Type} [Runs m World]

/-- An operation under observation gives the same answer, and the reads made explain
it. -/
theorem perform_observed (operation : Operation m) (loader : Loader m) (world : World)
    (records : List ReadRecord) :
    ∃ made,
      Explains loader.cache (perform operation (loader, world)).1 made
        (perform operation (loader, world)).2.1.cache ∧
      perform operation.observed (loader.observed, records, world) =
        ((perform operation (loader, world)).1, (perform operation (loader, world)).2.1.observed,
          records ++ made, (perform operation (loader, world)).2.2) := by
  cases operation with
  | add handler =>
      refine ⟨[], .nil _, ?_⟩
      simp only [perform, Operation.observed, observed, Handlers.observed, Handlers.add,
        Registry.map_insert, List.append_nil]
      rfl
  | remove name =>
      refine ⟨[], .nil _, ?_⟩
      simp only [perform, Operation.observed, observed, Handlers.observed, Registry.map_erase,
        List.append_nil]
  | read source target =>
      obtain ⟨made, fills, needed, same⟩ :=
        loader.handlers.exec_readThrough_observed source target loader.cache records world
      refine ⟨made, ⟨fills, needed, ?_⟩, ?_⟩
      · intro key outcome member
        obtain ⟨keyed, rfl⟩ := ReadRecord.mk.inj (List.mem_singleton.1 member)
        exact Handlers.find?_of_keyOf keyed.symm loader.cache world
      · simp only [perform, Operation.observed, observed, Handlers.keyOf_observed, same]

/-- A run under observation gives the same answers, and the reads made explain
them. -/
theorem run_observed (operations : List (Operation m)) (loader : Loader m) (world : World)
    (records : List ReadRecord) :
    ∃ made,
      Explains loader.cache (run operations (loader, world)).1 made
        (run operations (loader, world)).2.1.cache ∧
      run (operations.map Operation.observed) (loader.observed, records, world) =
        ((run operations (loader, world)).1, (run operations (loader, world)).2.1.observed,
          records ++ made, (run operations (loader, world)).2.2) := by
  induction operations generalizing loader world records with
  | nil => exact ⟨[], .nil _, by rw [List.append_nil]; rfl⟩
  | cons operation rest ih =>
      obtain ⟨made, first, same⟩ := perform_observed operation loader world records
      obtain ⟨further, others, alike⟩ := ih (perform operation (loader, world)).2.1
        (perform operation (loader, world)).2.2 (records ++ made)
      refine ⟨made ++ further, first.append others, ?_⟩
      rw [List.map_cons, run, same]
      simp only [alike, List.append_assoc]
      rfl

/-- **At most one read is made for a key.** Over every run of a new loader, in which
handlers of any kind are registered, replaced and removed while targets are read: the
reads that the handlers are asked for have distinct keys; a read that is answered
under a key has the outcome of the one read made under it; the size of the cache is
the number of distinct keys that were read, and the number of reads that the handlers
were asked for under keys; and to read what nothing serves, or what its handler has no
key for, leaves the cache alone. -/
theorem run_reads_once (operations : List (Operation m)) (world : World) :
    let after := run operations ({}, world)
    ∃ made,
      run (operations.map Operation.observed) ({}, [], world) =
        (after.1, after.2.1.observed, made, after.2.2) ∧
      (∀ key, (made.filter (·.key = some key)).length ≤ 1) ∧
      (∀ answer ∈ after.1, ∀ key, answer.key = some key →
        made.filter (·.key = some key) = [answer]) ∧
      after.2.1.cache.size = (ReadRecord.keys after.1).dedup.length ∧
      after.2.1.cache.size = (ReadRecord.keys made).length ∧
      ∀ source target,
        (after.2.1.handlers.find? target.name = none ∨
          ∃ handler, after.2.1.handlers.find? target.name = some handler ∧
            handler.key source target = none) →
        (run (operations ++ [.read source target]) ({}, world)).2.1.cache = after.2.1.cache := by
  intro after
  obtain ⟨made, explains, same⟩ := run_observed operations {} world []
  refine ⟨made, same, explains.length_filter_le, ?_, ?_, explains.size_eq, ?_⟩
  · intro answer given key keyed
    exact explains.filter_eq given keyed
  · rw [explains.size_eq, explains.perm_dedup.length_eq]
  · intro source target unkept
    have keyless : after.2.1.handlers.keyOf source target = none := by
      rcases unkept with unknown | ⟨handler, served, keyless⟩
      · rw [Handlers.keyOf, Handlers.handlerOf, unknown]
      · rw [Handlers.keyOf_of_served (Handlers.handlerOf_eq_ok_iff.2 served), keyless]
        rfl
    rw [run_append]
    exact Handlers.exec_readThrough_of_keyOf_none keyless after.2.1.cache after.2.2

-- a counter is read, replaced, read again and removed; it counts one read
example :
    let counter (label : String) : Handler (StateM Nat) :=
      { name := "count"
        read := fun _ _ reads => (.ok (.text (label ++ toString reads)), reads + 1)
        key := Handler.firstArgKey }
    let target : Target := ⟨"count", ["a"]⟩
    let after := run [.add (counter "x"), .read none target, .add (counter "y"),
      .read none target, .remove "count", .read none target] ({}, 0)
    after.1.map (·.outcome.toOption.map Content.display) = [some "x0", some "x0", none] ∧
      after.2.1.cache.size = 1 ∧ after.2.2 = 1 := by
  decide +kernel

end Loader

end Transclusion
