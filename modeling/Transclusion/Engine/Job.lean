import Transclusion.Engine.Stepwise
import Transclusion.Resource.Loader

/-!
# Jobs that share reads

A job is what is left to do of a resolution. It has parts that go on side by side
and are joined when all of them are done, or as soon as one of them fails; the
others are dropped then, wherever they are.

Reads under keys go through cells. A job that claims a key finds an outcome in its
cell, or it makes the read itself and fills the cell when it is done, or another
part of the job is just making the read and it waits for that. The cell of a read
that is dropped stays empty, so that whoever claims the key next makes the read
anew.

A poll goes through the parts of a job in their order and carries each of them on as
far as it gets (`Job.poll`). It may find a part blocked, but a key is held only
where a read is under way, and that read gets on. So every poll of a job that is not
done leaves a later state of it (`Job.Later`), of which there is no infinite
descent (`Job.acc_step`), and polling it over and over ends with an outcome
(`Job.run`).
-/

set_option autoImplicit false

namespace Transclusion

/-- What a handler or a transform answers. -/
abbrev Reply := Except ResolveError Content

/-- A cell for every key that was ever claimed, with the outcome of its read. -/
abbrev Cells := Registry (Option Reply)

/-- The outcome in the cell of a key. -/
def Cells.kept? (cells : Cells) (key : String) : Option Reply :=
  (cells.find? key).join

theorem Cells.kept?_insert (cells : Cells) (key other : String) (content : Option Reply) :
    Cells.kept? (cells.insert key content) other =
      if other = key then content else cells.kept? other := by
  rw [Cells.kept?, Registry.find?_insert]
  split <;> rfl

/-- What is known of the reads under keys. -/
structure Ledger where
  cells : Cells := .empty
  /-- The keys under which a handler was asked, the latest in front. -/
  asked : List String := []

namespace Ledger

/-- Notes that a handler is asked under a key. -/
def note (ledger : Ledger) (key : String) : Ledger :=
  { cells := ledger.cells.insert key none, asked := key :: ledger.asked }

/-- The outcome of a read that is done, if it was made under a key by way of its cell: a
cell is filled once, and what it has stays. -/
def outcome (ledger : Ledger) (key : Option String) (reply : Reply) : Reply :=
  (key.bind ledger.cells.kept?).getD reply

/-- Fills the cell of a read that is done, if it was made under a key. -/
def fill (ledger : Ledger) (key : Option String) (reply : Reply) : Ledger :=
  match key with
  | none => ledger
  | some name =>
      { ledger with cells := ledger.cells.insert name (some (ledger.outcome key reply)) }

theorem kept?_note {ledger : Ledger} {key : String} (absent : ledger.cells.kept? key = none)
    (other : String) : (ledger.note key).cells.kept? other = ledger.cells.kept? other := by
  rw [note, Cells.kept?_insert]
  split
  · next same => rw [same, absent]
  · rfl

theorem outcome_of_absent {ledger : Ledger} {key : String}
    (absent : ledger.cells.kept? key = none) (reply : Reply) :
    ledger.outcome (some key) reply = reply := by
  rw [outcome, Option.bind_some, absent, Option.getD_none]

theorem kept?_fill (ledger : Ledger) (key other : String) (reply : Reply) :
    (ledger.fill (some key) reply).cells.kept? other =
      if other = key then some (ledger.outcome (some key) reply) else ledger.cells.kept? other :=
  Cells.kept?_insert _ _ _ _

end Ledger

/-- What the parts of a job see while they are polled. -/
structure Desk extends Ledger where
  /-- The keys under which a read is under way. -/
  held : List String := []

namespace Desk

/-- Takes a key for a read. -/
def claim (desk : Desk) (key : String) : Desk :=
  { desk.toLedger.note key with held := key :: desk.held }

/-- Fills the cell of a read that is done, and gives its key back. -/
def finish (desk : Desk) (key : Option String) (reply : Reply) : Desk :=
  { desk.toLedger.fill key reply with held := key.elim desk.held desk.held.erase }

end Desk

/-- What is left to do of a resolution. -/
inductive Job (m : Type → Type) (ρ χ : Type) where
  | done (outcome : Except ResolveError χ)
  /-- Asks for the outcome of a read under a key. -/
  | claim (key : String) (read : Stepwise m ρ Reply) (next : Reply → Job m ρ χ)
  /-- Carries a read or a transform out, for a read under a key with that key. -/
  | work (key : Option String) (course : Stepwise m ρ Reply) (next : Reply → Job m ρ χ)
  /-- Has parts that are done or go on side by side, and joins their values. -/
  | fork (slots : List (χ ⊕ Job m ρ χ)) (next : Except ResolveError (List χ) → Job m ρ χ)

namespace Job

variable {m : Type → Type} {ρ χ : Type}

mutual

/-- The keys under which a job has reads under way. -/
def holds : Job m ρ χ → List String
  | .done _ => []
  | .claim _ _ _ => []
  | .work key _ _ => key.toList
  | .fork slots _ => heldBy slots

/-- The keys under which parts of a job have reads under way. -/
def heldBy : List (χ ⊕ Job m ρ χ) → List String
  | [] => []
  | .inl _ :: slots => heldBy slots
  | .inr job :: slots => holds job ++ heldBy slots

end

/-- The values of parts that are all done. -/
def values? : List (χ ⊕ Job m ρ χ) → Option (List χ)
  | [] => some []
  | .inl value :: slots => (values? slots).map (value :: ·)
  | .inr _ :: _ => none

/-! ## Later states -/

mutual

/-- What a job becomes in one step. -/
inductive Step : Job m ρ χ → Job m ρ χ → Prop
  | answered (key : String) (read : Stepwise m ρ Reply) (next : Reply → Job m ρ χ)
      (reply : Reply) : Step (next reply) (.claim key read next)
  | claimed (key : String) (read : Stepwise m ρ Reply) (next : Reply → Job m ρ χ) :
      Step (.work (some key) read next) (.claim key read next)
  | worked (key : Option String) {course rest : Stepwise m ρ Reply} (step : rest.Step course)
      (next : Reply → Job m ρ χ) : Step (.work key rest next) (.work key course next)
  | finished (key : Option String) (course : Stepwise m ρ Reply) (next : Reply → Job m ρ χ)
      (reply : Reply) : Step (next reply) (.work key course next)
  | moved {slots rest : List (χ ⊕ Job m ρ χ)} (step : SlotStep rest slots)
      (next : Except ResolveError (List χ) → Job m ρ χ) :
      Step (.fork rest next) (.fork slots next)
  | joined (slots : List (χ ⊕ Job m ρ χ)) (next : Except ResolveError (List χ) → Job m ρ χ)
      (outcome : Except ResolveError (List χ)) : Step (next outcome) (.fork slots next)

/-- What the parts of a job become when one of them takes a step or is done. -/
inductive SlotStep : List (χ ⊕ Job m ρ χ) → List (χ ⊕ Job m ρ χ) → Prop
  | moved {job rest : Job m ρ χ} (step : Step rest job) (others : List (χ ⊕ Job m ρ χ)) :
      SlotStep (.inr rest :: others) (.inr job :: others)
  | settled (job : Job m ρ χ) (value : χ) (others : List (χ ⊕ Job m ρ χ)) :
      SlotStep (.inl value :: others) (.inr job :: others)
  | behind (slot : χ ⊕ Job m ρ χ) {slots rest : List (χ ⊕ Job m ρ χ)}
      (step : SlotStep rest slots) : SlotStep (slot :: rest) (slot :: slots)

end

/-- What a job becomes in some steps. -/
abbrev Later : Job m ρ χ → Job m ρ χ → Prop :=
  Relation.TransGen Step

/-- What the parts of a job become in some steps. -/
abbrev SlotsLater : List (χ ⊕ Job m ρ χ) → List (χ ⊕ Job m ρ χ) → Prop :=
  Relation.TransGen SlotStep

theorem acc_work {key : Option String} {next : Reply → Job m ρ χ}
    (rest : ∀ reply, Acc Step (next reply)) {course : Stepwise m ρ Reply}
    (ends : Acc Stepwise.Step course) : Acc Step (.work key course next) := by
  induction ends with
  | intro course _ ih =>
      refine ⟨_, ?_⟩
      rintro _ (_ | _ | ⟨_, step⟩ | ⟨_, _, _, reply⟩)
      · exact ih _ step
      · exact rest reply

theorem acc_value {slots : List (χ ⊕ Job m ρ χ)} (ends : Acc SlotStep slots) (value : χ) :
    Acc SlotStep (.inl value :: slots) := by
  induction ends with
  | intro slots _ ih =>
      refine ⟨_, ?_⟩
      rintro _ (_ | _ | ⟨_, step⟩)
      exact ih _ step

/-- A part and the parts behind it come to their ends side by side. -/
theorem acc_slot {job : Job m ρ χ} (ends : Acc Step job) {slots : List (χ ⊕ Job m ρ χ)}
    (others : Acc SlotStep slots) : Acc SlotStep (.inr job :: slots) := by
  induction ends generalizing slots with
  | intro job _ ih =>
      induction others with
      | intro slots below later =>
          refine ⟨_, ?_⟩
          rintro _ (⟨step⟩ | _ | ⟨_, step⟩)
          · exact ih _ step ⟨_, below⟩
          · exact acc_value ⟨_, below⟩ _
          · exact later _ step

theorem acc_fork {next : Except ResolveError (List χ) → Job m ρ χ}
    (rest : ∀ outcome, Acc Step (next outcome)) {slots : List (χ ⊕ Job m ρ χ)}
    (ends : Acc SlotStep slots) : Acc Step (.fork slots next) := by
  induction ends with
  | intro slots _ ih =>
      refine ⟨_, ?_⟩
      rintro _ (_ | _ | _ | _ | ⟨step⟩ | ⟨_, _, outcome⟩)
      · exact ih _ step
      · exact rest outcome

mutual

/-- Every job comes to its end. -/
theorem acc_step : (job : Job m ρ χ) → Acc Step job
  | .done _ => ⟨_, nofun⟩
  | .claim _ read next => by
      refine ⟨_, ?_⟩
      rintro _ (⟨_, _, _, reply⟩ | _)
      · exact acc_step (next reply)
      · exact acc_work (fun reply => acc_step (next reply)) read.acc_step
  | .work _ course next => acc_work (fun reply => acc_step (next reply)) course.acc_step
  | .fork slots next => acc_fork (fun outcome => acc_step (next outcome)) (acc_slotStep slots)

/-- All parts of a job come to their ends. -/
theorem acc_slotStep : (slots : List (χ ⊕ Job m ρ χ)) → Acc SlotStep slots
  | [] => ⟨_, nofun⟩
  | .inl value :: slots => acc_value (acc_slotStep slots) value
  | .inr job :: slots => acc_slot (acc_step job) (acc_slotStep slots)

end

/-- Jobs get later and later only so often. -/
theorem wellFounded_later : WellFounded (Later : Job m ρ χ → Job m ρ χ → Prop) :=
  ⟨fun job => (acc_step job).transGen⟩

instance : WellFoundedRelation (Job m ρ χ) :=
  ⟨Later, wellFounded_later⟩

/-- What is kept by single steps is kept by some steps. -/
theorem transGen_map {α β : Type} {first : α → α → Prop} {second : β → β → Prop} (change : α → β)
    (step : ∀ {later earlier}, first later earlier → second (change later) (change earlier))
    {later earlier : α} (steps : Relation.TransGen first later earlier) :
    Relation.TransGen second (change later) (change earlier) := by
  induction steps with
  | single only => exact .single (step only)
  | tail _ last ih => exact .tail ih (step last)

/-! ## Polling -/

/-- What a poll makes of a job: it is done, or it waits in a later state, or all of its
parts wait for keys, and it has none itself. -/
inductive Polled (job : Job m ρ χ) (desk : Desk) where
  | ready (outcome : Except ResolveError χ) (after : Desk)
  | pending (next : Job m ρ χ) (later : Later next job) (after : Desk)
  | blocked (idle : job.holds = []) (busy : desk.held ≠ [])

/-- What a poll of a later state makes of a job. -/
def Polled.behind {job next : Job m ρ χ} {desk before : Desk} (step : Step next job) :
    Polled next before → Polled job desk
  | .ready outcome after => .ready outcome after
  | .pending rest later after => .pending rest (.tail later step) after
  | .blocked _ _ => .pending next (.single step) before

/-- What a poll makes of the parts of a job: one of them fails, or some get on, or they
are all done or wait for keys. -/
inductive PolledAll (slots : List (χ ⊕ Job m ρ χ)) (desk : Desk) where
  | failed (error : ResolveError) (after : Desk)
  | moved (rest : List (χ ⊕ Job m ρ χ)) (later : SlotsLater rest slots) (after : Desk)
  | still (idle : heldBy slots = []) (busy : values? slots = none → desk.held ≠ [])

namespace PolledAll

variable {slots : List (χ ⊕ Job m ρ χ)} {desk before : Desk}

/-- Parts with one in front of them that is done or waits for a key. -/
def behindStill {slot : χ ⊕ Job m ρ χ} (idle : heldBy slots = [] → heldBy (slot :: slots) = [])
    (busy : (values? slots = none → desk.held ≠ []) → values? (slot :: slots) = none →
      desk.held ≠ []) : PolledAll slots desk → PolledAll (slot :: slots) desk
  | .failed error after => .failed error after
  | .moved rest later after =>
      .moved (slot :: rest) (transGen_map (slot :: ·) (.behind slot) later) after
  | .still others waiting => .still (idle others) (busy waiting)

/-- Parts with one in front of them that has got on. -/
def behindMoved {slot next : χ ⊕ Job m ρ χ}
    (later : ∀ others, SlotsLater (next :: others) (slot :: others)) :
    PolledAll slots before → PolledAll (slot :: slots) desk
  | .failed error after => .failed error after
  | .moved rest beyond after =>
      .moved (next :: rest)
        ((transGen_map (next :: ·) (.behind _) beyond).trans (later slots)) after
  | .still _ _ => .moved (next :: slots) (later slots) before

end PolledAll

section Polling

variable [Monad m]

/-- Carries a read or a transform on, and what comes behind it. -/
def pollWork (key : Option String) (next : Reply → Job m ρ χ)
    (pollNext : (reply : Reply) → (desk : Desk) → m (Polled (next reply) desk))
    (course : Stepwise m ρ Reply) (desk : Desk) : m (Polled (.work key course next) desk) := do
  match ← course.poll with
  | .ready reply =>
      let polled ← pollNext (desk.outcome key reply) (desk.finish key reply)
      return polled.behind (.finished key course next _)
  | .pending rest later =>
      return .pending (.work key rest next)
        (transGen_map (fun course => Job.work key course next) (fun step => .worked key step next)
          later) desk

mutual

/-- Carries a job on as far as it gets. -/
def poll : (job : Job m ρ χ) → (desk : Desk) → m (Polled job desk)
  | .done outcome, desk => pure (.ready outcome desk)
  | .claim key read next, desk =>
      match desk.cells.kept? key with
      | some reply => do
          let polled ← poll (next reply) desk
          return polled.behind (.answered key read next reply)
      | none =>
          if taken : key ∈ desk.held then pure (.blocked rfl (List.ne_nil_of_mem taken))
          else do
            let polled ← pollWork (some key) next (fun reply => poll (next reply)) read
              (desk.claim key)
            return polled.behind (.claimed key read next)
  | .work key course next, desk => pollWork key next (fun reply => poll (next reply)) course desk
  | .fork slots next, desk => do
      match ← pollAll slots desk with
      | .failed error after =>
          let polled ← poll (next (.error error)) after
          return polled.behind (.joined slots next _)
      | .moved rest later after =>
          match values? rest with
          | some values =>
              let polled ← poll (next (.ok values)) after
              return polled.behind (.joined slots next _)
          | none =>
              return .pending (.fork rest next)
                (transGen_map (fun slots => Job.fork slots next) (fun step => .moved step next)
                  later) after
      | .still idle busy =>
          match waiting : values? slots with
          | some values =>
              let polled ← poll (next (.ok values)) desk
              return polled.behind (.joined slots next _)
          | none => return .blocked idle (busy waiting)

/-- Carries the parts of a job on, one after the other, as far as each gets. The parts
behind one that fails are not polled any more. -/
def pollAll : (slots : List (χ ⊕ Job m ρ χ)) → (desk : Desk) → m (PolledAll slots desk)
  | [], _ => pure (.still rfl nofun)
  | .inl value :: slots, desk => do
      let polled ← pollAll slots desk
      return polled.behindStill id fun busy waiting => busy (Option.map_eq_none_iff.1 waiting)
  | .inr job :: slots, desk => do
      match ← poll job desk with
      | .ready (.error error) after => return .failed error after
      | .ready (.ok value) after =>
          let polled ← pollAll slots after
          return polled.behindMoved fun others => .single (.settled job value others)
      | .pending _ later after =>
          let polled ← pollAll slots after
          return polled.behindMoved fun others =>
            transGen_map (fun job => .inr job :: others) (fun step => .moved step others) later
      | .blocked idle busy =>
          let polled ← pollAll slots desk
          return polled.behindStill
            (fun others => by rw [heldBy, idle, others, List.nil_append]) fun _ _ => busy

end

/-- Polls a job until it is done. Before each poll, a key is held exactly if the job has a
read under way for it: the reads that were dropped have given theirs back. -/
def run (job : Job m ρ χ) (ledger : Ledger) : m (Except ResolveError χ × Ledger) := do
  match ← job.poll { ledger with held := job.holds } with
  | .ready outcome after => return (outcome, after.toLedger)
  | .pending next _ after => next.run after.toLedger
  | .blocked idle busy => absurd idle busy
termination_by job

end Polling

end Job

end Transclusion
