import Mathlib.Data.List.Forall2
import Transclusion.Engine.Together
import Transclusion.Proofs.Engine.Stepwise

/-!
# What holds of a job holds of its run

The parts of a job take turns, and what one of them finds in the ledger may have been
put there by another. To say what a part comes to, one says what it may rely on between
its turns, and what it does itself (`Rules`). Under such rules a job ends with some
property if each of its steps keeps to them and the property holds at its end, whatever
the other parts do meanwhile (`Job.Ends`). The parts of a fork have properties of their
own, which the others do not spoil.

One poll keeps to this (`Job.poll_meets`), and so a run ends with an outcome that has the
property (`Job.run_ends`). Nothing is said of the world, and nothing is asked of it:
effects may respond in every way they can (`Stepwise.Gives`).

Strands are what jobs are written with. Each of them has its own rule
(`Strand.Ensures`), and `ensures_gatherTogether` is the one for the inclusions of a text.
-/

set_option autoImplicit false

namespace Transclusion

variable {m : Type → Type} [Monad m] {World : Type} [Runs m World] {ρ χ α β : Type}

/-! ## Rules -/

/-- What a part of a job may rely on between its turns, and what it does itself: each
covers a sequence of steps, and the others may rely on what one does. -/
structure Rules where
  rely : Ledger → Ledger → Prop
  own : Ledger → Ledger → Prop
  rely_refl : ∀ ledger, rely ledger ledger
  rely_trans : ∀ {first second third}, rely first second → rely second third → rely first third
  own_refl : ∀ ledger, own ledger ledger
  own_trans : ∀ {first second third}, own first second → own second third → own first third
  rely_of_own : ∀ {before after}, own before after → rely before after

/-- A property of an outcome and of the ledger that is left with it. -/
abbrev Post (α : Type) : Type :=
  Ledger → Except ResolveError α → Prop

/-- A property of an outcome that holds on, whatever the other parts do. -/
def Rules.Stable (rules : Rules) (post : Post χ) : Prop :=
  ∀ ledger later outcome, rules.rely ledger later → post ledger outcome → post later outcome

namespace Job

mutual

/-- From a ledger on, a job keeps to some rules and ends with a property. -/
def Ends (rules : Rules) : Job m ρ χ → Ledger → Post χ → Prop
  | .done outcome, ledger, post => post ledger outcome
  | .claim key read next, ledger, post => ∀ later, rules.rely ledger later →
      (∀ reply, later.cells.kept? key = some reply → Ends rules (next reply) later post) ∧
      (later.cells.kept? key = none → rules.own later (later.note key) ∧
        ∀ last reply, rules.rely (later.note key) last → read.Gives reply →
          rules.own last (last.fill (some key) reply) ∧
            Ends rules (next (last.outcome (some key) reply)) (last.fill (some key) reply) post)
  | .work key course next, ledger, post => ∀ later reply, rules.rely ledger later →
      course.Gives reply → rules.own later (later.fill key reply) ∧
        Ends rules (next (later.outcome key reply)) (later.fill key reply) post
  | .fork slots next, ledger, post => ∃ posts, (∀ part ∈ posts, rules.Stable part) ∧
      EndAll rules slots ledger posts ∧ ∀ later, rules.rely ledger later →
        (∀ values, List.Forall₂ (fun part value => part later (.ok value)) posts values →
          Ends rules (next (.ok values)) later post) ∧
        ∀ error, (∃ part ∈ posts, part later (.error error)) →
          Ends rules (next (.error error)) later post

/-- From a ledger on, each part of a job keeps to some rules and ends with a property of
its own, or has done so. -/
def EndAll (rules : Rules) : List (χ ⊕ Job m ρ χ) → Ledger → List (Post χ) → Prop
  | [], _, posts => posts = []
  | .inl value :: slots, ledger, posts => ∃ part rest, posts = part :: rest ∧
      part ledger (.ok value) ∧ EndAll rules slots ledger rest
  | .inr job :: slots, ledger, posts => ∃ part rest, posts = part :: rest ∧
      Ends rules job ledger part ∧ EndAll rules slots ledger rest

end

variable {rules : Rules}

mutual

/-- What the other parts do does not keep a job from ending as it does. -/
theorem Ends.later {ledger later : Ledger} {post : Post χ} (stable : rules.Stable post)
    (relies : rules.rely ledger later) :
    (job : Job m ρ χ) → job.Ends rules ledger post → job.Ends rules later post
  | .done outcome, ends => stable ledger later outcome relies ends
  | .claim _ _ _, ends => fun last further => ends last (rules.rely_trans relies further)
  | .work _ _ _, ends => fun last reply further =>
      ends last reply (rules.rely_trans relies further)
  | .fork slots _, ⟨posts, parts, ends, joins⟩ =>
      ⟨posts, parts, EndAll.later relies slots posts parts ends, fun last further =>
        joins last (rules.rely_trans relies further)⟩

theorem EndAll.later {ledger later : Ledger} (relies : rules.rely ledger later) :
    (slots : List (χ ⊕ Job m ρ χ)) → (posts : List (Post χ)) →
    (∀ part ∈ posts, rules.Stable part) → EndAll rules slots ledger posts →
    EndAll rules slots later posts
  | [], _, _, ends => ends
  | .inl _ :: slots, _, stable, ⟨part, rest, split, holds, ends⟩ => by
      subst split
      rw [List.forall_mem_cons] at stable
      exact ⟨part, rest, rfl, stable.1 ledger later _ relies holds,
        EndAll.later relies slots rest stable.2 ends⟩
  | .inr job :: slots, _, stable, ⟨part, rest, split, holds, ends⟩ => by
      subst split
      rw [List.forall_mem_cons] at stable
      exact ⟨part, rest, rfl, Ends.later stable.1 relies job holds,
        EndAll.later relies slots rest stable.2 ends⟩

end

/-- A part of a job keeps to some rules and ends with a property, or has done so. -/
def SlotEnds (rules : Rules) (ledger : Ledger) (part : Post χ) : χ ⊕ Job m ρ χ → Prop
  | .inl value => part ledger (.ok value)
  | .inr job => job.Ends rules ledger part

theorem SlotEnds.later {ledger later : Ledger} {part : Post χ} (stable : rules.Stable part)
    (relies : rules.rely ledger later) {slot : χ ⊕ Job m ρ χ}
    (ends : SlotEnds rules ledger part slot) : SlotEnds rules later part slot := by
  cases slot with
  | inl value => exact stable ledger later _ relies ends
  | inr job => exact Ends.later stable relies job ends

theorem endAll_cons {ledger : Ledger} {slot : χ ⊕ Job m ρ χ} {slots : List (χ ⊕ Job m ρ χ)}
    {part : Post χ} {posts : List (Post χ)}
    (first : SlotEnds rules ledger part slot) (others : EndAll rules slots ledger posts) :
    EndAll rules (slot :: slots) ledger (part :: posts) := by
  cases slot with
  | inl value => exact ⟨part, posts, rfl, first, others⟩
  | inr job => exact ⟨part, posts, rfl, first, others⟩

/-- Parts that are all done have the values that were said of them. -/
theorem EndAll.values {ledger : Ledger} {slots : List (χ ⊕ Job m ρ χ)}
    {posts : List (Post χ)} {values : List χ}
    (ends : EndAll rules slots ledger posts) (settled : values? slots = some values) :
    List.Forall₂ (fun part value => part ledger (.ok value)) posts values := by
  induction slots generalizing posts values with
  | nil =>
      rw [EndAll] at ends
      cases ends
      cases settled
      exact .nil
  | cons slot slots ih =>
      cases slot with
      | inr job => cases settled
      | inl value =>
          obtain ⟨part, rest, rfl, holds, others⟩ := ends
          obtain ⟨behind, found, rfl⟩ := Option.map_eq_some_iff.1 settled
          exact .cons holds (ih others found)

/-! ## One poll -/

/-- A poll kept to the rules, and its job has ended with a property or goes on to. -/
def Polled.Meets (rules : Rules) (post : Post χ) (start : Ledger)
    {job : Job m ρ χ} {desk : Desk} : Polled job desk → Prop
  | .ready outcome after => rules.own start after.toLedger ∧ post after.toLedger outcome
  | .pending next _ after => rules.own start after.toLedger ∧ next.Ends rules after.toLedger post
  | .blocked _ _ => True

/-- A step in front of a poll. -/
theorem Polled.Meets.behind {post : Post χ} {start : Ledger} {job next : Job m ρ χ}
    {desk before : Desk} {polled : Polled next before}
    (owns : rules.own start before.toLedger) (ends : next.Ends rules before.toLedger post)
    (meets : polled.Meets rules post before.toLedger) (step : Step next job) :
    (polled.behind step : Polled job desk).Meets rules post start := by
  cases polled with
  | ready outcome after => exact ⟨rules.own_trans owns meets.1, meets.2⟩
  | pending rest later after => exact ⟨rules.own_trans owns meets.1, meets.2⟩
  | blocked idle busy => exact ⟨owns, ends⟩

/-- A poll of parts kept to the rules: the one that failed had an error that was said of
it, or all go on to end as was said of them. -/
def PolledAll.Meets (rules : Rules) (posts : List (Post χ)) (start : Ledger)
    {slots : List (χ ⊕ Job m ρ χ)} {desk : Desk} : PolledAll slots desk → Prop
  | .failed error after => rules.own start after.toLedger ∧
      ∃ part ∈ posts, part after.toLedger (.error error)
  | .moved rest _ after => rules.own start after.toLedger ∧
      EndAll rules rest after.toLedger posts
  | .still _ _ => True

/-- A part that did not get on in front of a poll of parts. -/
theorem PolledAll.Meets.behindStill {part : Post χ} {posts : List (Post χ)}
    {slot : χ ⊕ Job m ρ χ} {slots : List (χ ⊕ Job m ρ χ)} {desk : Desk}
    {polled : PolledAll slots desk}
    (stable : rules.Stable part) (ends : SlotEnds rules desk.toLedger part slot)
    (meets : polled.Meets rules posts desk.toLedger)
    (idle : heldBy slots = [] → heldBy (slot :: slots) = [])
    (busy : (values? slots = none → desk.held ≠ []) → values? (slot :: slots) = none →
      desk.held ≠ []) :
    (polled.behindStill idle busy).Meets rules (part :: posts) desk.toLedger := by
  cases polled with
  | failed error after =>
      obtain ⟨owns, other, member, fails⟩ := meets
      exact ⟨owns, other, .tail _ member, fails⟩
  | moved rest later after =>
      have still := ends.later stable (rules.rely_of_own meets.1)
      exact ⟨meets.1, endAll_cons still meets.2⟩
  | still others waiting => exact trivial

/-- A part that got on in front of a poll of parts. -/
theorem PolledAll.Meets.behindMoved {part : Post χ} {posts : List (Post χ)} {start : Ledger}
    {slot next : χ ⊕ Job m ρ χ} {slots : List (χ ⊕ Job m ρ χ)} {desk before : Desk}
    {polled : PolledAll slots before} (stable : rules.Stable part)
    (owns : rules.own start before.toLedger) (ends : SlotEnds rules before.toLedger part next)
    (others : EndAll rules slots before.toLedger posts)
    (meets : polled.Meets rules posts before.toLedger)
    (later : ∀ others, SlotsLater (next :: others) (slot :: others)) :
    (polled.behindMoved later : PolledAll (slot :: slots) desk).Meets rules (part :: posts)
      start := by
  cases polled with
  | failed error after =>
      obtain ⟨further, other, member, fails⟩ := meets
      exact ⟨rules.own_trans owns further, other, .tail _ member, fails⟩
  | moved rest beyond after =>
      have still := ends.later stable (rules.rely_of_own meets.1)
      exact ⟨rules.own_trans owns meets.1, endAll_cons still meets.2⟩
  | still idle busy => exact ⟨owns, endAll_cons ends others⟩

theorem pollWork_meets {key : Option String} {next : Reply → Job m ρ χ} {post : Post χ}
    {desk : Desk}
    (rest : ∀ reply (before : Desk) (world : World), (next reply).Ends rules before.toLedger post →
      (Runs.run ((next reply).poll before) world).1.Meets rules post before.toLedger)
    {course : Stepwise m ρ Reply}
    (ends : (work key course next).Ends rules desk.toLedger post) (world : World) :
    (Runs.run (pollWork key next (fun reply => (next reply).poll) course desk) world).1.Meets rules
      post desk.toLedger := by
  have sound := course.poll_sound world
  rw [pollWork, Runs.run_bind]
  cases polled : (Runs.run course.poll world).1 with
  | ready reply =>
      rw [polled] at sound
      obtain ⟨owns, onward⟩ := ends _ reply (rules.rely_refl _) sound
      rw [Runs.run_bind, Runs.run_pure]
      exact .behind owns onward (rest _ (desk.finish key reply) _ onward)
        (.finished key course next _)
  | pending left later =>
      rw [polled] at sound
      rw [Runs.run_pure]
      exact ⟨rules.own_refl _, fun last reply relies gives =>
        ends last reply relies (sound reply gives)⟩

mutual

/-- **What holds of a job holds of one poll.** -/
theorem poll_meets : (job : Job m ρ χ) → ∀ {post : Post χ} (desk : Desk) (world : World),
    job.Ends rules desk.toLedger post →
    (Runs.run (job.poll desk) world).1.Meets rules post desk.toLedger
  | .done outcome, post, desk, world, ends => by
      rw [poll, Runs.run_pure]
      exact ⟨rules.own_refl _, ends⟩
  | .claim key read next, post, desk, world, ends => by
      obtain ⟨answered, claimed⟩ := ends _ (rules.rely_refl _)
      rw [poll]
      split
      · next reply kept =>
          have onward := answered reply kept
          rw [Runs.run_bind, Runs.run_pure]
          exact .behind (rules.own_refl _) onward (poll_meets (next reply) desk _ onward)
            (.answered key read next reply)
      · next absent =>
          split
          · rw [Runs.run_pure]
            exact trivial
          · obtain ⟨owns, onward⟩ := claimed absent
            have works : (work (some key) read next).Ends rules (desk.claim key).toLedger post :=
              onward
            rw [Runs.run_bind, Runs.run_pure]
            exact .behind owns works
              (pollWork_meets (fun reply before world => poll_meets (next reply) before world)
                works _) (.claimed key read next)
  | .work key course next, post, desk, world, ends => by
      rw [poll]
      exact pollWork_meets (fun reply before world => poll_meets (next reply) before world) ends
        world
  | .fork slots next, post, desk, world, ⟨posts, stable, ends, joins⟩ => by
      have parts := pollAll_meets slots desk world stable ends
      rw [poll, Runs.run_bind]
      cases polled : (Runs.run (pollAll slots desk) world).1 with
      | failed error after =>
          rw [polled] at parts
          have onward := (joins _ (rules.rely_of_own parts.1)).2 error parts.2
          rw [Runs.run_bind, Runs.run_pure]
          exact .behind parts.1 onward (poll_meets (next (.error error)) after _ onward)
            (.joined slots next _)
      | moved rest later after =>
          rw [polled] at parts
          have relies := rules.rely_of_own parts.1
          cases settled : values? rest with
          | some values =>
              have onward := (joins _ relies).1 values (parts.2.values settled)
              simp only [settled]
              rw [Runs.run_bind, Runs.run_pure]
              exact .behind parts.1 onward (poll_meets (next (.ok values)) after _ onward)
                (.joined slots next _)
          | none =>
              simp only [settled]
              rw [Runs.run_pure]
              exact ⟨parts.1, posts, stable, parts.2, fun last further =>
                joins last (rules.rely_trans relies further)⟩
      | still idle busy =>
          dsimp only
          split
          · next values settled =>
              have onward := (joins _ (rules.rely_refl _)).1 values (ends.values settled)
              rw [Runs.run_bind, Runs.run_pure]
              exact .behind (rules.own_refl _) onward
                (poll_meets (next (.ok values)) desk _ onward) (.joined slots next _)
          · rw [Runs.run_pure]
            exact trivial

/-- What holds of the parts of a job holds of one poll of them. -/
theorem pollAll_meets : (slots : List (χ ⊕ Job m ρ χ)) → ∀ {posts : List (Post χ)} (desk : Desk)
    (world : World),
    (∀ part ∈ posts, rules.Stable part) → EndAll rules slots desk.toLedger posts →
    (Runs.run (pollAll slots desk) world).1.Meets rules posts desk.toLedger
  | [], posts, desk, world, _, _ => by
      rw [pollAll, Runs.run_pure]
      exact trivial
  | .inl value :: slots, _, desk, world, stable, ⟨part, rest, split, holds, ends⟩ => by
      subst split
      rw [List.forall_mem_cons] at stable
      have ended : SlotEnds rules desk.toLedger part (.inl value : χ ⊕ Job m ρ χ) := holds
      rw [pollAll, Runs.run_bind, Runs.run_pure]
      exact .behindStill stable.1 ended (pollAll_meets slots desk _ stable.2 ends) _ _
  | .inr job :: slots, _, desk, world, stable, ⟨part, rest, split, holds, ends⟩ => by
      subst split
      rw [List.forall_mem_cons] at stable
      have first := poll_meets job desk world holds
      have behind {after : Desk} (owns : rules.own desk.toLedger after.toLedger) :=
        EndAll.later (rules.rely_of_own owns) slots rest stable.2 ends
      rw [pollAll, Runs.run_bind]
      cases polled : (Runs.run (job.poll desk) world).1 with
      | ready outcome after =>
          rw [polled] at first
          cases outcome with
          | error error =>
              rw [Runs.run_pure]
              exact ⟨first.1, part, .head _, first.2⟩
          | ok value =>
              have ended : SlotEnds rules after.toLedger part (.inl value : χ ⊕ Job m ρ χ) :=
                first.2
              have others := behind first.1
              rw [Runs.run_bind, Runs.run_pure]
              exact .behindMoved stable.1 first.1 ended others
                (pollAll_meets slots after _ stable.2 others) _
      | pending left later after =>
          rw [polled] at first
          have ended : SlotEnds rules after.toLedger part (.inr left) := first.2
          have others := behind first.1
          rw [Runs.run_bind, Runs.run_pure]
          exact .behindMoved stable.1 first.1 ended others
            (pollAll_meets slots after _ stable.2 others) _
      | blocked idle busy =>
          have ended : SlotEnds rules desk.toLedger part (.inr job) := holds
          rw [Runs.run_bind, Runs.run_pure]
          exact .behindStill stable.1 ended (pollAll_meets slots desk _ stable.2 ends) _ _

end

/-! ## A run -/

/-- **What holds of a job holds of its run.** The run keeps to the rules from beginning to
end, and its outcome has the property that was said of it. -/
theorem run_ends {job : Job m ρ χ} {ledger : Ledger} {post : Post χ}
    (ends : job.Ends rules ledger post) (world : World) :
    rules.own ledger (Runs.run (job.run ledger) world).1.2 ∧
      post (Runs.run (job.run ledger) world).1.2 (Runs.run (job.run ledger) world).1.1 := by
  induction job using wellFounded_later.induction generalizing ledger world with
  | _ job ih =>
      have meets := job.poll_meets { ledger with held := job.holds } world ends
      rw [run, Runs.run_bind]
      cases polled : (Runs.run (job.poll { ledger with held := job.holds }) world).1 with
      | ready outcome after =>
          rw [polled] at meets
          rw [Runs.run_pure]
          exact meets
      | pending next later after =>
          rw [polled] at meets
          obtain ⟨owns, outcome⟩ := ih next later meets.2 _
          exact ⟨rules.own_trans meets.1 owns, outcome⟩
      | blocked idle busy => exact absurd idle busy

end Job

/-! ## Strands -/

namespace Strand

variable {rules : Rules} {ledger : Ledger}

/-- From a ledger on, a strand keeps to some rules, and what comes behind it may count on a
property of its outcome. -/
def Ensures (rules : Rules) (strand : Strand m ρ χ α) (ledger : Ledger)
    (post : Post α) : Prop :=
  ∀ (next : Except ResolveError α → Job m ρ χ) (last : Post χ),
    (∀ later outcome, rules.rely ledger later → post later outcome →
      (next outcome).Ends rules later last) →
    (strand next).Ends rules ledger last

theorem ensures_ofExcept {post : Post α} {outcome : Except ResolveError α}
    (holds : post ledger outcome) :
    (ofExcept outcome : Strand m ρ χ α).Ensures rules ledger post :=
  fun _ _ behind => behind ledger outcome (rules.rely_refl ledger) holds

theorem Ensures.bind {first : Strand m ρ χ α} {rest : α → Strand m ρ χ β}
    {middle : Post α} {post : Post β}
    (ensures : first.Ensures rules ledger middle)
    (onward : ∀ later value, rules.rely ledger later → middle later (.ok value) →
      (rest value).Ensures rules later post)
    (fails : ∀ later error, rules.rely ledger later → middle later (.error error) →
      post later (.error error)) :
    (first >>= rest).Ensures rules ledger post := by
  intro next last behind
  refine ensures _ last fun later outcome relies holds => ?_
  cases outcome with
  | error error => exact behind later _ relies (fails later error relies holds)
  | ok value =>
      refine onward later value relies holds next last fun final outcome further reached => ?_
      exact behind final outcome (rules.rely_trans relies further) reached

/-- What comes behind a strand may count on what follows from its property. -/
theorem Ensures.imp {strand : Strand m ρ χ α} {post other : Post α}
    (ensures : strand.Ensures rules ledger post)
    (follows : ∀ later outcome, rules.rely ledger later → post later outcome →
      other later outcome) : strand.Ensures rules ledger other := by
  intro next last behind
  refine ensures next last fun later outcome relies holds => ?_
  exact behind later outcome relies (follows later outcome relies holds)

theorem ensures_work {course : Stepwise m ρ Reply} {post : Post Content}
    (holds : ∀ later reply, rules.rely ledger later → course.Gives reply → post later reply) :
    (work course : Strand m ρ χ Content).Ensures rules ledger post := by
  intro next last behind later reply relies gives
  exact ⟨rules.own_refl later, behind later reply relies (holds later reply relies gives)⟩

theorem ensures_claim {key : String} {read : Stepwise m ρ Reply} {post : Post Content}
    (answered : ∀ later reply, rules.rely ledger later → later.cells.kept? key = some reply →
      post later reply)
    (claimed : ∀ later, rules.rely ledger later → later.cells.kept? key = none →
      rules.own later (later.note key) ∧
        ∀ last reply, rules.rely (later.note key) last → read.Gives reply →
          rules.own last (last.fill (some key) reply) ∧
            post (last.fill (some key) reply) (last.outcome (some key) reply)) :
    (claim key read : Strand m ρ χ Content).Ensures rules ledger post := by
  intro next final behind later relies
  refine ⟨fun reply kept => behind later reply relies (answered later reply relies kept),
    fun absent => ?_⟩
  obtain ⟨notes, reads⟩ := claimed later relies absent
  refine ⟨notes, fun last reply further gives => ?_⟩
  obtain ⟨fills, holds⟩ := reads last reply further gives
  have reached := rules.rely_trans (rules.rely_trans relies (rules.rely_of_own notes))
    (rules.rely_trans further (rules.rely_of_own fills))
  exact ⟨fills, behind _ _ reached holds⟩

/-- The run of a strand with nothing behind it. -/
theorem Ensures.run {strand : Strand m ρ χ χ} {post : Post χ}
    (ensures : strand.Ensures rules ledger post) (world : World) :
    rules.own ledger (Runs.run (strand.close.run ledger) world).1.2 ∧
      post (Runs.run (strand.close.run ledger) world).1.2
        (Runs.run (strand.close.run ledger) world).1.1 :=
  Job.run_ends (ensures .done post fun _ _ _ holds => holds) world

end Strand

namespace Engine

variable {rules : Rules} {ledger : Ledger} {resolveInclusion : Inclusion → Strand m ρ Node Node}
  {pieces : List Piece} {post : Post (List Part)}

/-- **The rule for inclusions side by side.** Each inclusion ends with a property that the
others do not spoil. The nodes of all of them make up the parts of the text, and an error
of any of them may become the error of all. -/
theorem ensures_gatherTogether {posts : List (Post Node)}
    (stable : ∀ part ∈ posts, rules.Stable part)
    (ensures : List.Forall₂ (fun planned part =>
      (resolveInclusion planned).Ensures rules ledger part) (Piece.inclusions pieces) posts)
    (joined : ∀ later nodes, rules.rely ledger later →
      List.Forall₂ (fun part node => part later (.ok node)) posts nodes →
      post later (.ok (Part.weave pieces nodes)))
    (failed : ∀ later error, rules.rely ledger later →
      (∃ part ∈ posts, part later (.error error)) → post later (.error error)) :
    (gatherTogether resolveInclusion pieces).Ensures rules ledger post := by
  intro next last behind
  have parts {planned : List Inclusion} {each : List (Post Node)}
      (ensures : List.Forall₂ (fun inclusion part =>
        (resolveInclusion inclusion).Ensures rules ledger part) planned each) :
      Job.EndAll rules (planned.map fun inclusion => .inr (resolveInclusion inclusion).close) ledger
        each := by
    induction ensures with
    | nil => rfl
    | cons first _ ih => exact ⟨_, _, rfl, first .done _ fun _ _ _ holds => holds, ih⟩
  refine ⟨posts, stable, parts ensures, fun later relies => ⟨?_, ?_⟩⟩
  · intro nodes all
    exact behind later _ relies (joined later nodes relies all)
  · intro error fails
    exact behind later _ relies (failed later error relies fails)

/-- The rule for inclusions with properties that they have wherever they stand. -/
theorem ensures_gatherTogether_each {each : Inclusion → Post Node}
    (stable : ∀ planned, rules.Stable (each planned))
    (ensures : ∀ planned, (resolveInclusion planned).Ensures rules ledger (each planned))
    (joined : ∀ later nodes, rules.rely ledger later →
      List.Forall₂ (fun planned node => each planned later (.ok node)) (Piece.inclusions pieces)
        nodes → post later (.ok (Part.weave pieces nodes)))
    (failed : ∀ later planned error, rules.rely ledger later →
      planned ∈ Piece.inclusions pieces → each planned later (.error error) →
      post later (.error error)) :
    (gatherTogether resolveInclusion pieces).Ensures rules ledger post := by
  have posts : ∀ part ∈ (Piece.inclusions pieces).map each, rules.Stable part := by
    intro part member
    obtain ⟨planned, -, rfl⟩ := List.mem_map.1 member
    exact stable planned
  refine ensures_gatherTogether posts ?_ ?_ ?_
  · rw [List.forall₂_map_right_iff, List.forall₂_same]
    exact fun planned _ => ensures planned
  · intro later nodes relies all
    exact joined later nodes relies (List.forall₂_map_left_iff.1 all)
  · rintro later error relies ⟨part, member, fails⟩
    obtain ⟨planned, among, rfl⟩ := List.mem_map.1 member
    exact failed later planned error relies among fails

end Engine

end Transclusion
