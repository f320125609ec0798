/-
This file fixes what a run of a labelled transition system is and proves the
induction rules that every safety result about runs uses.

A system is a partial step function: a label carries the choice of who moves
and of every outcome the environment decides, and a label that is not enabled
has no successor. A run is a list of labels. A *guarded* run is one whose every
step is taken in a state that meets a condition on the state before the step;
an invariant that only the guarded steps keep holds along the guarded runs.

The second half is about systems that answer. A concrete system refines an
abstract one through a relation when every concrete answer is an answer the
abstract system may give, and the relation survives the step.
-/

import Mathlib.Data.List.Basic
import Mathlib.Tactic.Common

namespace Transition

/-! ### Runs of a partial step function -/

section Runs

variable {State Label : Type*}

/-- The state a list of labels leads to, when each label is enabled in its turn. -/
def run (step : State → Label → Option State) : State → List Label → Option State
  | state, [] => some state
  | state, label :: rest => (step state label).bind fun next => run step next rest

/-- Every step of the run is taken in a state that meets the condition. -/
def Guarded (step : State → Label → Option State) (guard : State → Label → Prop) :
    State → List Label → Prop
  | _, [] => True
  | state, label :: rest =>
    guard state label ∧ ∀ next, step state label = some next → Guarded step guard next rest

/-- A run can be checked step by step. -/
instance decidableGuarded (step : State → Label → Option State) (guard : State → Label → Prop)
    [∀ state label, Decidable (guard state label)] (state : State) (labels : List Label) :
    Decidable (Guarded step guard state labels) :=
  match labels with
  | [] => isTrue trivial
  | label :: rest =>
    match stepped : step state label with
    | none => decidable_of_iff (guard state label)
      ⟨fun allowed => ⟨allowed, fun _ same => by rw [stepped] at same; cases same⟩, And.left⟩
    | some next =>
      have := decidableGuarded step guard next rest
      decidable_of_iff (guard state label ∧ Guarded step guard next rest)
        ⟨fun ⟨allowed, tail⟩ => ⟨allowed, fun _ same => by
          rw [stepped] at same
          cases same
          exact tail⟩, fun ⟨allowed, tail⟩ => ⟨allowed, tail next stepped⟩⟩

variable {step : State → Label → Option State} {guard : State → Label → Prop}

@[simp] theorem run_nil (state : State) : run step state [] = some state := rfl

theorem run_cons (state : State) (label : Label) (rest : List Label) :
    run step state (label :: rest) = (step state label).bind fun next => run step next rest := rfl

theorem run_cons_eq_some {state final : State} {label : Label} {rest : List Label} :
    run step state (label :: rest) = some final ↔
      ∃ next, step state label = some next ∧ run step next rest = some final := by
  rw [run_cons, Option.bind_eq_some_iff]

/-- A guarded step before a guarded run. -/
theorem Guarded.cons {state next : State} {label : Label} {rest : List Label}
    (allowed : guard state label) (stepped : step state label = some next)
    (tail : Guarded step guard next rest) : Guarded step guard state (label :: rest) := by
  refine ⟨allowed, fun other same => ?_⟩
  cases stepped.symm.trans same
  exact tail

/-- A guarded run splits into a guarded first part and a guarded rest. -/
theorem guarded_append {state middle : State} {first second : List Label}
    (guarded : Guarded step guard state (first ++ second))
    (reached : run step state first = some middle) :
    Guarded step guard state first ∧ Guarded step guard middle second := by
  induction first generalizing state with
  | nil =>
    cases reached
    exact ⟨trivial, guarded⟩
  | cons label rest inductionHypothesis =>
    obtain ⟨next, stepped, tail⟩ := run_cons_eq_some.mp reached
    refine ⟨⟨guarded.1, fun other same => ?_⟩,
      (inductionHypothesis (guarded.2 next stepped) tail).2⟩
    cases stepped.symm.trans same
    exact (inductionHypothesis (guarded.2 next stepped) tail).1

/-- A condition on the labels alone guards a run when each label meets it. -/
theorem guarded_of_forall {allowed : Label → Prop} {state : State} {labels : List Label}
    (each : ∀ label ∈ labels, allowed label) :
    Guarded step (fun _ label => allowed label) state labels := by
  induction labels generalizing state with
  | nil => trivial
  | cons label rest inductionHypothesis =>
    exact ⟨each label List.mem_cons_self, fun next _ =>
      inductionHypothesis fun other member => each other (List.mem_cons_of_mem _ member)⟩

/-- The run rule: what the guarded steps keep holds at the end of a guarded run. -/
theorem guarded_invariant (invariant : State → Prop)
    (preserved : ∀ state label next, invariant state → guard state label →
      step state label = some next → invariant next)
    {state final : State} {labels : List Label} (initial : invariant state)
    (guarded : Guarded step guard state labels) (reached : run step state labels = some final) :
    invariant final := by
  induction labels generalizing state with
  | nil =>
    cases reached
    exact initial
  | cons label rest inductionHypothesis =>
    obtain ⟨next, stepped, tail⟩ := run_cons_eq_some.mp reached
    exact inductionHypothesis (preserved state label next initial guarded.1 stepped)
      (guarded.2 next stepped) tail

/-- The run rule without a condition on the steps. -/
theorem run_invariant (invariant : State → Prop)
    (preserved : ∀ state label next, invariant state → step state label = some next →
      invariant next)
    {state final : State} {labels : List Label} (initial : invariant state)
    (reached : run step state labels = some final) : invariant final := by
  induction labels generalizing state with
  | nil =>
    cases reached
    exact initial
  | cons label rest inductionHypothesis =>
    obtain ⟨next, stepped, tail⟩ := run_cons_eq_some.mp reached
    exact inductionHypothesis (preserved state label next initial stepped) tail

/-- The simulation rule: a run is followed by the abstract states of its labels, when each step is
followed by the abstract step of its label. -/
theorem run_refines {Abstract : Type*} {abstractStep : Abstract → Label → Abstract}
    (related : State → Abstract → Prop)
    (simulated : ∀ state abstract label next, related state abstract →
      step state label = some next → related next (abstractStep abstract label))
    {state final : State} {abstract : Abstract} {labels : List Label}
    (initial : related state abstract) (reached : run step state labels = some final) :
    related final (labels.foldl abstractStep abstract) := by
  induction labels generalizing state abstract with
  | nil =>
    cases reached
    exact initial
  | cons label rest inductionHypothesis =>
    obtain ⟨next, stepped, tail⟩ := run_cons_eq_some.mp reached
    exact inductionHypothesis (simulated state abstract label next initial stepped) tail

/-- The rule of progress: while a good state is not quiet, some allowed label leads to a good state
of a smaller measure. Then allowed labels lead from every good state to a quiet one. -/
theorem exists_run_quiet {invariant quiet : State → Prop} {allowed : Label → Prop}
    (measure : State → Nat)
    (progress : ∀ state, invariant state → ¬quiet state → ∃ label next, allowed label ∧
      step state label = some next ∧ invariant next ∧ measure next < measure state)
    {state : State} (initial : invariant state) :
    ∃ labels final, (∀ label ∈ labels, allowed label) ∧ run step state labels = some final ∧
      invariant final ∧ quiet final := by
  induction size : measure state using Nat.strongRecOn generalizing state with
  | ind bound inductionHypothesis =>
    by_cases rest : quiet state
    · exact ⟨[], state, by simp, rfl, initial, rest⟩
    · obtain ⟨label, next, legal, stepped, kept, less⟩ := progress state initial rest
      obtain ⟨labels, final, all, reached, good⟩ :=
        inductionHypothesis (measure next) (size ▸ less) kept rfl
      refine ⟨label :: labels, final, ?_, run_cons_eq_some.mpr ⟨next, stepped, reached⟩, good⟩
      intro other member
      rcases List.mem_cons.mp member with rfl | later
      · exact legal
      · exact all other later

/-- Two conditions that agree on every good state guard the same runs, when the first one keeps the
states good. -/
theorem guarded_iff_of_invariant {other : State → Label → Prop} (invariant : State → Prop)
    (same : ∀ state label, invariant state → (guard state label ↔ other state label))
    (preserved : ∀ state label next, invariant state → guard state label →
      step state label = some next → invariant next)
    {state : State} {labels : List Label} (initial : invariant state) :
    Guarded step guard state labels ↔ Guarded step other state labels := by
  induction labels generalizing state with
  | nil => exact Iff.rfl
  | cons label rest inductionHypothesis =>
    have here := same state label initial
    constructor
    · rintro ⟨allowed, tail⟩
      refine ⟨here.mp allowed, fun next stepped => ?_⟩
      exact (inductionHypothesis (preserved state label next initial allowed stepped)).mp
        (tail next stepped)
    · rintro ⟨allowed, tail⟩
      have first := here.mpr allowed
      refine ⟨first, fun next stepped => ?_⟩
      exact (inductionHypothesis (preserved state label next initial first stepped)).mpr
        (tail next stepped)

/-- A run is guarded by two conditions when it is guarded by each of them. -/
theorem guarded_and {other : State → Label → Prop} {state : State} {labels : List Label} :
    Guarded step (fun state label => guard state label ∧ other state label) state labels ↔
      Guarded step guard state labels ∧ Guarded step other state labels := by
  induction labels generalizing state with
  | nil => exact ⟨fun _ => ⟨trivial, trivial⟩, fun _ => trivial⟩
  | cons label rest inductionHypothesis =>
    constructor
    · rintro ⟨⟨first, second⟩, tail⟩
      exact ⟨⟨first, fun next stepped => (inductionHypothesis.mp (tail next stepped)).1⟩,
        ⟨second, fun next stepped => (inductionHypothesis.mp (tail next stepped)).2⟩⟩
    · rintro ⟨⟨first, firstTail⟩, ⟨second, secondTail⟩⟩
      exact ⟨⟨first, second⟩, fun next stepped =>
        inductionHypothesis.mpr ⟨firstTail next stepped, secondTail next stepped⟩⟩

/-- A property holds after every prefix of a run exactly when each step has a successor with the
property. -/
theorem prefixes_iff_guarded {property : State → Prop} {state : State} {labels : List Label}
    (initial : property state) :
    (∀ before after, labels = before ++ after →
        ∃ reached, run step state before = some reached ∧ property reached) ↔
      Guarded step (fun state label => ∃ next, step state label = some next ∧ property next)
        state labels := by
  induction labels generalizing state with
  | nil =>
    refine ⟨fun _ => trivial, fun _ before after split => ?_⟩
    rw [(List.append_eq_nil_iff.mp split.symm).1]
    exact ⟨state, rfl, initial⟩
  | cons label rest inductionHypothesis =>
    constructor
    · intro every
      obtain ⟨next, reached, holds⟩ := every [label] rest rfl
      obtain ⟨middle, stepped, ended⟩ := run_cons_eq_some.mp reached
      cases ended
      refine ⟨⟨next, stepped, holds⟩, fun other same => ?_⟩
      cases stepped.symm.trans same
      refine (inductionHypothesis holds).mp fun before after split => ?_
      obtain ⟨final, followed, kept⟩ := every (label :: before) after (by rw [split]; rfl)
      obtain ⟨first, again, tail⟩ := run_cons_eq_some.mp followed
      cases stepped.symm.trans again
      exact ⟨final, tail, kept⟩
    · rintro ⟨⟨next, stepped, holds⟩, tail⟩ before after split
      rcases before with _ | ⟨first, before⟩
      · exact ⟨state, rfl, initial⟩
      · obtain ⟨rfl, others⟩ := List.cons.inj split
        obtain ⟨final, followed, kept⟩ :=
          (inductionHypothesis holds).mpr (tail next stepped) before after others
        exact ⟨final, run_cons_eq_some.mpr ⟨next, stepped, followed⟩, kept⟩

/-- A property holds in every state of a run exactly when each step that is taken leads to a state
with the property. -/
theorem reached_iff_guarded {property : State → Prop} {state : State} {labels : List Label}
    (initial : property state) :
    (∀ before after final, labels = before ++ after → run step state before = some final →
        property final) ↔
      Guarded step (fun state label => ∀ next, step state label = some next → property next)
        state labels := by
  induction labels generalizing state with
  | nil =>
    refine ⟨fun _ => trivial, fun _ before after final split reached => ?_⟩
    rw [(List.append_eq_nil_iff.mp split.symm).1] at reached
    cases reached
    exact initial
  | cons label rest inductionHypothesis =>
    constructor
    · intro every
      have holds : ∀ next, step state label = some next → property next := fun next stepped =>
        every [label] rest next rfl (run_cons_eq_some.mpr ⟨next, stepped, rfl⟩)
      refine ⟨holds, fun next stepped => (inductionHypothesis (holds next stepped)).mp ?_⟩
      intro before after final split reached
      exact every (label :: before) after final (by rw [split]; rfl)
        (run_cons_eq_some.mpr ⟨next, stepped, reached⟩)
    · rintro ⟨holds, tail⟩ before after final split reached
      rcases before with _ | ⟨first, before⟩
      · cases reached
        exact initial
      · obtain ⟨rfl, others⟩ := List.cons.inj split
        obtain ⟨next, stepped, followed⟩ := run_cons_eq_some.mp reached
        exact (inductionHypothesis (holds next stepped)).mpr (tail next stepped) before after final
          others followed

/-- The progress rule: when each guarded step of a good state has a good successor, a guarded run
goes through to its end. -/
theorem guarded_progress (invariant : State → Prop)
    (progress : ∀ state label, invariant state → guard state label →
      ∃ next, step state label = some next ∧ invariant next)
    {state : State} {labels : List Label} (initial : invariant state)
    (guarded : Guarded step guard state labels) :
    ∃ final, run step state labels = some final ∧ invariant final := by
  induction labels generalizing state with
  | nil => exact ⟨state, rfl, initial⟩
  | cons label rest inductionHypothesis =>
    obtain ⟨next, stepped, kept⟩ := progress state label initial guarded.1
    obtain ⟨final, tail, good⟩ := inductionHypothesis kept (guarded.2 next stepped)
    exact ⟨final, run_cons_eq_some.mpr ⟨next, stepped, tail⟩, good⟩

end Runs

/-! ### Histories -/

/-- The histories of a relation, each with the state it leads to. The last label is the newest. -/
inductive Legal {State Label : Type*} (step : State → Label → State → Prop) (initial : State) :
    List Label → State → Prop
  | start : Legal step initial [] initial
  | append {history : List Label} {state next : State} {label : Label}
    (before : Legal step initial history state) (stepped : step state label next) :
    Legal step initial (history ++ [label]) next

/-! ### Systems that answer -/

section Answers

variable {State Abstract Label Answer : Type*}

/-- The answers a total system gives to a list of labels, and the state it ends in. -/
def answers (step : State → Label → Answer × State) : State → List Label → List Answer × State
  | state, [] => ([], state)
  | state, label :: rest =>
    let (answer, next) := step state label
    let (others, final) := answers step next rest
    (answer :: others, final)

/-- The answers a nondeterministic system may give to a list of labels. -/
inductive MayAnswer (step : Abstract → Label → Answer → Abstract → Prop) :
    Abstract → List Label → List Answer → Abstract → Prop
  | nil (state : Abstract) : MayAnswer step state [] [] state
  | cons {state next final : Abstract} {label : Label} {rest : List Label} {answer : Answer}
      {others : List Answer} : step state label answer next →
      MayAnswer step next rest others final →
      MayAnswer step state (label :: rest) (answer :: others) final

/-- The refinement rule: when each concrete step is matched by an abstract step with the same
answer, the answers of a whole concrete run are answers of an abstract run. -/
theorem answers_refine {step : State → Label → Answer × State}
    {abstractStep : Abstract → Label → Answer → Abstract → Prop} (related : State → Abstract → Prop)
    (simulated : ∀ state abstract label, related state abstract →
      ∃ next, abstractStep abstract label (step state label).1 next ∧
        related (step state label).2 next)
    (state : State) (abstract : Abstract) (labels : List Label) (initial : related state abstract) :
    ∃ final, MayAnswer abstractStep abstract labels (answers step state labels).1 final ∧
      related (answers step state labels).2 final := by
  induction labels generalizing state abstract with
  | nil => exact ⟨abstract, .nil abstract, initial⟩
  | cons label rest inductionHypothesis =>
    obtain ⟨next, matched, kept⟩ := simulated state abstract label initial
    obtain ⟨final, tail, ended⟩ := inductionHypothesis _ next kept
    exact ⟨final, .cons matched tail, ended⟩

/-- The answers a partial system gives to a list of labels, when each is enabled in its turn, and
the state it ends in. -/
def trace (step : State → Label → Option (Answer × State)) :
    State → List Label → Option (List Answer × State)
  | state, [] => some ([], state)
  | state, label :: rest =>
    (step state label).bind fun (answer, next) =>
      (trace step next rest).map fun (others, final) => (answer :: others, final)

/-- The refinement rule for a partial system: when each concrete step is stuck or matched by an
abstract step with the same answer, a concrete run goes through with the answers of an abstract
run, or gets stuck on its way. -/
theorem trace_refines {step : State → Label → Option (Answer × State)}
    {abstractStep : Abstract → Label → Answer → Abstract → Prop} (related : State → Abstract → Prop)
    (stuck : State → Label → Prop)
    (simulated : ∀ state abstract label, related state abstract → stuck state label ∨
      ∃ answer next abstractNext, step state label = some (answer, next) ∧
        abstractStep abstract label answer abstractNext ∧ related next abstractNext)
    (state : State) (abstract : Abstract) (labels : List Label) (initial : related state abstract) :
    (∃ given final abstractFinal, trace step state labels = some (given, final) ∧
      MayAnswer abstractStep abstract labels given abstractFinal ∧ related final abstractFinal) ∨
    ∃ before label after given reached, labels = before ++ label :: after ∧
      trace step state before = some (given, reached) ∧ stuck reached label := by
  induction labels generalizing state abstract with
  | nil => exact Or.inl ⟨[], state, abstract, rfl, .nil abstract, initial⟩
  | cons label rest inductionHypothesis =>
    rcases simulated state abstract label initial with
      here | ⟨answer, next, abstractNext, stepped, matched, kept⟩
    · exact Or.inr ⟨[], label, rest, [], state, rfl, rfl, here⟩
    · rcases inductionHypothesis next abstractNext kept with
        ⟨given, final, abstractFinal, ran, tail, ended⟩ |
        ⟨before, other, after, given, reached, split, ran, there⟩
      · refine Or.inl ⟨answer :: given, final, abstractFinal, ?_, .cons matched tail, ended⟩
        simp only [trace, stepped, Option.bind_some, ran, Option.map_some]
      · refine Or.inr ⟨label :: before, other, after, answer :: given, reached, ?_, ?_, there⟩
        · rw [split, List.cons_append]
        · simp only [trace, stepped, Option.bind_some, ran, Option.map_some]

end Answers

end Transition
