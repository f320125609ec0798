/-
This file is a small library on traces of lock operations. A thread holds a
multiset of locks; an operation that releases a lock which the thread does not
hold has no outcome. A trace is balanced when it can be played by a thread that
holds nothing and leaves it holding nothing.
-/

import Mathlib.Data.Multiset.AddSub

/-- Taking and giving back a lock. -/
inductive LockOp (Lock : Type*)
  | lock (name : Lock)
  | unlock (name : Lock)

namespace LockOp

variable {Lock : Type*} [DecidableEq Lock]

/-- The locks held after a trace. -/
def play (held : Multiset Lock) : List (LockOp Lock) → Option (Multiset Lock)
  | [] => some held
  | lock name :: rest => play (name ::ₘ held) rest
  | unlock name :: rest => if name ∈ held then play (held.erase name) rest else none

/-- Every lock that was taken has been given back, and nothing else. -/
def Balanced (trace : List (LockOp Lock)) : Prop := play 0 trace = some 0

variable {held : Multiset Lock} {name : Lock} {front rest : List (LockOp Lock)}

theorem play_append (held : Multiset Lock) (front rest : List (LockOp Lock)) :
    play held (front ++ rest) = (play held front).bind fun held => play held rest := by
  induction front generalizing held with
  | nil => rfl
  | cons operation front inductionHypothesis =>
    cases operation with
    | lock name => exact inductionHypothesis (name ::ₘ held)
    | unlock name =>
      rw [List.cons_append, play, play]
      split
      · exact inductionHypothesis (held.erase name)
      · rfl

@[simp] theorem play_nil : play held ([] : List (LockOp Lock)) = some held := rfl

@[simp] theorem play_lock : play held (lock name :: rest) = play (name ::ₘ held) rest := rfl

@[simp] theorem play_unlock : play (name ::ₘ held) (unlock name :: rest) = play held rest := by
  rw [play, if_pos (Multiset.mem_cons_self name held), Multiset.erase_cons_head]

/-- The lock under another one may be given back as well. -/
theorem play_unlock_under {other : Lock} :
    play (other ::ₘ name ::ₘ held) (unlock name :: rest) = play (other ::ₘ held) rest := by
  rw [Multiset.cons_swap, play_unlock]

theorem play_unlock_missing (missing : name ∉ held) :
    play held (unlock name :: rest) = none := if_neg missing

/-- A trace that was played to its end goes on with the rest. -/
theorem play_append_of_some {after : Multiset Lock} (played : play held front = some after) :
    play held (front ++ rest) = play after rest := by
  rw [play_append, played, Option.bind_some]

theorem play_append_of_none (stuck : play held front = none) :
    play held (front ++ rest) = none := by
  rw [play_append, stuck, Option.bind_none]

/-! ### Neutral traces -/

/-- A trace that any thread can play and that leaves it with the locks it had. -/
def Neutral (trace : List (LockOp Lock)) : Prop :=
  ∀ held : Multiset Lock, play held trace = some held

theorem neutral_nil : Neutral ([] : List (LockOp Lock)) := fun _ => rfl

theorem Neutral.append (first : Neutral front) (second : Neutral rest) : Neutral (front ++ rest) :=
  fun held => by rw [play_append_of_some (first held), second held]

theorem Neutral.flatten {traces : List (List (LockOp Lock))}
    (each : ∀ trace ∈ traces, Neutral trace) :
    Neutral traces.flatten := by
  induction traces with
  | nil => exact neutral_nil
  | cons trace traces inductionHypothesis =>
    rw [List.flatten_cons]
    exact (each trace List.mem_cons_self).append
      (inductionHypothesis fun other member => each other (List.mem_cons_of_mem _ member))

/-! ### Traces that can be played under a condition -/

section PlaysWhen

variable {middle after : Multiset Lock} {first second : Prop}

/-- Under the condition a thread can play the trace; otherwise it releases a lock that it does not
hold. -/
def PlaysWhen (condition : Prop) (held : Multiset Lock) (trace : List (LockOp Lock))
    (after : Multiset Lock) : Prop :=
  (condition → play held trace = some after) ∧ (¬condition → play held trace = none)

theorem PlaysWhen.of_play (holds : first) (played : play held front = some after) :
    PlaysWhen first held front after :=
  ⟨fun _ => played, fun fails => absurd holds fails⟩

theorem PlaysWhen.congr (plays : PlaysWhen first held front after) (same : first ↔ second) :
    PlaysWhen second held front after :=
  ⟨fun holds => plays.1 (same.mpr holds), fun fails => plays.2 fun holds => fails (same.mp holds)⟩

/-- One trace behind another. -/
theorem PlaysWhen.append (plays : PlaysWhen first held front middle)
    (later : first → PlaysWhen second middle rest after) :
    PlaysWhen (first ∧ second) held (front ++ rest) after := by
  constructor
  · rintro ⟨holds, also⟩
    rw [play_append_of_some (plays.1 holds)]
    exact (later holds).1 also
  · intro fails
    by_cases holds : first
    · rw [play_append_of_some (plays.1 holds)]
      exact (later holds).2 fun also => fails ⟨holds, also⟩
    · exact play_append_of_none (plays.2 holds)

theorem PlaysWhen.prepend (played : play held front = some middle)
    (later : PlaysWhen first middle rest after) : PlaysWhen first held (front ++ rest) after := by
  unfold PlaysWhen
  rwa [play_append_of_some played]

theorem PlaysWhen.followed (plays : PlaysWhen first held front middle)
    (played : play middle rest = some after) : PlaysWhen first held (front ++ rest) after :=
  (plays.append fun _ => PlaysWhen.of_play trivial played).congr
    ⟨And.left, fun holds => ⟨holds, trivial⟩⟩

theorem PlaysWhen.balanced_iff (plays : PlaysWhen first 0 front 0) : Balanced front ↔ first := by
  refine ⟨fun balanced => by_contra fun fails => ?_, plays.1⟩
  have stuck : play 0 front = none := plays.2 fails
  rw [show play 0 front = some 0 from balanced] at stuck
  cases stuck

end PlaysWhen

/-! ### Counting -/

/-- How often a lock is taken, and how often it is given back. -/
def taken (name : Lock) (trace : List (LockOp Lock)) : Nat :=
  trace.countP fun operation => match operation with
    | lock other => other = name
    | unlock _ => false

def given (name : Lock) (trace : List (LockOp Lock)) : Nat :=
  trace.countP fun operation => match operation with
    | lock _ => false
    | unlock other => other = name

/-- What a thread held and took is what it gave back and still holds. -/
theorem play_count {trace : List (LockOp Lock)} {after : Multiset Lock} (name : Lock)
    (played : play held trace = some after) :
    held.count name + taken name trace = after.count name + given name trace := by
  induction trace generalizing held with
  | nil =>
    obtain rfl := Option.some.inj played
    rfl
  | cons operation trace inductionHypothesis =>
    cases operation with
    | lock other =>
      have later := inductionHypothesis played
      rw [Multiset.count_cons] at later
      unfold taken given at later ⊢
      by_cases same : other = name
      · rw [if_pos same.symm] at later
        simp only [List.countP_cons, same, decide_true, if_true, Bool.false_eq_true, if_false]
        omega
      · rw [if_neg (Ne.symm same)] at later
        simp only [List.countP_cons, same, decide_false, Bool.false_eq_true, if_false]
        omega
    | unlock other =>
      rw [play] at played
      split at played
      · rename_i member
        have later := inductionHypothesis played
        unfold taken given at later ⊢
        by_cases same : other = name
        · subst same
          have positive := Multiset.count_pos.mpr member
          rw [Multiset.count_erase_self] at later
          simp only [List.countP_cons, decide_true, if_true, Bool.false_eq_true, if_false]
          omega
        · rw [Multiset.count_erase_of_ne (Ne.symm same)] at later
          simp only [List.countP_cons, same, decide_false, Bool.false_eq_true, if_false]
          omega
      · cases played

/-- A balanced trace gives every lock back as often as it takes it. -/
theorem Balanced.taken_eq_given {trace : List (LockOp Lock)} (balanced : Balanced trace)
    (name : Lock) : taken name trace = given name trace := by
  have counted := play_count name balanced
  rwa [Multiset.count_zero, Nat.zero_add, Nat.zero_add] at counted

end LockOp
