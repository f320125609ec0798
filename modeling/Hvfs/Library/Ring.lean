/-
This file develops circular lists that are kept in the nodes themselves. Every
node has a successor and a predecessor; one node is the head of the list and the
others are its members.

A ring is a head with members that are linked both ways, all the way around. The
operations on a ring write only into a few nodes, so each of them is settled by
where the written nodes stand. A walk from the head meets the members in their
order and then the head again.
-/

import Mathlib.Data.List.Nodup
import Mathlib.Logic.Function.Iterate

namespace Ring

/-- The two links of every node. -/
structure Nodes (Node : Type*) where
  next : Node → Node
  prev : Node → Node

variable {Node : Type*}

/-- Consecutive nodes of the list are linked both ways. -/
def Linked (nodes : Nodes Node) : List Node → Prop
  | first :: second :: rest =>
    nodes.next first = second ∧ nodes.prev second = first ∧ Linked nodes (second :: rest)
  | _ => True

/-- The head and its members, each of them once, are linked all the way around. -/
structure IsRing (nodes : Nodes Node) (head : Node) (members : List Node) : Prop where
  nodup : (head :: members).Nodup
  linked : Linked nodes (head :: members ++ [head])

/-- A walk from the head comes to the node. -/
def Reaches (nodes : Nodes Node) (head node : Node) : Prop :=
  ∃ steps, nodes.next^[steps] head = node

/-- A walk from the head comes back to it. -/
def Returns (nodes : Nodes Node) (head : Node) : Prop :=
  ∃ steps, nodes.next^[steps + 1] head = head

/-! ### Linked lists -/

section Linked

variable {nodes other : Nodes Node}

theorem linked_cons_cons {first second : Node} {rest : List Node} :
    Linked nodes (first :: second :: rest) ↔
      nodes.next first = second ∧ nodes.prev second = first ∧ Linked nodes (second :: rest) :=
  Iff.rfl

/-- Two lists that meet in a node. -/
theorem linked_append {front rest : List Node} {node : Node} :
    Linked nodes (front ++ node :: rest) ↔
      Linked nodes (front ++ [node]) ∧ Linked nodes (node :: rest) := by
  induction front with
  | nil => exact ⟨fun linked => ⟨trivial, linked⟩, And.right⟩
  | cons first front inductionHypothesis =>
    cases front with
    | nil =>
      simp only [List.cons_append, List.nil_append, linked_cons_cons]
      exact ⟨fun ⟨next, prev, linked⟩ => ⟨⟨next, prev, trivial⟩, linked⟩,
        fun ⟨⟨next, prev, _⟩, linked⟩ => ⟨next, prev, linked⟩⟩
    | cons second front =>
      simp only [List.cons_append, linked_cons_cons] at inductionHypothesis ⊢
      rw [inductionHypothesis]
      exact ⟨fun ⟨next, prev, first, second⟩ => ⟨⟨next, prev, first⟩, second⟩,
        fun ⟨⟨next, prev, first⟩, second⟩ => ⟨next, prev, first, second⟩⟩

/-- A list reads the successors of its nodes but the last, and the predecessors of those but the
first. -/
theorem Linked.congr {list : List Node} (linked : Linked nodes list)
    (next : ∀ node ∈ list.dropLast, other.next node = nodes.next node)
    (prev : ∀ node ∈ list.tail, other.prev node = nodes.prev node) : Linked other list := by
  induction list with
  | nil => trivial
  | cons first rest inductionHypothesis =>
    cases rest with
    | nil => trivial
    | cons second rest =>
      obtain ⟨follows, leads, tail⟩ := linked
      refine ⟨?_, ?_, inductionHypothesis tail (fun node member => ?_) fun node member => ?_⟩
      · rw [next first (by simp), follows]
      · rw [prev second (by simp), leads]
      · exact next node (List.mem_cons_of_mem _ member)
      · exact prev node (List.mem_cons_of_mem _ member)

end Linked

/-! ### Walking around -/

section Walk

variable {nodes : Nodes Node} {head : Node} {members : List Node}

/-- The walk along a linked list. -/
theorem Linked.iterate {list : List Node} {first last : Node}
    (linked : Linked nodes (first :: list ++ [last])) :
    nodes.next^[list.length + 1] first = last := by
  induction list generalizing first with
  | nil => exact linked.1
  | cons second rest inductionHypothesis =>
    rw [List.length_cons, Function.iterate_succ_apply, linked.1]
    exact inductionHypothesis linked.2.2

theorem IsRing.returns (ring : IsRing nodes head members) : Returns nodes head :=
  ⟨members.length, ring.linked.iterate⟩

/-- The successor of a node of the ring is in the ring. -/
theorem IsRing.next_mem (ring : IsRing nodes head members) {node : Node}
    (member : node ∈ head :: members) : nodes.next node ∈ head :: members := by
  obtain ⟨front, rest, split⟩ := List.append_of_mem member
  have linked := ring.linked
  rw [split, List.append_assoc, List.cons_append, linked_append] at linked
  cases rest with
  | nil =>
    rw [linked.2.1]
    exact List.mem_cons_self
  | cons follower rest =>
    rw [linked.2.1, split]
    simp

/-- A walk from the head meets the head and the members, and nothing else. -/
theorem IsRing.reaches_iff (ring : IsRing nodes head members) {node : Node} :
    Reaches nodes head node ↔ node ∈ head :: members := by
  constructor
  · rintro ⟨steps, rfl⟩
    induction steps with
    | zero => exact List.mem_cons_self
    | succ steps inductionHypothesis =>
      rw [Function.iterate_succ_apply']
      exact ring.next_mem inductionHypothesis
  · intro member
    rcases List.mem_cons.mp member with rfl | inside
    · exact ⟨0, rfl⟩
    · obtain ⟨front, rest, rfl⟩ := List.append_of_mem inside
      have linked := ring.linked
      rw [show head :: (front ++ node :: rest) ++ [head] =
        (head :: front) ++ node :: (rest ++ [head]) by simp, linked_append] at linked
      exact ⟨front.length + 1, linked.1.iterate⟩

/-- No member is its own successor. -/
theorem IsRing.next_ne (ring : IsRing nodes head members) {node : Node}
    (member : node ∈ members) : nodes.next node ≠ node := by
  obtain ⟨front, rest, rfl⟩ := List.append_of_mem member
  have linked := ring.linked
  rw [show head :: (front ++ node :: rest) ++ [head] =
    (head :: front) ++ node :: (rest ++ [head]) by simp, linked_append] at linked
  have nodup := ring.nodup
  cases rest with
  | nil =>
    rw [linked.2.1]
    rintro rfl
    simp at nodup
  | cons follower rest =>
    rw [linked.2.1]
    rintro rfl
    simp [List.nodup_append] at nodup

end Walk

/-! ### Operations -/

section Operations

variable [DecidableEq Node] {nodes : Nodes Node} {head node : Node} {members : List Node}

/-- The node is linked to itself. -/
def Nodes.init (nodes : Nodes Node) (node : Node) : Nodes Node where
  next := Function.update nodes.next node node
  prev := Function.update nodes.prev node node

/-- The node is linked in before the head. -/
def Nodes.addTail (nodes : Nodes Node) (node head : Node) : Nodes Node :=
  let last := nodes.prev head
  { next := Function.update (Function.update nodes.next node head) last node
    prev := Function.update (Function.update nodes.prev head node) node last }

@[simp] theorem Nodes.init_next_self : (nodes.init node).next node = node :=
  Function.update_self _ _ _

/-- A node outside of the ring may be initialised. -/
theorem IsRing.init (ring : IsRing nodes head members) (outside : node ∉ head :: members) :
    IsRing (nodes.init node) head members := by
  have apart : ∀ inner ∈ head :: members ++ [head], inner ≠ node := by
    rintro inner member rfl
    rcases List.mem_append.mp member with within | last
    · exact outside within
    · exact outside (List.mem_singleton.mp last ▸ List.mem_cons_self)
  refine ⟨ring.nodup, ring.linked.congr (fun inner member => ?_) fun inner member => ?_⟩
  · exact Function.update_of_ne (apart inner (List.dropLast_subset _ member)) _ _
  · exact Function.update_of_ne (apart inner (List.mem_of_mem_tail member)) _ _

/-- A node outside of the ring becomes its last member. -/
theorem IsRing.addTail (ring : IsRing nodes head members) (outside : node ∉ head :: members) :
    IsRing (nodes.addTail node head) head (members ++ [node]) := by
  obtain ⟨front, last, split⟩ : ∃ front last, head :: members = front ++ [last] :=
    ⟨_, _, (List.dropLast_append_getLast (List.cons_ne_nil head members)).symm⟩
  have linked := ring.linked
  rw [split, List.append_assoc, List.cons_append, linked_append] at linked
  obtain ⟨inner, follows, leads, -⟩ := linked
  have nodup := ring.nodup
  have notLast : last ≠ node := by
    rintro rfl
    exact outside (by rw [split]; simp)
  have notHead : head ≠ node := by
    rintro rfl
    exact outside List.mem_cons_self
  refine ⟨?_, ?_⟩
  · rw [← List.cons_append]
    exact List.Nodup.append nodup (List.nodup_singleton _) (List.disjoint_singleton.mpr outside)
  · rw [← List.cons_append, split, show front ++ [last] ++ [node] ++ [head] =
      front ++ last :: [node, head] by simp, linked_append]
    simp only [Nodes.addTail, leads]
    refine ⟨inner.congr (fun kept member => ?_) fun kept member => ?_, ?_, ?_, ?_, ?_, trivial⟩
    · rw [List.dropLast_concat] at member
      have inside : kept ∈ head :: members := by
        rw [split]
        exact List.mem_append_left _ member
      have notLastKept : kept ≠ last := by
        rintro rfl
        rw [split] at nodup
        exact (List.nodup_append.mp nodup).2.2 _ member _ (List.mem_singleton_self _) rfl
      have notNodeKept : kept ≠ node := by
        rintro rfl
        exact outside inside
      simp [notLastKept, notNodeKept]
    · rw [← split, List.tail_cons] at member
      have notHeadKept : kept ≠ head := by
        rintro rfl
        exact (List.nodup_cons.mp nodup).1 member
      have notNodeKept : kept ≠ node := by
        rintro rfl
        exact outside (List.mem_cons_of_mem _ member)
      simp [notNodeKept, notHeadKept]
    · simp
    · simp
    · simp [Ne.symm notLast]
    · simp [notHead]

end Operations

end Ring
