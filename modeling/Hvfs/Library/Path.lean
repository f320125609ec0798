/-
This file develops singly linked chains stored in a table.

A table of cells gives each cell at most one successor. A path from a cell is
the list of the cells met by following successors until a cell that has none,
so a path is finite, determined by its first cell, and never meets a cell
twice. The rules at the end say how a path changes when a cell is spliced in
after the first one, or when the cell after a given one is bypassed; each asks
of the new table only what it says about the cells of the path.
-/

import Mathlib.Data.List.Nodup
import Mathlib.Tactic.Common

variable {Cell : Type*}

/-- Following successors from the first cell meets exactly the listed cells and then stops. -/
inductive CellPath (next : Cell → Option Cell) : Cell → List Cell → Prop
  | last {cell : Cell} (stop : next cell = none) : CellPath next cell [cell]
  | link {cell follower : Cell} {cells : List Cell} (follow : next cell = some follower)
      (tail : CellPath next follower cells) : CellPath next cell (cell :: cells)

namespace CellPath

variable {next other : Cell → Option Cell} {start : Cell} {cells : List Cell}

theorem exists_tail (path : CellPath next start cells) : ∃ rest, cells = start :: rest := by
  cases path with
  | last stop => exact ⟨[], rfl⟩
  | link follow tail => exact ⟨_, rfl⟩

theorem start_mem (path : CellPath next start cells) : start ∈ cells := by
  obtain ⟨rest, rfl⟩ := path.exists_tail
  exact List.mem_cons_self

/-- A path depends on the successors of its own cells only. -/
theorem congr (path : CellPath next start cells) (same : ∀ cell ∈ cells, other cell = next cell) :
    CellPath other start cells := by
  induction path with
  | last stop => exact .last ((same _ List.mem_cons_self).trans stop)
  | link follow tail inductionHypothesis =>
    exact .link ((same _ List.mem_cons_self).trans follow)
      (inductionHypothesis fun cell member => same cell (List.mem_cons_of_mem _ member))

/-- The first cell determines the path. -/
theorem unique {others : List Cell} (path : CellPath next start cells)
    (second : CellPath next start others) : cells = others := by
  induction path generalizing others with
  | last stop =>
    cases second with
    | last _ => rfl
    | link follow tail => exact absurd (stop.symm.trans follow) (by simp)
  | link follow tail inductionHypothesis =>
    cases second with
    | last stop => exact absurd (stop.symm.trans follow) (by simp)
    | link followOther tailOther =>
      cases follow.symm.trans followOther
      rw [inductionHypothesis tailOther]

/-- A path of at least two cells links its first cell to the path of the others. -/
theorem tail_of_cons {head : Cell} {rest : List Cell} (path : CellPath next start (head :: rest))
    (more : rest ≠ []) :
    start = head ∧ ∃ follower, next head = some follower ∧ CellPath next follower rest := by
  generalize shape : head :: rest = cells at path
  cases path with
  | last stop =>
    cases shape
    exact absurd rfl more
  | link follow tail =>
    cases shape
    exact ⟨rfl, _, follow, tail⟩

/-- What is left of a path from one of its cells is the path of that cell. -/
theorem suffix {front rest : List Cell} {cell : Cell}
    (path : CellPath next start (front ++ cell :: rest)) : CellPath next cell (cell :: rest) := by
  induction front generalizing start with
  | nil =>
    obtain ⟨_, same⟩ := path.exists_tail
    cases same
    exact path
  | cons head tail inductionHypothesis =>
    obtain ⟨_, _, _, later⟩ := path.tail_of_cons (by simp)
    exact inductionHypothesis later

/-- A path that ends meets no cell twice. -/
theorem nodup (path : CellPath next start cells) : cells.Nodup := by
  induction path with
  | last stop => exact List.nodup_singleton _
  | @link cell follower cells follow tail inductionHypothesis =>
    refine List.nodup_cons.mpr ⟨fun again => ?_, inductionHypothesis⟩
    obtain ⟨front, rest, rfl⟩ := List.append_of_mem again
    have same := (tail.suffix).unique (.link follow tail)
    have lengths := congrArg List.length same
    simp at lengths
    omega

/-- A cell of the path whose successor is missing is the last one. -/
theorem rest_eq_nil {front rest : List Cell} {cell : Cell}
    (path : CellPath next start (front ++ cell :: rest)) (stop : next cell = none) : rest = [] := by
  cases path.suffix with
  | last _ => rfl
  | link follow tail => exact absurd (stop.symm.trans follow) (by simp)

/-- A cell of the path whose successor is known is followed by it. -/
theorem rest_eq_cons {front rest : List Cell} {cell follower : Cell}
    (path : CellPath next start (front ++ cell :: rest)) (follow : next cell = some follower) :
    ∃ later, rest = follower :: later := by
  cases path.suffix with
  | last stop => exact absurd (stop.symm.trans follow) (by simp)
  | link followed tail =>
    cases follow.symm.trans followed
    exact tail.exists_tail

/-! ### Splicing -/

/-- A new cell is linked in behind the first one and takes over its successor. -/
theorem insertAfterHead {rest : List Cell} {fresh : Cell}
    (path : CellPath next start (start :: rest))
    (linked : other start = some fresh) (taken : other fresh = next start)
    (same : ∀ cell ∈ rest, other cell = next cell) :
    CellPath other start (start :: fresh :: rest) := by
  refine .link linked ?_
  cases path with
  | last stop => exact .last (taken.trans stop)
  | link follow tail => exact .link (taken.trans follow) (tail.congr same)

/-- The cell behind a given one is bypassed: its predecessor takes over its successor. -/
theorem removeNext {front rest : List Cell} {cell victim : Cell}
    (path : CellPath next start (front ++ cell :: victim :: rest))
    (taken : other cell = next victim)
    (same : ∀ kept ∈ front ++ rest, other kept = next kept) :
    CellPath other start (front ++ cell :: rest) := by
  induction front generalizing start with
  | nil =>
    cases path with
    | link follow tail =>
      cases tail with
      | last stop => exact .last (taken.trans stop)
      | link followVictim later =>
        exact .link (taken.trans followVictim) (later.congr same)
  | cons head front inductionHypothesis =>
    obtain ⟨rfl, _, follow, tail⟩ := path.tail_of_cons (by simp)
    exact .link ((same _ List.mem_cons_self).trans follow)
      (inductionHypothesis tail fun kept member => same kept (List.mem_cons_of_mem _ member))

end CellPath
