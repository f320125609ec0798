/-
This file embeds `itb_add_ite` as any number of threads run it on one block,
each under the read lock of the block and the write lock of its group of index
heads, in the steps between which other threads may run.

The search for a clear bit reads one bit after another, the search for a free
cell one cell after another under the spin lock of the block; both may see what
other threads write meanwhile. A chain is written in one step: its lock keeps
every other thread away from its cells, and the flag of the new cell is all that
other searches read of them. A thread that would have to wait has no step.
-/

import Hvfs.ItbRoom
import Hvfs.Library.Cursor
import Hvfs.Library.Threads
import Hvfs.Library.Transition

namespace Hvfs

/-! ### Threads -/

/-- Where a thread is in `itb_add_ite`. -/
inductive AddStage
  | idle
  /-- It holds the lock of its heads. -/
  | enter (hi : HvfsIndex)
  /-- `entries` has gone beyond the size of the block. -/
  | full (hi : HvfsIndex)
  /-- `find_first_zero_bit` reads the bit `n`. -/
  | scan (hi : HvfsIndex) (n : Nat)
  /-- `find_first_zero_bit` has returned `nr`, and `lib_bitmap_tas` comes next. -/
  | test (hi : HvfsIndex) (nr : Nat)
  /-- `find_first_zero_bit` has found no bit. -/
  | noBit (hi : HvfsIndex)
  /-- It has set the bit `nr`. -/
  | took (hi : HvfsIndex) (nr : Nat)
  /-- The entry is written, and `__itb_add_index` begins. -/
  | head (hi : HvfsIndex) (nr : Nat) (ite : Ite)
  /-- `__itb_get_free_index` has `left` cells to read, under `ilock`, and reads the one at `pos`. -/
  | seek (hi : HvfsIndex) (nr : Nat) (ite : Ite) (left pos : Nat)
  /-- `__itb_get_free_index` has returned the cell `f`. -/
  | link (hi : HvfsIndex) (nr : Nat) (ite : Ite) (f : Nat)
  /-- The entry is on its chain; `max_offset` comes next. -/
  | note (hi : HvfsIndex) (nr : Nat) (ite : Ite)
  /-- `ite_create` comes next. -/
  | fill (hi : HvfsIndex) (nr : Nat) (ite : Ite)
  /-- It returns, and gives its lock back. -/
  | done (hi : HvfsIndex) (err : Int)

/-- The request whose lock the thread holds. -/
def AddStage.request : AddStage → Option HvfsIndex
  | .idle => none
  | .enter hi | .full hi | .scan hi _ | .test hi _ | .noBit hi | .took hi _ | .head hi _ _
  | .seek hi _ _ _ _ | .link hi _ _ _ | .note hi _ _ | .fill hi _ _ | .done hi _ => some hi

/-- An entry that was added: the request, the number of the entry and what was written first. -/
structure AddedIte where
  hi : HvfsIndex
  nr : Nat
  ite : Ite

structure AddSystem (Thread : Type) where
  itb : Itb
  hmi : Hmi
  stage : Thread → AddStage
  /-- The additions that have succeeded so far. -/
  added : List AddedIte

/-- No thread has begun. -/
def AddSystem.init (Thread : Type) (itb : Itb) (hmi : Hmi) : AddSystem Thread where
  itb := itb
  hmi := hmi
  stage _ := .idle
  added := []

/-- `ITB_LOCK_GRANULARITY`. -/
def ITB_LOCK_GRANULARITY : Nat := 16

/-- The lock of the heads of a request, by its number. -/
def lockOf (i : Itb) (hi : HvfsIndex) : Nat := hashSlot i hi.hash / ITB_LOCK_GRANULARITY

/-- The lock that the thread holds. -/
def AddStage.lock (i : Itb) (stage : AddStage) : Option Nat := stage.request.map (lockOf i)

/-- It holds `ilock`. -/
def AddStage.spins : AddStage → Option Unit
  | .seek _ _ _ _ _ => some ()
  | _ => none

/-! ### Steps -/

/-- What `__itb_add_index` writes for an entry on a head that is not FREE, with the cell `f`. -/
def linkCell (i : Itb) (offset nr f : Nat) : Itb :=
  match (i.index offset).flag with
  | .unique =>
    let i := i.setIndex offset { i.index offset with flag := .conflict, conflict := f }
    let i := i.setIndex f { i.index f with flag := .unique, entry := nr }
    { i with pseudoConflicts := i.pseudoConflicts + 1 }
  | .conflict =>
    let i := i.setIndex f (i.index offset)
    let i := i.setIndex offset { i.index offset with entry := nr, conflict := f }
    { i with pseudoConflicts := i.pseudoConflicts + 1 }
  | _ => i

/-- What a thread does next: it begins with a request that keeps to its entry, or goes on with its
own. -/
inductive AddAction
  | begin (hi : HvfsIndex) (fits : hi.Fits)
  | next

section Steps

variable {Thread : Type} [DecidableEq Thread] [Fintype Thread]

def AddSystem.go (s : AddSystem Thread) (thread : Thread) (stage : AddStage) : AddSystem Thread :=
  { s with stage := Function.update s.stage thread stage }

/-- Another thread holds `ilock`. -/
def AddSystem.Spinning (s : AddSystem Thread) : Prop := ∃ thread, (s.stage thread).spins = some ()

instance (s : AddSystem Thread) : Decidable s.Spinning := Fintype.decidableExistsFintype

/-- The lock of the heads is held. -/
def AddSystem.Locked (s : AddSystem Thread) (lock : Nat) : Prop :=
  ∃ thread, (s.stage thread).lock s.itb = some lock

instance (s : AddSystem Thread) (lock : Nat) : Decidable (s.Locked lock) :=
  Fintype.decidableExistsFintype

/-- The next step of a thread in `itb_add_ite`. -/
def addNext (s : AddSystem Thread) (thread : Thread) : Option (AddSystem Thread) :=
  let i := s.itb
  match s.stage thread with
  | .idle => none
  | .enter hi =>
    let s := { s with itb := { i with entries := i.entries + 1 } }
    if i.entries + 1 ≤ (i.total : Int) then some (s.go thread (.scan hi 0))
    else some (s.go thread (.full hi))
  | .full hi =>
    some ({ s with itb := { i with entries := i.entries - 1 } }.go thread (.done hi (-ESPLIT)))
  | .scan hi n =>
    if n < i.total then
      if i.bitmap n then some (s.go thread (.scan hi (n + 1))) else some (s.go thread (.test hi n))
    else some (s.go thread (.noBit hi))
  | .test hi nr =>
    -- someone may have set the bit meanwhile
    if i.bitmap nr then some (s.go thread (.scan hi 0))
    else some ({ s with itb := i.setBit nr true }.go thread (.took hi nr))
  | .noBit hi =>
    some ({ s with itb := { i with entries := i.entries - 1 } }.go thread (.done hi (-EINVAL)))
  | .took hi nr =>
    let (ite, hmi) := newIte s.hmi hi
    some ({ s with itb := i.setIte nr ite, hmi := hmi }.go thread (.head hi nr ite))
  | .head hi nr ite =>
    let offset := hashSlot i hi.hash
    match (i.index offset).flag with
    | .free =>
      let cell := { i.index offset with flag := .unique, entry := nr }
      some ({ s with itb := i.setIndex offset cell }.go thread (.note hi nr ite))
    | .overflow => some (s.go thread (.note hi nr ite))
    | _ =>
      if s.Spinning then none
      else
        let pos := if i.inf ≥ i.total then 0 else i.inf
        some (s.go thread (.seek hi nr ite i.total pos))
  | .seek hi nr ite 0 _ => some (s.go thread (.link hi nr ite (i.total + i.total)))
  | .seek hi nr ite (left + 1) pos =>
    if (i.index (pos + i.total)).flag = .free then
      some ({ s with itb := { i with inf := pos + 1, itu := i.itu + 1 } }.go thread
        (.link hi nr ite (pos + i.total)))
    else some (s.go thread (.seek hi nr ite left (if pos + 1 = i.total then 0 else pos + 1)))
  | .link hi nr ite f =>
    some ({ s with itb := linkCell i (hashSlot i hi.hash) nr f }.go thread (.note hi nr ite))
  | .note hi nr ite =>
    if s.Spinning then none
    else some ({ s with itb := noteOffset i nr }.go thread (.fill hi nr ite))
  | .fill hi nr ite =>
    let s := { s with
      itb := i.setIte nr (iteCreate hi ite), added := s.added ++ [AddedIte.mk hi nr ite] }
    some (s.go thread (.done hi 0))
  | .done _ _ => some (s.go thread .idle)

/-- A step of the system. A thread begins when nobody holds the lock of its heads. -/
def addThreadStep (s : AddSystem Thread) : Thread × AddAction → Option (AddSystem Thread)
  | (thread, .begin hi _) =>
    match s.stage thread with
    | .idle => if s.Locked (lockOf s.itb hi) then none else some (s.go thread (.enter hi))
    | _ => none
  | (thread, .next) => addNext s thread

end Steps

/-- Without other threads the two parts are `__itb_add_index`. -/
theorem itbAddIndex_eq_linkCell (i : Itb) {offset : Nat} (nr : Nat)
    (used : (i.index offset).flag = .unique ∨ (i.index offset).flag = .conflict) :
    itbAddIndex i offset nr =
      noteOffset (linkCell (itbGetFreeIndex i).2 offset nr (itbGetFreeIndex i).1) nr := by
  have index : (itbGetFreeIndex i).2.index = i.index := by
    unfold itbGetFreeIndex
    dsimp only
    split <;> rfl
  rcases got : itbGetFreeIndex i with ⟨f, after⟩
  rw [got] at index
  change after.index = i.index at index
  rcases used with flag | flag <;> simp only [itbAddIndex, linkCell, got, index, flag]

end Hvfs
