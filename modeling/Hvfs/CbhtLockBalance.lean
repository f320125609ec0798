/-
This file says when a run of `mds_cbht_search` gives back exactly the locks that
it took. Three things go wrong: a search that fails on a copy, where
`cbht_itb_hit` unlocks the block it began with; a copy of a block that is not in
the entry the thread has locked; and a bucket split that fails, behind which the
bucket is unlocked once more.
-/

import Hvfs.CbhtLocks
import Hvfs.ReplyRoundTrip

namespace Hvfs

open LockOp

/-! ### What the runs are like that are balanced -/

/-- How `itb_dirty` ends, by the headers it reads. -/
def SearchRound.dirtyEnd (r : LockRequest) (round : SearchRound) : DirtyEnd :=
  if r.txg = round.first.txg + 1 ∧ round.first.state = .dirty then
    if round.second.be ≠ round.first.be ∨ r.txg ≠ round.second.txg + 1 ∨
        round.second.state ≠ .dirty then .lost
    else .won
  else .same

/-- A block that `itb_dirty` copies is in the entry that the thread has locked. -/
def SearchRound.InPlace (r : LockRequest) (be : Nat × Nat) (round : SearchRound) : Prop :=
  r.txg = round.first.txg + 1 → round.first.state = .dirty → round.first.be = some be

/-- Every block that a search copies is in the entry that the thread has locked. -/
def RoundsInPlace (r : LockRequest) (be : Nat × Nat) : List SearchRound → Prop
  | [] => True
  | round :: rest =>
    match itbPlan round.content r.hi with
    | some (.dirty _) =>
      round.InPlace r be ∧ (round.dirtyEnd r = .won → RoundsInPlace r be rest)
    | _ => True

/-- A search that fails does so on the block `start`; `i` is the block it has come to. -/
def FailsAt (r : LockRequest) (start : Nat) : Nat → List SearchRound → Prop
  | _, [] => True
  | i, round :: rest =>
    match itbPlan round.content r.hi with
    | none => True
    | some (.done err _) => err = 0 ∨ i = start
    | some (.dirty act) =>
      match round.dirtyEnd r with
      | .same =>
        (∀ result, itbAct round.hmi round.content r.hi act = some result → result.err = 0) ∨
          i = start
      | .lost => i = start
      | .won => FailsAt r start round.copy.number rest

/-- `cbht_itb_hit` on the block `i` in the entry `be`. -/
def HitRun.Sound (r : LockRequest) (be : Nat × Nat) (i : Nat) (hit : HitRun) : Prop :=
  hit.cowed = false → Flag.has r.hi.flag INDEX_BY_ITB = false →
    RoundsInPlace r be hit.rounds ∧ FailsAt r i i hit.rounds

/-- The levels of a split all succeed. -/
def SplitsSound : List SplitRound → Prop
  | [] => True
  | round :: rest =>
    round.newBucket ≠ none ∧ round.updateErr = 0 ∧
      (((round.newEmpty && !round.inNew) || (round.oldEmpty && round.inNew)) = true →
        SplitsSound rest)

/-- A split that begins succeeds. -/
def SplitRun.Sound (split : SplitRun) : Prop :=
  (split.full && split.sameDepth) = true → SplitsSound split.rounds

/-- The splits of an insertion succeed. -/
def InsertSound : List InsertRound → Prop
  | [] => True
  | round :: rest =>
    match round.look.bucket, round.split with
    | some _, some split => split.Sound ∧ InsertSound rest
    | _, _ => True

/-- The bucket in which an insertion of the block `i` ends, and the block there. -/
def insertPlace (i : Nat) : List InsertRound → Option (Nat × Nat)
  | [] => none
  | round :: rest =>
    match round.look.bucket, round.split with
    | some _, some _ => insertPlace i rest
    | some b, none => some (b, round.exist.getD i)
    | none, _ => none

/-- An insertion of the block `i` with the search behind it. -/
def MissRun.InsertSound (r : LockRequest) (miss : MissRun) (i : Nat) : Prop :=
  Hvfs.InsertSound miss.rounds ∧ ∀ b block, insertPlace i miss.rounds = some (b, block) →
    miss.hit.Sound r (b, r.offset) block

/-- `cbht_itb_miss`. -/
def MissRun.Sound (r : LockRequest) (miss : MissRun) : Prop :=
  match miss.read with
  | .stored _ => miss.InsertSound r miss.number
  | .failed _ _ =>
    (Flag.has r.hi.flag INDEX_CREATE || Flag.has r.hi.flag INDEX_SYMLINK) = true →
      ∀ free, miss.created = some free → miss.InsertSound r free.number

/-- The walks of one turn. -/
def WalksSound (r : LockRequest) (b : Nat) (miss : MissRun) :
    List (Option (Nat × HitRun)) → Prop
  | [] => True
  | none :: _ => miss.Sound r
  | some (i, hit) :: rest =>
    hit.Sound r (b, r.offset) i ∧
      ((cbhtItbHitLocks r i hit).map Prod.snd = some (-EAGAIN) → WalksSound r b miss rest)

/-- One turn of a search. -/
def SearchTurn.Sound (r : LockRequest) (turn : SearchTurn) : Prop :=
  match turn.look.bucket with
  | none => True
  | some b =>
    if turn.empty then Flag.has r.hi.flag INDEX_CREATE = true → turn.miss.Sound r
    else WalksSound r b turn.miss turn.walks

/-- The runs of `mds_cbht_search` that are balanced: every block that `itb_dirty` copies is in the
entry that the thread has locked, no search fails on a copy, and no split fails. -/
def LocksSound (r : LockRequest) : List SearchTurn → Prop
  | [] => True
  | turn :: rest =>
    turn.Sound r ∧ ((turnLocks r turn).map Prod.snd = some (-EAGAIN) → LocksSound r rest)

/-! ### The directory and free blocks -/

section Small

/-- The directory's lock is free again, and the bucket is locked. -/
theorem DirLook.play (look : DirLook) (held : Multiset LockName) :
    LockOp.play held look.trace =
      some ((look.bucket.map LockName.bucket).toList.foldr (· ::ₘ ·) held) := by
  have waits : Neutral (List.replicate look.tries
      [lock LockName.dir, unlock LockName.dir]).flatten := by
    refine Neutral.flatten fun trace member => ?_
    rw [List.eq_of_mem_replicate member]
    exact fun held => by rw [play_lock, play_unlock, play_nil]
  unfold DirLook.trace
  rw [play_append_of_some (waits held), play_lock]
  cases look.bucket with
  | none => exact play_unlock
  | some b =>
    change LockOp.play (LockName.dir ::ₘ held)
      (lock (LockName.bucket b) :: [unlock LockName.dir]) = _
    rw [play_lock, play_unlock_under, play_nil]
    rfl

theorem FreeItb.neutral (free : FreeItb) : Neutral free.trace := by
  intro held
  unfold FreeItb.trace
  cases free.del with
  | none => rfl
  | some del =>
    obtain ⟨look, offset⟩ := del
    simp only
    rw [play_append_of_some (look.play held)]
    cases look.bucket with
    | none => rfl
    | some b =>
      change LockOp.play (LockName.bucket b ::ₘ held) _ = _
      rw [play_lock, play_lock, play_unlock, play_unlock, play_unlock, play_nil]

end Small

/-! ### Searching a block -/

section Block

/-- No entry and no block is locked. -/
def Outside (held : Multiset LockName) : Prop :=
  (∀ be, LockName.entry be ∉ held) ∧ ∀ i, LockName.itb i ∉ held

variable {r : LockRequest} {be : Nat × Nat} {i : Nat} {held : Multiset LockName}

/-- The index locks on top of the others. -/
def withLocks (l : List LockName) (held : Multiset LockName) : Multiset LockName :=
  l.foldr (· ::ₘ ·) held

theorem LockRequest.indexLock_cases (r : LockRequest) (i : Nat) (content : Itb) :
    r.indexLock i content = [] ∨ ∃ slot, r.indexLock i content = [.index i slot] := by
  unfold LockRequest.indexLock
  split
  · exact Or.inr ⟨_, rfl⟩
  · exact Or.inl rfl

theorem play_indexLock (held : Multiset LockName) (i : Nat) (content : Itb) :
    LockOp.play held ((r.indexLock i content).map lock) =
      some (withLocks (r.indexLock i content) held) := by
  rcases r.indexLock_cases i content with none | ⟨slot, one⟩
  · rw [none]
    rfl
  · rw [one]
    rfl

theorem play_indexUnlock (held : Multiset LockName) (i : Nat) (content : Itb)
    (rest : LockTrace) :
    LockOp.play (withLocks (r.indexLock i content) held)
        ((r.indexLock i content).map unlock ++ rest) = LockOp.play held rest := by
  rcases r.indexLock_cases i content with none | ⟨slot, one⟩
  · rw [none]
    rfl
  · rw [one]
    exact play_unlock

/-- The beginning of a copy in `itb_dirty`: the locks of the entry are exchanged for write locks. -/
def exchangeTrace (i : Nat) (be : Nat × Nat) (l : List LockName) (copy : FreeItb) : LockTrace :=
  copy.trace ++ (l.map unlock ++
    [unlock (.itb i), unlock (.entry be), lock (.entry be), lock (.itb i)])

/-- What `itb_dirty` does: nothing, or it exchanges its locks, and then comes back to the block or
goes on with the copy. -/
theorem itbDirtyLocks_cases {l : List LockName} {round : SearchRound} {trace : LockTrace}
    {ended : DirtyEnd} (ran : itbDirtyLocks r i l round = some (trace, ended)) :
    ended = round.dirtyEnd r ∧
      ((trace = [] ∧ ended = .same ∧
          ¬(r.txg = round.first.txg + 1 ∧ round.first.state = .dirty)) ∨
        ∃ be, round.first.be = some be ∧ r.txg = round.first.txg + 1 ∧
          round.first.state = .dirty ∧
          ((ended = .lost ∧ trace = exchangeTrace i be l round.copy ++
              ([unlock (.itb i), unlock (.entry be), lock (.entry be), lock (.itb i)] ++
                l.map lock)) ∨
            (ended = .won ∧ trace = exchangeTrace i be l round.copy ++
              [unlock (.itb i), unlock (.entry be), lock (.entry be),
                lock (.itb round.copy.number)]))) := by
  unfold itbDirtyLocks at ran
  unfold SearchRound.dirtyEnd
  by_cases here : r.txg = round.first.txg
  · rw [if_pos here] at ran
    obtain ⟨rfl, rfl⟩ := Prod.mk.inj (Option.some.inj ran)
    have other : ¬(r.txg = round.first.txg + 1 ∧ round.first.state = .dirty) := by
      rintro ⟨next, -⟩
      omega
    rw [if_neg other]
    exact ⟨rfl, Or.inl ⟨rfl, rfl, other⟩⟩
  · rw [if_neg here] at ran
    by_cases next : r.txg = round.first.txg + 1
    · rw [if_pos next] at ran
      cases state : round.first.state with
      | dirty =>
        rw [state] at ran
        rw [if_pos ⟨next, rfl⟩]
        cases place : round.first.be with
        | none => rw [place] at ran; cases ran
        | some be =>
          rw [place] at ran
          simp only at ran
          split at ran
          · rename_i lost
            obtain ⟨rfl, rfl⟩ := Prod.mk.inj (Option.some.inj ran)
            rw [if_pos lost]
            exact ⟨rfl, Or.inr ⟨be, rfl, next, rfl, Or.inl ⟨rfl, rfl⟩⟩⟩
          · rename_i won
            obtain ⟨rfl, rfl⟩ := Prod.mk.inj (Option.some.inj ran)
            rw [if_neg won]
            exact ⟨rfl, Or.inr ⟨be, rfl, next, rfl, Or.inr ⟨rfl, rfl⟩⟩⟩
      | cowed => rw [state] at ran; cases ran
      | clean =>
        rw [state] at ran
        obtain ⟨rfl, rfl⟩ := Prod.mk.inj (Option.some.inj ran)
        rw [if_neg nofun]
        exact ⟨rfl, Or.inl ⟨rfl, rfl, nofun⟩⟩
      | wbed =>
        rw [state] at ran
        obtain ⟨rfl, rfl⟩ := Prod.mk.inj (Option.some.inj ran)
        rw [if_neg nofun]
        exact ⟨rfl, Or.inl ⟨rfl, rfl, nofun⟩⟩
    · rw [if_neg next] at ran
      obtain ⟨rfl, rfl⟩ := Prod.mk.inj (Option.some.inj ran)
      rw [if_neg fun both => next both.1]
      exact ⟨rfl, Or.inl ⟨rfl, rfl, fun both => next both.1⟩⟩

/-- The exchange of locks works for the entry that is locked, and for no other. -/
theorem exchangeTrace_plays (outside : Outside held) (be other : Nat × Nat) (content : Itb)
    (copy : FreeItb) :
    PlaysWhen (other = be) (withLocks (r.indexLock i content) (.itb i ::ₘ .entry be ::ₘ held))
      (exchangeTrace i other (r.indexLock i content) copy) (.itb i ::ₘ .entry be ::ₘ held) := by
  refine PlaysWhen.prepend (copy.neutral _) ?_
  unfold PlaysWhen
  rw [play_indexUnlock, play_unlock]
  constructor
  · rintro rfl
    rw [play_unlock, play_lock, play_lock, play_nil]
  · intro different
    refine play_unlock_missing fun member => ?_
    rcases Multiset.mem_cons.mp member with equal | inside
    · exact different (LockName.entry.inj equal)
    · exact outside.1 other inside

/-- `itb_dirty` leaves the locks as they are, or those of the copy, when the block is in its
entry; otherwise it unlocks an entry that is not locked. -/
theorem itbDirtyLocks_plays {round : SearchRound} {trace : LockTrace} {ended : DirtyEnd}
    (outside : Outside held)
    (ran : itbDirtyLocks r i (r.indexLock i round.content) round = some (trace, ended)) :
    PlaysWhen (round.InPlace r be)
      (withLocks (r.indexLock i round.content) (.itb i ::ₘ .entry be ::ₘ held)) trace
      (if ended = .won then .itb round.copy.number ::ₘ .entry be ::ₘ held
        else withLocks (r.indexLock i round.content) (.itb i ::ₘ .entry be ::ₘ held)) := by
  rcases (itbDirtyLocks_cases ran).2 with ⟨rfl, rfl, stays⟩ | ⟨other, place, next, state, cases⟩
  · exact PlaysWhen.of_play (fun next state => absurd ⟨next, state⟩ stays) rfl
  · have inPlace : other = be ↔ round.InPlace r be := by
      unfold SearchRound.InPlace
      rw [place]
      exact ⟨fun same _ _ => congrArg some same, fun all => Option.some.inj (all next state)⟩
    have exchanged := (exchangeTrace_plays (r := r) (i := i) outside be other round.content
      round.copy).congr inPlace
    by_cases same : other = be
    · subst same
      rcases cases with ⟨rfl, rfl⟩ | ⟨rfl, rfl⟩
      · refine exchanged.followed ?_
        rw [List.cons_append, List.cons_append, List.cons_append, List.cons_append,
          List.nil_append, play_unlock, play_unlock, play_lock, play_lock, play_indexLock]
        rfl
      · refine exchanged.followed ?_
        rw [play_unlock, play_unlock, play_lock, play_lock, play_nil]
        rfl
    · have stuck := exchanged.2 (mt inPlace.mpr same)
      refine ⟨fun here => absurd (inPlace.mpr here) same, fun _ => ?_⟩
      rcases cases with ⟨rfl, rfl⟩ | ⟨rfl, rfl⟩ <;> exact play_append_of_none stuck

/-- Behind a search the thread holds the block it has come to instead of the one it began with, as
long as every copy is made in place. -/
def SearchPlays (r : LockRequest) (be : Nat × Nat) (held : Multiset LockName) (i : Nat)
    (rounds : List SearchRound) (trace : LockTrace) (oi : Nat) : Prop :=
  PlaysWhen (RoundsInPlace r be rounds) (.itb i ::ₘ .entry be ::ₘ held) trace
    (.itb oi ::ₘ .entry be ::ₘ held)

/-- The index locks are given back at the end of a search. -/
theorem play_indexUnlock_end (held : Multiset LockName) (i : Nat) (content : Itb) :
    LockOp.play (withLocks (r.indexLock i content) held) ((r.indexLock i content).map unlock) =
      some held := by
  rw [← List.append_nil ((r.indexLock i content).map unlock), play_indexUnlock, play_nil]

/-- A search that leaves the block as it is only takes the index lock. -/
theorem searchPlays_done {round : SearchRound} {rest : List SearchRound} {err : Int}
    {p : Option MduReply} (plan : itbPlan round.content r.hi = some (.done err p)) :
    SearchPlays r be held i (round :: rest)
      ((r.indexLock i round.content).map lock ++ (r.indexLock i round.content).map unlock) i := by
  refine PlaysWhen.prepend (play_indexLock _ i round.content) (PlaysWhen.of_play ?_ ?_)
  · rw [RoundsInPlace, plan]
    trivial
  · exact play_indexUnlock_end _ i round.content

/-- A search that ends behind `itb_dirty` with the block it was at. -/
theorem searchPlays_stays {round : SearchRound} {rest : List SearchRound} {act : SearchAct}
    {trace : LockTrace} {ended : DirtyEnd} (outside : Outside held)
    (plan : itbPlan round.content r.hi = some (.dirty act))
    (ran : itbDirtyLocks r i (r.indexLock i round.content) round = some (trace, ended))
    (stays : ended ≠ .won) :
    SearchPlays r be held i (round :: rest)
      ((r.indexLock i round.content).map lock ++
        (trace ++ (r.indexLock i round.content).map unlock)) i := by
  have ends := (itbDirtyLocks_cases ran).1
  have dirty := @itbDirtyLocks_plays r be i held _ _ _ outside ran
  rw [if_neg stays] at dirty
  refine PlaysWhen.prepend (play_indexLock _ i round.content) ?_
  refine (dirty.followed (play_indexUnlock_end _ i round.content)).congr ?_
  rw [RoundsInPlace, plan]
  exact ⟨fun here => ⟨here, fun won => absurd (ends.trans won) stays⟩, And.left⟩

/-- A search that goes on with the copy. -/
theorem searchPlays_won {round : SearchRound} {rest : List SearchRound} {act : SearchAct}
    {trace after : LockTrace} {oi : Nat} (outside : Outside held)
    (plan : itbPlan round.content r.hi = some (.dirty act))
    (ran : itbDirtyLocks r i (r.indexLock i round.content) round = some (trace, .won))
    (later : SearchPlays r be held round.copy.number rest after oi) :
    SearchPlays r be held i (round :: rest)
      (((r.indexLock i round.content).map lock ++ trace) ++ after) oi := by
  have ends := (itbDirtyLocks_cases ran).1
  have dirty := @itbDirtyLocks_plays r be i held _ _ _ outside ran
  rw [if_pos rfl] at dirty
  unfold SearchPlays
  rw [List.append_assoc]
  refine PlaysWhen.prepend (play_indexLock _ i round.content) ?_
  refine (dirty.append fun _ => later).congr ?_
  rw [RoundsInPlace, plan]
  exact and_congr_right fun _ => ⟨fun all _ => all, fun goes => goes ends.symm⟩

/-- What `itb_search` does to the locks, and which block its error belongs to; by induction on the
turns. -/
theorem itbSearchLocks_spec {rounds : List SearchRound} {trace : LockTrace} {err : Int} {oi : Nat}
    (outside : Outside held) (ran : itbSearchLocks r i rounds = some (trace, err, oi)) :
    SearchPlays r be held i rounds trace oi ∧
      ∀ start, FailsAt r start i rounds ↔ err = 0 ∨ oi = start := by
  induction rounds generalizing i trace with
  | nil => cases ran
  | cons round rest inductionHypothesis =>
    rw [itbSearchLocks] at ran
    cases plan : itbPlan round.content r.hi with
    | none => simp only [plan] at ran; cases ran
    | some planned =>
      simp only [plan] at ran
      cases planned with
      | done err' p =>
        obtain ⟨rfl, rfl, rfl⟩ := by simpa only [Option.some.injEq, Prod.mk.injEq] using ran
        refine ⟨searchPlays_done plan, fun start => ?_⟩
        rw [FailsAt, plan]
      | dirty act =>
        cases dirty : itbDirtyLocks r i (r.indexLock i round.content) round with
        | none => simp only [dirty] at ran; cases ran
        | some pair =>
          obtain ⟨front, ended⟩ := pair
          simp only [dirty] at ran
          have ends := (itbDirtyLocks_cases dirty).1
          cases ended with
          | same =>
            obtain ⟨result, acted, equal⟩ := Option.map_eq_some_iff.mp ran
            obtain ⟨rfl, rfl, rfl⟩ := by simpa only [Prod.mk.injEq] using equal
            refine ⟨searchPlays_stays outside plan dirty nofun, fun start => ?_⟩
            rw [FailsAt, plan, ← ends]
            refine or_congr_left ⟨fun all => all result acted, fun zero other same => ?_⟩
            rw [acted] at same
            exact Option.some.inj same ▸ zero
          | lost =>
            obtain ⟨rfl, rfl, rfl⟩ := by simpa only [Option.some.injEq, Prod.mk.injEq] using ran
            refine ⟨searchPlays_stays outside plan dirty nofun, fun start => ?_⟩
            rw [FailsAt, plan, ← ends]
            exact ⟨Or.inr, fun either => either.resolve_left (show (-EAGAIN : Int) ≠ 0 by decide)⟩
          | won =>
            obtain ⟨⟨after, err', oi'⟩, searched, equal⟩ := Option.map_eq_some_iff.mp ran
            obtain ⟨rfl, rfl, rfl⟩ := by simpa only [Prod.mk.injEq] using equal
            obtain ⟨plays, fails⟩ := inductionHypothesis searched
            refine ⟨searchPlays_won outside plan dirty plays, fun start => ?_⟩
            rw [FailsAt, plan, ← ends]
            exact fails start

/-- The block that `cbht_itb_hit` unlocks at its end has to be the one that is locked. -/
theorem play_hitUnlock (outside : Outside held) (last oi : Nat) :
    PlaysWhen (last = oi) (.itb oi ::ₘ .entry be ::ₘ held) [unlock (.itb last)]
      (.entry be ::ₘ held) := by
  constructor
  · rintro rfl
    rw [play_unlock, play_nil]
  · intro different
    refine play_unlock_missing fun member => ?_
    rcases Multiset.mem_cons.mp member with equal | member
    · exact different (LockName.itb.inj equal)
    · rcases Multiset.mem_cons.mp member with equal | member
      · cases equal
      · exact outside.2 last member

/-- `cbht_itb_hit` leaves the locks as they were when it is sound, and otherwise unlocks one that
is not held. -/
theorem cbhtItbHitLocks_plays {hit : HitRun} {trace : LockTrace} {err : Int}
    (outside : Outside held) (ran : cbhtItbHitLocks r i hit = some (trace, err)) :
    PlaysWhen (hit.Sound r be i) (.entry be ::ₘ held) trace (.entry be ::ₘ held) := by
  have around : LockOp.play (.entry be ::ₘ held) [lock (.itb i), unlock (.itb i)] =
      some (.entry be ::ₘ held) := by
    rw [play_lock, play_unlock, play_nil]
  unfold cbhtItbHitLocks at ran
  unfold HitRun.Sound
  by_cases cowed : hit.cowed = true
  · rw [if_pos cowed] at ran
    obtain ⟨rfl, -⟩ := Prod.mk.inj (Option.some.inj ran)
    exact PlaysWhen.of_play (fun fresh => absurd cowed (Bool.eq_false_iff.mp fresh)) around
  · rw [if_neg cowed] at ran
    by_cases byItb : Flag.has r.hi.flag INDEX_BY_ITB = true
    · rw [if_pos byItb] at ran
      obtain ⟨rfl, -⟩ := Prod.mk.inj (Option.some.inj ran)
      exact PlaysWhen.of_play (fun _ named => absurd byItb (Bool.eq_false_iff.mp named)) around
    · rw [if_neg byItb] at ran
      obtain ⟨⟨inner, err', oi⟩, searched, equal⟩ := Option.map_eq_some_iff.mp ran
      simp only at equal
      obtain ⟨plays, fails⟩ := @itbSearchLocks_spec r be i held _ _ _ _ outside searched
      -- the block that is unlocked is the first one behind an error, and the last one otherwise
      obtain ⟨last, shape, right⟩ : ∃ last,
          trace = [lock (.itb i)] ++ (inner ++ [unlock (.itb last)]) ∧
          (last = oi ↔ err' = 0 ∨ oi = i) := by
        by_cases failed : err' = 0
        · rw [if_neg (not_not.mpr failed)] at equal
          exact ⟨oi, (Prod.mk.inj equal).1.symm, fun _ => Or.inl failed, fun _ => rfl⟩
        · rw [if_pos failed] at equal
          exact ⟨i, (Prod.mk.inj equal).1.symm, fun same => Or.inr same.symm,
            fun either => (either.resolve_left failed).symm⟩
      rw [shape]
      refine PlaysWhen.prepend (play_lock.trans play_nil) ?_
      refine (plays.append fun _ => play_hitUnlock outside last oi).congr ?_
      rw [right, ← fails i]
      exact ⟨fun both _ _ => both,
        fun both => both (Bool.eq_false_iff.mpr cowed) (Bool.eq_false_iff.mpr byItb)⟩

end Block

/-! ### Splitting a bucket -/

section Insert

variable {r : LockRequest}

/-- What a trace in front of a run adds to its result. -/
theorem LockTrace.before_eq_some {α : Type} {front trace : LockTrace} {rest : Traced α} {result : α}
    (ran : LockTrace.before front rest = some (trace, result)) :
    ∃ after, rest = some (after, result) ∧ trace = front ++ after := by
  obtain ⟨⟨after, result'⟩, later, equal⟩ := Option.map_eq_some_iff.mp ran
  obtain ⟨rfl, rfl⟩ := Prod.mk.inj equal
  exact ⟨after, later, rfl⟩

/-- The levels of a split give the locked bucket back; by induction on them. -/
theorem splitLocks_spec {rounds : List SplitRound} {ob : Nat} {trace : LockTrace} {err : Int}
    (held : Multiset LockName) (ran : splitLocks ob rounds = some (trace, err)) :
    LockOp.play (.bucket ob ::ₘ held) trace = some held ∧ (SplitsSound rounds ↔ err = 0) ∧
      err ≠ -EAGAIN := by
  induction rounds generalizing ob trace with
  | nil => cases ran
  | cons round rest inductionHypothesis =>
    rw [splitLocks] at ran
    rw [SplitsSound]
    cases fresh : round.newBucket with
    | none =>
      simp only [fresh] at ran
      obtain ⟨rfl, rfl⟩ := Prod.mk.inj (Option.some.inj ran)
      refine ⟨by rw [play_unlock, play_nil], ⟨fun sound => absurd rfl sound.1, nofun⟩, by decide⟩
    | some nb =>
      simp only [fresh] at ran
      have update : LockOp.play (.bucket ob ::ₘ held)
          [lock (.bucket nb), lock .dir, unlock .dir] =
          some (.bucket nb ::ₘ .bucket ob ::ₘ held) := by
        rw [play_lock, play_lock, play_unlock, play_nil]
      have bothBack : LockOp.play (.bucket nb ::ₘ .bucket ob ::ₘ held)
          [unlock (.bucket nb), unlock (.bucket ob)] = some held := by
        rw [play_unlock, play_unlock, play_nil]
      by_cases failed : round.updateErr ≠ 0
      · rw [if_pos failed] at ran
        obtain ⟨rfl, rfl⟩ := Prod.mk.inj (Option.some.inj ran)
        exact ⟨(play_append_of_some update).trans bothBack,
          ⟨fun sound => sound.2.1, fun zero => absurd zero failed⟩, round.notAgain⟩
      · rw [if_neg failed] at ran
        have updated := not_not.mp failed
        by_cases oldAgain : (round.newEmpty && !round.inNew) = true
        · rw [if_pos oldAgain] at ran
          obtain ⟨after, later, rfl⟩ := LockTrace.before_eq_some ran
          obtain ⟨plays, sound, notAgain⟩ := inductionHypothesis later
          refine ⟨?_, ?_, notAgain⟩
          · rw [List.append_assoc, play_append_of_some update, List.cons_append, List.nil_append,
              play_unlock]
            exact plays
          · rw [← sound, oldAgain, Bool.true_or]
            exact ⟨fun all => all.2.2 rfl, fun all => ⟨nofun, updated, fun _ => all⟩⟩
        · rw [if_neg oldAgain] at ran
          by_cases newAgain : (round.oldEmpty && round.inNew) = true
          · rw [if_pos newAgain] at ran
            obtain ⟨after, later, rfl⟩ := LockTrace.before_eq_some ran
            obtain ⟨plays, sound, notAgain⟩ := inductionHypothesis later
            refine ⟨?_, ?_, notAgain⟩
            · rw [List.append_assoc, play_append_of_some update, List.cons_append,
                List.nil_append, play_unlock_under]
              exact plays
            · rw [← sound, newAgain, Bool.or_true]
              exact ⟨fun all => all.2.2 rfl, fun all => ⟨nofun, updated, fun _ => all⟩⟩
          · rw [if_neg newAgain] at ran
            obtain ⟨rfl, rfl⟩ := Prod.mk.inj (Option.some.inj ran)
            refine ⟨(play_append_of_some update).trans bothBack,
              ⟨fun _ => rfl, fun _ => ⟨nofun, updated, fun again => ?_⟩⟩, by decide⟩
            rw [Bool.eq_false_iff.mpr oldAgain, Bool.eq_false_iff.mpr newAgain] at again
            cases again

/-- `cbht_bucket_split` gives the locked bucket back, whatever it returns. -/
theorem cbhtBucketSplitLocks_spec {split : SplitRun} {ob : Nat} {trace : LockTrace} {err : Int}
    (held : Multiset LockName) (ran : cbhtBucketSplitLocks ob split = some (trace, err)) :
    LockOp.play (.bucket ob ::ₘ held) trace = some held ∧
      (split.Sound ↔ err = 0 ∨ err = -EAGAIN) := by
  obtain ⟨after, later, rfl⟩ := LockTrace.before_eq_some ran
  rw [List.cons_append, List.cons_append, List.nil_append, play_unlock, play_lock]
  unfold SplitRun.Sound
  by_cases begins : (split.full && split.sameDepth) = true
  · rw [if_pos begins] at later
    obtain ⟨plays, sound, notAgain⟩ := splitLocks_spec held later
    exact ⟨plays, fun all => Or.inl (sound.mp (all begins)),
      fun either _ => sound.mpr (either.resolve_right notAgain)⟩
  · rw [if_neg begins] at later
    obtain ⟨rfl, rfl⟩ := Prod.mk.inj (Option.some.inj later)
    exact ⟨by rw [play_unlock, play_nil], fun _ => Or.inr rfl, fun _ runs => absurd runs begins⟩

/-! ### Inserting a block -/

/-- The locks that an insertion returns with: none behind an error, otherwise the bucket and the
entry in it. -/
def insertHeld (r : LockRequest) : Except Int (Nat × Nat) → Multiset LockName
  | .error _ => 0
  | .ok (b, _) => .entry (b, r.offset) ::ₘ .bucket b ::ₘ 0

/-- An insertion unlocks a bucket once more behind a split that failed, and otherwise returns with
the entry locked; by induction on its turns. -/
theorem insertLocks_spec {rounds : List InsertRound} {i : Nat} {trace : LockTrace}
    {result : Except Int (Nat × Nat)} (ran : insertLocks r i rounds = some (trace, result)) :
    PlaysWhen (InsertSound rounds) 0 trace (insertHeld r result) ∧
      (InsertSound rounds → insertPlace i rounds = result.toOption) := by
  induction rounds generalizing trace with
  | nil => cases ran
  | cons round rest inductionHypothesis =>
    rw [insertLocks] at ran
    rw [InsertSound, insertPlace]
    have looked := round.look.play 0
    cases place : round.look.bucket with
    | none =>
      rw [place] at looked
      simp only [place] at ran
      obtain ⟨rfl, rfl⟩ := Prod.mk.inj (Option.some.inj ran)
      exact ⟨PlaysWhen.of_play trivial looked, fun _ => rfl⟩
    | some b =>
      rw [place] at looked
      change LockOp.play 0 round.look.trace = some (.bucket b ::ₘ 0) at looked
      simp only [place] at ran
      cases splits : round.split with
      | some split =>
        simp only [splits] at ran
        cases tried : cbhtBucketSplitLocks b split with
        | none => simp only [tried] at ran; cases ran
        | some pair =>
          obtain ⟨inner, err⟩ := pair
          simp only [tried] at ran
          obtain ⟨plays, sound⟩ := cbhtBucketSplitLocks_spec 0 tried
          simp only
          rw [sound]
          by_cases fine : err = 0 ∨ err = -EAGAIN
          · rw [if_pos fine] at ran
            obtain ⟨after, later, rfl⟩ := LockTrace.before_eq_some ran
            obtain ⟨goes, placed⟩ := inductionHypothesis later
            refine ⟨PlaysWhen.congr (PlaysWhen.prepend ?_ goes)
              ⟨fun all => ⟨fine, all⟩, And.right⟩, fun all => placed all.2⟩
            rw [play_append_of_some looked, plays]
          · rw [if_neg fine] at ran
            obtain ⟨rfl, rfl⟩ := Prod.mk.inj (Option.some.inj ran)
            refine ⟨⟨fun all => absurd all.1 fine, fun _ => ?_⟩, fun all => absurd all.1 fine⟩
            rw [play_append_of_some looked, play_append_of_some plays]
            exact play_unlock_missing (Multiset.notMem_zero _)
      | none =>
        simp only [splits] at ran
        cases exist : round.exist with
        | some ih =>
          simp only [exist] at ran
          obtain ⟨rfl, rfl⟩ := Prod.mk.inj (Option.some.inj ran)
          refine ⟨PlaysWhen.of_play trivial ?_, fun _ => rfl⟩
          rw [play_append_of_some looked, play_lock, play_unlock, play_lock, play_nil]
          rfl
        | none =>
          simp only [exist] at ran
          obtain ⟨rfl, rfl⟩ := Prod.mk.inj (Option.some.inj ran)
          refine ⟨PlaysWhen.of_play trivial ?_, fun _ => rfl⟩
          rw [play_append_of_some looked, play_lock, play_lock, play_unlock, play_unlock, play_lock,
            play_nil]
          rfl

/-- Only a bucket is locked. -/
theorem outside_bucket (b : Nat) : Outside (.bucket b ::ₘ 0) := by
  constructor <;>
  · intro other member
    rcases Multiset.mem_cons.mp member with equal | member
    · cases equal
    · exact Multiset.notMem_zero _ member

/-- The entry and the bucket can be given back in either order. -/
theorem play_entryBucket (b offset : Nat) :
    LockOp.play (LockName.entry (b, offset) ::ₘ LockName.bucket b ::ₘ 0)
        [unlock (LockName.entry (b, offset)), unlock (LockName.bucket b)] = some 0 ∧
      LockOp.play (LockName.entry (b, offset) ::ₘ LockName.bucket b ::ₘ 0)
        [unlock (LockName.bucket b), unlock (LockName.entry (b, offset))] = some 0 := by
  constructor
  · rw [play_unlock, play_unlock, play_nil]
  · rw [play_unlock_under, play_unlock, play_nil]

/-- An insertion with the search behind it. -/
theorem insertAndHitLocks_plays {miss : MissRun} {i : Nat} {trace : LockTrace} {err : Int}
    (ran : insertAndHitLocks r i miss = some (trace, err)) :
    PlaysWhen (miss.InsertSound r i) 0 trace 0 := by
  unfold insertAndHitLocks at ran
  unfold MissRun.InsertSound
  cases inserted : insertLocks r i miss.rounds with
  | none => simp only [inserted] at ran; cases ran
  | some pair =>
    obtain ⟨front, result⟩ := pair
    simp only [inserted] at ran
    obtain ⟨plays, placed⟩ := insertLocks_spec inserted
    cases result with
    | error err' =>
      obtain ⟨rfl, rfl⟩ := Prod.mk.inj (Option.some.inj ran)
      refine plays.congr ⟨fun sound => ⟨sound, fun b block ends => ?_⟩, And.left⟩
      rw [placed sound] at ends
      cases ends
    | ok place =>
      obtain ⟨b, block⟩ := place
      obtain ⟨after, later, rfl⟩ := LockTrace.before_eq_some ran
      obtain ⟨⟨inner, err'⟩, searched, equal⟩ := Option.map_eq_some_iff.mp later
      simp only at equal
      obtain ⟨rfl, rfl⟩ := Prod.mk.inj equal
      have hits := @cbhtItbHitLocks_plays r (b, r.offset) _ _ _ _ _ (outside_bucket b) searched
      have back : LockOp.play (LockName.entry (b, r.offset) ::ₘ LockName.bucket b ::ₘ 0)
          (if err' = -EAGAIN then
            [unlock (LockName.bucket b), unlock (LockName.entry (b, r.offset))]
          else [unlock (LockName.entry (b, r.offset)), unlock (LockName.bucket b)]) = some 0 := by
        split
        · exact (play_entryBucket b r.offset).2
        · exact (play_entryBucket b r.offset).1
      refine (plays.append fun _ => hits.followed back).congr (and_congr_right fun sound => ?_)
      rw [placed sound]
      refine ⟨fun holds b' block' equal => ?_, fun all => all b block rfl⟩
      obtain ⟨rfl, rfl⟩ := Prod.mk.inj (Option.some.inj equal)
      exact holds

/-- `cbht_itb_miss`. -/
theorem cbhtItbMissLocks_plays {miss : MissRun} {trace : LockTrace} {err : Int}
    (ran : cbhtItbMissLocks r miss = some (trace, err)) :
    PlaysWhen (miss.Sound r) 0 trace 0 := by
  unfold cbhtItbMissLocks at ran
  unfold MissRun.Sound
  cases reads : miss.read with
  | stored _ =>
    simp only [reads] at ran
    exact insertAndHitLocks_plays ran
  | failed _ _ =>
    simp only [reads] at ran
    simp only
    by_cases creates : (Flag.has r.hi.flag INDEX_CREATE || Flag.has r.hi.flag INDEX_SYMLINK) = true
    · rw [if_pos creates] at ran
      cases made : miss.created with
      | none =>
        simp only [made] at ran
        obtain ⟨rfl, rfl⟩ := Prod.mk.inj (Option.some.inj ran)
        exact PlaysWhen.of_play (fun _ _ => nofun) play_nil
      | some free =>
        simp only [made] at ran
        obtain ⟨after, later, rfl⟩ := LockTrace.before_eq_some ran
        refine (PlaysWhen.prepend (free.neutral 0) (insertAndHitLocks_plays later)).congr ?_
        exact ⟨fun sound _ other same => Option.some.inj same ▸ sound,
          fun all => all creates free rfl⟩
    · rw [if_neg creates] at ran
      obtain ⟨rfl, rfl⟩ := Prod.mk.inj (Option.some.inj ran)
      exact PlaysWhen.of_play (fun asked => absurd asked creates) play_nil

end Insert

/-! ### Searching -/

section Search

variable {r : LockRequest}

/-- The walks over the chain of a locked entry; by induction on them. -/
theorem walkLocks_plays {b : Nat} {miss : MissRun} {walks : List (Option (Nat × HitRun))}
    {trace : LockTrace} {err : Int} (ran : walkLocks r b miss walks = some (trace, err)) :
    PlaysWhen (WalksSound r b miss walks) (.entry (b, r.offset) ::ₘ .bucket b ::ₘ 0) trace 0 := by
  induction walks generalizing trace with
  | nil => cases ran
  | cons walk rest inductionHypothesis =>
    cases walk with
    | none =>
      rw [walkLocks] at ran
      rw [WalksSound]
      obtain ⟨after, later, rfl⟩ := LockTrace.before_eq_some ran
      exact PlaysWhen.prepend (play_entryBucket b r.offset).1 (cbhtItbMissLocks_plays later)
    | some found =>
      obtain ⟨i, hit⟩ := found
      rw [walkLocks] at ran
      rw [WalksSound]
      cases hits : cbhtItbHitLocks r i hit with
      | none => simp only [hits] at ran; cases ran
      | some pair =>
        obtain ⟨front, err'⟩ := pair
        simp only [hits] at ran
        have plays := @cbhtItbHitLocks_plays r (b, r.offset) _ _ _ _ _ (outside_bucket b) hits
        by_cases again : err' = -EAGAIN
        · rw [if_pos again] at ran
          obtain ⟨after, later, rfl⟩ := LockTrace.before_eq_some ran
          refine (plays.append fun _ => inductionHypothesis later).congr ?_
          exact and_congr_right fun _ => ⟨fun all _ => all, fun all => all (congrArg some again)⟩
        · rw [if_neg again] at ran
          obtain ⟨rfl, rfl⟩ := Prod.mk.inj (Option.some.inj ran)
          refine (plays.followed (play_entryBucket b r.offset).1).congr ?_
          exact ⟨fun sound => ⟨sound, fun same => absurd (Option.some.inj same) again⟩, And.left⟩

/-- One turn of `mds_cbht_search`. -/
theorem turnLocks_plays {turn : SearchTurn} {trace : LockTrace} {err : Int}
    (ran : turnLocks r turn = some (trace, err)) : PlaysWhen (turn.Sound r) 0 trace 0 := by
  obtain ⟨after, later, rfl⟩ := LockTrace.before_eq_some ran
  unfold SearchTurn.Sound
  refine PlaysWhen.prepend (turn.look.play 0) ?_
  cases place : turn.look.bucket with
  | none =>
    simp only [place] at later
    obtain ⟨rfl, rfl⟩ := Prod.mk.inj (Option.some.inj later)
    exact PlaysWhen.of_play trivial rfl
  | some b =>
    simp only [place] at later
    change PlaysWhen _ (.bucket b ::ₘ 0) after 0
    have back : LockOp.play (LockName.bucket b ::ₘ 0) [unlock (LockName.bucket b)] = some 0 := by
      rw [play_unlock, play_nil]
    simp only
    by_cases empty : turn.empty = true
    · rw [if_pos empty] at later ⊢
      by_cases creates : Flag.has r.hi.flag INDEX_CREATE = true
      · rw [if_pos creates] at later
        obtain ⟨inner, missed, rfl⟩ := LockTrace.before_eq_some later
        refine (PlaysWhen.prepend back (cbhtItbMissLocks_plays missed)).congr ?_
        exact ⟨fun sound _ => sound, fun all => all creates⟩
      · rw [if_neg creates] at later
        obtain ⟨rfl, rfl⟩ := Prod.mk.inj (Option.some.inj later)
        exact PlaysWhen.of_play (fun asked => absurd asked creates) back
    · rw [if_neg empty] at later ⊢
      obtain ⟨inner, walked, rfl⟩ := LockTrace.before_eq_some later
      exact PlaysWhen.prepend (play_lock.trans play_nil) (walkLocks_plays walked)

/-- A search, from a thread without locks; by induction on its turns. -/
theorem mdsCbhtSearchLocks_plays {run : List SearchTurn} {trace : LockTrace} {err : Int}
    (ran : mdsCbhtSearchLocks r run = some (trace, err)) :
    PlaysWhen (LocksSound r run) 0 trace 0 := by
  induction run generalizing trace with
  | nil => cases ran
  | cons turn rest inductionHypothesis =>
    rw [mdsCbhtSearchLocks] at ran
    rw [LocksSound]
    cases turned : turnLocks r turn with
    | none => simp only [turned] at ran; cases ran
    | some pair =>
      obtain ⟨front, err'⟩ := pair
      simp only [turned] at ran
      have plays := turnLocks_plays turned
      by_cases again : err' = -EAGAIN
      · rw [if_pos again] at ran
        obtain ⟨after, later, rfl⟩ := LockTrace.before_eq_some ran
        refine (plays.append fun _ => inductionHypothesis later).congr ?_
        exact and_congr_right fun _ => ⟨fun all _ => all, fun all => all (congrArg some again)⟩
      · rw [if_neg again] at ran
        obtain ⟨rfl, rfl⟩ := Prod.mk.inj (Option.some.inj ran)
        refine plays.congr ?_
        exact ⟨fun sound => ⟨sound, fun same => absurd (Option.some.inj same) again⟩, And.left⟩

end Search

/-- A run of `mds_cbht_search` gives back every bucket, entry, block and index lock that it took,
once, and no other lock, exactly when every block that `itb_dirty` copies is in the entry that is
locked, no search fails on a copy, and no split fails. -/
theorem search_locks_balanced_iff (r : LockRequest) (run : List SearchTurn) (trace : LockTrace)
    (err : Int) (ran : mdsCbhtSearchLocks r run = some (trace, err)) :
    LockOp.Balanced trace ↔ LocksSound r run :=
  (mdsCbhtSearchLocks_plays ran).balanced_iff

/-- The creation of a name, in the transaction group 2. -/
def createRequest : LockRequest where
  hi := nameIndex (INDEX_CREATE ||| INDEX_BY_NAME)
  txg := 2
  indexLocks := true
  offset := 0

/-- The bucket 0, found at once. -/
def bucketZero : DirLook where
  tries := 0
  bucket := some 0

/-- A search that copies the block 1, which the group 1 has changed, to the block 2. -/
def copiesItb (content : Itb) : SearchRound where
  hmi := ⟨0, 0⟩
  content := content
  first := ⟨1, .dirty, some (0, 0)⟩
  second := ⟨1, .dirty, some (0, 0)⟩
  copy := ⟨2, none⟩

/-- The search on the copy. -/
def searchesCopy (content : Itb) : SearchRound :=
  { copiesItb content with first := ⟨2, .dirty, some (0, 0)⟩ }

/-- A block is not stored, and no bucket can be allocated for it. -/
def splitFails : MissRun where
  read := absentItb.read
  number := 0
  created := some ⟨1, none⟩
  rounds := [⟨bucketZero, some ⟨true, true, [⟨none, 0, by decide, false, false, false⟩]⟩, none⟩]
  hit := ⟨false, [], true⟩

/-- The search of a name in the bucket 0. -/
def searchTurn (walk : Option (Nat × HitRun)) : SearchTurn where
  look := bucketZero
  empty := false
  walks := [walk]
  miss := splitFails

/-- The rule at a creation that copies the block. -/
theorem search_locks_balanced_iff_copy :
    ∃ trace, mdsCbhtSearchLocks createRequest
        [searchTurn
          (some (1, ⟨false, [copiesItb (emptyItb 10), searchesCopy (emptyItb 10)], true⟩))] =
        some (trace, 0) ∧
      (LockOp.Balanced trace ↔ LocksSound createRequest
        [searchTurn (some (1,
          ⟨false, [copiesItb (emptyItb 10), searchesCopy (emptyItb 10)], true⟩))]) :=
  ⟨_, rfl, search_locks_balanced_iff createRequest _ _ 0 rfl⟩

/-- Another thread creates the name in the copy first: the search fails with -EEXIST there, and the
block it began with is unlocked. Without memory for a split, the bucket is unlocked twice. -/
theorem search_locks_not_balanced :
    (∃ trace, mdsCbhtSearchLocks createRequest
        [searchTurn (some (1, ⟨false, [copiesItb (emptyItb 10),
          searchesCopy (itbAddIte ⟨0, 0⟩ (emptyItb 10) createRequest.hi).itb], true⟩))] =
        some (trace, -EEXIST) ∧ ¬LockOp.Balanced trace) ∧
      ∃ trace, mdsCbhtSearchLocks createRequest [searchTurn none] = some (trace, -ENOMEM) ∧
        ¬LockOp.Balanced trace := by
  refine ⟨⟨_, rfl, ?_⟩, ⟨_, rfl, ?_⟩⟩
  · unfold LockOp.Balanced
    decide
  · unfold LockOp.Balanced
    decide

end Hvfs
