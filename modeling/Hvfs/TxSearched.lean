/-
This file proves that a transaction which a search has found is neither freed nor
initialised again while the search holds it, along the runs in which
`mds_txc_evict` waits long enough: without a reference of the caller to the last
one, and with no search between its wait and the removal from the hash table.
-/

import Hvfs.TxOwned

namespace Hvfs

open Transition

/-! ### References to an object -/

/-- The reference of `mds_alloc_tx` has not been put yet. -/
def Stage.counted : Stage → Bool
  | .getTxg | .link | .handler | .putOld _ | .setNew _ | .rewrite _ | .done _ | .putRef _
  | .dropMark | .evictDrop _ | .dropRef => true
  | _ => false

/-- The object is out of the hash table. -/
def Stage.unhashed : Stage → Bool
  | .evictOld .unhashed | .evictDrop .unhashed | .init => true
  | _ => false

/-- `mds_txc_evict` is behind its wait. -/
def Stage.waited : Stage → Bool
  | .evictOld .waited | .evictDrop .waited => true
  | _ => false

/-- The thread is through with the object but for its state, its group and its level. -/
def Stage.over : Stage → Bool
  | .putTxg _ | .send | .acked | .setAcked | .freeNocommit => true
  | _ => false

/-- The object of a thread counts the searches that hold it, and the thread. -/
structure JobTracked (s : TxServer) (found : Nat → Nat) (job : Job) : Prop where
  ref : (s.tx job.x).ref = found job.x + (if job.stage.counted = true then 1 else 0 : Nat)
  waited : job.stage.waited = true → found job.x = 0
  unhashed : job.stage.unhashed = true → s.hashed job.x = false

section Job

variable {ι : Type} [DecidableEq ι] {s s' : TxSystem ι} {i : ι} {job : Job} {sends lost : Bool}

/-- What a step of a thread does to the hash table. -/
theorem JobMove.hashed (move : JobMove s i job sends lost s') :
    s'.server.hashed job.x = s.server.hashed job.x ∨
      (s'.server.hashed job.x = true ∧ job.stage = .link) ∨
      (s'.server.hashed job.x = false ∧ (job.stage = .init ∨ job.stage.waited = true)) := by
  have evicted : ∀ {phase next server}, evictStep s.server job.x phase = some (server, next) →
      server.hashed job.x = s.server.hashed job.x ∨
        (server.hashed job.x = false ∧ phase = .waited) := by
    intro phase next server evicts
    rcases evictStep_cases evicts with ⟨-, -, rfl, -⟩ | ⟨at_, -, rfl⟩ | ⟨-, -, -, rfl⟩
    · exact Or.inl rfl
    · exact Or.inr ⟨Function.update_self _ _ _, at_⟩
    · exact Or.inl rfl
  cases move with
  | evictOld phase next server stage evicts =>
    rcases evicted evicts with same | ⟨out, rfl⟩
    · exact Or.inl same
    · exact Or.inr (Or.inr ⟨out, Or.inr (by rw [stage]; rfl)⟩)
  | evictedOld phase server stage evicts =>
    rcases evicted evicts with same | ⟨out, rfl⟩
    · exact Or.inl same
    · exact Or.inr (Or.inr ⟨out, Or.inr (by rw [stage]; rfl)⟩)
  | init stage =>
    exact Or.inr (Or.inr ⟨Function.update_self _ _ _, Or.inl stage⟩)
  | link stage =>
    by_cases forget : (s.server.tx job.x).op = .forget
    · left
      simp [fixCcb, setGroup, mdsTxcAdd, forget]
    · right
      left
      refine ⟨?_, stage⟩
      simp [fixCcb, setGroup, mdsTxcAdd, forget]
  | rewrite err stage =>
    left
    simp only [moved_server]
    split <;> rfl
  | evictDrop phase next server stage evicts =>
    rcases evicted evicts with same | ⟨out, rfl⟩
    · exact Or.inl same
    · exact Or.inr (Or.inr ⟨out, Or.inr (by rw [stage]; rfl)⟩)
  | evictedDrop phase server stage evicts =>
    rcases evicted evicts with same | ⟨out, rfl⟩
    · exact Or.inl same
    · exact Or.inr (Or.inr ⟨out, Or.inr (by rw [stage]; rfl)⟩)
  | _ => exact Or.inl rfl

omit [DecidableEq ι] in
/-- The object of a thread stays tracked over the stages that neither take nor put a reference. -/
theorem JobTracked.moved {server : TxServer} {found : Nat → Nat} {before : Stage} {after : Job}
    (tracked : JobTracked s.server found job) (at_ : job.stage = before) (same : after.x = job.x)
    (ref : (server.tx job.x).ref = (s.server.tx job.x).ref)
    (counted : after.stage.counted = before.counted) (waited : after.stage.waited = false)
    (unhashed : after.stage.unhashed = false) : JobTracked server found after := by
  refine ⟨?_, ?_, ?_⟩
  · rw [same, ref, tracked.ref, at_, counted]
  · exact fun has => absurd has (Bool.eq_false_iff.mp waited)
  · exact fun has => absurd has (Bool.eq_false_iff.mp unhashed)

omit [DecidableEq ι] in
/-- One step of an eviction that has waited long enough. -/
theorem JobTracked.evict {server : TxServer} {found : Nat → Nat} {phase next : EvictPhase}
    {before after : Stage} (tracked : JobTracked s.server found job) (at_ : job.stage = before)
    (evicts : evictStep s.server job.x phase = some (server, some next))
    (waits : phase = .waiting → found job.x = 0) (counted : after.counted = before.counted)
    (waited : after.waited = true → next = .waited)
    (unhashed : after.unhashed = true → next = .unhashed) :
    JobTracked server found { job with stage := after } := by
  have ref : (server.tx job.x).ref =
      found job.x + (if after.counted = true then 1 else 0 : Nat) := by
    rw [(evictStep_frame evicts).2.1, tracked.ref, at_, counted]
  rcases evictStep_cases evicts with ⟨here, ends, -, -⟩ | ⟨here, ends, same⟩ | ⟨-, ends, -, -⟩
  · obtain rfl := Option.some.inj ends
    exact ⟨ref, fun _ => waits here, fun has => nomatch unhashed has⟩
  · obtain rfl := Option.some.inj ends
    refine ⟨ref, fun has => (nomatch waited has), fun _ => ?_⟩
    rw [same]
    exact Function.update_self _ _ _
  · cases ends

/-- The count of references of an object whose state is changed. -/
theorem setState_ref (server : TxServer) (x : Nat) (state : TxState) (y : Nat) :
    ((setState server x state).tx y).ref = (server.tx y).ref := by
  simp only [setState, setTx, Function.update_apply]
  split
  · rename_i same
    rw [same]
  · rfl

/-- A count of references as a change of it leaves it. -/
theorem ref_of_setTx {server : TxServer} {x : Nat} {tx : Tx} {ref : Int} (same : tx.ref = ref) :
    ((setTx server x tx).tx x).ref = ref := by
  rw [setTx]
  simp only [Function.update_self]
  exact same

/-- A step of a thread keeps track of its object, when an eviction of an old transaction passes its
wait without a reference. -/
theorem JobMove.tracked (move : JobMove s i job sends lost s') (sound : JobSound s.server job)
    (tracked : JobTracked s.server s.found job)
    (out : s.server.hashed job.x = false → s.found job.x = 0)
    (waits : job.stage = .evictOld .waiting → (s.server.tx job.x).ref ≤ 0) :
    ∀ after, s'.thread i = some after → JobTracked s'.server s.found after := by
  have left : ∀ (server : TxServer) after, (s.finished i server).thread i = some after →
      JobTracked server s.found after := by
    intro server after is
    rw [finished_thread_self] at is
    cases is
  cases move with
  | evictOld phase next server stage evicts =>
    refine moved_forall (tracked.evict stage evicts ?_ rfl ?_ ?_)
    · rintro rfl
      have ref := tracked.ref
      have small := waits stage
      rw [ref, stage] at small
      simp only [Stage.counted, Bool.false_eq_true, if_false] at small
      omega
    · cases next <;> simp [Stage.waited]
    · cases next <;> simp [Stage.unhashed]
  | evictedOld phase server stage evicts =>
    refine moved_forall ⟨?_, (by rintro ⟨⟩), fun _ => ?_⟩
    · rw [moved_server, (evictStep_frame evicts).2.1, tracked.ref, stage]
      rfl
    · rcases evictStep_cases evicts with ⟨-, ends, -, -⟩ | ⟨-, ends, -⟩ | ⟨rfl, -, -, same⟩
      · cases ends
      · cases ends
      · rw [moved_server, same]
        exact tracked.unhashed (by rw [stage]; rfl)
  | init stage =>
    refine moved_forall ⟨?_, (by rintro ⟨⟩), (by rintro ⟨⟩)⟩
    have none := out (tracked.unhashed (by rw [stage]; rfl))
    simp [initFields, setTx, none, Stage.counted]
  | getTxg stage =>
    exact moved_forall (tracked.moved stage rfl (ref_of_setTx rfl) rfl rfl rfl)
  | link stage => exact moved_forall (tracked.moved stage rfl rfl rfl rfl rfl)
  | putOld nt stage => exact moved_forall (tracked.moved stage rfl rfl rfl rfl rfl)
  | setNew nt stage => exact moved_forall (tracked.moved stage rfl (ref_of_setTx rfl) rfl rfl rfl)
  | rewrite err stage =>
    refine moved_forall (tracked.moved stage rfl ?_ rfl rfl rfl)
    simp only [moved_server]
    split
    · rfl
    · exact ref_of_setTx rfl
  | done ending stage state =>
    exact moved_forall (tracked.moved stage rfl (ref_of_setTx rfl) rfl rfl rfl)
  | doneInvalid ending stage state =>
    exact absurd (sound.state (congrArg Stage.working stage)) state
  | putRef ending stage =>
    refine moved_forall ⟨?_, (by rintro ⟨⟩), (by rintro ⟨⟩)⟩
    have ref := tracked.ref
    rw [stage] at ref
    simp [mdsPutTx, setTx, ref, Stage.counted]
  | freeForget ending stage op quiet =>
    exact moved_forall (tracked.moved stage rfl rfl rfl rfl rfl)
  | keep ending stage op => exact moved_forall (tracked.moved stage rfl rfl rfl rfl rfl)
  | putTxg ending stage =>
    cases ending <;> exact moved_forall (tracked.moved stage rfl rfl rfl rfl rfl)
  | send stage => exact moved_forall (tracked.moved stage rfl rfl rfl rfl rfl)
  | acked stage state => exact moved_forall (tracked.moved stage rfl rfl rfl rfl rfl)
  | setAcked stage => exact moved_forall (tracked.moved stage rfl (ref_of_setTx rfl) rfl rfl rfl)
  | commited stage state => exact left _
  | freeNocommit stage op quiet => exact left _
  | leave stage op => exact left _
  | dropFree stage quiet => exact left _
  | dropMark stage free =>
    exact moved_forall (tracked.moved stage rfl (ref_of_setTx rfl) rfl rfl rfl)
  | evictDrop phase next server stage evicts =>
    refine moved_forall (tracked.evict stage evicts ?_ rfl ?_ ?_)
    · rintro rfl
      rcases evictStep_cases evicts with ⟨-, -, -, small⟩ | ⟨here, -⟩ | ⟨here, -⟩
      · rw [tracked.ref, stage] at small
        simp only [Stage.counted, if_true] at small
        omega
      · cases here
      · cases here
    · cases next <;> simp [Stage.waited]
    · cases next <;> simp [Stage.unhashed]
  | evictedDrop phase server stage evicts =>
    exact moved_forall
      (tracked.moved stage rfl (by rw [moved_server, (evictStep_frame evicts).2.1]) rfl
      rfl rfl)
  | dropRef stage =>
    refine moved_forall ⟨?_, (by rintro ⟨⟩), (by rintro ⟨⟩)⟩
    have ref := tracked.ref
    rw [stage] at ref
    simp [mdsPutTx, setTx, ref, Stage.counted]
  | dropTxg stage => exact moved_forall (tracked.moved stage rfl rfl rfl rfl rfl)

/-- A thread leaves its object with the references of the searches. -/
theorem JobMove.left (move : JobMove s i job sends lost s') (tracked : JobTracked s.server s.found job)
    (gone : s'.thread i = none) : (s'.server.tx job.x).ref = s.found job.x := by
  have stays : ∀ after : Job, Function.update s.thread i (some after) i ≠ none := by
    intro after is
    rw [Function.update_self] at is
    cases is
  have ref := tracked.ref
  cases move with
  | commited stage state => rw [stage] at ref; exact ref.trans (Int.add_zero _)
  | freeNocommit stage op quiet => rw [stage] at ref; exact ref.trans (Int.add_zero _)
  | leave stage op => rw [stage] at ref; exact ref.trans (Int.add_zero _)
  | dropFree stage quiet => rw [stage] at ref; exact ref.trans (Int.add_zero _)
  | _ => exact absurd gone (stays _)

/-- A thread that is through with its object stays so. -/
theorem JobMove.over (move : JobMove s i job sends lost s') (past : job.stage.over = true) :
    ∀ after, s'.thread i = some after → after.stage.over = true := by
  have left : ∀ (server : TxServer) after, (s.finished i server).thread i = some after →
      after.stage.over = true := by
    intro server after is
    rw [finished_thread_self] at is
    cases is
  cases move with
  | putTxg ending stage => cases ending <;> exact moved_forall rfl
  | send stage => exact moved_forall rfl
  | acked stage state => exact moved_forall rfl
  | setAcked stage => exact moved_forall rfl
  | commited stage state => exact left _
  | freeNocommit stage op quiet => exact left _
  | leave stage op => exact left _
  | _ =>
    rw [‹job.stage = _›] at past
    exact absurd past nofun

end Job

/-! ### The system -/

section Searched

variable {ι : Type}

/-- Every thread at work on the object is through with it. -/
def TxSystem.Over (s : TxSystem ι) (x : Nat) : Prop :=
  ∀ i job, s.thread i = some job → job.x = x → job.stage.over = true

/-- An eviction of the object is behind its wait, and the object is in the hash table. -/
def TxSystem.Waited (s : TxSystem ι) (x : Nat) : Prop :=
  s.sweeper = some (x, .waited) ∨
    ∃ i job, s.thread i = some job ∧ job.x = x ∧ job.stage.waited = true

/-- The freeing part of `mds_txc_evict` runs on the object, or the object is initialised again. -/
def TxSystem.Freeing (s : TxSystem ι) (x : Nat) : Prop :=
  s.Waited x ∨ s.sweeper = some (x, .unhashed) ∨
    ∃ i job, s.thread i = some job ∧ job.x = x ∧ job.stage.unhashed = true

/-- Every object counts the searches that hold it, and the thread that has not put it. -/
structure Searched (s : TxSystem ι) : Prop where
  job : ∀ i job, s.thread i = some job → JobTracked s.server s.found job
  idle : ∀ x, s.Idle x → (s.server.tx x).ref = s.found x
  out : ∀ x, s.server.hashed x = false → s.found x = 0
  known : ∀ x, s.server.hashed x = true → x < s.server.total
  sweeper : ∀ x phase, s.sweeper = some (x, phase) → s.Over x ∧
    (phase = .waited → s.found x = 0) ∧ (phase = .unhashed → s.server.hashed x = false)

/-- A searched transaction is not being freed. -/
theorem Searched.alive {s : TxSystem ι} (tracked : Searched s) {x : Nat} (held : 0 < s.found x) :
    ¬s.Freeing x := by
  rintro ((sweeping | ⟨i, job, running, rfl, waited⟩) | sweeping | ⟨i, job, running, rfl, unhashed⟩)
  · have := (tracked.sweeper x _ sweeping).2.1 rfl
    omega
  · have := (tracked.job i job running).waited waited
    omega
  · have := tracked.out x ((tracked.sweeper x _ sweeping).2.2 rfl)
    omega
  · have := tracked.out job.x ((tracked.job i job running).unhashed unhashed)
    omega

/-- An object with which every thread is through counts only the searches. -/
theorem Searched.ref_of_over {s : TxSystem ι} (tracked : Searched s) {x : Nat} (past : s.Over x) :
    (s.server.tx x).ref = s.found x := by
  by_cases idle : s.Idle x
  · exact tracked.idle x idle
  · simp only [TxSystem.Idle, not_forall, not_not] at idle
    obtain ⟨i, job, running, rfl⟩ := idle
    have through := past i job running rfl
    have uncounted : job.stage.counted = false := by
      cases stage : job.stage <;> rw [stage] at through <;> first | rfl | cases through
    rw [(tracked.job i job running).ref, uncounted]
    exact Int.add_zero _

variable {s s' : TxSystem ι}

/-- The invariant after a step that leaves the references, the hash table and the threads. -/
theorem Searched.unchanged (tracked : Searched s) (thread : s'.thread = s.thread)
    (found : s'.found = s.found) (sweeper : s'.sweeper = s.sweeper)
    (ref : ∀ x, (s'.server.tx x).ref = (s.server.tx x).ref)
    (hashed : s'.server.hashed = s.server.hashed) (total : s'.server.total = s.server.total) :
    Searched s' where
  job := by
    intro i job is
    rw [thread] at is
    have kept := tracked.job i job is
    exact ⟨by rw [ref, found]; exact kept.ref, by rw [found]; exact kept.waited,
      by rw [hashed]; exact kept.unhashed⟩
  idle := by
    intro x idle
    rw [ref, found]
    exact tracked.idle x fun i => by rw [← thread]; exact idle i
  out := by rw [hashed, found]; exact tracked.out
  known := by rw [hashed, total]; exact tracked.known
  sweeper := by
    intro x phase
    rw [sweeper, found, hashed]
    intro is
    obtain ⟨past, rest⟩ := tracked.sweeper x phase is
    exact ⟨fun i => by rw [thread]; exact past i, rest⟩

/-- The sweeper comes to an object, or makes a step. -/
theorem Searched.of_sweeper (x : Nat) (next : Option EvictPhase) (tracked : Searched s)
    (thread : s'.thread = s.thread) (found : s'.found = s.found)
    (tx : s'.server.tx = s.server.tx) (total : s'.server.total = s.server.total)
    (others : ∀ y, y ≠ x → s'.server.hashed y = s.server.hashed y)
    (here : s'.server.hashed x = true → s.server.hashed x = true)
    (out : s'.server.hashed x = false → s.found x = 0)
    (sweeper : s'.sweeper = next.map fun phase => (x, phase)) (past : s.Over x)
    (waited : next = some .waited → s.found x = 0)
    (unhashed : next = some .unhashed → s'.server.hashed x = false) : Searched s' where
  job := by
    intro i job is
    rw [thread] at is
    have kept := tracked.job i job is
    refine ⟨by rw [tx, found]; exact kept.ref, by rw [found]; exact kept.waited, fun gone => ?_⟩
    by_cases same : job.x = x
    · have before := kept.unhashed gone
      rw [same] at before ⊢
      cases now : s'.server.hashed x with
      | false => rfl
      | true => rw [here now] at before; cases before
    · rw [others _ same]
      exact kept.unhashed gone
  idle := by
    intro y idle
    rw [tx, found]
    exact tracked.idle y fun i => by rw [← thread]; exact idle i
  out := by
    intro y gone
    rw [found]
    by_cases same : y = x
    · rw [same] at gone ⊢
      exact out gone
    · exact tracked.out y (by rw [← others y same]; exact gone)
  known := by
    intro y present
    rw [total]
    by_cases same : y = x
    · rw [same] at present ⊢
      exact tracked.known x (here present)
    · exact tracked.known y (by rw [← others y same]; exact present)
  sweeper := by
    intro y phase sweeping
    rw [sweeper] at sweeping
    obtain ⟨phase', rfl, equal⟩ := Option.map_eq_some_iff.mp sweeping
    obtain ⟨rfl, rfl⟩ := Prod.mk.inj equal
    refine ⟨fun i => by rw [thread]; exact past i, fun at_ => ?_, fun at_ => ?_⟩
    · rw [found]
      exact waited (congrArg some at_)
    · exact unhashed (congrArg some at_)

/-- A search has found a transaction, or puts it: the count and the searches change alike. -/
theorem Searched.of_found {x : Nat} {count : Nat} (tracked : Searched s)
    (thread : s'.thread = s.thread) (sweeper : s'.sweeper = s.sweeper)
    (hashed : s'.server.hashed = s.server.hashed) (total : s'.server.total = s.server.total)
    (found : s'.found = Function.update s.found x count)
    (others : ∀ y, y ≠ x → s'.server.tx y = s.server.tx y)
    (ref : (s'.server.tx x).ref - count = (s.server.tx x).ref - s.found x)
    (fewer : count = 0 ∨ 0 < s.found x ∨ (s.server.hashed x = true ∧ ¬s.Waited x)) :
    Searched s' := by
  have same : ∀ y (extra : Nat), (s.server.tx y).ref = s.found y + (extra : Int) →
      (s'.server.tx y).ref = s'.found y + (extra : Int) := by
    intro y extra before
    rw [found]
    by_cases here : y = x
    · subst here
      rw [Function.update_self]
      omega
    · rw [others y here, Function.update_of_ne here]
      exact before
  have none : ∀ y, s.found y = 0 → s.server.hashed y = false ∨ s.Waited y → s'.found y = 0 := by
    intro y before either
    rw [found]
    by_cases here : y = x
    · subst here
      rw [Function.update_self]
      rcases fewer with zero | positive | ⟨present, untouched⟩
      · exact zero
      · omega
      · rcases either with gone | waited
        · rw [present] at gone
          cases gone
        · exact absurd waited untouched
    · rw [Function.update_of_ne here]
      exact before
  refine ⟨?_, ?_, ?_, ?_, ?_⟩
  · intro i job is
    rw [thread] at is
    have kept := tracked.job i job is
    exact ⟨same _ _ kept.ref,
      fun waited => none _ (kept.waited waited) (Or.inr (Or.inr ⟨i, job, is, rfl, waited⟩)),
      by rw [hashed]; exact kept.unhashed⟩
  · intro y idle
    have before := tracked.idle y fun i => by rw [← thread]; exact idle i
    exact (same y 0 (before.trans (Int.add_zero _).symm)).trans (Int.add_zero _)
  · intro y gone
    rw [hashed] at gone
    exact none y (tracked.out y gone) (Or.inl gone)
  · rw [hashed, total]
    exact tracked.known
  · intro y phase sweeping
    rw [sweeper] at sweeping
    obtain ⟨past, waited, unhashed⟩ := tracked.sweeper y phase sweeping
    refine ⟨fun i => by rw [thread]; exact past i, ?_, by rw [hashed]; exact unhashed⟩
    rintro rfl
    exact none y (waited rfl) (Or.inr (Or.inl sweeping))

variable [DecidableEq ι]

/-- The invariant after a thread has taken up a request with the object `x`. -/
theorem Searched.of_alloc {i : ι} {x : Nat} {op : TxOp} {req : TxRequest} {stage : Stage}
    (tracked : Searched s) (idle : s.thread i = none) (free : s.Idle x)
    (counted : stage.counted = false) (waited : stage.waited = false)
    (unhashed : stage.unhashed = true → s.server.hashed x = false) (quiet : s.sweeper = none)
    (thread : s'.thread = Function.update s.thread i (some ⟨x, op, req, 0, 0, stage⟩))
    (found : s'.found = s.found) (sweeper : s'.sweeper = s.sweeper)
    (tx : s'.server.tx = s.server.tx) (hashed : s'.server.hashed = s.server.hashed)
    (total : s.server.total ≤ s'.server.total) : Searched s' where
  job := by
    intro j other is
    rw [found]
    by_cases same : j = i
    · rw [same, thread, Function.update_self] at is
      cases is
      refine ⟨?_, fun has => absurd has (Bool.eq_false_iff.mp waited), ?_⟩
      · rw [tx, tracked.idle x free, counted]
        exact (Int.add_zero _).symm
      · rw [hashed]
        exact unhashed
    · rw [thread, Function.update_of_ne same] at is
      have kept := tracked.job j other is
      exact ⟨by rw [tx]; exact kept.ref, kept.waited, by rw [hashed]; exact kept.unhashed⟩
  idle := by
    intro y still
    rw [tx, found]
    refine tracked.idle y fun j other is => ?_
    by_cases same : j = i
    · rw [same, idle] at is
      cases is
    · exact still j other (by rw [thread, Function.update_of_ne same]; exact is)
  out := by rw [hashed, found]; exact tracked.out
  known := by
    intro y present
    rw [hashed] at present
    exact Nat.lt_of_lt_of_le (tracked.known y present) total
  sweeper := by
    intro y phase sweeping
    rw [sweeper, quiet] at sweeping
    cases sweeping

variable [Fintype ι]

/-- The invariant after a step of one thread. -/
theorem Searched.of_thread {i : ι} {job : Job} (tracked : Searched s) (owned : Owned s)
    (running : s.thread i = some job) (frame : JobFrame s s' i job)
    (after : ∀ after, s'.thread i = some after → JobTracked s'.server s.found after)
    (left : s'.thread i = none → (s'.server.tx job.x).ref = s.found job.x)
    (hashed : s'.server.hashed job.x = s.server.hashed job.x ∨
      (s'.server.hashed job.x = true ∧ job.stage = .link) ∨
      (s'.server.hashed job.x = false ∧ (job.stage = .init ∨ job.stage.waited = true)))
    (past : job.stage.over = true → ∀ after, s'.thread i = some after → after.stage.over = true) :
    Searched s' where
  job := by
    intro j other is
    rw [frame.found]
    by_cases same : j = i
    · subst same
      exact after other is
    · rw [frame.thread j same] at is
      have apart : other.x ≠ job.x := fun equal =>
        same (owned.apart j i other job is running equal)
      have kept := tracked.job j other is
      exact ⟨by rw [frame.server.tx _ apart]; exact kept.ref, kept.waited,
        by rw [frame.server.hashed _ apart]; exact kept.unhashed⟩
  idle := by
    intro x idle
    rw [frame.found]
    by_cases same : x = job.x
    · subst same
      cases now : s'.thread i with
      | none => exact left now
      | some next => exact absurd (frame.same next now).1 (idle i next now)
    · rw [frame.server.tx x same]
      refine tracked.idle x fun j other is => ?_
      by_cases equal : j = i
      · subst equal
        obtain rfl := Option.some.inj (running.symm.trans is)
        exact Ne.symm same
      · exact idle j other (by rw [frame.thread j equal]; exact is)
  out := by
    intro x gone
    rw [frame.found]
    by_cases same : x = job.x
    · subst same
      rcases hashed with kept | ⟨added, -⟩ | ⟨-, init | waited⟩
      · exact tracked.out _ (kept.symm.trans gone)
      · rw [added] at gone
        cases gone
      · exact tracked.out _ ((tracked.job i job running).unhashed (by rw [init]; rfl))
      · exact (tracked.job i job running).waited waited
    · exact tracked.out x (by rw [← frame.server.hashed x same]; exact gone)
  known := by
    intro x present
    rw [frame.server.total]
    by_cases same : x = job.x
    · subst same
      exact (owned.sound i job running).known
    · exact tracked.known x (by rw [← frame.server.hashed x same]; exact present)
  sweeper := by
    intro x phase sweeping
    rw [frame.sweeper] at sweeping
    obtain ⟨through, waited, unhashed⟩ := tracked.sweeper x phase sweeping
    refine ⟨fun j other is same => ?_, by rw [frame.found]; exact waited, fun at_ => ?_⟩
    · by_cases equal : j = i
      · subst equal
        exact past (through j job running ((frame.same other is).1.symm.trans same)) other is
      · rw [frame.thread j equal] at is
        exact through j other is same
    · by_cases same : x = job.x
      · subst same
        have ends := through i job running rfl
        rcases hashed with kept | ⟨-, stage⟩ | ⟨gone, -⟩
        · exact kept.trans (unhashed at_)
        · rw [stage] at ends
          cases ends
        · exact gone
      · rw [frame.server.hashed x same]
        exact unhashed at_

/-- The second condition of this file: `mds_pre_free_tx` evicts an object with which its thread is
through, `mds_txc_evict` passes its wait only without a reference when it is called for a free
object, and no search finds an object between that wait and the removal from the hash table. -/
def WaitsEnough (s : TxSystem ι) : TxEvent ι → Prop
  | .sweep x => s.Over x
  | .step i _ => ∀ job ∈ s.thread i, job.stage = .evictOld .waiting → (s.server.tx job.x).ref ≤ 0
  | .sweepStep => ∀ x, s.sweeper = some (x, .waiting) → (s.server.tx x).ref ≤ 0
  | .search x => ¬s.Waited x
  | _ => True

/-- A thread in its handler goes on. -/
theorem Searched.of_handler {i : ι} {job : Job} {server : TxServer} {stage : Stage}
    (tracked : Searched s) (owned : Owned s) (running : s.thread i = some job)
    (at_ : job.stage = .handler) (counted : stage.counted = true) (waited : stage.waited = false)
    (unhashed : stage.unhashed = false) (frame : ServerFrame s.server server job.x)
    (ref : (server.tx job.x).ref = (s.server.tx job.x).ref)
    (hashed : server.hashed = s.server.hashed) : Searched (s.moved i job server stage) := by
  refine tracked.of_thread owned running (.of_server frame (by rintro _ ⟨⟩; exact ⟨rfl, rfl⟩))
    (moved_forall ((tracked.job i job running).moved at_ rfl ref counted waited unhashed))
    (fun gone => ?_) (Or.inl (by rw [moved_server, hashed])) (fun past => ?_)
  · rw [moved_thread_self] at gone
    cases gone
  · rw [at_] at past
    cases past

/-- Every event that is allowed keeps the invariant. -/
theorem Searched.event {event : TxEvent ι} (tracked : Searched s) (owned : Owned s)
    (allowed : AllocsFree s event) (waits : WaitsEnough s event) (move : EventMove s event s') :
    Searched s' := by
  cases move with
  | take i op req memory x rest idle quiet free head =>
    have notWorked : s.Idle x := (allowed free x (by rw [head]; rfl)).1
    by_cases hashed : s.server.hashed x = true
    · simp only [hashed, if_true]
      refine tracked.of_alloc idle notWorked rfl rfl ?_ quiet rfl rfl rfl rfl rfl le_rfl
      nofun
    · simp only [hashed]
      exact tracked.of_alloc idle notWorked rfl rfl
        (fun _ => Bool.eq_false_iff.mpr hashed) quiet rfl
        rfl rfl rfl rfl le_rfl
  | grow i op req idle quiet used =>
    have notWorked : s.Idle s.server.total := by
      intro j job is same
      have := (owned.sound j job is).known
      omega
    have absent : s.server.hashed s.server.total = false := by
      cases present : s.server.hashed s.server.total with
      | false => rfl
      | true => exact absurd (tracked.known _ present) (Nat.lt_irrefl _)
    exact tracked.of_alloc idle notWorked rfl rfl (fun _ => absent) quiet rfl rfl rfl rfl rfl
      (Nat.le_succ _)
  | noMemory i op req => exact tracked
  | reassign i job running stage =>
    exact tracked.of_handler owned running stage rfl rfl rfl (txgGet_frame _ _ _) rfl rfl
  | reply i err rpy job running stage =>
    refine tracked.of_handler owned running stage ?_ ?_ ?_ { setTx_frame s.server job.x _ with }
      (ref_of_setTx rfl) rfl <;> cases rpy <;> rfl
  | statfs i rpy job running stage =>
    refine tracked.of_handler owned running stage ?_ ?_ ?_ { setTx_frame s.server job.x _ with }
      (ref_of_setTx rfl) rfl <;> cases rpy <;> rfl
  | drop i job running stage =>
    exact tracked.of_handler owned running stage rfl rfl rfl (ServerFrame.refl _ _) rfl rfl
  | step i sends job s' running move =>
    have kept := tracked.job i job running
    exact tracked.of_thread owned running move.frame
      (move.tracked (owned.sound i job running) kept (tracked.out job.x) (waits job running))
      (move.left kept) move.hashed move.over
  | overwrite i j job s' running stage move =>
    have kept := tracked.job i job running
    exact tracked.of_thread owned running move.frame
      (move.tracked (owned.sound i job running) kept (tracked.out job.x) (by rw [stage]; nofun))
      (move.left kept) move.hashed move.over
  | switch free => exact tracked.unchanged rfl rfl rfl (fun _ => rfl) rfl rfl
  | commit n wb unused => exact tracked.unchanged rfl rfl rfl (fun _ => rfl) rfl rfl
  | visitEnd n sends active list => exact tracked.unchanged rfl rfl rfl (fun _ => rfl) rfl rfl
  | visitSkip n x sends rest active list skips =>
    exact tracked.unchanged rfl rfl rfl (fun _ => rfl) rfl rfl
  | visitNormal n x sends rest active list ended normal =>
    exact tracked.unchanged rfl rfl rfl (setState_ref _ _ _) rfl rfl
  | visitOther n x sends rest active list ended other =>
    exact tracked.unchanged rfl rfl rfl (setState_ref _ _ _) rfl rfl
  | callbackFree n x sends rest active list used quiet =>
    exact tracked.unchanged rfl rfl rfl (fun _ => rfl) rfl rfl
  | callbackDel n x sends rest active list => exact tracked.unchanged rfl rfl rfl (fun _ => rfl) rfl rfl
  | sweep x quiet free hashed =>
    exact tracked.of_sweeper x (some .waiting) rfl rfl rfl rfl (fun _ _ => rfl) (fun same => same)
      (tracked.out x) rfl waits nofun nofun
  | sweepStep x phase server next sweeping evicts =>
    obtain ⟨past, waited, unhashed⟩ := tracked.sweeper x phase sweeping
    obtain ⟨frame, tx, -, -, -⟩ := evictStep_frame evicts
    rcases evictStep_cases evicts with ⟨rfl, rfl, same, -⟩ | ⟨rfl, rfl, same⟩ | ⟨rfl, rfl, -, same⟩
    · refine tracked.of_sweeper x (some .waited) rfl rfl tx frame.total frame.hashed
        (by rw [same]; exact id) ?_ rfl past (fun _ => ?_) nofun
      · rw [same]
        exact tracked.out x
      · have ref := tracked.ref_of_over past
        have small := waits x sweeping
        omega
    · have gone : server.hashed x = false := by
        rw [same]
        exact Function.update_self _ _ _
      refine tracked.of_sweeper x (some .unhashed) rfl rfl tx frame.total frame.hashed
        (fun present => ?_) (fun _ => waited rfl) rfl past nofun fun _ => gone
      rw [gone] at present
      cases present
    · refine tracked.of_sweeper x none rfl rfl tx frame.total frame.hashed
        (by rw [same]; exact id) ?_ rfl past nofun nofun
      rw [same]
      exact tracked.out x
  | search x hashed =>
    refine tracked.of_found rfl rfl rfl rfl rfl (fun y other => Function.update_of_ne other _ _) ?_
      (Or.inr (Or.inr ⟨hashed, waits⟩))
    simp [setTx]
  | put x held =>
    refine tracked.of_found rfl rfl rfl rfl rfl (fun y other => Function.update_of_ne other _ _) ?_
      (Or.inr (Or.inl held))
    simp [mdsPutTx, setTx]
    omega

omit [DecidableEq ι] [Fintype ι] in
theorem init_searched (ftx : Nat) : Searched (TxSystem.init ι ftx) where
  job := fun _ _ is => nomatch is
  idle := fun _ _ => rfl
  out := fun _ _ => rfl
  known := fun _ present => nomatch present
  sweeper := fun _ _ sweeping => nomatch sweeping

theorem run_searched {ftx : Nat} {events : List (TxEvent ι)}
    (allowed : Guarded txEvent (fun s event => AllocsFree s event ∧ WaitsEnough s event)
      (TxSystem.init ι ftx) events)
    (reached : run txEvent (TxSystem.init ι ftx) events = some s) : Searched s :=
  (guarded_invariant (fun s => Owned s ∧ Searched s)
    (fun _ _ _ both here stepped =>
      ⟨both.1.event here.1 (txEvent_move stepped),
        both.2.event both.1 here.1 here.2 (txEvent_move stepped)⟩)
    ⟨init_owned ftx, init_searched ftx⟩ allowed reached).2

/-! ### The result -/

omit [Fintype ι] in
/-- A step of a thread frees the messages of its own object only, at the end of an eviction. -/
theorem JobMove.freed {i : ι} {job : Job} {sends lost : Bool}
    (move : JobMove s i job sends lost s') :
    s'.server.freed = s.server.freed ∨ (job.stage.unhashed = true ∧
      s'.server.freed = s.server.freed ++ (s.server.tx job.x).messages) := by
  cases move with
  | evictOld phase next server stage evicts =>
    rcases evictStep_cases evicts with ⟨-, -, same, -⟩ | ⟨-, -, same⟩ | ⟨-, ends, -, -⟩
    · exact Or.inl (by rw [moved_server, same])
    · exact Or.inl (by rw [moved_server, same])
    · cases ends
  | evictedOld phase server stage evicts =>
    rcases evictStep_cases evicts with ⟨-, ends, -, -⟩ | ⟨-, ends, -⟩ | ⟨rfl, -, -, same⟩
    · cases ends
    · cases ends
    · exact Or.inr ⟨by rw [stage]; rfl, by rw [moved_server, same]⟩
  | evictDrop phase next server stage evicts =>
    rcases evictStep_cases evicts with ⟨-, -, same, -⟩ | ⟨-, -, same⟩ | ⟨-, ends, -, -⟩
    · exact Or.inl (by rw [moved_server, same])
    · exact Or.inl (by rw [moved_server, same])
    · cases ends
  | evictedDrop phase server stage evicts =>
    rcases evictStep_cases evicts with ⟨-, ends, -, -⟩ | ⟨-, ends, -⟩ | ⟨rfl, -, -, same⟩
    · cases ends
    · cases ends
    · exact Or.inr ⟨by rw [stage]; rfl, by rw [moved_server, same]⟩
  | rewrite err stage =>
    left
    simp only [moved_server]
    split <;> rfl
  | _ => exact Or.inl rfl

omit [Fintype ι] in
/-- An event frees the messages of an object whose eviction is at its end, or of none. -/
theorem EventMove.freed {event : TxEvent ι} (move : EventMove s event s') :
    s'.server.freed = s.server.freed ∨
      ∃ x, s.Freeing x ∧ s'.server.freed = s.server.freed ++ (s.server.tx x).messages := by
  cases move with
  | step i sends job s' running move =>
    rcases move.freed with same | ⟨unhashed, freed⟩
    · exact Or.inl same
    · exact Or.inr ⟨job.x, Or.inr (Or.inr ⟨i, job, running, rfl, unhashed⟩), freed⟩
  | overwrite i j job s' running stage move =>
    refine Or.inl (move.freed.resolve_right ?_)
    rw [stage]
    exact fun unhashed => nomatch unhashed.1
  | sweepStep x phase server next sweeping evicts =>
    rcases evictStep_cases evicts with ⟨-, -, same, -⟩ | ⟨-, -, same⟩ | ⟨rfl, -, -, same⟩
    · exact Or.inl (by rw [same])
    · exact Or.inl (by rw [same])
    · exact Or.inr ⟨x, Or.inr (Or.inl sweeping), by rw [same]⟩
  | _ => exact Or.inl rfl

omit [Fintype ι] in
/-- An event gives a number to an object that is initialised, or to none. -/
theorem EventMove.number {event : TxEvent ι} (move : EventMove s event s') (x : Nat)
    (quiet : ¬s.Freeing x) : (s'.server.tx x).tx = (s.server.tx x).tx := by
  cases move with
  | reply i err rpy job running stage =>
    have number : ∀ y, ((setRpy s.server job.x rpy).tx y).tx = (s.server.tx y).tx :=
      setTx_number _ rfl
    exact number x
  | statfs i rpy job running stage =>
    have number : ∀ y, ((setRpy s.server job.x rpy).tx y).tx = (s.server.tx y).tx :=
      setTx_number _ rfl
    exact number x
  | step i sends job s' running move =>
    by_cases init : job.stage = .init
    · have other : x ≠ job.x := fun same =>
        quiet (Or.inr (Or.inr ⟨i, job, running, same.symm, by rw [init]; rfl⟩))
      rw [move.frame.server.tx x other]
    · exact (move.number init).1 x
  | overwrite i j job s' running stage move => exact (move.number (by rw [stage]; nofun)).1 x
  | visitNormal n y sends rest active list ended normal => exact setState_number _ _ _ x
  | visitOther n y sends rest active list ended other => exact setState_number _ _ _ x
  | sweepStep y phase server next sweeping evicts =>
    rw [(evictStep_frame evicts).2.1]
  | search y hashed =>
    have number : ∀ z, ((setTx s.server y { s.server.tx y with
        ref := (s.server.tx y).ref + 1 }).tx z).tx = (s.server.tx z).tx := setTx_number _ rfl
    exact number x
  | put y held =>
    have number : ∀ z, ((mdsPutTx s.server y).tx z).tx = (s.server.tx z).tx := setTx_number _ rfl
    exact number x
  | _ => rfl

/-- A transaction that a search holds is not being freed or initialised again, and no event frees
its messages or gives it another number. -/
structure KeepsAlive (s : TxSystem ι) : Prop where
  quiet : ∀ x, 0 < s.found x → ¬s.Freeing x
  messages : ∀ event s', txEvent s event = some s' → s'.server.freed = s.server.freed ∨
    ∃ y, s.found y = 0 ∧ s'.server.freed = s.server.freed ++ (s.server.tx y).messages
  number : ∀ event s', txEvent s event = some s' →
    ∀ x, 0 < s.found x → (s'.server.tx x).tx = (s.server.tx x).tx

/-- As long as objects are taken when their threads are through, `mds_txc_evict` waits for the last
reference of a free object, and no search comes between its wait and the removal from the hash
table, a transaction that was searched stays alive until it is put. -/
theorem searched_stays_alive (ftx : Nat) (events : List (TxEvent ι)) (s : TxSystem ι)
    (allowed : Guarded txEvent (fun s event => AllocsFree s event ∧ WaitsEnough s event)
      (TxSystem.init ι ftx) events)
    (reached : run txEvent (TxSystem.init ι ftx) events = some s) : KeepsAlive s := by
  have tracked := run_searched allowed reached
  refine ⟨fun x held => tracked.alive held, fun event s' stepped => ?_,
    fun event s' stepped x held =>
    (txEvent_move stepped).number x (tracked.alive held)⟩
  rcases (txEvent_move stepped).freed with same | ⟨x, freeing, freed⟩
  · exact Or.inl same
  · exact Or.inr ⟨x, Nat.eq_zero_of_not_pos fun held => tracked.alive held freeing, freed⟩

end Searched

/-- The events of a search for a request that is being processed. -/
def searchedRequest : List (TxEvent Bool) :=
  [.alloc true .nocommit ⟨1, 7⟩ true, .step true true, .step true true, .step true true,
    .search 0, .put 0]

/-- The invariant at the end of a search. -/
theorem searched_stays_alive_request :
    ∃ s, run txEvent (TxSystem.init Bool 1) searchedRequest = some s ∧ KeepsAlive s := by
  refine ⟨_, rfl, searched_stays_alive 1 searchedRequest _ ?_ rfl⟩
  refine .cons ⟨fun _ x is => ?_, trivial⟩ rfl (.cons ⟨trivial, fun _ is => ?_⟩ rfl
    (.cons ⟨trivial, fun _ is => ?_⟩ rfl (.cons ⟨trivial, fun _ is => ?_⟩ rfl
      (.cons ⟨trivial, ?_⟩ rfl (.cons ⟨trivial, trivial⟩ rfl trivial)))))
  · cases is
    exact ⟨fun _ _ job => (nomatch job), rfl⟩
  · cases is
    nofun
  · cases is
    nofun
  · cases is
    nofun
  · rintro (sweeping | ⟨i, job, running, -, waited⟩)
    · cases sweeping
    · cases i with
      | false => cases running
      | true =>
        cases running
        cases waited

/-- A transaction that is done has no reference left: the reference of a search does not keep
`mds_txc_evict` waiting when the object is taken for another request. -/
theorem searched_transaction_evicted : ¬ ∀ (ftx : Nat) (events : List (TxEvent Bool))
    (s : TxSystem Bool), run txEvent (TxSystem.init Bool ftx) events = some s → KeepsAlive s := by
  intro claim
  have alive := claim 1 (wholeRequest ++ [.search 0, .alloc false .nocommit ⟨2, 7⟩ true,
    .step false true]) _ rfl
  exact alive.quiet 0 (by decide) (Or.inl (Or.inr ⟨false, _, rfl, rfl, rfl⟩))

end Hvfs
