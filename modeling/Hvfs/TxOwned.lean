/-
This file proves that a service thread works on its own request to the end: the
object is the one it has initialised, it puts the references it took, and a group
counts exactly the references that threads hold. This holds along the runs in
which an object is taken from the free list only when no thread is at work on it
and its `ccb` node is not linked.
-/

import Hvfs.TxMoves
import Mathlib.Algebra.BigOperators.Group.Finset.Basic
import Mathlib.Data.Fintype.BigOperators

namespace Hvfs

open Transition

/-! ### What a stage says about the object -/

/-- The object has been initialised for the request. -/
def Stage.begun : Stage → Bool
  | .evictOld _ | .init => false
  | _ => true

/-- The request is being processed. -/
def Stage.working : Stage → Bool
  | .getTxg | .link | .handler | .putOld _ | .setNew _ | .rewrite _ | .done _ | .dropMark => true
  | _ => false

/-- The thread references the group that the object names. -/
def Stage.grouped : Stage → Bool
  | .link | .handler | .putOld _ | .rewrite _ | .done _ | .putRef _ | .freeForget _ | .putTxg _
  | .dropMark | .evictDrop _ | .dropRef | .dropTxg => true
  | _ => false

/-- The group that `itb_dirty` has got. -/
def Stage.newGroup : Stage → Option Nat
  | .putOld nt | .setNew nt => some nt
  | _ => none

/-- The references to the group `n` that a thread holds. -/
def Job.refs (job : Job) (n : Nat) : Nat :=
  (if job.stage.grouped = true ∧ job.group = n then 1 else 0) +
    if job.stage.newGroup = some n then 1 else 0

/-- The references of a thread with or without a request. -/
def jobRefs (job : Option Job) (n : Nat) : Nat := job.elim 0 fun job => job.refs n

/-- The object of a thread is as the thread left it. -/
structure JobSound (s : TxServer) (job : Job) : Prop where
  known : job.x < s.total
  born : job.stage.begun = true → 0 < job.life
  life : job.stage.begun = true → (s.tx job.x).tx = job.life
  state : job.stage.working = true → (s.tx job.x).state = .processing
  group : job.stage.grouped = true → (s.tx job.x).txg = job.group
  refs : ∀ n, 0 < job.refs n → n ≤ s.openTxg

/-! ### A thread keeps its object -/

section Sound

variable {ι : Type} [DecidableEq ι] {s s' : TxSystem ι} {i : ι} {job : Job} {sends lost : Bool}

@[simp] theorem moved_server (server : TxServer) (stage : Stage) :
    (s.moved i job server stage).server = server := rfl

@[simp] theorem moved_thread_self (server : TxServer) (stage : Stage) :
    (s.moved i job server stage).thread i = some { job with stage := stage } :=
  Function.update_self i _ s.thread

@[simp] theorem finished_thread_self (server : TxServer) :
    (s.finished i server).thread i = none :=
  Function.update_self i _ s.thread

/-- A thread that has begun goes on with a stage in which it holds no more references. -/
theorem JobSound.moved {server before : TxServer} (sound : JobSound before job) {stage : Stage}
    (begun : job.stage.begun = true) (total : server.total = before.total)
    (openTxg : server.openTxg = before.openTxg)
    (number : (server.tx job.x).tx = (before.tx job.x).tx)
    (state : stage.working = true → (server.tx job.x).state = .processing)
    (group : stage.grouped = true → (server.tx job.x).txg = job.group)
    (refs : ∀ n, Job.refs { job with stage := stage } n ≤ job.refs n) :
    JobSound server { job with stage := stage } where
  known := by rw [total]; exact sound.known
  born := fun _ => sound.born begun
  life := fun _ => number.trans (sound.life begun)
  state := state
  group := group
  refs := fun n held => by rw [openTxg]; exact sound.refs n (Nat.lt_of_lt_of_le held (refs n))

/-- A stage in which the thread holds no references. -/
theorem Job.refs_none {stage : Stage} (grouped : stage.grouped = false)
    (newGroup : stage.newGroup = none) (job : Job) (n : Nat) :
    Job.refs { job with stage := stage } n = 0 := by
  simp [Job.refs, grouped, newGroup]

/-- A stage in which the thread holds its group. -/
theorem Job.refs_grouped {stage : Stage} (grouped : stage.grouped = true)
    (newGroup : stage.newGroup = none) (job : Job) (n : Nat) :
    Job.refs { job with stage := stage } n = if job.group = n then 1 else 0 := by
  simp [Job.refs, grouped, newGroup]

/-- What the thread has become after a step. -/
theorem moved_forall {thread : ι → Option Job} {after : Job} {property : Job → Prop}
    (holds : property after) :
    ∀ job, Function.update thread i (some after) i = some job → property job := by
  intro job is
  rw [Function.update_self] at is
  cases is
  exact holds

/-- Without another group a stage holds no more references than one in which the group is held. -/
theorem Job.refs_le {stage : Stage} (newGroup : stage.newGroup = none)
    (grouped : stage.grouped = true → job.stage.grouped = true) (n : Nat) :
    Job.refs { job with stage := stage } n ≤ job.refs n := by
  simp only [Job.refs, newGroup, reduceCtorEq, if_false, Nat.add_zero]
  split
  · rename_i held
    rw [if_pos ⟨grouped held.1, held.2⟩]
    omega
  · exact Nat.zero_le _

/-- The object of a thread stays sound. -/
theorem JobMove.sound (move : JobMove s i job sends lost s') (sound : JobSound s.server job) :
    ∀ after, s'.thread i = some after → JobSound s'.server after := by
  have left : ∀ (server : TxServer) after, (s.finished i server).thread i = some after →
      JobSound server after := by
    intro server after is
    rw [finished_thread_self] at is
    cases is
  have unbegun : ∀ (server : TxServer) (stage : Stage), server.total = s.server.total →
      stage.begun = false → stage.working = false → stage.grouped = false →
      stage.newGroup = none → JobSound server { job with stage := stage } := by
    intro server stage total begun working grouped newGroup
    refine ⟨by rw [total]; exact sound.known, ?_, ?_, ?_, ?_, fun n held => ?_⟩
    · exact fun has => absurd has (Bool.eq_false_iff.mp begun)
    · exact fun has => absurd has (Bool.eq_false_iff.mp begun)
    · exact fun has => absurd has (Bool.eq_false_iff.mp working)
    · exact fun has => absurd has (Bool.eq_false_iff.mp grouped)
    · rw [Job.refs_none grouped newGroup] at held
      cases held
  cases move with
  | evictOld phase next server stage evicts =>
    exact moved_forall (unbegun _ _ (evictStep_frame evicts).1.total rfl rfl rfl rfl)
  | evictedOld phase server stage evicts =>
    exact moved_forall (unbegun _ _ (evictStep_frame evicts).1.total rfl rfl rfl rfl)
  | init stage =>
    refine moved_forall ⟨sound.known, fun _ => Nat.succ_pos _, fun _ => ?_, fun _ => ?_,
      (by rintro ⟨⟩), ?_⟩
    · simp [initFields, setTx]
    · simp [initFields, setTx]
    · intro n held
      rw [Job.refs_none rfl rfl] at held
      cases held
  | getTxg stage =>
    have begun := congrArg Stage.begun stage
    refine moved_forall ⟨sound.known, fun _ => sound.born begun, fun _ => ?_, fun _ => ?_,
      fun _ => ?_, fun n held => ?_⟩
    · simpa [setTxg, setTx, txgGet, setGroup] using sound.life begun
    · simpa [setTxg, setTx, txgGet, setGroup] using sound.state (congrArg Stage.working stage)
    · simp [setTxg, setTx]
    · rw [Job.refs_grouped rfl rfl] at held
      simp only at held
      split at held
      · rename_i same
        exact Nat.le_of_eq same.symm
      · cases held
  | link stage =>
    exact moved_forall (sound.moved (congrArg Stage.begun stage) rfl rfl rfl
      (fun _ => sound.state (congrArg Stage.working stage))
      (fun _ => sound.group (congrArg Stage.grouped stage))
      (Job.refs_le rfl fun _ => congrArg Stage.grouped stage))
  | putOld nt stage =>
    refine moved_forall (sound.moved (congrArg Stage.begun stage) rfl rfl rfl
      (fun _ => sound.state (congrArg Stage.working stage)) (by rintro ⟨⟩) fun n => ?_)
    rw [Job.refs, Job.refs, congrArg Stage.newGroup stage]
    exact Nat.add_le_add_right (by rw [if_neg (by rintro ⟨⟨⟩, _⟩)]; exact Nat.zero_le _) _
  | setNew nt stage =>
    have begun := congrArg Stage.begun stage
    refine moved_forall ⟨sound.known, fun _ => sound.born begun, fun _ => ?_, fun _ => ?_,
      fun _ => ?_, fun n held => sound.refs n ?_⟩
    · simpa [setTxg, setTx] using sound.life begun
    · simpa [setTxg, setTx] using sound.state (congrArg Stage.working stage)
    · simp [setTxg, setTx]
    · rw [Job.refs_grouped rfl rfl] at held
      simp only at held
      split at held
      · rename_i same
        subst same
        simp [Job.refs, stage, Stage.newGroup]
      · cases held
  | rewrite err stage =>
    refine moved_forall (sound.moved (congrArg Stage.begun stage) ?_ ?_ ?_ (fun _ => ?_)
      (fun _ => ?_) (Job.refs_le rfl fun _ => congrArg Stage.grouped stage))
    · split <;> rfl
    · split <;> rfl
    · split <;> simp [setOp, setTx]
    · have state := sound.state (congrArg Stage.working stage)
      split <;> simpa [setOp, setTx] using state
    · have group := sound.group (congrArg Stage.grouped stage)
      split <;> simpa [setOp, setTx] using group
  | done ending stage state =>
    refine moved_forall (sound.moved (congrArg Stage.begun stage) rfl rfl ?_
      (by rintro ⟨⟩) (fun _ => ?_)
      (Job.refs_le rfl fun _ => congrArg Stage.grouped stage))
    · simp [setState, setTx]
    · simpa [setState, setTx] using sound.group (congrArg Stage.grouped stage)
  | doneInvalid ending stage state =>
    exact absurd (sound.state (congrArg Stage.working stage)) state
  | putRef ending stage =>
    refine moved_forall (sound.moved (congrArg Stage.begun stage) rfl rfl ?_
      (by rintro ⟨⟩) (fun _ => ?_)
      (Job.refs_le rfl fun _ => congrArg Stage.grouped stage))
    · simp [mdsPutTx, setTx]
    · simpa [mdsPutTx, setTx] using sound.group (congrArg Stage.grouped stage)
  | freeForget ending stage op quiet =>
    exact moved_forall (sound.moved (congrArg Stage.begun stage) rfl rfl rfl (by rintro ⟨⟩)
      (fun _ => sound.group (congrArg Stage.grouped stage))
      (Job.refs_le rfl fun _ => congrArg Stage.grouped stage))
  | keep ending stage op =>
    exact moved_forall (sound.moved (congrArg Stage.begun stage) rfl rfl rfl (by rintro ⟨⟩)
      (fun _ => sound.group (congrArg Stage.grouped stage))
      (Job.refs_le rfl fun _ => congrArg Stage.grouped stage))
  | putTxg ending stage =>
    cases ending with
    | reply =>
      exact moved_forall (sound.moved (congrArg Stage.begun stage) rfl rfl rfl
        (by rintro ⟨⟩) (by rintro ⟨⟩)
        (Job.refs_le rfl (by rintro ⟨⟩)))
    | statfs =>
      exact moved_forall (sound.moved (congrArg Stage.begun stage) rfl rfl rfl
        (by rintro ⟨⟩) (by rintro ⟨⟩)
        (Job.refs_le rfl (by rintro ⟨⟩)))
  | send stage =>
    exact moved_forall (sound.moved (congrArg Stage.begun stage) rfl rfl rfl
      (by rintro ⟨⟩) (by rintro ⟨⟩)
      (Job.refs_le rfl (by rintro ⟨⟩)))
  | acked stage state =>
    exact moved_forall (sound.moved (congrArg Stage.begun stage) rfl rfl rfl
      (by rintro ⟨⟩) (by rintro ⟨⟩)
      (Job.refs_le rfl (by rintro ⟨⟩)))
  | setAcked stage =>
    refine moved_forall (sound.moved (congrArg Stage.begun stage) rfl rfl ?_
      (by rintro ⟨⟩) (by rintro ⟨⟩)
      (Job.refs_le rfl (by rintro ⟨⟩)))
    simp [setState, setTx]
  | commited stage state => exact left _
  | freeNocommit stage op quiet => exact left _
  | leave stage op => exact left _
  | dropFree stage quiet => exact left _
  | dropMark stage free =>
    refine moved_forall (sound.moved (congrArg Stage.begun stage) rfl rfl ?_
      (by rintro ⟨⟩) (fun _ => ?_)
      (Job.refs_le rfl fun _ => congrArg Stage.grouped stage))
    · simp [setState, setTx]
    · simpa [setState, setTx] using sound.group (congrArg Stage.grouped stage)
  | evictDrop phase next server stage evicts =>
    obtain ⟨frame, tx, -, -, -⟩ := evictStep_frame evicts
    refine moved_forall (sound.moved (congrArg Stage.begun stage) frame.total
      frame.openTxg ?_ (by rintro ⟨⟩)
      (fun _ => ?_) (Job.refs_le rfl fun _ => congrArg Stage.grouped stage))
    · rw [moved_server, tx]
    · rw [moved_server, tx]
      exact sound.group (congrArg Stage.grouped stage)
  | evictedDrop phase server stage evicts =>
    obtain ⟨frame, tx, -, -, -⟩ := evictStep_frame evicts
    refine moved_forall (sound.moved (congrArg Stage.begun stage) frame.total
      frame.openTxg ?_ (by rintro ⟨⟩)
      (fun _ => ?_) (Job.refs_le rfl fun _ => congrArg Stage.grouped stage))
    · rw [moved_server, tx]
    · rw [moved_server, tx]
      exact sound.group (congrArg Stage.grouped stage)
  | dropRef stage =>
    refine moved_forall (sound.moved (congrArg Stage.begun stage) rfl rfl ?_
      (by rintro ⟨⟩) (fun _ => ?_)
      (Job.refs_le rfl fun _ => congrArg Stage.grouped stage))
    · simp [mdsPutTx, setTx]
    · simpa [mdsPutTx, setTx] using sound.group (congrArg Stage.grouped stage)
  | dropTxg stage =>
    exact moved_forall (sound.moved (congrArg Stage.begun stage) rfl rfl rfl
      (by rintro ⟨⟩) (by rintro ⟨⟩)
      (Job.refs_le rfl (by rintro ⟨⟩)))

theorem txgGet_txPending (server : TxServer) (m n : Nat) :
    ((txgGet server m).txg n).txPending =
      (server.txg n).txPending + ((if m = n then 1 else 0 : Nat) : Int) := by
  simp only [txgGet, setGroup, Function.update_apply]
  by_cases same : n = m
  · simp [same]
  · simp [same, Ne.symm same]

theorem txgPut_txPending (server : TxServer) (m n : Nat) :
    ((txgPut server m).txg n).txPending =
      (server.txg n).txPending - ((if m = n then 1 else 0 : Nat) : Int) := by
  simp only [txgPut, setGroup, Function.update_apply]
  by_cases same : n = m
  · simp [same]
  · simp [same, Ne.symm same]

theorem fixCcb_txPending (server : TxServer) (m n x : Nat) (op : TxOp) :
    ((fixCcb server m x op).txg n).txPending = (server.txg n).txPending := by
  simp only [fixCcb, setGroup, Function.update_apply]
  split
  · rename_i same
    rw [same]
  · rfl

/-- A step of a thread changes the count of a group by the references that the thread takes and
puts. -/
theorem JobMove.balance (move : JobMove s i job sends lost s')
    (sound : JobSound s.server job) (n : Nat) :
    (s'.server.txg n).txPending + job.refs n =
      (s.server.txg n).txPending + jobRefs (s'.thread i) n := by
  have same : ∀ {server : TxServer} {before stage : Stage}, job.stage = before →
      (server.txg n).txPending = (s.server.txg n).txPending →
      stage.grouped = before.grouped → stage.newGroup = before.newGroup →
      (server.txg n).txPending + job.refs n = (s.server.txg n).txPending +
        jobRefs (Function.update s.thread i (some { job with stage := stage }) i) n := by
    intro server before stage at_ pending grouped newGroup
    rw [Function.update_self, pending]
    simp only [jobRefs, Option.elim, Job.refs, at_, grouped, newGroup]
  have gone : ∀ {server : TxServer} {before : Stage}, job.stage = before →
      (server.txg n).txPending = (s.server.txg n).txPending → before.grouped = false →
      before.newGroup = none → (server.txg n).txPending + job.refs n =
        (s.server.txg n).txPending + jobRefs (Function.update s.thread i none i) n := by
    intro server before at_ pending grouped newGroup
    rw [Function.update_self, pending]
    simp [jobRefs, Job.refs, at_, grouped, newGroup]
  cases move with
  | evictOld phase next server stage evicts =>
    exact same stage (by rw [moved_server, (evictStep_frame evicts).2.2.1]) rfl rfl
  | evictedOld phase server stage evicts =>
    exact same stage (by rw [moved_server, (evictStep_frame evicts).2.2.1]) rfl rfl
  | init stage =>
    rw [moved_thread_self]
    simp [jobRefs, Job.refs, stage, Stage.grouped, Stage.newGroup, initFields, setTx]
  | getTxg stage =>
    change ((txgGet s.server s.server.openTxg).txg n).txPending + _ = _
    rw [moved_thread_self, txgGet_txPending]
    simp [jobRefs, Job.refs, stage, Stage.grouped, Stage.newGroup]
  | link stage => exact same stage (fixCcb_txPending _ _ _ _ _) rfl rfl
  | putOld nt stage =>
    change ((txgPut s.server job.group).txg n).txPending + _ = _
    rw [moved_thread_self, txgPut_txPending]
    simp [jobRefs, Job.refs, stage, Stage.grouped, Stage.newGroup]
    omega
  | setNew nt stage =>
    rw [moved_thread_self]
    simp [jobRefs, Job.refs, stage, Stage.grouped, Stage.newGroup, setTxg, setTx]
  | rewrite err stage => exact same stage (by split <;> rfl) rfl rfl
  | done ending stage state => exact same stage rfl rfl rfl
  | doneInvalid ending stage state =>
    exact absurd (sound.state (congrArg Stage.working stage)) state
  | putRef ending stage => exact same stage rfl rfl rfl
  | freeForget ending stage op quiet => exact same stage rfl rfl rfl
  | keep ending stage op => exact same stage rfl rfl rfl
  | putTxg ending stage =>
    rw [moved_server, moved_thread_self, sound.group (congrArg Stage.grouped stage),
      txgPut_txPending]
    cases ending <;> simp [jobRefs, Job.refs, stage, Stage.grouped, Stage.newGroup, Ending.next]
  | send stage => exact same stage rfl rfl rfl
  | acked stage state => exact same stage rfl rfl rfl
  | commited stage state => exact gone stage rfl rfl rfl
  | setAcked stage => exact same stage rfl rfl rfl
  | freeNocommit stage op quiet => exact gone stage rfl rfl rfl
  | leave stage op => exact gone stage rfl rfl rfl
  | dropMark stage free => exact same stage rfl rfl rfl
  | evictDrop phase next server stage evicts =>
    exact same stage (by rw [moved_server, (evictStep_frame evicts).2.2.1]) rfl rfl
  | evictedDrop phase server stage evicts =>
    exact same stage (by rw [moved_server, (evictStep_frame evicts).2.2.1]) rfl rfl
  | dropRef stage => exact same stage rfl rfl rfl
  | dropTxg stage =>
    rw [moved_server, moved_thread_self, sound.group (congrArg Stage.grouped stage),
      txgPut_txPending]
    simp [jobRefs, Job.refs, stage, Stage.grouped, Stage.newGroup]
  | dropFree stage quiet => exact gone stage rfl rfl rfl

end Sound

/-! ### Numbers of transactions -/

section Numbers

/-- Every transaction has a number of its own. -/
structure Numbered (s : TxServer) : Prop where
  bound : ∀ x, (s.tx x).tx ≤ s.miTx
  unique : ∀ x y, (s.tx x).tx = (s.tx y).tx → 0 < (s.tx x).tx → x = y

theorem Numbered.of_same {s after : TxServer} (numbered : Numbered s)
    (tx : ∀ y, (after.tx y).tx = (s.tx y).tx) (miTx : after.miTx = s.miTx) : Numbered after where
  bound := fun x => by rw [tx, miTx]; exact numbered.bound x
  unique := fun x y => by rw [tx, tx]; exact numbered.unique x y

/-- A change of a transaction that leaves its number as it is. -/
theorem setTx_number (s : TxServer) {x : Nat} {tx : Tx} (same : tx.tx = (s.tx x).tx) (y : Nat) :
    ((setTx s x tx).tx y).tx = (s.tx y).tx := by
  simp only [setTx, Function.update_apply]
  split
  · rename_i equal
    rw [equal, same]
  · rfl

theorem setState_number (s : TxServer) (x : Nat) (state : TxState) (y : Nat) :
    ((setState s x state).tx y).tx = (s.tx y).tx := by
  have same : ∀ y, ((setTx s x { s.tx x with state := state }).tx y).tx = (s.tx y).tx :=
    setTx_number s rfl
  exact same y

theorem initFields_numbered {s : TxServer} (numbered : Numbered s) (x : Nat) (op : TxOp)
    (req : TxRequest) : Numbered (initFields s x op req) := by
  have here : ((initFields s x op req).tx x).tx = s.miTx + 1 := by simp [initFields, setTx]
  have there : ∀ y, y ≠ x → (initFields s x op req).tx y = s.tx y :=
    fun y other => Function.update_of_ne other _ _
  have fresh : ∀ y, y ≠ x → ((initFields s x op req).tx y).tx ≠ s.miTx + 1 := by
    intro y other
    rw [there y other]
    have := numbered.bound y
    omega
  constructor
  · intro y
    change _ ≤ s.miTx + 1
    by_cases other : y = x
    · rw [other, here]
    · rw [there y other]
      exact Nat.le_succ_of_le (numbered.bound y)
  · intro y z
    by_cases first : y = x
    · by_cases second : z = x
      · exact fun _ _ => first.trans second.symm
      · rw [first, here]
        exact fun same => absurd same.symm (fresh z second)
    · by_cases second : z = x
      · rw [second, here]
        exact fun same => absurd same (fresh y first)
      · rw [there y first, there z second]
        exact numbered.unique y z

variable {ι : Type} [DecidableEq ι] {s s' : TxSystem ι} {i : ι} {job : Job} {sends lost : Bool}

/-- Only the initialisation gives a transaction a number. -/
theorem JobMove.number (move : JobMove s i job sends lost s') (begun : job.stage ≠ .init) :
    (∀ y, (s'.server.tx y).tx = (s.server.tx y).tx) ∧ s'.server.miTx = s.server.miTx := by
  cases move with
  | init stage => exact absurd stage begun
  | evictOld phase next server stage evicts =>
    obtain ⟨-, tx, -, -, miTx⟩ := evictStep_frame evicts
    exact ⟨fun y => by rw [moved_server, tx], miTx⟩
  | evictedOld phase server stage evicts =>
    obtain ⟨-, tx, -, -, miTx⟩ := evictStep_frame evicts
    exact ⟨fun y => by rw [moved_server, tx], miTx⟩
  | getTxg stage => exact ⟨setTx_number _ rfl, rfl⟩
  | link stage => exact ⟨fun _ => rfl, rfl⟩
  | putOld nt stage => exact ⟨fun _ => rfl, rfl⟩
  | setNew nt stage => exact ⟨setTx_number _ rfl, rfl⟩
  | rewrite err stage =>
    by_cases success : err = 0
    · simp [success]
    · simp only [moved_server, if_neg success]
      exact ⟨setTx_number _ rfl, rfl⟩
  | done ending stage state => exact ⟨setTx_number _ rfl, rfl⟩
  | doneInvalid ending stage state => exact ⟨fun _ => rfl, rfl⟩
  | putRef ending stage => exact ⟨setTx_number _ rfl, rfl⟩
  | freeForget ending stage op quiet => exact ⟨fun _ => rfl, rfl⟩
  | keep ending stage op => exact ⟨fun _ => rfl, rfl⟩
  | putTxg ending stage => exact ⟨fun _ => rfl, rfl⟩
  | send stage => exact ⟨fun _ => rfl, rfl⟩
  | acked stage state => exact ⟨fun _ => rfl, rfl⟩
  | commited stage state => exact ⟨fun _ => rfl, rfl⟩
  | setAcked stage => exact ⟨setTx_number _ rfl, rfl⟩
  | freeNocommit stage op quiet => exact ⟨fun _ => rfl, rfl⟩
  | leave stage op => exact ⟨fun _ => rfl, rfl⟩
  | dropMark stage free => exact ⟨setTx_number _ rfl, rfl⟩
  | evictDrop phase next server stage evicts =>
    obtain ⟨-, tx, -, -, miTx⟩ := evictStep_frame evicts
    exact ⟨fun y => by rw [moved_server, tx], miTx⟩
  | evictedDrop phase server stage evicts =>
    obtain ⟨-, tx, -, -, miTx⟩ := evictStep_frame evicts
    exact ⟨fun y => by rw [moved_server, tx], miTx⟩
  | dropRef stage => exact ⟨setTx_number _ rfl, rfl⟩
  | dropTxg stage => exact ⟨fun _ => rfl, rfl⟩
  | dropFree stage quiet => exact ⟨fun _ => rfl, rfl⟩

/-- The initialisation has one outcome. -/
theorem JobMove.server_of_init (move : JobMove s i job sends lost s') (begins : job.stage = .init) :
    s'.server = initFields s.server job.x job.op job.req := by
  cases move with
  | init stage => rfl
  | _ =>
    have is := ‹job.stage = _›
    rw [begins] at is
    cases is

/-- The last number never goes back. -/
theorem JobMove.miTx_le (move : JobMove s i job sends lost s') : s.server.miTx ≤ s'.server.miTx := by
  by_cases begins : job.stage = .init
  · rw [move.server_of_init begins]
    exact Nat.le_succ _
  · exact Nat.le_of_eq (move.number begins).2.symm

theorem JobMove.numbered (move : JobMove s i job sends lost s') (numbered : Numbered s.server) :
    Numbered s'.server := by
  by_cases begun : job.stage = .init
  · rw [move.server_of_init begun]
    exact initFields_numbered numbered _ _ _
  · obtain ⟨tx, miTx⟩ := move.number begun
    exact numbered.of_same tx miTx

end Numbers

/-! ### The system -/

section Owned

variable {ι : Type} [DecidableEq ι] [Fintype ι]

/-- The references to the group `n` that threads hold. -/
def TxSystem.held (s : TxSystem ι) (n : Nat) : Nat := ∑ i, jobRefs (s.thread i) n

/-- No thread is at work on the object. -/
def TxSystem.Idle (s : TxSystem ι) (x : Nat) : Prop :=
  ∀ i, ∀ job ∈ s.thread i, job.x ≠ x

/-- Every thread works on an object of its own, which is as it left it, and every group counts the
references that threads hold. -/
structure Owned (s : TxSystem ι) : Prop where
  apart : ∀ i j first second, s.thread i = some first → s.thread j = some second →
    first.x = second.x → i = j
  sound : ∀ i job, s.thread i = some job → JobSound s.server job
  pending : ∀ n, (s.server.txg n).txPending = s.held n
  numbered : Numbered s.server
  free : ∀ x ∈ s.server.lru, x < s.server.total
  listed : ∀ n, ∀ x ∈ (s.server.txg n).ccbList, x < s.server.total

variable {s s' : TxSystem ι}

/-- What a step of one thread does to the references that threads hold. -/
theorem held_step {i : ι} (others : ∀ j, j ≠ i → s'.thread j = s.thread j) (n : Nat) :
    s'.held n + jobRefs (s.thread i) n = s.held n + jobRefs (s'.thread i) n := by
  unfold TxSystem.held
  rw [← Finset.add_sum_erase _ _ (Finset.mem_univ i),
    ← Finset.add_sum_erase Finset.univ (fun j => jobRefs (s.thread j) n) (Finset.mem_univ i),
    Finset.sum_congr rfl fun j member => by rw [others j (Finset.ne_of_mem_erase member)]]
  omega

/-- A thread with a sound object stays sound when another object is changed. -/
theorem JobSound.frame {server after : TxServer} {x : Nat} {job : Job} (sound : JobSound server job)
    (frame : ServerFrame server after x) (other : job.x ≠ x) : JobSound after job where
  known := by rw [frame.total]; exact sound.known
  born := sound.born
  life := fun begun => by rw [frame.tx job.x other]; exact sound.life begun
  state := fun working => by rw [frame.tx job.x other]; exact sound.state working
  group := fun grouped => by rw [frame.tx job.x other]; exact sound.group grouped
  refs := fun n held => by rw [frame.openTxg]; exact sound.refs n held

/-- The invariant after a step of one thread, which stays with its object. -/
theorem Owned.of_thread {i : ι} {job : Job} (owned : Owned s) (running : s.thread i = some job)
    (frame : JobFrame s s' i job)
    (sound : ∀ after, s'.thread i = some after → JobSound s'.server after)
    (balance : ∀ n, (s'.server.txg n).txPending + job.refs n =
      (s.server.txg n).txPending + jobRefs (s'.thread i) n)
    (numbered : Numbered s'.server) : Owned s' where
  apart := by
    have before : ∀ j other, s'.thread j = some other →
        ∃ old, s.thread j = some old ∧ old.x = other.x := by
      intro j other is
      by_cases same : j = i
      · subst same
        exact ⟨job, running, (frame.same other is).1.symm⟩
      · rw [frame.thread j same] at is
        exact ⟨other, is, rfl⟩
    intro j k first second one two same
    obtain ⟨oldFirst, wasFirst, sameFirst⟩ := before j first one
    obtain ⟨oldSecond, wasSecond, sameSecond⟩ := before k second two
    exact owned.apart j k oldFirst oldSecond wasFirst wasSecond
      (sameFirst.trans (same.trans sameSecond.symm))
  sound := by
    intro j other is
    by_cases same : j = i
    · subst same
      exact sound other is
    · rw [frame.thread j same] at is
      refine (owned.sound j other is).frame frame.server fun equal => same ?_
      exact owned.apart j i other job is running equal
  pending := by
    intro n
    have held := held_step frame.thread n
    have counts := balance n
    rw [owned.pending n] at counts
    rw [running] at held
    change s'.held n + job.refs n = _ at held
    omega
  numbered := numbered
  free := by
    intro x member
    rw [frame.server.total]
    rcases frame.server.lru with same | added
    · rw [same] at member
      exact owned.free x member
    · rw [added, List.mem_append, List.mem_singleton] at member
      rcases member with old | rfl
      · exact owned.free x old
      · exact (owned.sound i job running).known
  listed := by
    intro n x member
    rw [frame.server.total]
    by_cases same : x = job.x
    · rw [same]
      exact (owned.sound i job running).known
    · exact owned.listed n x ((frame.server.ccbList n x same).mp member)

/-- The invariant after a thread has taken up a request with the object `x`. -/
theorem Owned.of_alloc {i : ι} {x : Nat} {op : TxOp} {req : TxRequest} {stage : Stage}
    (owned : Owned s) (idle : s.thread i = none) (free : s.Idle x)
    (begun : stage.begun = false) (working : stage.working = false)
    (grouped : stage.grouped = false) (newGroup : stage.newGroup = none)
    (thread : s'.thread = Function.update s.thread i (some ⟨x, op, req, 0, 0, stage⟩))
    (tx : s'.server.tx = s.server.tx) (txg : s'.server.txg = s.server.txg)
    (openTxg : s'.server.openTxg = s.server.openTxg) (miTx : s'.server.miTx = s.server.miTx)
    (known : x < s'.server.total) (total : s.server.total ≤ s'.server.total)
    (lru : ∀ y ∈ s'.server.lru, y ∈ s.server.lru) : Owned s' := by
  have here : s'.thread i = some ⟨x, op, req, 0, 0, stage⟩ := by
    rw [thread, Function.update_self]
  have there : ∀ j, j ≠ i → s'.thread j = s.thread j := by
    intro j other
    rw [thread, Function.update_of_ne other]
  refine ⟨?_, ?_, ?_, ?_, fun y member => Nat.lt_of_lt_of_le (owned.free y (lru y member)) total,
    ?_⟩
  · intro j k first second one two same
    by_cases left : j = i
    · by_cases right : k = i
      · exact left.trans right.symm
      · rw [left, here] at one
        cases one
        rw [there k right] at two
        exact absurd same.symm (free k second two)
    · rw [there j left] at one
      by_cases right : k = i
      · rw [right, here] at two
        cases two
        exact absurd same (free j first one)
      · rw [there k right] at two
        exact owned.apart j k first second one two same
  · intro j job is
    by_cases same : j = i
    · rw [same, here] at is
      cases is
      refine ⟨known, ?_, ?_, ?_, ?_, fun n held => ?_⟩
      · exact fun has => absurd has (Bool.eq_false_iff.mp begun)
      · exact fun has => absurd has (Bool.eq_false_iff.mp begun)
      · exact fun has => absurd has (Bool.eq_false_iff.mp working)
      · exact fun has => absurd has (Bool.eq_false_iff.mp grouped)
      · simp [Job.refs, grouped, newGroup] at held
    · rw [there j same] at is
      have sound := owned.sound j job is
      exact {
        known := Nat.lt_of_lt_of_le sound.known total
        born := sound.born
        life := by rw [tx]; exact sound.life
        state := by rw [tx]; exact sound.state
        group := by rw [tx]; exact sound.group
        refs := by rw [openTxg]; exact sound.refs }
  · intro n
    have held := held_step there n
    rw [idle, here] at held
    simp only [jobRefs, Option.elim, Job.refs, grouped, newGroup] at held
    rw [txg, owned.pending n]
    simp at held
    omega
  · exact owned.numbered.of_same (fun y => by rw [tx]) miTx
  · intro n y member
    rw [txg] at member
    exact Nat.lt_of_lt_of_le (owned.listed n y member) total

omit [DecidableEq ι] in
/-- The invariant after a step of a commit thread, of the sweeper or of a search. -/
theorem Owned.of_elsewhere {s s' : TxSystem ι} (owned : Owned s) (thread : s'.thread = s.thread)
    (total : s'.server.total = s.server.total) (openTxg : s.server.openTxg ≤ s'.server.openTxg)
    (number : ∀ x, (s'.server.tx x).tx = (s.server.tx x).tx)
    (txg : ∀ x, (s'.server.tx x).txg = (s.server.tx x).txg)
    (state : ∀ x, (s.server.tx x).state = .processing → (s'.server.tx x).state = .processing)
    (miTx : s'.server.miTx = s.server.miTx)
    (pending : ∀ n, (s'.server.txg n).txPending = (s.server.txg n).txPending)
    (free : ∀ x ∈ s'.server.lru, x ∈ s.server.lru ∨ ∃ n, x ∈ (s.server.txg n).ccbList)
    (listed : ∀ n, ∀ x ∈ (s'.server.txg n).ccbList, x ∈ (s.server.txg n).ccbList) : Owned s' where
  apart := by rw [thread]; exact owned.apart
  sound := by
    intro i job is
    rw [thread] at is
    have sound := owned.sound i job is
    exact {
      known := by rw [total]; exact sound.known
      born := sound.born
      life := fun begun => (number job.x).trans (sound.life begun)
      state := fun working => state job.x (sound.state working)
      group := fun grouped => (txg job.x).trans (sound.group grouped)
      refs := fun n held => Nat.le_trans (sound.refs n held) openTxg }
  pending := by
    intro n
    rw [pending, owned.pending n, TxSystem.held, TxSystem.held, thread]
  numbered := owned.numbered.of_same number miTx
  free := by
    intro x member
    rw [total]
    rcases free x member with old | ⟨n, linked⟩
    · exact owned.free x old
    · exact owned.listed n x linked
  listed := by
    intro n x member
    rw [total]
    exact owned.listed n x (listed n x member)

omit [DecidableEq ι] in
/-- No thread holds a reference to a group that is not open yet. -/
theorem Owned.future (owned : Owned s) {n : Nat} (later : s.server.openTxg < n) : s.held n = 0 := by
  refine Finset.sum_eq_zero fun i _ => ?_
  cases running : s.thread i with
  | none => rfl
  | some job =>
    refine Nat.eq_zero_of_not_pos fun held => ?_
    have := (owned.sound i job running).refs n held
    omega

/-- The condition of this file: an object is taken from the free list when no thread is at work on
it and its `ccb` node is not linked. -/
def AllocsFree (s : TxSystem ι) : TxEvent ι → Prop
  | .alloc _ _ _ _ =>
    0 < s.server.ftx → ∀ x ∈ s.server.lru.head?, s.Idle x ∧ s.server.linked x = false
  | _ => True

/-- A thread in its handler goes on, and the server is changed in what the invariant does not read
of another object. -/
theorem Owned.of_handler {i : ι} {job : Job} {server : TxServer} {stage : Stage} (owned : Owned s)
    (running : s.thread i = some job) (at_ : job.stage = .handler)
    (grouped : stage.grouped = true) (newGroup : stage.newGroup = none)
    (frame : ServerFrame s.server server job.x)
    (number : ∀ y, (server.tx y).tx = (s.server.tx y).tx) (miTx : server.miTx = s.server.miTx)
    (state : (server.tx job.x).state = (s.server.tx job.x).state)
    (txg : (server.tx job.x).txg = (s.server.tx job.x).txg)
    (pending : ∀ n, (server.txg n).txPending = (s.server.txg n).txPending) :
    Owned (s.moved i job server stage) := by
  have sound := owned.sound i job running
  have moves : JobFrame s (s.moved i job server stage) i job :=
    .of_server frame (by rintro _ ⟨⟩; exact ⟨rfl, rfl⟩)
  refine owned.of_thread running moves (moved_forall ?_) (fun n => ?_)
    (owned.numbered.of_same number miTx)
  · refine sound.moved (congrArg Stage.begun at_) frame.total frame.openTxg (number job.x)
      (fun _ => state.trans (sound.state (congrArg Stage.working at_)))
      (fun _ => txg.trans (sound.group (congrArg Stage.grouped at_)))
      (Job.refs_le newGroup fun _ => congrArg Stage.grouped at_)
  · rw [moved_server, moved_thread_self, pending n]
    have wasGrouped : job.stage.grouped = true := congrArg Stage.grouped at_
    have noNew : job.stage.newGroup = none := congrArg Stage.newGroup at_
    simp only [jobRefs, Option.elim, Job.refs, grouped, newGroup, wasGrouped, noNew]

/-- `itb_dirty` gets the open group. -/
theorem Owned.reassign {i : ι} {job : Job} (owned : Owned s) (running : s.thread i = some job)
    (at_ : job.stage = .handler) :
    Owned (s.moved i job (txgGet s.server s.server.openTxg) (.putOld s.server.openTxg)) := by
  have sound := owned.sound i job running
  refine owned.of_thread running (.of_server (txgGet_frame _ _ _)
    (by rintro _ ⟨⟩; exact ⟨rfl, rfl⟩))
    (moved_forall ⟨sound.known, fun _ => sound.born (congrArg Stage.begun at_),
      fun _ => sound.life (congrArg Stage.begun at_),
      fun _ => sound.state (congrArg Stage.working at_),
      fun _ => sound.group (congrArg Stage.grouped at_), fun n held => ?_⟩) (fun n => ?_)
    (owned.numbered.of_same (fun _ => rfl) rfl)
  · by_cases new : s.server.openTxg = n
    · exact Nat.le_of_eq new.symm
    · refine sound.refs n ?_
      simpa [Job.refs, at_, Stage.grouped, Stage.newGroup, new] using held
  · rw [moved_server, moved_thread_self, txgGet_txPending]
    simp [jobRefs, Job.refs, at_, Stage.grouped, Stage.newGroup]
    omega

omit [DecidableEq ι] in
/-- The invariant does not read the rest of the system. -/
theorem Owned.unchanged {s s' : TxSystem ι} (owned : Owned s) (thread : s'.thread = s.thread)
    (total : s'.server.total = s.server.total) (openTxg : s'.server.openTxg = s.server.openTxg)
    (tx : s'.server.tx = s.server.tx) (txg : s'.server.txg = s.server.txg)
    (lru : s'.server.lru = s.server.lru) (miTx : s'.server.miTx = s.server.miTx) : Owned s' :=
  owned.of_elsewhere thread total (Nat.le_of_eq openTxg.symm) (fun x => by rw [tx])
    (fun x => by rw [tx]) (fun x same => by rw [tx]; exact same) miTx (fun n => by rw [txg])
    (fun x member => Or.inl (by rw [lru] at member; exact member))
    (fun n x member => by rw [txg] at member; exact member)

omit [DecidableEq ι] in
/-- A commit thread has marked a transaction that has ended. -/
theorem Owned.of_commited {s s' : TxSystem ι} {x : Nat} (owned : Owned s)
    (ended : ¬((s.server.tx x).state.rank < TxState.done.rank ∨
      TxState.acked.rank < (s.server.tx x).state.rank))
    (thread : s'.thread = s.thread) (server : s'.server = setState s.server x .commited) :
    Owned s' := by
  refine owned.of_elsewhere thread (by rw [server]; rfl) (by rw [server]; exact le_rfl)
    (fun y => by rw [server]; exact setState_number _ _ _ y) (fun y => ?_) (fun y same => ?_)
    (by rw [server]; rfl) (fun _ => by rw [server]; rfl)
    (fun y member => Or.inl (by rw [server] at member; exact member))
    (fun _ _ member => by rw [server] at member; exact member)
  · rw [server]
    simp only [setState, setTx, Function.update_apply]
    split
    · rename_i equal
      rw [equal]
    · rfl
  · rw [server]
    simp only [setState, setTx, Function.update_apply]
    split
    · rename_i equal
      rw [equal] at same
      exact absurd (Or.inl (by rw [same]; decide)) ended
    · exact same

omit [DecidableEq ι] in
/-- The count of the references to an object has changed. -/
theorem Owned.of_ref {s s' : TxSystem ι} {x : Nat} {ref : Int} (owned : Owned s)
    (thread : s'.thread = s.thread)
    (server : s'.server = setTx s.server x { s.server.tx x with ref := ref }) : Owned s' := by
  have same : ∀ y, (s'.server.tx y).tx = (s.server.tx y).tx ∧
      (s'.server.tx y).txg = (s.server.tx y).txg ∧
      (s'.server.tx y).state = (s.server.tx y).state := by
    intro y
    rw [server]
    simp only [setTx, Function.update_apply]
    split
    · rename_i equal
      rw [equal]
      exact ⟨rfl, rfl, rfl⟩
    · exact ⟨rfl, rfl, rfl⟩
  exact owned.of_elsewhere thread (by rw [server]; rfl) (by rw [server]; exact le_rfl)
    (fun y => (same y).1) (fun y => (same y).2.1) (fun y was => (same y).2.2.trans was)
    (by rw [server]; rfl) (fun _ => by rw [server]; rfl)
    (fun y member => Or.inl (by rw [server] at member; exact member))
    (fun _ _ member => by rw [server] at member; exact member)

/-- Every event that is allowed keeps the invariant. -/
theorem Owned.event {event : TxEvent ι} (owned : Owned s) (allowed : AllocsFree s event)
    (move : EventMove s event s') : Owned s' := by
  cases move with
  | take i op req memory x rest idle quiet free head =>
    have lru : ∀ y ∈ rest, y ∈ s.server.lru := by
      intro y member
      rw [head]
      exact List.mem_cons_of_mem x member
    have known : x < s.server.total := owned.free x (by rw [head]; exact List.mem_cons_self)
    have notWorked : s.Idle x := (allowed free x (by rw [head]; rfl)).1
    by_cases hashed : s.server.hashed x = true
    · simp only [hashed, if_true]
      exact owned.of_alloc idle notWorked rfl rfl rfl rfl rfl rfl rfl rfl rfl known le_rfl lru
    · simp only [hashed]
      exact owned.of_alloc idle notWorked rfl rfl rfl rfl rfl rfl rfl rfl rfl known le_rfl lru
  | grow i op req idle quiet used =>
    have notWorked : s.Idle s.server.total := by
      intro j job is same
      have := (owned.sound j job is).known
      omega
    exact owned.of_alloc idle notWorked rfl rfl rfl rfl rfl rfl rfl rfl rfl (Nat.lt_succ_self _)
      (Nat.le_succ _) fun _ member => member
  | noMemory i op req => exact owned
  | reassign i job running stage => exact owned.reassign running stage
  | reply i err rpy job running stage =>
    have number : ∀ y, ((setRpy s.server job.x rpy).tx y).tx = (s.server.tx y).tx :=
      setTx_number _ rfl
    refine owned.of_handler running stage ?_ ?_ ?_ number rfl ?_ ?_ fun _ => rfl
    · cases rpy <;> rfl
    · cases rpy <;> rfl
    · exact { setTx_frame s.server job.x _ with }
    · simp [setRpy, setTx]
    · simp [setRpy, setTx]
  | statfs i rpy job running stage =>
    have number : ∀ y, ((setRpy s.server job.x rpy).tx y).tx = (s.server.tx y).tx :=
      setTx_number _ rfl
    refine owned.of_handler running stage ?_ ?_ ?_ number rfl ?_ ?_ fun _ => rfl
    · cases rpy <;> rfl
    · cases rpy <;> rfl
    · exact { setTx_frame s.server job.x _ with }
    · simp [setRpy, setTx]
    · simp [setRpy, setTx]
  | drop i job running stage =>
    exact owned.of_handler running stage rfl rfl (ServerFrame.refl _ _) (fun _ => rfl) rfl rfl rfl
      fun _ => rfl
  | step i sends job s' running move =>
    have sound := owned.sound i job running
    exact owned.of_thread running move.frame (move.sound sound) (move.balance sound)
      (move.numbered owned.numbered)
  | overwrite i j job s' running stage move =>
    have sound := owned.sound i job running
    exact owned.of_thread running move.frame (move.sound sound) (move.balance sound)
      (move.numbered owned.numbered)
  | switch free =>
    refine owned.of_elsewhere rfl rfl (Nat.le_succ _) (fun _ => rfl) (fun _ => rfl)
      (fun _ same => same)
      rfl (fun n => ?_) (fun x member => Or.inl member) (fun n x member => ?_)
    · simp only [txgSwitch, setGroup, Function.update_apply]
      split
      · rename_i later
        rw [owned.pending n, owned.future (later ▸ Nat.lt_succ_self _)]
        rfl
      · rfl
    · simp only [txgSwitch, setGroup, Function.update_apply] at member
      split at member
      · cases member
      · exact member
  | commit n wb unused => exact owned.unchanged rfl rfl rfl rfl rfl rfl rfl
  | visitEnd n sends active list => exact owned.unchanged rfl rfl rfl rfl rfl rfl rfl
  | visitSkip n x sends rest active list skips => exact owned.unchanged rfl rfl rfl rfl rfl rfl rfl
  | visitNormal n x sends rest active list ended normal => exact owned.of_commited ended rfl rfl
  | visitOther n x sends rest active list ended other => exact owned.of_commited ended rfl rfl
  | callbackFree n x sends rest active list used quiet =>
    refine owned.of_elsewhere rfl rfl le_rfl (fun _ => rfl) (fun _ => rfl) (fun _ same => same) rfl
      (fun _ => rfl) (fun y member => ?_) (fun _ _ member => member)
    rcases List.mem_append.mp member with old | new
    · exact Or.inl old
    · rw [List.mem_singleton.mp new]
      exact Or.inr ⟨n, by rw [list]; exact List.mem_cons_self⟩
  | callbackDel n x sends rest active list =>
    refine owned.of_elsewhere rfl rfl le_rfl (fun _ => rfl) (fun _ => rfl) (fun _ same => same) rfl
      (fun m => ?_) (fun y member => Or.inl member) (fun m y member => ?_)
    · simp only [ccbDel, setGroup, Function.update_apply]
      split
      · rename_i same
        rw [same]
      · rfl
    · simp only [ccbDel, setGroup, Function.update_apply] at member
      split at member
      · rename_i same
        rw [same]
        exact List.mem_of_mem_erase member
      · exact member
  | sweep x quiet free hashed => exact owned.unchanged rfl rfl rfl rfl rfl rfl rfl
  | sweepStep x phase server next sweeping evicts =>
    obtain ⟨frame, tx, txg, lru, miTx⟩ := evictStep_frame evicts
    exact owned.unchanged rfl frame.total frame.openTxg tx txg lru miTx
  | search x hashed => exact owned.of_ref rfl rfl
  | put x held => exact owned.of_ref rfl rfl

omit [DecidableEq ι] in
theorem init_owned (ftx : Nat) : Owned (TxSystem.init ι ftx) where
  apart := fun _ _ _ _ is _ => nomatch is
  sound := fun _ _ is => nomatch is
  pending := fun n => by
    have nothing : (TxSystem.init ι ftx).held n = 0 := Finset.sum_eq_zero fun _ _ => rfl
    rw [nothing]
    rfl
  numbered := ⟨fun _ => le_rfl, fun _ _ _ positive => nomatch positive⟩
  free := fun _ member => List.mem_range.mp member
  listed := fun _ _ member => nomatch member

theorem run_owned {ftx : Nat} {events : List (TxEvent ι)}
    (allowed : Guarded txEvent AllocsFree (TxSystem.init ι ftx) events)
    (reached : run txEvent (TxSystem.init ι ftx) events = some s) : Owned s :=
  guarded_invariant Owned (fun _ _ _ owned here stepped => owned.event here (txEvent_move stepped))
    (init_owned ftx) allowed reached

/-! ### The result -/

/-- Every thread acts on the incarnation of the object that it was called for, a step of a thread
changes the state of no other object, the reference that a thread puts is the one it took, and a
group counts the references that are held. -/
structure ActsOnOwn (s : TxSystem ι) : Prop where
  incarnation : ∀ i job, s.thread i = some job → job.stage.begun = true →
    (s.server.tx job.x).tx = job.life
  state : ∀ i job sends s', s.thread i = some job → txEvent s (.step i sends) = some s' →
    ∀ y, (s'.server.tx y).state ≠ (s.server.tx y).state → y = job.x
  put : ∀ i job ending, s.thread i = some job → job.stage = .putTxg ending ∨ job.stage = .dropTxg →
    (s.server.tx job.x).txg = job.group
  pending : ∀ n, (s.server.txg n).txPending = s.held n

/-- As long as an object is taken from the free list only when no thread is at work on it and its
`ccb` node is not linked, the threads that finish act on their own incarnations, and each group
counts exactly the references to it. -/
theorem threads_act_on_own (ftx : Nat) (events : List (TxEvent ι)) (s : TxSystem ι)
    (allowed : Guarded txEvent AllocsFree (TxSystem.init ι ftx) events)
    (reached : run txEvent (TxSystem.init ι ftx) events = some s) : ActsOnOwn s := by
  have owned := run_owned allowed reached
  refine ⟨fun i job is => (owned.sound i job is).life, ?_, ?_, owned.pending⟩
  · intro i job sends s' running stepped y changed
    cases txEvent_move stepped with
    | step i sends job' s' same move =>
      obtain rfl := Option.some.inj (running.symm.trans same)
      by_contra other
      exact changed (by rw [move.frame.server.tx y other])
  · rintro i job ending running (stage | stage)
    · exact (owned.sound i job running).group (by rw [stage]; rfl)
    · exact (owned.sound i job running).group (by rw [stage]; rfl)

end Owned

/-- The events of a request up to its reply. -/
def upToReply (i : Bool) (op : TxOp) : List (TxEvent Bool) :=
  [.alloc i op ⟨1, 7⟩ true, .step i true, .step i true, .step i true, .reply i 0 true,
    .step i true]

/-- The events of a NOCOMMIT request to the end of `mds_tx_reply`. -/
def wholeRequest : List (TxEvent Bool) :=
  upToReply true .nocommit ++ [.step true true, .step true true, .step true true, .step true true,
    .step true true, .step true true, .step true true]

/-- The events of a NOCOMMIT request, and of a second thread that takes its object then. -/
def reusedRequest : List (TxEvent Bool) :=
  wholeRequest ++ [.alloc false .nocommit ⟨2, 7⟩ true, .step false true, .step false true,
    .step false true, .step false true, .step false true, .step false true]

/-- The invariant when an object serves its second request. -/
theorem threads_act_on_own_request :
    ∃ s, run txEvent (TxSystem.init Bool 1) reusedRequest = some s ∧
      s.thread false = some ⟨0, .nocommit, ⟨2, 7⟩, 2, 0, .handler⟩ ∧ ActsOnOwn s := by
  refine ⟨_, rfl, rfl, threads_act_on_own 1 reusedRequest _ ?_ rfl⟩
  refine .cons (fun _ x is => ?_) rfl (.cons trivial rfl (.cons trivial rfl (.cons trivial rfl
    (.cons trivial rfl (.cons trivial rfl (.cons trivial rfl (.cons trivial rfl (.cons trivial rfl
      (.cons trivial rfl (.cons trivial rfl (.cons trivial rfl (.cons trivial rfl
        (.cons (fun _ x is => ?_) rfl (.cons trivial rfl (.cons trivial rfl (.cons trivial rfl
          (.cons trivial rfl (.cons trivial rfl (.cons trivial rfl trivial)))))))))))))))))))
  · cases is
    exact ⟨fun _ _ job => (nomatch job), rfl⟩
  · cases is
    refine ⟨?_, rfl⟩
    rintro (_ | _) job running
    · cases running
    · cases running

/-- The events of a FORGET request whose object is taken by another thread before the first one has
put its group. -/
def recycledEarly : List (TxEvent Bool) :=
  upToReply true .forget ++ [.step true true, .step true true, .step true true, .switch,
    .alloc false .forget ⟨2, 7⟩ true, .step false true, .step false true, .step true true]

/-- A FORGET transaction is free before its thread has put its group: another thread takes the
object for a request in the next group, and the first one puts that. -/
theorem recycled_object_puts_other_group : ¬ ∀ (ftx : Nat) (events : List (TxEvent Bool))
    (s : TxSystem Bool), run txEvent (TxSystem.init Bool ftx) events = some s → ActsOnOwn s := by
  intro claim
  have acts := claim 1 recycledEarly _ rfl
  exact absurd (acts.pending 0) (by decide)

end Hvfs
