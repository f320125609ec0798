/-
This file follows the callback lists of the groups: which transactions are linked
and where, and that the list of a group does not change under its commit thread.
This holds along the runs in which `itb_dirty` leaves the NORMAL transactions in
their groups and none of them is dropped.
-/

import Hvfs.TxReplies
import Mathlib.Algebra.Order.BigOperators.Group.Finset

namespace Hvfs

open Transition

/-! ### What a stage says about the callback lists -/

/-- The transaction is not linked yet. -/
def Stage.unlinked : Stage → Bool
  | .evictOld _ | .init | .getTxg | .link => true
  | _ => false

/-- The transaction is linked, if it is NORMAL, and has not ended. -/
def Stage.open : Stage → Bool
  | .handler | .putOld _ | .setNew _ | .rewrite _ | .done _ => true
  | _ => false

/-- The level is the one that `mds_alloc_tx` was called with. -/
def Stage.levelled : Stage → Bool
  | .getTxg | .link | .handler | .putOld _ | .setNew _ | .rewrite _ => true
  | _ => false

/-- The transaction has begun and has not ended. -/
def Stage.unended : Stage → Bool
  | .getTxg | .link | .handler | .putOld _ | .setNew _ | .rewrite _ | .done _ => true
  | _ => false

/-- The object of a thread is linked where the stage of the thread says. -/
structure JobLinked (s : TxServer) (ended : List (Nat × Nat)) (job : Job) : Prop where
  unlinked : job.stage.unlinked = true → ∀ n, job.x ∉ (s.txg n).ccbList
  other : job.op ≠ .normal → ∀ n, job.x ∉ (s.txg n).ccbList
  linked : job.stage.open = true → (s.tx job.x).op = .normal →
    job.x ∈ (s.txg (s.tx job.x).txg).ccbList
  level : job.stage.levelled = true → (s.tx job.x).op = job.op
  newGroup : ∀ nt, job.stage.newGroup = some nt → job.op = .normal → nt = job.group
  oldGroup : ∀ nt, job.stage = .setNew nt → (s.tx job.x).txg = job.group
  unended : job.stage.unended = true → job.life ∉ ended.map Prod.fst
  dropped : job.stage.dropping = true → job.op ≠ .normal

/-- A transaction in the callback list of its group. -/
structure MemberSound (s : TxServer) (ended : List (Nat × Nat)) (n x : Nat) : Prop where
  known : n ≤ s.openTxg
  txg : (s.tx x).txg = n
  number : 0 < (s.tx x).tx
  used : (s.tx x).state ≠ .fresh
  ended : (s.tx x).op = .normal → (s.tx x).state ≠ .processing → ((s.tx x).tx, n) ∈ ended

/-- Two transactions agree in what this file is about. -/
structure Alike (after before : Tx) : Prop where
  op : after.op = before.op
  tx : after.tx = before.tx
  txg : after.txg = before.txg
  state : after.state = before.state

theorem Alike.refl (tx : Tx) : Alike tx tx := ⟨rfl, rfl, rfl, rfl⟩

theorem MemberSound.of_alike {s after : TxServer} {ended : List (Nat × Nat)} {n x : Nat}
    (member : MemberSound s ended n x) (openTxg : after.openTxg = s.openTxg)
    (alike : Alike (after.tx x) (s.tx x)) : MemberSound after ended n x where
  known := by rw [openTxg]; exact member.known
  txg := alike.txg.trans member.txg
  number := by rw [alike.tx]; exact member.number
  used := by rw [alike.state]; exact member.used
  ended := by rw [alike.op, alike.tx, alike.state]; exact member.ended

section Job

variable {ι : Type} [DecidableEq ι] {s s' : TxSystem ι} {i : ι} {job : Job} {sends lost : Bool}

/-- Only `mds_tx_fix_ccb` links a transaction. -/
theorem JobMove.ccbList (move : JobMove s i job sends lost s') (n : Nat) :
    (s'.server.txg n).ccbList = (s.server.txg n).ccbList ∨
      (job.stage = .link ∧ job.op = .normal ∧ n = (s.server.tx job.x).txg ∧
        (s'.server.txg n).ccbList = (s.server.txg n).ccbList ++ [job.x]) := by
  have group : ∀ m (txg : Txg), txg.ccbList = (s.server.txg m).ccbList →
      ((setGroup s.server m txg).txg n).ccbList = (s.server.txg n).ccbList := by
    intro m txg same
    simp only [setGroup, Function.update_apply]
    split
    · rename_i here
      rw [here, same]
    · rfl
  cases move with
  | evictOld phase next server stage evicts =>
    exact Or.inl (by rw [moved_server, (evictStep_frame evicts).2.2.1])
  | evictedOld phase server stage evicts =>
    exact Or.inl (by rw [moved_server, (evictStep_frame evicts).2.2.1])
  | getTxg stage => exact Or.inl (group _ _ rfl)
  | link stage =>
    by_cases normal : (if lost then .forget else job.op) = TxOp.normal
    · cases lost with
      | true => cases normal
      | false =>
        by_cases here : n = (s.server.tx job.x).txg
        · right
          refine ⟨stage, normal, here, ?_⟩
          simp only [moved_server, fixCcb, if_pos normal, here, setGroup, Function.update_self]
          rfl
        · left
          simp [fixCcb, setGroup, mdsTxcAdd, here]
    · left
      simp only [moved_server, fixCcb, if_neg normal]
      exact group _ _ rfl
  | putOld nt stage => exact Or.inl (group _ _ rfl)
  | rewrite err stage =>
    left
    simp only [moved_server]
    split <;> rfl
  | putTxg ending stage => exact Or.inl (group _ _ rfl)
  | evictDrop phase next server stage evicts =>
    exact Or.inl (by rw [moved_server, (evictStep_frame evicts).2.2.1])
  | evictedDrop phase server stage evicts =>
    exact Or.inl (by rw [moved_server, (evictStep_frame evicts).2.2.1])
  | dropTxg stage => exact Or.inl (group _ _ rfl)
  | _ => exact Or.inl rfl

/-- Only `mds_tx_done` ends a transaction. -/
theorem JobMove.ended (move : JobMove s i job sends lost s') :
    s'.ended = s.ended ∨ ((∃ ending, job.stage = .done ending) ∧
      (s.server.tx job.x).op = .normal ∧ (s'.server.tx job.x).op = .normal ∧
      (s'.server.tx job.x).state = .done ∧
      s'.ended = s.ended ++ [((s.server.tx job.x).tx, (s.server.tx job.x).txg)]) := by
  cases move with
  | done ending stage state =>
    by_cases normal : (s.server.tx job.x).op = .normal
    · right
      refine ⟨⟨ending, stage⟩, normal, ?_, ?_, if_pos normal⟩
      · simpa [setState, setTx] using normal
      · simp [setState, setTx]
    · exact Or.inl (if_neg normal)
  | _ => exact Or.inl rfl

/-- A thread takes references to the open group only. -/
theorem JobMove.refs (move : JobMove s i job sends lost s') {n : Nat} (closed : n ≠ s.server.openTxg)
    (none : job.refs n = 0) : jobRefs (s'.thread i) n = 0 := by
  have fewer : ∀ {before stage : Stage}, job.stage = before → stage.newGroup = .none →
      (stage.grouped = true → before.grouped = true) →
      jobRefs (Function.update s.thread i (some { job with stage := stage }) i) n = 0 := by
    intro before stage at_ newGroup grouped
    rw [Function.update_self]
    exact Nat.eq_zero_of_le_zero (none ▸ Job.refs_le newGroup (by rw [at_]; exact grouped) n)
  have gone : jobRefs (Function.update s.thread i .none i) n = 0 := by
    rw [Function.update_self]
    rfl
  cases move with
  | evictOld phase next server stage evicts => exact fewer stage rfl (by rintro ⟨⟩)
  | evictedOld phase server stage evicts => exact fewer stage rfl (by rintro ⟨⟩)
  | init stage =>
    rw [moved_thread_self]
    exact Job.refs_none rfl rfl _ n
  | getTxg stage =>
    rw [moved_thread_self]
    exact (Job.refs_grouped rfl rfl _ n).trans (if_neg (Ne.symm closed))
  | link stage => exact fewer stage rfl fun _ => rfl
  | putOld nt stage =>
    rw [moved_thread_self]
    simp only [Job.refs, stage, Stage.newGroup, Nat.add_eq_zero_iff] at none
    simpa [jobRefs, Job.refs, Stage.grouped, Stage.newGroup] using none.2
  | setNew nt stage =>
    rw [moved_thread_self]
    simp only [Job.refs, stage, Stage.newGroup, Nat.add_eq_zero_iff] at none
    simpa [jobRefs, Job.refs, Stage.grouped, Stage.newGroup] using none.2
  | rewrite err stage => exact fewer stage rfl fun _ => rfl
  | done ending stage state => exact fewer stage rfl fun _ => rfl
  | doneInvalid ending stage state => cases ending <;> exact fewer stage rfl (by rintro ⟨⟩)
  | putRef ending stage => exact fewer stage rfl fun _ => rfl
  | freeForget ending stage op quiet => exact fewer stage rfl fun _ => rfl
  | keep ending stage op => exact fewer stage rfl fun _ => rfl
  | putTxg ending stage => cases ending <;> exact fewer stage rfl (by rintro ⟨⟩)
  | send stage => exact fewer stage rfl (by rintro ⟨⟩)
  | acked stage state => exact fewer stage rfl (by rintro ⟨⟩)
  | commited stage state => exact gone
  | setAcked stage => exact fewer stage rfl (by rintro ⟨⟩)
  | freeNocommit stage op quiet => exact gone
  | leave stage op => exact gone
  | dropMark stage free => exact fewer stage rfl fun _ => rfl
  | evictDrop phase next server stage evicts => exact fewer stage rfl fun _ => rfl
  | evictedDrop phase server stage evicts => exact fewer stage rfl fun _ => rfl
  | dropRef stage => exact fewer stage rfl fun _ => rfl
  | dropTxg stage => exact fewer stage rfl (by rintro ⟨⟩)
  | dropFree stage quiet => exact gone

omit [DecidableEq ι] in
/-- A stage at which the transaction has ended. -/
theorem JobLinked.of_ended {server : TxServer} {ended : List (Nat × Nat)} {after : Job}
    (unlinked : after.stage.unlinked = false) (opened : after.stage.open = false)
    (other : after.op ≠ .normal → ∀ n, after.x ∉ (server.txg n).ccbList)
    (dropped : after.stage.dropping = true → after.op ≠ .normal) :
    JobLinked server ended after := by
  have levelled : after.stage.levelled = false := by
    cases stage : after.stage <;> rw [stage] at opened unlinked <;>
      first | rfl | (cases opened; done) | cases unlinked
  have newGroup : after.stage.newGroup = none := by
    cases stage : after.stage <;> rw [stage] at opened <;> first | rfl | cases opened
  have unended : after.stage.unended = false := by
    cases stage : after.stage <;> rw [stage] at opened unlinked <;>
      first | rfl | (cases opened; done) | cases unlinked
  refine ⟨?_, other, ?_, ?_, ?_, ?_, ?_, dropped⟩
  · exact fun has => absurd has (Bool.eq_false_iff.mp unlinked)
  · exact fun has => absurd has (Bool.eq_false_iff.mp opened)
  · exact fun has => absurd has (Bool.eq_false_iff.mp levelled)
  · intro nt has
    rw [newGroup] at has
    cases has
  · intro nt has
    rw [has] at opened
    cases opened
  · exact fun has => absurd has (Bool.eq_false_iff.mp unended)

/-- A step of a thread keeps what its stage says about the callback lists. -/
theorem JobMove.linked (move : JobMove s i job sends false s') (sound : JobSound s.server job)
    (kept : JobLinked s.server s.ended job) (bound : ∀ p ∈ s.ended, p.1 ≤ s.server.miTx) :
    ∀ after, s'.thread i = some after → JobLinked s'.server s'.ended after := by
  have left : ∀ (server : TxServer) after, (s.finished i server).thread i = some after →
      JobLinked server s.ended after := by
    intro server after is
    rw [finished_thread_self] at is
    cases is
  have unlinked : job.stage.unlinked = true → job.stage ≠ .link →
      ∀ n, job.x ∉ (s'.server.txg n).ccbList := by
    intro has linking n
    rcases move.ccbList n with same | ⟨stage, -⟩
    · rw [same]
      exact kept.unlinked has n
    · exact absurd stage linking
  have other : job.op ≠ .normal → ∀ n, job.x ∉ (s'.server.txg n).ccbList := by
    intro other n
    rcases move.ccbList n with same | ⟨-, normal, -⟩
    · rw [same]
      exact kept.other other n
    · exact absurd normal other
  have lists : job.stage ≠ .link → ∀ n, (s'.server.txg n).ccbList = (s.server.txg n).ccbList :=
    fun linking n => (move.ccbList n).resolve_right fun added => linking added.1
  cases move with
  | evictOld phase next server stage evicts =>
    exact moved_forall ⟨fun _ => unlinked (by rw [stage]; rfl) (by rw [stage]; rintro ⟨⟩), other,
      (by rintro ⟨⟩), (by rintro ⟨⟩), (by rintro _ ⟨⟩), (by rintro _ ⟨⟩),
      (by rintro ⟨⟩), (by rintro ⟨⟩)⟩
  | evictedOld phase server stage evicts =>
    exact moved_forall ⟨fun _ => unlinked (by rw [stage]; rfl) (by rw [stage]; rintro ⟨⟩), other,
      (by rintro ⟨⟩), (by rintro ⟨⟩), (by rintro _ ⟨⟩), (by rintro _ ⟨⟩),
      (by rintro ⟨⟩), (by rintro ⟨⟩)⟩
  | init stage =>
    refine moved_forall ⟨fun _ => unlinked (by rw [stage]; rfl) (by rw [stage]; rintro ⟨⟩), other,
      (by rintro ⟨⟩), fun _ => ?_, (by rintro _ ⟨⟩), (by rintro _ ⟨⟩),
      fun _ member => ?_, (by rintro ⟨⟩)⟩
    · simp [initFields, setTx]
    · obtain ⟨p, isEnded, same⟩ := List.mem_map.mp member
      have := bound p isEnded
      simp only at same
      omega
  | getTxg stage =>
    exact moved_forall ⟨fun _ => unlinked (by rw [stage]; rfl) (by rw [stage]; rintro ⟨⟩), other,
      (by rintro ⟨⟩), fun _ => (op_of_setTx rfl).trans (kept.level (by rw [stage]; rfl)),
      (by rintro _ ⟨⟩), (by rintro _ ⟨⟩),
      fun _ => kept.unended (by rw [stage]; rfl), (by rintro ⟨⟩)⟩
  | link stage =>
    have level := kept.level (by rw [stage]; rfl)
    refine moved_forall ⟨(by rintro ⟨⟩), other, fun _ normal => ?_, fun _ => level,
      (by rintro _ ⟨⟩), (by rintro _ ⟨⟩),
      fun _ => kept.unended (by rw [stage]; rfl), (by rintro ⟨⟩)⟩
    have given : job.op = .normal := level.symm.trans normal
    change job.x ∈ ((fixCcb _ (s.server.tx job.x).txg _ _).txg (s.server.tx job.x).txg).ccbList
    simp [fixCcb, setGroup, given]
  | putOld nt stage =>
    have same := lists (by rw [stage]; rintro ⟨⟩)
    refine moved_forall ⟨(by rintro ⟨⟩), other, fun _ normal => ?_, fun _ => kept.level
      (by rw [stage]; rfl),
      ?_, fun _ _ => sound.group (by rw [stage]; rfl),
      fun _ => kept.unended (by rw [stage]; rfl), (by rintro ⟨⟩)⟩
    · rw [same]
      exact kept.linked (by rw [stage]; rfl) normal
    · intro nt' is normal
      exact kept.newGroup nt' (by rw [stage]; exact is) normal
  | setNew nt stage =>
    have level := kept.level (by rw [stage]; rfl)
    refine moved_forall ⟨(by rintro ⟨⟩), other, fun _ normal => ?_,
      fun _ => (op_of_setTx rfl).trans level, (by rintro _ ⟨⟩), (by rintro _ ⟨⟩),
      fun _ => kept.unended (by rw [stage]; rfl), (by rintro ⟨⟩)⟩
    have was : (s.server.tx job.x).op = .normal := by simpa [setTxg, setTx] using normal
    have group := kept.newGroup nt (by rw [stage]; rfl) (level.symm.trans was)
    have here := kept.linked (by rw [stage]; rfl) was
    rw [kept.oldGroup nt stage, ← group] at here
    simpa [setTxg, setTx] using here
  | rewrite err stage =>
    refine moved_forall ⟨(by rintro ⟨⟩), other, fun _ normal => ?_, (by rintro ⟨⟩),
      (by rintro _ ⟨⟩), (by rintro _ ⟨⟩),
      fun _ => kept.unended (by rw [stage]; rfl), (by rintro ⟨⟩)⟩
    by_cases success : err = 0
    · simp only [moved_server, if_pos success] at normal ⊢
      exact kept.linked (by rw [stage]; rfl) normal
    · simp [success, setOp, setTx] at normal
  | done ending stage state => exact moved_forall (.of_ended rfl rfl other (by rintro ⟨⟩))
  | doneInvalid ending stage state =>
    exact absurd (sound.state (congrArg Stage.working stage)) state
  | putRef ending stage => exact moved_forall (.of_ended rfl rfl other (by rintro ⟨⟩))
  | freeForget ending stage op quiet => exact moved_forall (.of_ended rfl rfl other (by rintro ⟨⟩))
  | keep ending stage op => exact moved_forall (.of_ended rfl rfl other (by rintro ⟨⟩))
  | putTxg ending stage =>
    cases ending <;> exact moved_forall (.of_ended rfl rfl other (by rintro ⟨⟩))
  | send stage => exact moved_forall (.of_ended rfl rfl other (by rintro ⟨⟩))
  | acked stage state => exact moved_forall (.of_ended rfl rfl other (by rintro ⟨⟩))
  | setAcked stage => exact moved_forall (.of_ended rfl rfl other (by rintro ⟨⟩))
  | commited stage state => exact left _
  | freeNocommit stage op quiet => exact left _
  | leave stage op => exact left _
  | dropFree stage quiet => exact left _
  | dropMark stage free =>
    exact moved_forall (.of_ended rfl rfl other fun _ => kept.dropped (by rw [stage]; rfl))
  | evictDrop phase next server stage evicts =>
    exact moved_forall (.of_ended rfl rfl other fun _ => kept.dropped (by rw [stage]; rfl))
  | evictedDrop phase server stage evicts =>
    exact moved_forall (.of_ended rfl rfl other fun _ => kept.dropped (by rw [stage]; rfl))
  | dropRef stage =>
    exact moved_forall (.of_ended rfl rfl other fun _ => kept.dropped (by rw [stage]; rfl))
  | dropTxg stage =>
    exact moved_forall (.of_ended rfl rfl other fun _ => kept.dropped (by rw [stage]; rfl))

/-- A step of a thread keeps what holds of its object as a member of a callback list. -/
theorem JobMove.member (move : JobMove s i job sends false s') (sound : JobSound s.server job)
    (kept : JobLinked s.server s.ended job)
    (before : ∀ n, job.x ∈ (s.server.txg n).ccbList → MemberSound s.server s.ended n job.x ∧
      ((s.server.tx job.x).state = .processing → job.stage.open = true))
    {n : Nat} (here : job.x ∈ (s'.server.txg n).ccbList) :
    MemberSound s'.server s'.ended n job.x ∧ ((s'.server.tx job.x).state = .processing →
      ∃ after, s'.thread i = some after ∧ after.stage.open = true) := by
  have was : job.stage ≠ .link → job.x ∈ (s.server.txg n).ccbList := by
    intro linking
    rw [(move.ccbList n).resolve_right fun added => linking added.1] at here
    exact here
  have absent : job.stage.unlinked = true → job.stage ≠ .link → False :=
    fun unlinked linking => kept.unlinked unlinked n (was linking)
  have kind : job.stage ≠ .link → job.op = .normal :=
    fun linking => not_not.mp fun other => kept.other other n (was linking)
  have gone : job.stage.dropping = true → False := by
    intro dropping
    have linking : job.stage ≠ .link := by
      intro stage
      rw [stage] at dropping
      cases dropping
    exact kept.dropped dropping (kind linking)
  have keeps : job.stage ≠ .link → s'.ended = s.ended →
      s'.server.openTxg = s.server.openTxg →
      Alike (s'.server.tx job.x) (s.server.tx job.x) →
      (job.stage.open = true → ∃ after, s'.thread i = some after ∧ after.stage.open = true) →
      MemberSound s'.server s'.ended n job.x ∧ ((s'.server.tx job.x).state = .processing →
        ∃ after, s'.thread i = some after ∧ after.stage.open = true) := by
    intro linking ended openTxg alike opens
    obtain ⟨member, working⟩ := before n (was linking)
    rw [ended]
    exact ⟨member.of_alike openTxg alike, fun state => opens
      (working (alike.state.symm.trans state))⟩
  have closed : job.stage.open = false → job.stage.open = true →
      ∃ after, s'.thread i = some after ∧ after.stage.open = true :=
    fun no yes => absurd yes (Bool.eq_false_iff.mp no)
  cases move with
  | evictOld phase next server stage evicts =>
    exact (absent (by rw [stage]; rfl) (by rw [stage]; rintro ⟨⟩)).elim
  | evictedOld phase server stage evicts =>
    exact (absent (by rw [stage]; rfl) (by rw [stage]; rintro ⟨⟩)).elim
  | init stage => exact (absent (by rw [stage]; rfl) (by rw [stage]; rintro ⟨⟩)).elim
  | getTxg stage => exact (absent (by rw [stage]; rfl) (by rw [stage]; rintro ⟨⟩)).elim
  | link stage =>
    have state := sound.state (by rw [stage]; rfl)
    have life := sound.life (by rw [stage]; rfl)
    have group := sound.group (by rw [stage]; rfl)
    obtain rfl : n = (s.server.tx job.x).txg := by
      by_contra elsewhere
      refine kept.unlinked (by rw [stage]; rfl) n ?_
      simpa [fixCcb, setGroup, mdsTxcAdd, elsewhere] using here
    refine ⟨⟨?_, rfl, ?_, ?_, fun _ ends => absurd state ends⟩,
      fun _ => ⟨_, moved_thread_self _ _, rfl⟩⟩
    · refine sound.refs _ ?_
      simp [Job.refs, stage, Stage.grouped, Stage.newGroup, group]
    · change 0 < (s.server.tx job.x).tx
      rw [life]
      exact sound.born (by rw [stage]; rfl)
    · change (s.server.tx job.x).state ≠ .fresh
      rw [state]
      rintro ⟨⟩
  | putOld nt stage =>
    exact keeps (by rw [stage]; rintro ⟨⟩) rfl rfl (.refl _)
      fun _ => ⟨_, moved_thread_self _ _, rfl⟩
  | setNew nt stage =>
    have linking : job.stage ≠ .link := by rw [stage]; rintro ⟨⟩
    refine keeps linking rfl rfl ⟨?_, ?_, ?_, ?_⟩ fun _ => ⟨_, moved_thread_self _ _, rfl⟩
    · simp [setTxg, setTx]
    · simp [setTxg, setTx]
    · have group := kept.newGroup nt (by rw [stage]; rfl) (kind linking)
      simp [setTxg, setTx, group, kept.oldGroup nt stage]
    · simp [setTxg, setTx]
  | rewrite err stage =>
    obtain ⟨member, -⟩ := before n (was (by rw [stage]; rintro ⟨⟩))
    have state := sound.state (by rw [stage]; rfl)
    refine ⟨?_, fun _ => ⟨_, Function.update_self i _ s.thread, rfl⟩⟩
    by_cases success : err = 0
    · simp only [moved_server, if_pos success]
      exact member
    · simp only [moved_server, if_neg success]
      refine ⟨member.known, ?_, ?_, ?_, fun normal => ?_⟩
      · simpa [setOp, setTx] using member.txg
      · simpa [setOp, setTx] using member.number
      · simpa [setOp, setTx] using member.used
      · simp [setOp, setTx] at normal
  | done ending stage state =>
    obtain ⟨member, -⟩ := before n (was (by rw [stage]; rintro ⟨⟩))
    refine ⟨⟨member.known, ?_, ?_, ?_, fun normal _ => ?_⟩, fun processing => ?_⟩
    · simpa [setState, setTx] using member.txg
    · simpa [setState, setTx] using member.number
    · simp [setState, setTx]
    · have level : (s.server.tx job.x).op = .normal := by simpa [setState, setTx] using normal
      rw [if_pos level]
      refine List.mem_append_right _ (List.mem_singleton.mpr ?_)
      simp [setState, setTx, member.txg]
    · simp [setState, setTx] at processing
  | doneInvalid ending stage state =>
    exact absurd (sound.state (congrArg Stage.working stage)) state
  | putRef ending stage =>
    refine keeps (by rw [stage]; rintro ⟨⟩) rfl rfl ?_ (closed (by rw [stage]; rfl))
    exact ⟨by simp [mdsPutTx, setTx], by simp [mdsPutTx, setTx], by simp [mdsPutTx, setTx],
      by simp [mdsPutTx, setTx]⟩
  | freeForget ending stage op quiet =>
    exact keeps (by rw [stage]; rintro ⟨⟩) rfl rfl (.refl _) (closed (by rw [stage]; rfl))
  | keep ending stage op =>
    exact keeps (by rw [stage]; rintro ⟨⟩) rfl rfl (.refl _) (closed (by rw [stage]; rfl))
  | putTxg ending stage =>
    exact keeps (by rw [stage]; rintro ⟨⟩) rfl rfl (.refl _) (closed (by rw [stage]; rfl))
  | send stage =>
    exact keeps (by rw [stage]; rintro ⟨⟩) rfl rfl (.refl _) (closed (by rw [stage]; rfl))
  | acked stage state =>
    exact keeps (by rw [stage]; rintro ⟨⟩) rfl rfl (.refl _) (closed (by rw [stage]; rfl))
  | commited stage state =>
    exact keeps (by rw [stage]; rintro ⟨⟩) rfl rfl (.refl _) (closed (by rw [stage]; rfl))
  | setAcked stage =>
    obtain ⟨member, working⟩ := before n (was (by rw [stage]; rintro ⟨⟩))
    have ended : (s.server.tx job.x).state ≠ .processing := by
      intro processing
      have := working processing
      rw [stage] at this
      cases this
    refine ⟨⟨member.known, ?_, ?_, ?_, fun normal _ => ?_⟩, fun processing => ?_⟩
    · simpa [setState, setTx] using member.txg
    · simpa [setState, setTx] using member.number
    · simp [setState, setTx]
    · have level : (s.server.tx job.x).op = .normal := by simpa [setState, setTx] using normal
      simpa [setState, setTx, TxSystem.moved, TxSystem.setJob] using member.ended level ended
    · simp [setState, setTx] at processing
  | freeNocommit stage op quiet =>
    exact keeps (by rw [stage]; rintro ⟨⟩) rfl rfl (.refl _) (closed (by rw [stage]; rfl))
  | leave stage op =>
    exact keeps (by rw [stage]; rintro ⟨⟩) rfl rfl (.refl _) (closed (by rw [stage]; rfl))
  | dropFree stage quiet => exact (gone (by rw [stage]; rfl)).elim
  | dropMark stage free => exact (gone (by rw [stage]; rfl)).elim
  | evictDrop phase next server stage evicts => exact (gone (by rw [stage]; rfl)).elim
  | evictedDrop phase server stage evicts => exact (gone (by rw [stage]; rfl)).elim
  | dropRef stage => exact (gone (by rw [stage]; rfl)).elim
  | dropTxg stage => exact (gone (by rw [stage]; rfl)).elim

/-- No step of a thread makes another transaction NORMAL than `mds_alloc_tx`. -/
theorem JobMove.op_normal (move : JobMove s i job sends lost s') (begun : job.stage ≠ .init)
    (normal : (s'.server.tx job.x).op = .normal) : (s.server.tx job.x).op = .normal := by
  cases move with
  | init stage => exact absurd stage begun
  | evictOld phase next server stage evicts =>
    rw [moved_server, (evictStep_frame evicts).2.1] at normal
    exact normal
  | evictedOld phase server stage evicts =>
    rw [moved_server, (evictStep_frame evicts).2.1] at normal
    exact normal
  | getTxg stage => simpa [setTxg, setTx, txgGet, setGroup] using normal
  | setNew nt stage => simpa [setTxg, setTx] using normal
  | rewrite err stage =>
    by_cases success : err = 0
    · simpa [success] using normal
    · simp [success, setOp, setTx] at normal
  | done ending stage state => simpa [setState, setTx] using normal
  | putRef ending stage => simpa [mdsPutTx, setTx] using normal
  | setAcked stage => simpa [setState, setTx] using normal
  | dropMark stage free => simpa [setState, setTx] using normal
  | evictDrop phase next server stage evicts =>
    rw [moved_server, (evictStep_frame evicts).2.1] at normal
    exact normal
  | evictedDrop phase server stage evicts =>
    rw [moved_server, (evictStep_frame evicts).2.1] at normal
    exact normal
  | dropRef stage => simpa [mdsPutTx, setTx] using normal
  | _ => exact normal

/-- No step of a thread commits a transaction. -/
theorem JobMove.commited_before (move : JobMove s i job sends lost s')
    (commited : (s'.server.tx job.x).state = .commited) :
    (s.server.tx job.x).state = .commited := by
  cases move with
  | init stage => simp [initFields, setTx] at commited
  | evictOld phase next server stage evicts =>
    rw [moved_server, (evictStep_frame evicts).2.1] at commited
    exact commited
  | evictedOld phase server stage evicts =>
    rw [moved_server, (evictStep_frame evicts).2.1] at commited
    exact commited
  | getTxg stage => simpa [setTxg, setTx, txgGet, setGroup] using commited
  | setNew nt stage => simpa [setTxg, setTx] using commited
  | rewrite err stage =>
    by_cases success : err = 0
    · simpa [success] using commited
    · simpa [success, setOp, setTx] using commited
  | done ending stage state => simp [setState, setTx] at commited
  | putRef ending stage => simpa [mdsPutTx, setTx] using commited
  | setAcked stage => simp [setState, setTx] at commited
  | dropMark stage free => simp [setState, setTx] at commited
  | evictDrop phase next server stage evicts =>
    rw [moved_server, (evictStep_frame evicts).2.1] at commited
    exact commited
  | evictedDrop phase server stage evicts =>
    rw [moved_server, (evictStep_frame evicts).2.1] at commited
    exact commited
  | dropRef stage => simpa [mdsPutTx, setTx] using commited
  | _ => exact commited

/-- The NORMAL transaction is over and has not been committed. -/
def Tx.Over (tx : Tx) : Prop := tx.op = .normal ∧ (tx.state = .done ∨ tx.state = .acked)

/-- A transaction that is over and in a callback list stays so. -/
theorem JobMove.over_after (move : JobMove s i job sends lost s') (sound : JobSound s.server job)
    (linked : job.stage.unlinked = false) (kept : job.stage.dropping = false)
    (past : (s.server.tx job.x).Over) : (s'.server.tx job.x).Over := by
  have ended : job.stage.working = true → False := by
    intro working
    obtain ⟨-, state⟩ := past
    rw [sound.state working] at state
    rcases state with is | is <;> cases is
  cases move with
  | evictOld phase next server stage evicts => rw [stage] at linked; cases linked
  | evictedOld phase server stage evicts => rw [stage] at linked; cases linked
  | init stage => rw [stage] at linked; cases linked
  | getTxg stage => rw [stage] at linked; cases linked
  | setNew nt stage => exact (ended (by rw [stage]; rfl)).elim
  | rewrite err stage => exact (ended (by rw [stage]; rfl)).elim
  | done ending stage state => exact (ended (by rw [stage]; rfl)).elim
  | putRef ending stage => simpa [Tx.Over, mdsPutTx, setTx] using past
  | setAcked stage => simpa [Tx.Over, setState, setTx] using past.1
  | dropMark stage free => rw [stage] at kept; cases kept
  | evictDrop phase next server stage evicts => rw [stage] at kept; cases kept
  | evictedDrop phase server stage evicts => rw [stage] at kept; cases kept
  | dropRef stage => rw [stage] at kept; cases kept
  | _ => exact past

end Job

/-! ### Groups that are written back -/

section Groups

variable {ι : Type}

/-- The group has been written back: its commit thread is behind the wait. -/
def TxSystem.WrittenBack (s : TxSystem ι) (n : Nat) : Prop :=
  n < s.server.openTxg ∧ s.server.wbTxg ≠ some n

variable [Fintype ι]

/-- A thread holds no reference to a group that is written back, whose commit thread goes through
the callback list and then leaves an empty one. -/
structure Drained (s : TxSystem ι) : Prop where
  wb : ∀ n, s.server.wbTxg = some n → n + 1 = s.server.openTxg
  held : ∀ n, s.WrittenBack n → s.held n = 0
  active : ∀ n, s.callback n ≠ none → s.WrittenBack n
  empty : ∀ n, s.WrittenBack n → s.callback n = none → (s.server.txg n).ccbList = []

variable {s s' : TxSystem ι}

theorem jobRefs_le_held (s : TxSystem ι) (i : ι) (n : Nat) : jobRefs (s.thread i) n ≤ s.held n :=
  Finset.single_le_sum (f := fun i => jobRefs (s.thread i) n) (fun _ _ => Nat.zero_le _)
    (Finset.mem_univ i)

/-- The thread of a written back group's member is not at work on it. -/
theorem Drained.refs (drained : Drained s) {n : Nat} (back : s.WrittenBack n) (i : ι) :
    jobRefs (s.thread i) n = 0 :=
  Nat.eq_zero_of_le_zero (drained.held n back ▸ jobRefs_le_held s i n)

variable [DecidableEq ι]

/-- The invariant after a step of one thread, which takes references to the open group only. -/
theorem Drained.of_thread {i : ι} (drained : Drained s)
    (others : ∀ j, j ≠ i → s'.thread j = s.thread j)
    (refs : ∀ n, n ≠ s.server.openTxg → jobRefs (s.thread i) n = 0 → jobRefs (s'.thread i) n = 0)
    (openTxg : s'.server.openTxg = s.server.openTxg) (wbTxg : s'.server.wbTxg = s.server.wbTxg)
    (callback : s'.callback = s.callback)
    (lists : ∀ n, jobRefs (s.thread i) n = 0 → (s.server.txg n).ccbList = [] →
      (s'.server.txg n).ccbList = []) : Drained s' := by
  have same : ∀ n, s'.WrittenBack n ↔ s.WrittenBack n := by
    intro n
    rw [TxSystem.WrittenBack, TxSystem.WrittenBack, openTxg, wbTxg]
  refine ⟨by rw [openTxg, wbTxg]; exact drained.wb, fun n back => ?_, ?_, fun n back idle => ?_⟩
  · have before := (same n).mp back
    have none := drained.refs before i
    have step := held_step others n
    rw [refs n (Nat.ne_of_lt before.1) none, none, drained.held n before] at step
    exact step
  · intro n active
    rw [callback] at active
    exact (same n).mpr (drained.active n active)
  · rw [callback] at idle
    have before := (same n).mp back
    exact lists n (drained.refs before i) (drained.empty n before idle)

omit [DecidableEq ι] in
/-- The invariant after a step that leaves the threads and the groups. -/
theorem Drained.of_elsewhere (drained : Drained s) (thread : s'.thread = s.thread)
    (openTxg : s'.server.openTxg = s.server.openTxg) (wbTxg : s'.server.wbTxg = s.server.wbTxg)
    (callback : ∀ n, s'.callback n = s.callback n ∨
      s.callback n ≠ none ∧ (s'.callback n = none → (s'.server.txg n).ccbList = []))
    (lists : ∀ n, (s.server.txg n).ccbList = [] → (s'.server.txg n).ccbList = []) :
    Drained s' := by
  have same : ∀ n, s'.WrittenBack n ↔ s.WrittenBack n := by
    intro n
    rw [TxSystem.WrittenBack, TxSystem.WrittenBack, openTxg, wbTxg]
  refine ⟨by rw [openTxg, wbTxg]; exact drained.wb, fun n back => ?_, fun n active => ?_,
    fun n back idle => ?_⟩
  · rw [TxSystem.held, thread]
    exact drained.held n ((same n).mp back)
  · rw [same]
    rcases callback n with kept | ⟨was, -⟩
    · rw [kept] at active
      exact drained.active n active
    · exact drained.active n was
  · rcases callback n with kept | ⟨-, drains⟩
    · rw [kept] at idle
      exact lists n (drained.empty n ((same n).mp back) idle)
    · exact drains idle

/-- The invariant after a step of a thread, which links its object to a group that it references. -/
theorem Drained.of_move {i : ι} {job : Job} {sends lost : Bool} (drained : Drained s)
    (owned : Owned s) (running : s.thread i = some job) (move : JobMove s i job sends lost s') :
    Drained s' := by
  refine drained.of_thread (i := i) move.frame.thread (fun n closed none => ?_)
    move.frame.server.openTxg move.frame.server.wbTxg move.frame.callback fun n none list => ?_
  · rw [running] at none
    exact move.refs closed none
  · rcases move.ccbList n with same | ⟨stage, -, here, -⟩
    · rw [same]
      exact list
    · rw [running] at none
      have group := (owned.sound i job running).group (by rw [stage]; rfl)
      simp [jobRefs, Job.refs, stage, Stage.grouped, here, group] at none

/-- Every event keeps the invariant. -/
theorem Drained.event {event : TxEvent ι} (drained : Drained s) (owned : Owned s)
    (move : EventMove s event s') : Drained s' := by
  -- a thread in its handler goes on
  have handler : ∀ {i : ι} {job : Job} {server : TxServer} {stage : Stage},
      s.thread i = some job → job.stage = .handler →
      stage.newGroup = none → server.openTxg = s.server.openTxg →
      server.wbTxg = s.server.wbTxg → server.txg = s.server.txg →
      Drained (s.moved i job server stage) := by
    intro i job server stage running at_ newGroup openTxg wbTxg txg
    refine drained.of_thread (i := i) (fun j other => Function.update_of_ne other _ _)
      (fun n _ none => ?_) openTxg wbTxg rfl fun n _ list => by rw [moved_server, txg]; exact list
    rw [running] at none
    rw [moved_thread_self]
    exact Nat.eq_zero_of_le_zero (Nat.le_trans
      (Job.refs_le newGroup (fun _ => congrArg Stage.grouped at_) n) (Nat.le_of_eq none))
  -- a thread takes up a request
  have alloc : ∀ {i : ι} {server : TxServer} {job : Job}, job.stage.grouped = false →
      job.stage.newGroup = none → server.openTxg = s.server.openTxg →
      server.wbTxg = s.server.wbTxg → server.txg = s.server.txg →
      Drained { s.setJob i (some job) with server := server } := by
    intro i server job grouped newGroup openTxg wbTxg txg
    refine drained.of_thread (i := i) (fun j other => Function.update_of_ne other _ _)
      (fun n _ _ => ?_) openTxg wbTxg rfl fun n _ list => by simpa [txg] using list
    change jobRefs (Function.update s.thread i (some job) i) n = 0
    rw [Function.update_self]
    simp [jobRefs, Job.refs, grouped, newGroup]
  have quiet : ∀ {server : TxServer} {sent : List (Nat × Nat)} {n : Nat} {next : Callback},
      s.callback n ≠ none → server.openTxg = s.server.openTxg →
      server.wbTxg = s.server.wbTxg →
      (∀ m, (s.server.txg m).ccbList = [] → (server.txg m).ccbList = []) →
      Drained { s with
        server := server
        callback := Function.update s.callback n (some next)
        sent := sent } := by
    intro server sent n next active openTxg wbTxg lists
    refine drained.of_elsewhere rfl openTxg wbTxg (fun m => ?_) lists
    by_cases here : m = n
    · subst here
      exact Or.inr ⟨active, fun is => by simp at is⟩
    · exact Or.inl (Function.update_of_ne here _ _)
  cases move with
  | take i op req memory x rest idle quiet free head =>
    refine alloc ?_ ?_ rfl rfl rfl <;> by_cases hashed : s.server.hashed x <;>
      simp [hashed, Stage.grouped, Stage.newGroup]
  | grow i op req idle quiet used => exact alloc rfl rfl rfl rfl rfl
  | noMemory i op req => exact drained
  | reassign i job running stage =>
    refine drained.of_thread (i := i) (fun j other => Function.update_of_ne other _ _)
      (fun n closed none => ?_) rfl rfl rfl fun n _ list => ?_
    · rw [running] at none
      rw [moved_thread_self]
      simp only [jobRefs, Option.elim, Job.refs, stage, Stage.grouped, Stage.newGroup] at none ⊢
      simpa [Ne.symm closed] using none
    · simp only [moved_server, txgGet, setGroup, Function.update_apply]
      split
      · rename_i here
        rw [← here]
        exact list
      · exact list
  | reply i err rpy job running stage =>
    exact handler running stage (by cases rpy <;> rfl) rfl rfl rfl
  | statfs i rpy job running stage => exact handler running stage (by cases rpy <;> rfl) rfl rfl rfl
  | drop i job running stage => exact handler running stage rfl rfl rfl rfl
  | step i sends job s' running move => exact drained.of_move owned running move
  | overwrite i j job s' running stage move => exact drained.of_move owned running move
  | switch free =>
    -- the group that was open is in write-back now; the others stay as they were
    have before : ∀ n, ({ s with server := txgSwitch s.server } : TxSystem ι).WrittenBack n →
        s.WrittenBack n ∧ (((txgSwitch s.server).txg n).ccbList = (s.server.txg n).ccbList) := by
      rintro n ⟨earlier, other⟩
      simp only [txgSwitch, setGroup] at earlier other ⊢
      rw [Function.update_of_ne (by omega)]
      exact ⟨⟨Nat.lt_of_le_of_ne (Nat.le_of_lt_succ earlier) fun same => other (by rw [same]),
        by rw [free]; rintro ⟨⟩⟩, rfl⟩
    refine ⟨fun n is => ?_, fun n back => drained.held n (before n back).1, fun n active => ?_,
      fun n back idle => ?_⟩
    · cases is
      rfl
    · have back := drained.active n active
      refine ⟨Nat.lt_succ_of_lt back.1, fun same => ?_⟩
      have : s.server.openTxg = n := Option.some.inj same
      exact absurd back.1 (by omega)
    · rw [(before n back).2]
      exact drained.empty n (before n back).1 idle
  | commit n wb unused =>
    have opened := drained.wb n wb
    have before : ∀ m, m ≠ n → m < s.server.openTxg → s.WrittenBack m := by
      intro m other earlier
      exact ⟨earlier, by rw [wb]; exact fun same => other (Option.some.inj same).symm⟩
    refine ⟨(by rintro _ ⟨⟩), fun m back => ?_, fun m active => ?_, fun m back idle => ?_⟩
    · change s.held m = 0
      by_cases here : m = n
      · have pending := owned.pending n
        rw [unused] at pending
        rw [here]
        exact (Int.ofNat_eq_zero.mp pending.symm)
      · exact drained.held m (before m here back.1)
    · by_cases here : m = n
      · exact ⟨by rw [here, ← opened]; exact Nat.lt_succ_self n, (by rintro ⟨⟩)⟩
      · simp only [Function.update_of_ne here] at active
        exact ⟨(drained.active m active).1, (by rintro ⟨⟩)⟩
    · by_cases here : m = n
      · simp [here] at idle
      · simp only [Function.update_of_ne here] at idle
        exact drained.empty m (before m here back.1) idle
  | visitEnd n sends active list =>
    refine drained.of_elsewhere rfl rfl rfl (fun m => ?_) fun _ empty => empty
    by_cases here : m = n
    · subst here
      exact Or.inr ⟨by rw [active]; rintro ⟨⟩, fun _ => list⟩
    · exact Or.inl (Function.update_of_ne here _ _)
  | visitSkip n x sends rest active list skips =>
    exact quiet (by rw [active]; rintro ⟨⟩) rfl rfl fun _ list => list
  | visitNormal n x sends rest active list ended normal =>
    exact quiet (by rw [active]; rintro ⟨⟩) rfl rfl fun _ list => list
  | visitOther n x sends rest active list ended other =>
    exact quiet (by rw [active]; rintro ⟨⟩) rfl rfl fun _ list => list
  | callbackFree n x sends rest active list used quiet' =>
    exact quiet (by rw [active]; rintro ⟨⟩) rfl rfl fun _ list => list
  | callbackDel n x sends rest active list =>
    refine quiet (by rw [active]; rintro ⟨⟩) rfl rfl fun m empty => ?_
    simp only [ccbDel, setGroup, Function.update_apply]
    split
    · rename_i here
      rw [← here, empty]
      rfl
    · exact empty
  | sweep x quiet free hashed =>
    exact drained.of_elsewhere rfl rfl rfl (fun _ => Or.inl rfl) fun _ list => list
  | sweepStep x phase server next sweeping evicts =>
    obtain ⟨frame, -, txg, -, -⟩ := evictStep_frame evicts
    exact drained.of_elsewhere rfl frame.openTxg frame.wbTxg (fun _ => Or.inl rfl) fun _ list => by
      simpa [txg] using list
  | search x hashed =>
    exact drained.of_elsewhere rfl rfl rfl (fun _ => Or.inl rfl) fun _ list => list
  | put x held => exact drained.of_elsewhere rfl rfl rfl (fun _ => Or.inl rfl) fun _ list => list

end Groups

/-! ### The callback lists -/

section Lists

variable {ι : Type}

/-- A thread is at work on the linked object. -/
def TxSystem.Handled (s : TxSystem ι) (x : Nat) : Prop :=
  ∃ i job, s.thread i = some job ∧ job.x = x ∧ job.stage.open = true

/-- Every thread is linked where its stage says, every member of a callback list belongs there, and
a transaction ends once. -/
structure Linked (s : TxSystem ι) : Prop where
  job : ∀ i job, s.thread i = some job → JobLinked s.server s.ended job
  member : ∀ n, ∀ x ∈ (s.server.txg n).ccbList, MemberSound s.server s.ended n x
  working : ∀ n, ∀ x ∈ (s.server.txg n).ccbList, (s.server.tx x).state = .processing → s.Handled x
  nodup : ∀ n, (s.server.txg n).ccbList.Nodup
  bound : ∀ p ∈ s.ended, p.1 ≤ s.server.miTx
  single : (s.ended.map Prod.fst).Nodup

variable {s s' : TxSystem ι}

theorem Stage.begun_of_unended {stage : Stage} (unended : stage.unended = true) :
    stage.begun = true := by
  cases stage <;> first | rfl | cases unended

/-- What the callback lists say of a thread whose object is not changed. -/
theorem JobLinked.frame {server after : TxServer} {ended more : List (Nat × Nat)} {job : Job}
    (kept : JobLinked server ended job) (alike : Alike (after.tx job.x) (server.tx job.x))
    (lists : ∀ n, job.x ∈ (after.txg n).ccbList → job.x ∈ (server.txg n).ccbList)
    (member : job.stage.open = true → (server.tx job.x).op = .normal →
      job.x ∈ (server.txg (server.tx job.x).txg).ccbList →
      job.x ∈ (after.txg (server.tx job.x).txg).ccbList)
    (unended : job.stage.unended = true → job.life ∉ more.map Prod.fst) :
    JobLinked after more job where
  unlinked := fun has n here => kept.unlinked has n (lists n here)
  other := fun other n here => kept.other other n (lists n here)
  linked := by
    rw [alike.op, alike.txg]
    exact fun opened normal => member opened normal (kept.linked opened normal)
  level := by rw [alike.op]; exact kept.level
  newGroup := kept.newGroup
  oldGroup := by rw [alike.txg]; exact kept.oldGroup
  unended := unended
  dropped := kept.dropped

variable [DecidableEq ι] [Fintype ι]

/-- The invariant after a step of one thread. -/
theorem Linked.of_thread {i : ι} {job : Job} (linked : Linked s) (owned : Owned s)
    (running : s.thread i = some job) (frame : JobFrame s s' i job)
    (after : ∀ after, s'.thread i = some after → JobLinked s'.server s'.ended after)
    (member : ∀ n, job.x ∈ (s'.server.txg n).ccbList → MemberSound s'.server s'.ended n job.x ∧
      ((s'.server.tx job.x).state = .processing →
        ∃ after, s'.thread i = some after ∧ after.stage.open = true))
    (nodup : ∀ n, (s'.server.txg n).ccbList.Nodup) (miTx : s.server.miTx ≤ s'.server.miTx)
    (ended : s'.ended = s.ended ∨ job.stage.unended = true ∧
      s'.ended = s.ended ++ [((s.server.tx job.x).tx, (s.server.tx job.x).txg)]) : Linked s' := by
  have more : ∀ p ∈ s.ended, p ∈ s'.ended := by
    intro p member
    rcases ended with same | ⟨-, added⟩
    · rw [same]
      exact member
    · rw [added]
      exact List.mem_append_left _ member
  refine ⟨fun j other is => ?_, fun n x here => ?_, fun n x here processing => ?_, nodup, ?_, ?_⟩
  · by_cases same : j = i
    · subst same
      exact after other is
    · rw [frame.thread j same] at is
      have apart : other.x ≠ job.x := fun equal =>
        same (owned.apart j i other job is running equal)
      have kept := linked.job j other is
      have alike : Alike (s'.server.tx other.x) (s.server.tx other.x) := by
        rw [frame.server.tx _ apart]
        exact .refl _
      refine kept.frame alike (fun n => (frame.server.ccbList n _ apart).mp)
        (fun _ _ => (frame.server.ccbList _ _ apart).mpr) fun unended isEnded => ?_
      rcases ended with same' | ⟨working, added⟩
      · rw [same'] at isEnded
        exact kept.unended unended isEnded
      · rw [added, List.map_append, List.mem_append] at isEnded
        rcases isEnded with old | new
        · exact kept.unended unended old
        · have sound := owned.sound j other is
          have begun := Stage.begun_of_unended unended
          have number := sound.life begun
          have equal : other.life = (s.server.tx job.x).tx := List.mem_singleton.mp new
          exact apart (owned.numbered.unique _ _ (number.trans equal)
            (by rw [number]; exact sound.born begun))
  · by_cases same : x = job.x
    · subst same
      exact (member n here).1
    · have old := linked.member n x ((frame.server.ccbList n x same).mp here)
      have alike : Alike (s'.server.tx x) (s.server.tx x) := by
        rw [frame.server.tx x same]
        exact .refl _
      have kept := old.of_alike frame.server.openTxg alike
      exact ⟨kept.known, kept.txg, kept.number, kept.used,
        fun normal past => more _ (kept.ended normal past)⟩
  · by_cases same : x = job.x
    · subst same
      obtain ⟨next, is, opened⟩ := (member n here).2 processing
      exact ⟨i, next, is, (frame.same next is).1, opened⟩
    · rw [frame.server.tx x same] at processing
      obtain ⟨j, other, is, equal, opened⟩ :=
        linked.working n x ((frame.server.ccbList n x same).mp here) processing
      refine ⟨j, other, ?_, equal, opened⟩
      rw [frame.thread j fun here => same ?_]
      · exact is
      · subst here
        obtain rfl := Option.some.inj (running.symm.trans is)
        exact equal.symm
  · intro p member
    rcases ended with same | ⟨-, added⟩
    · rw [same] at member
      exact Nat.le_trans (linked.bound p member) miTx
    · rw [added, List.mem_append, List.mem_singleton] at member
      rcases member with old | rfl
      · exact Nat.le_trans (linked.bound p old) miTx
      · exact Nat.le_trans (owned.numbered.bound job.x) miTx
  · rcases ended with same | ⟨unended, added⟩
    · rw [same]
      exact linked.single
    · rw [added, List.map_append]
      refine List.Nodup.append linked.single (List.nodup_singleton _)
        (List.disjoint_singleton.mpr ?_)
      rw [(owned.sound i job running).life (Stage.begun_of_unended unended)]
      exact (linked.job i job running).unended unended

omit [DecidableEq ι] [Fintype ι] in
/-- The invariant after a step that leaves the threads, and takes no object of a working thread out
of its list. -/
theorem Linked.of_elsewhere (linked : Linked s) (thread : s'.thread = s.thread)
    (ended : s'.ended = s.ended) (miTx : s'.server.miTx = s.server.miTx)
    (openTxg : s.server.openTxg ≤ s'.server.openTxg)
    (op : ∀ x, (s'.server.tx x).op = (s.server.tx x).op)
    (number : ∀ x, (s'.server.tx x).tx = (s.server.tx x).tx)
    (txg : ∀ x, (s'.server.tx x).txg = (s.server.tx x).txg)
    (state : ∀ x, (s'.server.tx x).state = (s.server.tx x).state ∨
      (s'.server.tx x).state = .commited ∧ (s.server.tx x).state ≠ .processing)
    (lists : ∀ n, (s'.server.txg n).ccbList.Sublist (s.server.txg n).ccbList)
    (member : ∀ i job, s.thread i = some job → job.stage.open = true →
      (s.server.tx job.x).op = .normal →
      job.x ∈ (s.server.txg (s.server.tx job.x).txg).ccbList →
      job.x ∈ (s'.server.txg (s.server.tx job.x).txg).ccbList) : Linked s' where
  job := by
    intro i job is
    rw [thread] at is
    have kept := linked.job i job is
    rw [ended]
    refine ⟨fun has n here => kept.unlinked has n ((lists n).subset here),
      fun other n here => kept.other other n ((lists n).subset here), ?_, ?_, kept.newGroup, ?_,
      kept.unended, kept.dropped⟩
    · rw [op, txg]
      exact fun opened normal => member i job is opened normal (kept.linked opened normal)
    · rw [op]
      exact kept.level
    · rw [txg]
      exact kept.oldGroup
  member := by
    intro n x here
    have old := linked.member n x ((lists n).subset here)
    refine ⟨Nat.le_trans old.known openTxg, (txg x).trans old.txg, by rw [number]; exact old.number,
      ?_, ?_⟩
    · rcases state x with same | ⟨commited, -⟩
      · rw [same]
        exact old.used
      · rw [commited]
        nofun
    · rw [op, number, ended]
      rcases state x with same | ⟨-, past⟩
      · rw [same]
        exact old.ended
      · exact fun normal _ => old.ended normal past
  working := by
    intro n x here processing
    rcases state x with same | ⟨commited, -⟩
    · rw [same] at processing
      obtain ⟨i, job, is, rest⟩ := linked.working n x ((lists n).subset here) processing
      exact ⟨i, job, by rw [thread]; exact is, rest⟩
    · rw [commited] at processing
      cases processing
  nodup := fun n => (linked.nodup n).sublist (lists n)
  bound := by rw [ended, miTx]; exact linked.bound
  single := by rw [ended]; exact linked.single

omit [Fintype ι] in
/-- The invariant after a thread has taken up a request with an object that is not linked. -/
theorem Linked.of_alloc {i : ι} {job : Job} (linked : Linked s) (idle : s.thread i = none)
    (starts : job.stage = .init ∨ job.stage = .evictOld .waiting)
    (free : ∀ n, job.x ∉ (s.server.txg n).ccbList)
    (thread : s'.thread = Function.update s.thread i (some job))
    (tx : s'.server.tx = s.server.tx) (txg : s'.server.txg = s.server.txg)
    (openTxg : s'.server.openTxg = s.server.openTxg) (ended : s'.ended = s.ended)
    (miTx : s'.server.miTx = s.server.miTx) : Linked s' where
  job := by
    intro j other is
    rw [ended]
    by_cases same : j = i
    · rw [same, thread, Function.update_self] at is
      cases is
      have begins : job.stage.open = false ∧ job.stage.levelled = false ∧
          job.stage.unended = false ∧ job.stage.newGroup = none ∧ job.stage.dropping = false := by
        rcases starts with stage | stage <;> rw [stage] <;> exact ⟨rfl, rfl, rfl, rfl, rfl⟩
      obtain ⟨opened, levelled, unended, newGroup, dropping⟩ := begins
      refine ⟨fun _ => by rw [txg]; exact free, fun _ => by rw [txg]; exact free,
        ?_, ?_, ?_, ?_, ?_, ?_⟩
      · exact fun has => absurd has (Bool.eq_false_iff.mp opened)
      · exact fun has => absurd has (Bool.eq_false_iff.mp levelled)
      · intro nt has
        rw [newGroup] at has
        cases has
      · intro nt has
        rw [has] at opened
        cases opened
      · exact fun has => absurd has (Bool.eq_false_iff.mp unended)
      · exact fun has => absurd has (Bool.eq_false_iff.mp dropping)
    · rw [thread, Function.update_of_ne same] at is
      have kept := linked.job j other is
      exact kept.frame (by rw [tx]; exact .refl _) (fun n here => by rw [txg] at here; exact here)
        (fun _ _ here => by rw [txg]; exact here) kept.unended
  member := by
    intro n x here
    rw [txg] at here
    rw [ended]
    exact (linked.member n x here).of_alike openTxg (by rw [tx]; exact .refl _)
  working := by
    intro n x here processing
    rw [txg] at here
    rw [tx] at processing
    obtain ⟨j, other, is, rest⟩ := linked.working n x here processing
    refine ⟨j, other, ?_, rest⟩
    rw [thread, Function.update_of_ne fun same => ?_]
    · exact is
    · rw [same, idle] at is
      cases is
  nodup := by rw [txg]; exact linked.nodup
  bound := by rw [ended, miTx]; exact linked.bound
  single := by rw [ended]; exact linked.single

/-- A thread in its handler goes on. -/
theorem Linked.of_handler {i : ι} {job : Job} {server : TxServer} {stage : Stage}
    (linked : Linked s) (owned : Owned s) (running : s.thread i = some job)
    (at_ : job.stage = .handler) (frame : ServerFrame s.server server job.x)
    (alike : Alike (server.tx job.x) (s.server.tx job.x))
    (lists : ∀ n, (server.txg n).ccbList = (s.server.txg n).ccbList)
    (miTx : server.miTx = s.server.miTx) (linkedStill : stage.unlinked = false)
    (newGroup : ∀ nt, stage.newGroup = some nt → job.op = .normal → nt = job.group)
    (setting : ∀ nt, stage ≠ .setNew nt) (goesOn : stage.open = true ∨ job.op ≠ .normal)
    (dropped : stage.dropping = true → job.op ≠ .normal) :
    Linked (s.moved i job server stage) := by
  have kept := linked.job i job running
  refine linked.of_thread owned running (.of_server frame (by rintro _ ⟨⟩; exact ⟨rfl, rfl⟩))
    (moved_forall ⟨fun has => absurd has (Bool.eq_false_iff.mp linkedStill), fun other n => ?_,
      fun _ normal => ?_, fun _ => alike.op.trans (kept.level (by rw [at_]; rfl)), newGroup,
      fun nt has => absurd has (setting nt), fun _ => kept.unended (by rw [at_]; rfl), dropped⟩)
    (fun n here => ?_) (fun n => ?_) (Nat.le_of_eq miTx.symm) (Or.inl rfl)
  · rw [moved_server, lists]
    exact kept.other other n
  · rw [moved_server, alike.op] at normal
    rw [moved_server, alike.txg, lists]
    exact kept.linked (by rw [at_]; rfl) normal
  · rw [moved_server, lists] at here
    refine ⟨(linked.member n job.x here).of_alike frame.openTxg alike, fun _ => ?_⟩
    refine ⟨_, moved_thread_self _ _, goesOn.resolve_right fun other => ?_⟩
    exact kept.other other n here
  · rw [moved_server, lists]
    exact linked.nodup n

/-- The condition of this file on the groups and the replies: no insertion into a callback list is
written over, `itb_dirty` gets no other group for a NORMAL transaction, and no NORMAL transaction is
dropped. -/
def StaysInGroup (s : TxSystem ι) : TxEvent ι → Prop
  | .overwrite _ _ => False
  | .reassign i => ∀ job ∈ s.thread i, (s.server.tx job.x).op = .normal →
    s.server.openTxg = job.group
  | .reply i _ rpy => ∀ job ∈ s.thread i, (s.server.tx job.x).op = .normal → rpy = true
  | .statfs i rpy => ∀ job ∈ s.thread i, (s.server.tx job.x).op = .normal → rpy = true
  | .drop i => ∀ job ∈ s.thread i, (s.server.tx job.x).op ≠ .normal
  | _ => True

omit [DecidableEq ι] [Fintype ι] in
/-- Every callback list belongs to a group that was open once. -/
theorem Linked.nowhere (linked : Linked s) {x : Nat} (free : s.server.linked x = false) (n : Nat) :
    x ∉ (s.server.txg n).ccbList := by
  intro here
  have known := (linked.member n x here).known
  rw [TxServer.linked, List.any_eq_false] at free
  exact free n (List.mem_range.mpr (Nat.lt_succ_of_le known)) (decide_eq_true here)

omit [DecidableEq ι] [Fintype ι] in
/-- The group that `txg_switch` opens had no callback list. -/
theorem Linked.lists_of_switch (linked : Linked s) (n : Nat) :
    ((txgSwitch s.server).txg n).ccbList = (s.server.txg n).ccbList := by
  simp only [txgSwitch, setGroup, Function.update_apply]
  split
  · rename_i new
    refine (List.eq_nil_iff_forall_not_mem.mpr fun x here => ?_).symm
    have := (linked.member n x here).known
    omega
  · rfl

omit [DecidableEq ι] in
/-- The thread of a member of a callback list references the group of the list. -/
theorem Linked.refs (linked : Linked s) (owned : Owned s) {n : Nat} {i : ι} {job : Job}
    (running : s.thread i = some job) (opened : job.stage.open = true)
    (here : job.x ∈ (s.server.txg n).ccbList) : 0 < jobRefs (s.thread i) n := by
  have sound := owned.sound i job running
  have kept := linked.job i job running
  have txg := (linked.member n job.x here).txg
  have normal : job.op = .normal := not_not.mp fun other => kept.other other n here
  rw [running]
  change 0 < job.refs n
  cases stage : job.stage with
  | setNew nt =>
    have new := kept.newGroup nt (by rw [stage]; rfl) normal
    have old := kept.oldGroup nt stage
    rw [← old, txg] at new
    simp [Job.refs, stage, Stage.grouped, Stage.newGroup, new]
  | handler | putOld nt | rewrite err | done ending =>
    have group := sound.group (by rw [stage]; rfl)
    rw [txg] at group
    simp [Job.refs, stage, Stage.grouped, group]
  | _ =>
    rw [stage] at opened
    cases opened

omit [DecidableEq ι] [Fintype ι] in
/-- The invariant after a commit thread has assigned the last state. -/
theorem Linked.of_commited {x : Nat} (linked : Linked s) (thread : s'.thread = s.thread)
    (ended : s'.ended = s.ended) (server : s'.server = setState s.server x .commited)
    (past : ¬((s.server.tx x).state.rank < TxState.done.rank ∨
      TxState.acked.rank < (s.server.tx x).state.rank)) : Linked s' := by
  have same : ∀ y, (s'.server.tx y).op = (s.server.tx y).op ∧
      (s'.server.tx y).txg = (s.server.tx y).txg ∧
      ((s'.server.tx y).state = (s.server.tx y).state ∨
        (s'.server.tx y).state = .commited ∧ (s.server.tx y).state ≠ .processing) := by
    intro y
    rw [server]
    simp only [setState, setTx, Function.update_apply]
    split
    · rename_i equal
      rw [equal]
      refine ⟨rfl, rfl, Or.inr ⟨rfl, fun processing => past (Or.inl ?_)⟩⟩
      rw [processing]
      decide
    · exact ⟨rfl, rfl, Or.inl rfl⟩
  refine linked.of_elsewhere thread ended (by rw [server]; rfl) (by rw [server]; exact le_rfl)
    (fun y => (same y).1) (fun y => by rw [server]; exact setState_number _ _ _ y)
    (fun y => (same y).2.1) (fun y => (same y).2.2) (fun n => ?_) fun _ _ _ _ _ here => ?_
  · rw [server]
    exact .refl _
  · rw [server]
    exact here

omit [DecidableEq ι] [Fintype ι] in
/-- The count of the references to an object has changed. -/
theorem Linked.of_ref {x : Nat} {ref : Int} (linked : Linked s) (thread : s'.thread = s.thread)
    (ended : s'.ended = s.ended)
    (server : s'.server = setTx s.server x { s.server.tx x with ref := ref }) : Linked s' := by
  have same : ∀ y, Alike (s'.server.tx y) (s.server.tx y) := by
    intro y
    rw [server]
    simp only [setTx, Function.update_apply]
    split
    · rename_i equal
      rw [equal]
      exact ⟨rfl, rfl, rfl, rfl⟩
    · exact .refl _
  refine linked.of_elsewhere thread ended (by rw [server]; rfl) (by rw [server]; exact le_rfl)
    (fun y => (same y).op) (fun y => (same y).tx) (fun y => (same y).txg)
    (fun y => Or.inl (same y).state) (fun n => ?_) fun _ _ _ _ _ here => ?_
  · rw [server]
    exact .refl _
  · rw [server]
    exact here

/-- Every event that is allowed keeps the invariant. -/
theorem Linked.event {event : TxEvent ι} (linked : Linked s) (owned : Owned s) (drained : Drained s)
    (alloc : AllocsFree s event) (stays : StaysInGroup s event) (move : EventMove s event s') :
    Linked s' := by
  -- a step that changes neither the transactions nor the groups
  have elsewhere : ∀ {after : TxSystem ι}, after.thread = s.thread → after.ended = s.ended →
      after.server.miTx = s.server.miTx → after.server.openTxg = s.server.openTxg →
      after.server.tx = s.server.tx → after.server.txg = s.server.txg → Linked after := by
    intro after thread ended miTx openTxg tx txg
    exact linked.of_elsewhere thread ended miTx (Nat.le_of_eq openTxg.symm) (fun x => by rw [tx])
      (fun x => by rw [tx]) (fun x => by rw [tx]) (fun x => Or.inl (by rw [tx]))
      (fun n => by rw [txg]) fun _ _ _ _ _ here => by rw [txg]; exact here
  cases move with
  | take i op req memory x rest idle quiet free head =>
    have nowhere := linked.nowhere (alloc free x (by rw [head]; rfl)).2
    refine linked.of_alloc idle ?_ nowhere rfl rfl rfl rfl rfl rfl
    by_cases hashed : s.server.hashed x = true
    · exact Or.inr (if_pos hashed)
    · exact Or.inl (if_neg hashed)
  | grow i op req idle quiet used =>
    refine linked.of_alloc idle (Or.inl rfl) (fun n here => ?_) rfl rfl rfl rfl rfl rfl
    exact Nat.lt_irrefl _ (owned.listed n _ here)
  | noMemory i op req => exact linked
  | reassign i job running stage =>
    have level := (linked.job i job running).level (by rw [stage]; rfl)
    refine linked.of_handler owned running stage (txgGet_frame _ _ _) (.refl _)
      (fun n => ?_) rfl rfl
      (fun nt is normal => ?_) (by rintro _ ⟨⟩) (Or.inl rfl) (by rintro ⟨⟩)
    · simp only [txgGet, setGroup, Function.update_apply]
      split
      · rename_i here
        rw [here]
      · rfl
    · rw [← Option.some.inj is]
      exact stays job running (level.trans normal)
  | reply i err rpy job running stage =>
    have level := (linked.job i job running).level (by rw [stage]; rfl)
    have alike : Alike ((setRpy s.server job.x rpy).tx job.x) (s.server.tx job.x) := by
      constructor <;> simp [setRpy, setTx]
    refine linked.of_handler owned running stage { setTx_frame s.server job.x _ with } alike
      (fun _ => rfl) rfl ?_ ?_ ?_ ?_ ?_
    · cases rpy <;> rfl
    · cases rpy <;> exact fun _ => (by rintro ⟨⟩)
    · cases rpy <;> exact fun _ => (by rintro ⟨⟩)
    · cases given : rpy with
      | true => exact Or.inl rfl
      | false =>
        refine Or.inr fun normal => ?_
        rw [stays job running (level.trans normal)] at given
        cases given
    · intro dropping normal
      rw [stays job running (level.trans normal)] at dropping
      cases dropping
  | statfs i rpy job running stage =>
    have level := (linked.job i job running).level (by rw [stage]; rfl)
    have alike : Alike ((setRpy s.server job.x rpy).tx job.x) (s.server.tx job.x) := by
      constructor <;> simp [setRpy, setTx]
    refine linked.of_handler owned running stage { setTx_frame s.server job.x _ with } alike
      (fun _ => rfl) rfl ?_ ?_ ?_ ?_ ?_
    · cases rpy <;> rfl
    · cases rpy <;> exact fun _ => (by rintro ⟨⟩)
    · cases rpy <;> exact fun _ => (by rintro ⟨⟩)
    · cases given : rpy with
      | true => exact Or.inl rfl
      | false =>
        refine Or.inr fun normal => ?_
        rw [stays job running (level.trans normal)] at given
        cases given
    · intro dropping normal
      rw [stays job running (level.trans normal)] at dropping
      cases dropping
  | drop i job running stage =>
    have level := (linked.job i job running).level (by rw [stage]; rfl)
    have other : job.op ≠ .normal := fun normal => stays job running (level.trans normal)
    exact linked.of_handler owned running stage (ServerFrame.refl _ _) (.refl _) (fun _ => rfl) rfl
      rfl (fun _ => (by rintro ⟨⟩)) (fun _ => (by rintro ⟨⟩)) (Or.inr other) fun _ => other
  | step i sends job s' running move =>
    have sound := owned.sound i job running
    have kept := linked.job i job running
    have before : ∀ n, job.x ∈ (s.server.txg n).ccbList →
        MemberSound s.server s.ended n job.x ∧
          ((s.server.tx job.x).state = .processing → job.stage.open = true) := by
      refine fun n here => ⟨linked.member n job.x here, fun processing => ?_⟩
      obtain ⟨j, other, is, equal, opened⟩ := linked.working n job.x here processing
      obtain rfl := owned.apart j i other job is running equal
      obtain rfl := Option.some.inj (running.symm.trans is)
      exact opened
    refine linked.of_thread owned running move.frame (move.linked sound kept linked.bound)
      (fun n here => move.member sound kept before here) (fun n => ?_) move.miTx_le ?_
    · rcases move.ccbList n with same | ⟨stage, -, -, added⟩
      · rw [same]
        exact linked.nodup n
      · rw [added]
        exact List.Nodup.append (linked.nodup n) (List.nodup_singleton _)
          (List.disjoint_singleton.mpr (kept.unlinked (by rw [stage]; rfl) n))
    · refine move.ended.imp_right ?_
      rintro ⟨⟨ending, stage⟩, -, -, -, added⟩
      exact ⟨by rw [stage]; rfl, added⟩
  | overwrite i j job s' running stage move => exact stays.elim
  | switch free =>
    have later := linked.lists_of_switch
    exact linked.of_elsewhere rfl rfl rfl (Nat.le_succ _) (fun _ => rfl) (fun _ => rfl)
      (fun _ => rfl) (fun _ => Or.inl rfl) (fun n => by rw [later]) fun _ _ _ _ _ here => by
        rw [later]
        exact here
  | commit n wb unused => exact elsewhere rfl rfl rfl rfl rfl rfl
  | visitEnd n sends active list => exact elsewhere rfl rfl rfl rfl rfl rfl
  | visitSkip n x sends rest active list skips => exact elsewhere rfl rfl rfl rfl rfl rfl
  | visitNormal n x sends rest active list ended normal => exact linked.of_commited rfl rfl rfl ended
  | visitOther n x sends rest active list ended other => exact linked.of_commited rfl rfl rfl ended
  | callbackFree n x sends rest active list used quiet => exact elsewhere rfl rfl rfl rfl rfl rfl
  | callbackDel n x sends rest active list =>
    refine linked.of_elsewhere rfl rfl rfl le_rfl (fun _ => rfl) (fun _ => rfl) (fun _ => rfl)
      (fun _ => Or.inl rfl) (fun m => ?_) fun i job running opened normal here => ?_
    · simp only [ccbDel, setGroup, Function.update_apply]
      split
      · rename_i same
        rw [same]
        exact List.erase_sublist
      · exact .refl _
    · -- no thread is at work on the object that is taken out
      have others : (s.server.tx job.x).txg ≠ n := by
        intro same
        rw [same] at here
        have held := linked.refs owned running opened here
        rw [drained.refs (drained.active n (by rw [active]; rintro ⟨⟩)) i] at held
        cases held
      simpa [ccbDel, setGroup, others] using here
  | sweep x quiet free hashed => exact elsewhere rfl rfl rfl rfl rfl rfl
  | sweepStep x phase server next sweeping evicts =>
    obtain ⟨frame, tx, txg, -, miTx⟩ := evictStep_frame evicts
    exact elsewhere rfl rfl miTx frame.openTxg tx txg
  | search x hashed => exact linked.of_ref rfl rfl rfl
  | put x held => exact linked.of_ref rfl rfl rfl

end Lists

end Hvfs
