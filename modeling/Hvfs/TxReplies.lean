/-
This file proves that the reply to a request is sent before its COMMIT message,
along the runs in which every reply to a NORMAL request goes out, none is dropped
without a reply, and no commit thread comes to a request of `mds_statfs` between
its `mds_tx_done` and its reply.
-/

import Hvfs.TxOwned

namespace Hvfs

open Transition

/-! ### What a stage says about the reply -/

/-- The request has begun and has no reply yet, but is to have one. -/
def Stage.unreplied : Stage → Bool
  | .getTxg | .link | .handler | .putOld _ | .setNew _ | .rewrite _ | .done .statfs
  | .putRef .statfs | .freeForget .statfs | .putTxg .statfs | .send => true
  | _ => false

/-- The reply has been sent, if `xnet_isend` did. -/
def Stage.replied : Stage → Bool
  | .done .reply | .putRef .reply | .freeForget .reply | .putTxg .reply | .acked | .setAcked
  | .freeNocommit => true
  | _ => false

/-- The request is dropped. -/
def Stage.dropping : Stage → Bool
  | .dropMark | .evictDrop _ | .dropRef | .dropTxg | .dropFree => true
  | _ => false

/-- `mds_statfs` is behind `mds_tx_done` and has not sent its reply. -/
def Stage.sending : Stage → Bool
  | .putRef .statfs | .freeForget .statfs | .putTxg .statfs | .send => true
  | _ => false

/-- A NORMAL request has the reply that the stage of its thread says. -/
structure JobReplied (s : TxServer) (data : List (Nat × Int)) (job : Job) : Prop where
  unreplied : job.stage.unreplied = true → job.life ∉ data.map Prod.fst
  replied : job.stage.replied = true → (s.tx job.x).op = .normal → (job.life, 0) ∈ data
  dropped : job.stage.dropping = true → (s.tx job.x).op ≠ .normal

theorem Stage.begun_of_unreplied {stage : Stage} (unreplied : stage.unreplied = true) :
    stage.begun = true := by
  cases stage <;> first | rfl | cases unreplied

section Job

variable {ι : Type} [DecidableEq ι] {s s' : TxSystem ι} {i : ι} {job : Job} {sends lost : Bool}

/-- What a step of a thread does to the replies. -/
theorem JobMove.data (move : JobMove s i job sends lost s') :
    s'.data = s.data ∨ ∃ err, (job.stage = .rewrite err ∨ job.stage = .send ∧ err = 0) ∧
      s'.data = s.data ++ [((s.server.tx job.x).tx, err)] := by
  cases move with
  | rewrite err stage =>
    cases sends with
    | false => exact Or.inl rfl
    | true => exact Or.inr ⟨err, Or.inl stage, rfl⟩
  | send stage =>
    cases sends with
    | false => exact Or.inl rfl
    | true => exact Or.inr ⟨0, Or.inr ⟨stage, rfl⟩, rfl⟩
  | _ => exact Or.inl rfl

omit [DecidableEq ι] in
/-- A stage at which nothing changes for the reply. -/
theorem JobReplied.moved {server : TxServer} {data : List (Nat × Int)} {before : Stage}
    {after : Job} (kept : JobReplied s.server data job) (at_ : job.stage = before)
    (same : after.x = job.x) (life : after.life = job.life)
    (op : (server.tx job.x).op = (s.server.tx job.x).op)
    (unreplied : after.stage.unreplied = true → before.unreplied = true)
    (replied : after.stage.replied = true → before.replied = true)
    (dropped : after.stage.dropping = true → before.dropping = true) :
    JobReplied server data after where
  unreplied := fun has => by rw [life]; exact kept.unreplied (by rw [at_]; exact unreplied has)
  replied := fun has => by
    rw [same, op, life]
    exact kept.replied (by rw [at_]; exact replied has)
  dropped := fun has => by
    rw [same, op]
    exact kept.dropped (by rw [at_]; exact dropped has)

/-- The level of an object whose other fields are changed. -/
theorem op_of_setTx {server : TxServer} {x : Nat} {tx : Tx} {op : TxOp} (same : tx.op = op) :
    ((setTx server x tx).tx x).op = op := by
  rw [setTx]
  simp only [Function.update_self]
  exact same

/-- A step of a thread keeps what the stage says about the reply. -/
theorem JobMove.replied (move : JobMove s i job sends lost s') (sound : JobSound s.server job)
    (kept : JobReplied s.server s.data job) (bound : ∀ p ∈ s.data, p.1 ≤ s.server.miTx)
    (goesOut : (s.server.tx job.x).op = .normal →
      job.stage = .rewrite 0 ∨ job.stage = .send → sends = true) :
    ∀ after, s'.thread i = some after → JobReplied s'.server s'.data after := by
  have left : ∀ (server : TxServer) after, (s.finished i server).thread i = some after →
      JobReplied server s.data after := by
    intro server after is
    rw [finished_thread_self] at is
    cases is
  cases move with
  | evictOld phase next server stage evicts =>
    exact moved_forall ⟨(by rintro ⟨⟩), (by rintro ⟨⟩), (by rintro ⟨⟩)⟩
  | evictedOld phase server stage evicts =>
    exact moved_forall ⟨(by rintro ⟨⟩), (by rintro ⟨⟩), (by rintro ⟨⟩)⟩
  | init stage =>
    refine moved_forall ⟨fun _ member => ?_, (by rintro ⟨⟩), (by rintro ⟨⟩)⟩
    obtain ⟨p, isData, same⟩ := List.mem_map.mp member
    have := bound p isData
    simp only at same
    omega
  | getTxg stage =>
    exact moved_forall (kept.moved stage rfl rfl (op_of_setTx rfl) (fun _ => rfl)
      (by rintro ⟨⟩) (by rintro ⟨⟩))
  | link stage =>
    exact moved_forall (kept.moved stage rfl rfl rfl (fun _ => rfl) (by rintro ⟨⟩) (by rintro ⟨⟩))
  | putOld nt stage =>
    exact moved_forall (kept.moved stage rfl rfl rfl (fun _ => rfl) (by rintro ⟨⟩) (by rintro ⟨⟩))
  | setNew nt stage =>
    exact moved_forall (kept.moved stage rfl rfl (op_of_setTx rfl) (fun _ => rfl)
      (by rintro ⟨⟩) (by rintro ⟨⟩))
  | rewrite err stage =>
    refine moved_forall ⟨(by rintro ⟨⟩), fun _ normal => ?_, (by rintro ⟨⟩)⟩
    by_cases success : err = 0
    · subst success
      simp only [moved_server, if_true] at normal
      rw [goesOut normal (Or.inl stage)]
      simp [sound.life (congrArg Stage.begun stage)]
    · simp [success, setOp, setTx] at normal
  | done ending stage state =>
    cases ending with
    | reply =>
      exact moved_forall (kept.moved stage rfl rfl (op_of_setTx rfl) (by rintro ⟨⟩)
        (fun _ => rfl) (by rintro ⟨⟩))
    | statfs =>
      exact moved_forall (kept.moved stage rfl rfl (op_of_setTx rfl) (fun _ => rfl)
        (by rintro ⟨⟩) (by rintro ⟨⟩))
  | doneInvalid ending stage state =>
    exact absurd (sound.state (congrArg Stage.working stage)) state
  | putRef ending stage =>
    cases ending with
    | reply =>
      exact moved_forall (kept.moved stage rfl rfl (op_of_setTx rfl) (by rintro ⟨⟩)
        (fun _ => rfl) (by rintro ⟨⟩))
    | statfs =>
      exact moved_forall (kept.moved stage rfl rfl (op_of_setTx rfl) (fun _ => rfl)
        (by rintro ⟨⟩) (by rintro ⟨⟩))
  | freeForget ending stage op quiet =>
    cases ending with
    | reply =>
      exact moved_forall (kept.moved stage rfl rfl rfl (by rintro ⟨⟩) (fun _ => rfl) (by rintro ⟨⟩))
    | statfs =>
      exact moved_forall (kept.moved stage rfl rfl rfl (fun _ => rfl) (by rintro ⟨⟩) (by rintro ⟨⟩))
  | keep ending stage op =>
    cases ending with
    | reply =>
      exact moved_forall (kept.moved stage rfl rfl rfl (by rintro ⟨⟩) (fun _ => rfl) (by rintro ⟨⟩))
    | statfs =>
      exact moved_forall (kept.moved stage rfl rfl rfl (fun _ => rfl) (by rintro ⟨⟩) (by rintro ⟨⟩))
  | putTxg ending stage =>
    cases ending with
    | reply =>
      exact moved_forall (kept.moved stage rfl rfl rfl (by rintro ⟨⟩) (fun _ => rfl) (by rintro ⟨⟩))
    | statfs =>
      exact moved_forall (kept.moved stage rfl rfl rfl (fun _ => rfl) (by rintro ⟨⟩) (by rintro ⟨⟩))
  | send stage =>
    refine moved_forall ⟨(by rintro ⟨⟩), fun _ normal => ?_, (by rintro ⟨⟩)⟩
    rw [goesOut normal (Or.inr stage)]
    simp [sound.life (congrArg Stage.begun stage)]
  | acked stage state =>
    exact moved_forall (kept.moved stage rfl rfl rfl (by rintro ⟨⟩) (fun _ => rfl) (by rintro ⟨⟩))
  | setAcked stage =>
    exact moved_forall (kept.moved stage rfl rfl (op_of_setTx rfl) (by rintro ⟨⟩)
      (fun _ => rfl) (by rintro ⟨⟩))
  | commited stage state => exact left _
  | freeNocommit stage op quiet => exact left _
  | leave stage op => exact left _
  | dropFree stage quiet => exact left _
  | dropMark stage free =>
    exact moved_forall (kept.moved stage rfl rfl (op_of_setTx rfl) (by rintro ⟨⟩)
      (by rintro ⟨⟩) fun _ => rfl)
  | evictDrop phase next server stage evicts =>
    exact moved_forall
      (kept.moved stage rfl rfl (by rw [moved_server, (evictStep_frame evicts).2.1])
      (by rintro ⟨⟩) (by rintro ⟨⟩) fun _ => rfl)
  | evictedDrop phase server stage evicts =>
    exact moved_forall
      (kept.moved stage rfl rfl (by rw [moved_server, (evictStep_frame evicts).2.1])
      (by rintro ⟨⟩) (by rintro ⟨⟩) fun _ => rfl)
  | dropRef stage =>
    exact moved_forall (kept.moved stage rfl rfl (op_of_setTx rfl) (by rintro ⟨⟩)
      (by rintro ⟨⟩) fun _ => rfl)
  | dropTxg stage =>
    exact moved_forall (kept.moved stage rfl rfl rfl (by rintro ⟨⟩) (by rintro ⟨⟩) fun _ => rfl)

/-- An object that has ended as NORMAL has its reply, or its thread is about to send it. -/
def Answered (s : TxServer) (data : List (Nat × Int)) (x : Nat) (sending : Prop) : Prop :=
  (s.tx x).state = .done ∨ (s.tx x).state = .acked → (s.tx x).op = .normal →
    ((s.tx x).tx, 0) ∈ data ∨ sending

/-- The object of a thread is answered after a step of the thread. -/
theorem JobMove.answered (move : JobMove s i job sends lost s') (sound : JobSound s.server job)
    (kept : JobReplied s.server s.data job)
    (before : Answered s.server s.data job.x (job.stage.sending = true))
    (goesOut : (s.server.tx job.x).op = .normal →
      job.stage = .rewrite 0 ∨ job.stage = .send → sends = true) :
    Answered s'.server s'.data job.x
      (∃ after, s'.thread i = some after ∧ after.stage.sending = true) := by
  -- the object is left as it is
  have same : ∀ {server : TxServer} {after : Option Job} {stage : Stage}, job.stage = stage →
      stage.sending = false → server.tx = s.server.tx →
      Answered server s.data job.x
        (∃ next, Function.update s.thread i after i = some next ∧ next.stage.sending = true) := by
    intro server after stage at_ quiet tx ended normal
    rw [tx] at ended normal ⊢
    refine (before ended normal).imp_right fun sends => ?_
    rw [at_, quiet] at sends
    cases sends
  -- the thread goes on to a stage before its reply
  have later : ∀ {server : TxServer} {data : List (Nat × Int)} {after : Job},
      after.stage.sending = true → Answered server data job.x
        (∃ next, Function.update s.thread i (some after) i = some next ∧
          next.stage.sending = true) :=
    fun holds _ _ => Or.inr ⟨_, Function.update_self i _ s.thread, holds⟩
  cases move with
  | evictOld phase next server stage evicts => exact same stage rfl (evictStep_frame evicts).2.1
  | evictedOld phase server stage evicts => exact same stage rfl (evictStep_frame evicts).2.1
  | init stage =>
    intro ended
    simp [initFields, setTx] at ended
  | getTxg stage =>
    intro ended
    have state := sound.state (congrArg Stage.working stage)
    simp [setTxg, setTx, txgGet, setGroup, state] at ended
  | link stage => exact same stage rfl rfl
  | putOld nt stage => exact same stage rfl rfl
  | setNew nt stage =>
    intro ended
    have state := sound.state (congrArg Stage.working stage)
    simp [setTxg, setTx, state] at ended
  | rewrite err stage =>
    intro ended
    have state := sound.state (congrArg Stage.working stage)
    simp only [moved_server] at ended
    split at ended <;> simp [setOp, setTx, state] at ended
  | done ending stage state =>
    cases ending with
    | reply =>
      intro _ normal
      left
      have number := sound.life (congrArg Stage.begun stage)
      simp only [moved_server, setState, setTx, Function.update_self] at normal ⊢
      rw [number]
      exact kept.replied (by rw [stage]; rfl) normal
    | statfs => exact later rfl
  | doneInvalid ending stage state =>
    exact absurd (sound.state (congrArg Stage.working stage)) state
  | putRef ending stage =>
    cases ending with
    | reply =>
      intro ended normal
      simp only [moved_server, mdsPutTx, setTx, Function.update_self] at ended normal ⊢
      refine Or.inl ((before ended normal).resolve_right fun sends => ?_)
      rw [stage] at sends
      cases sends
    | statfs => exact later rfl
  | freeForget ending stage op quiet =>
    cases ending with
    | reply => exact same stage rfl rfl
    | statfs => exact later rfl
  | keep ending stage op =>
    cases ending with
    | reply => exact same stage rfl rfl
    | statfs => exact later rfl
  | putTxg ending stage =>
    cases ending with
    | reply => exact same stage rfl rfl
    | statfs => exact later rfl
  | send stage =>
    intro _ normal
    rw [goesOut normal (Or.inr stage)]
    exact Or.inl (List.mem_append_right _ (List.mem_singleton_self _))
  | acked stage state => exact same stage rfl rfl
  | commited stage state => exact same stage rfl rfl
  | setAcked stage =>
    intro _ normal
    left
    have number := sound.life (congrArg Stage.begun stage)
    simp only [moved_server, setState, setTx, Function.update_self] at normal ⊢
    rw [number]
    exact kept.replied (by rw [stage]; rfl) normal
  | freeNocommit stage op quiet => exact same stage rfl rfl
  | leave stage op => exact same stage rfl rfl
  | dropMark stage free =>
    intro _ normal
    simp only [moved_server, setState, setTx, Function.update_self] at normal
    exact absurd normal (kept.dropped (by rw [stage]; rfl))
  | evictDrop phase next server stage evicts => exact same stage rfl (evictStep_frame evicts).2.1
  | evictedDrop phase server stage evicts => exact same stage rfl (evictStep_frame evicts).2.1
  | dropRef stage =>
    intro _ normal
    simp only [moved_server, mdsPutTx, setTx, Function.update_self] at normal
    exact absurd normal (kept.dropped (by rw [stage]; rfl))
  | dropTxg stage => exact same stage rfl rfl
  | dropFree stage quiet => exact same stage rfl rfl

end Job

/-! ### The system -/

section Answers

variable {ι : Type}

/-- A thread is about to send the reply of the object's request. -/
def TxSystem.Sending (s : TxSystem ι) (x : Nat) : Prop :=
  ∃ i job, s.thread i = some job ∧ job.x = x ∧ job.stage.sending = true

/-- Every thread is where its reply says, a NORMAL transaction that has ended has its reply or is
about to send it, a transaction has one reply, and a COMMIT message follows a successful reply. -/
structure Replied (s : TxSystem ι) : Prop where
  job : ∀ i job, s.thread i = some job → JobReplied s.server s.data job
  ended : ∀ x, Answered s.server s.data x (s.Sending x)
  bound : ∀ p ∈ s.data, p.1 ≤ s.server.miTx
  single : (s.data.map Prod.fst).Nodup
  sent : ∀ p ∈ s.sent, (p.1, 0) ∈ s.data

variable {s s' : TxSystem ι}

/-- The invariant after a step that leaves the replies, the threads and the ends of transactions. -/
theorem Replied.unchanged (replied : Replied s) (thread : s'.thread = s.thread)
    (data : s'.data = s.data) (op : ∀ x, (s'.server.tx x).op = (s.server.tx x).op)
    (number : ∀ x, (s'.server.tx x).tx = (s.server.tx x).tx)
    (state : ∀ x, (s'.server.tx x).state = (s.server.tx x).state ∨
      (s'.server.tx x).state = .commited)
    (miTx : s'.server.miTx = s.server.miTx) (sent : ∀ p ∈ s'.sent, (p.1, 0) ∈ s.data) :
    Replied s' where
  job := by
    intro i job is
    rw [thread] at is
    rw [data]
    have kept := replied.job i job is
    exact ⟨kept.unreplied, by rw [op]; exact kept.replied, by rw [op]; exact kept.dropped⟩
  ended := by
    intro x ended normal
    rw [op] at normal
    rw [data, number]
    rcases state x with same | commited
    · rw [same] at ended
      refine (replied.ended x ended normal).imp_right ?_
      rintro ⟨i, job, is, rest⟩
      exact ⟨i, job, by rw [thread]; exact is, rest⟩
    · rw [commited] at ended
      rcases ended with ended | ended <;> cases ended
  bound := by rw [data, miTx]; exact replied.bound
  single := by rw [data]; exact replied.single
  sent := by rw [data]; exact sent

variable [DecidableEq ι] [Fintype ι]

/-- The invariant after a step of one thread. -/
theorem Replied.of_thread {i : ι} {job : Job} (replied : Replied s) (owned : Owned s)
    (running : s.thread i = some job) (frame : JobFrame s s' i job)
    (after : ∀ after, s'.thread i = some after → JobReplied s'.server s'.data after)
    (answered : Answered s.server s.data job.x (job.stage.sending = true) →
      Answered s'.server s'.data job.x
        (∃ after, s'.thread i = some after ∧ after.stage.sending = true))
    (data : s'.data = s.data ∨ ∃ err, job.stage.unreplied = true ∧
      s'.data = s.data ++ [((s.server.tx job.x).tx, err)])
    (miTx : s.server.miTx ≤ s'.server.miTx) : Replied s' := by
  have more : ∀ p ∈ s.data, p ∈ s'.data := by
    intro p member
    rcases data with same | ⟨err, -, added⟩
    · rw [same]
      exact member
    · rw [added]
      exact List.mem_append_left _ member
  have fresh : job.stage.unreplied = true →
      (s.server.tx job.x).tx ∉ s.data.map Prod.fst := by
    intro unreplied
    rw [(owned.sound i job running).life (Stage.begun_of_unreplied unreplied)]
    exact (replied.job i job running).unreplied unreplied
  refine ⟨?_, ?_, ?_, ?_, ?_⟩
  · intro j other is
    by_cases same : j = i
    · subst same
      exact after other is
    · rw [frame.thread j same] at is
      have apart : other.x ≠ job.x := fun equal =>
        same (owned.apart j i other job is running equal)
      have kept := replied.job j other is
      refine ⟨fun unreplied member => ?_, fun has normal => ?_, fun has => ?_⟩
      · rcases data with kept' | ⟨err, -, added⟩
        · rw [kept'] at member
          exact kept.unreplied unreplied member
        · rw [added, List.map_append, List.mem_append] at member
          rcases member with old | new
          · exact kept.unreplied unreplied old
          · have sound := owned.sound j other is
            have begun := Stage.begun_of_unreplied unreplied
            have number := sound.life begun
            have equal : other.life = (s.server.tx job.x).tx := List.mem_singleton.mp new
            exact apart (owned.numbered.unique _ _ (number.trans equal)
              (by rw [number]; exact sound.born begun))
      · rw [frame.server.tx _ apart] at normal
        exact more _ (kept.replied has normal)
      · rw [frame.server.tx _ apart]
        exact kept.dropped has
  · intro x
    by_cases same : x = job.x
    · subst same
      refine fun ended normal => (answered ?_ ended normal).imp_right ?_
      · refine fun ended normal => (replied.ended job.x ended normal).imp_right ?_
        rintro ⟨j, other, is, equal, sending⟩
        obtain rfl := owned.apart j i other job is running equal
        obtain rfl := Option.some.inj (running.symm.trans is)
        exact sending
      · rintro ⟨next, is, sending⟩
        exact ⟨i, next, is, (frame.same next is).1, sending⟩
    · unfold Answered
      rw [frame.server.tx x same]
      refine fun ended normal => (replied.ended x ended normal).imp (more _) ?_
      rintro ⟨j, other, is, equal, sending⟩
      refine ⟨j, other, ?_, equal, sending⟩
      rw [frame.thread j fun here => same ?_]
      · exact is
      · subst here
        obtain rfl := Option.some.inj (running.symm.trans is)
        exact equal.symm
  · intro p member
    rcases data with same | ⟨err, -, added⟩
    · rw [same] at member
      exact Nat.le_trans (replied.bound p member) miTx
    · rw [added, List.mem_append, List.mem_singleton] at member
      rcases member with old | rfl
      · exact Nat.le_trans (replied.bound p old) miTx
      · exact Nat.le_trans (owned.numbered.bound job.x) miTx
  · rcases data with same | ⟨err, unreplied, added⟩
    · rw [same]
      exact replied.single
    · rw [added, List.map_append]
      exact List.Nodup.append replied.single (List.nodup_singleton _)
        (List.disjoint_singleton.mpr (fresh unreplied))
  · intro p member
    rw [frame.sent] at member
    exact more _ (replied.sent p member)

omit [Fintype ι] in
/-- The invariant after a thread has taken up a request. -/
theorem Replied.of_alloc {i : ι} {x : Nat} {op : TxOp} {req : TxRequest} {stage : Stage}
    (replied : Replied s) (idle : s.thread i = none) (unreplied : stage.unreplied = false)
    (noReply : stage.replied = false) (kept : stage.dropping = false)
    (thread : s'.thread = Function.update s.thread i (some ⟨x, op, req, 0, 0, stage⟩))
    (data : s'.data = s.data) (sent : s'.sent = s.sent) (tx : s'.server.tx = s.server.tx)
    (miTx : s'.server.miTx = s.server.miTx) : Replied s' where
  job := by
    intro j other is
    rw [data]
    by_cases same : j = i
    · rw [same, thread, Function.update_self] at is
      cases is
      exact ⟨fun has => absurd has (Bool.eq_false_iff.mp unreplied),
        fun has => absurd has (Bool.eq_false_iff.mp noReply),
        fun has => absurd has (Bool.eq_false_iff.mp kept)⟩
    · rw [thread, Function.update_of_ne same] at is
      have old := replied.job j other is
      exact ⟨old.unreplied, by rw [tx]; exact old.replied, by rw [tx]; exact old.dropped⟩
  ended := by
    intro y
    unfold Answered
    rw [tx, data]
    refine fun ended normal => (replied.ended y ended normal).imp_right ?_
    rintro ⟨j, other, is, rest⟩
    refine ⟨j, other, ?_, rest⟩
    rw [thread, Function.update_of_ne fun same => ?_]
    · exact is
    · rw [same, idle] at is
      cases is
  bound := by rw [data, miTx]; exact replied.bound
  single := by rw [data]; exact replied.single
  sent := by rw [data, sent]; exact replied.sent

/-- A thread in its handler goes on. -/
theorem Replied.of_handler {i : ι} {job : Job} {server : TxServer} {stage : Stage}
    (replied : Replied s) (owned : Owned s) (running : s.thread i = some job)
    (at_ : job.stage = .handler) (frame : ServerFrame s.server server job.x)
    (op : (server.tx job.x).op = (s.server.tx job.x).op)
    (state : (server.tx job.x).state = (s.server.tx job.x).state)
    (miTx : server.miTx = s.server.miTx) (noReply : stage.replied = false)
    (kept : stage.dropping = true → (s.server.tx job.x).op ≠ .normal) :
    Replied (s.moved i job server stage) := by
  have old := replied.job i job running
  refine replied.of_thread owned running (.of_server frame (by rintro _ ⟨⟩; exact ⟨rfl, rfl⟩))
    (moved_forall ⟨fun _ => old.unreplied (by rw [at_]; rfl),
      fun has => absurd has (Bool.eq_false_iff.mp noReply), fun has => ?_⟩)
    (fun _ ended => ?_) (Or.inl rfl) (Nat.le_of_eq miTx.symm)
  · rw [moved_server, op]
    exact kept has
  · have working := (owned.sound i job running).state (by rw [at_]; rfl)
    rw [moved_server, state, working] at ended
    rcases ended with ended | ended <;> cases ended

/-- The condition of this file: every reply to a NORMAL request goes out, none is dropped, and no
commit thread visits a request of `mds_statfs` between its `mds_tx_done` and its reply. -/
def AnswersNormal (s : TxSystem ι) : TxEvent ι → Prop
  | .step i sends => ∀ job ∈ s.thread i, (s.server.tx job.x).op = .normal →
    job.stage = .rewrite 0 ∨ job.stage = .send → sends = true
  | .reply i _ rpy => ∀ job ∈ s.thread i, (s.server.tx job.x).op = .normal → rpy = true
  | .statfs i rpy => ∀ job ∈ s.thread i, (s.server.tx job.x).op = .normal → rpy = true
  | .drop i => ∀ job ∈ s.thread i, (s.server.tx job.x).op ≠ .normal
  | .callback n _ => s.callback n = some .visit →
    ∀ x ∈ (s.server.txg n).ccbList.head?, ¬s.Sending x
  | _ => True

omit [DecidableEq ι] [Fintype ι] in
/-- A COMMIT message is sent for a transaction that has its reply. -/
theorem Replied.visit {n x : Nat} {rest : List Nat} (replied : Replied s)
    (list : (s.server.txg n).ccbList = x :: rest)
    (ended : ¬((s.server.tx x).state.rank < TxState.done.rank ∨
      TxState.acked.rank < (s.server.tx x).state.rank))
    (normal : (s.server.tx x).op = .normal)
    (allowed : ∀ y ∈ (s.server.txg n).ccbList.head?, ¬s.Sending y) :
    ((s.server.tx x).tx, 0) ∈ s.data := by
  have past : (s.server.tx x).state = .done ∨ (s.server.tx x).state = .acked := by
    cases state : (s.server.tx x).state with
    | done => exact Or.inl rfl
    | acked => exact Or.inr rfl
    | fresh => rw [state] at ended; exact absurd (Or.inl (by decide)) ended
    | processing => rw [state] at ended; exact absurd (Or.inl (by decide)) ended
    | commited => rw [state] at ended; exact absurd (Or.inr (by decide)) ended
  exact (replied.ended x past normal).resolve_right (allowed x (by rw [list]; rfl))

omit [DecidableEq ι] [Fintype ι] in
theorem Replied.of_commited {x : Nat} (replied : Replied s) (thread : s'.thread = s.thread)
    (data : s'.data = s.data) (server : s'.server = setState s.server x .commited)
    (sent : ∀ p ∈ s'.sent, (p.1, 0) ∈ s.data) : Replied s' := by
  refine replied.unchanged thread data (fun y => ?_)
    (fun y => by rw [server]; exact setState_number _ _ _ y) (fun y => ?_)
    (by rw [server]; rfl) sent
  · rw [server]
    simp only [setState, setTx, Function.update_apply]
    split
    · rename_i same
      rw [same]
    · rfl
  · rw [server]
    simp only [setState, setTx, Function.update_apply]
    split
    · exact Or.inr rfl
    · exact Or.inl rfl

omit [DecidableEq ι] [Fintype ι] in
/-- The count of the references to an object has changed. -/
theorem Replied.of_ref {x : Nat} {ref : Int} (replied : Replied s) (thread : s'.thread = s.thread)
    (data : s'.data = s.data) (sent : s'.sent = s.sent)
    (server : s'.server = setTx s.server x { s.server.tx x with ref := ref }) : Replied s' := by
  have same : ∀ y, (s'.server.tx y).op = (s.server.tx y).op ∧
      (s'.server.tx y).tx = (s.server.tx y).tx ∧
      (s'.server.tx y).state = (s.server.tx y).state := by
    intro y
    rw [server]
    simp only [setTx, Function.update_apply]
    split
    · rename_i equal
      rw [equal]
      exact ⟨rfl, rfl, rfl⟩
    · exact ⟨rfl, rfl, rfl⟩
  exact replied.unchanged thread data (fun y => (same y).1) (fun y => (same y).2.1)
    (fun y => Or.inl (same y).2.2) (by rw [server]; rfl) (by rw [sent]; exact replied.sent)

/-- Every event that is allowed keeps the invariant. -/
theorem Replied.event {event : TxEvent ι} (replied : Replied s) (owned : Owned s)
    (allowed : AnswersNormal s event) (move : EventMove s event s') : Replied s' := by
  -- a step that changes neither the transactions nor the replies
  have elsewhere : ∀ {after : TxSystem ι}, after.thread = s.thread → after.data = s.data →
      after.sent = s.sent → after.server.tx = s.server.tx → after.server.miTx = s.server.miTx →
      Replied after := by
    intro after thread data sent tx miTx
    exact replied.unchanged thread data (fun x => by rw [tx]) (fun x => by rw [tx])
      (fun x => Or.inl (by rw [tx])) miTx (by rw [sent]; exact replied.sent)
  cases move with
  | take i op req memory x rest idle quiet free head =>
    by_cases hashed : s.server.hashed x = true
    · simp only [hashed, if_true]
      exact replied.of_alloc idle rfl rfl rfl rfl rfl rfl rfl rfl
    · simp only [hashed]
      exact replied.of_alloc idle rfl rfl rfl rfl rfl rfl rfl rfl
  | grow i op req idle quiet used => exact replied.of_alloc idle rfl rfl rfl rfl rfl rfl rfl rfl
  | noMemory i op req => exact replied
  | reassign i job running stage =>
    exact replied.of_handler owned running stage (txgGet_frame _ _ _) rfl rfl rfl rfl nofun
  | reply i err rpy job running stage =>
    refine replied.of_handler owned running stage { setTx_frame s.server job.x _ with }
      (op_of_setTx rfl) (by simp [setRpy, setTx]) rfl (by cases rpy <;> rfl) fun drops normal => ?_
    rw [allowed job running normal] at drops
    cases drops
  | statfs i rpy job running stage =>
    refine replied.of_handler owned running stage { setTx_frame s.server job.x _ with }
      (op_of_setTx rfl) (by simp [setRpy, setTx]) rfl (by cases rpy <;> rfl) fun drops normal => ?_
    rw [allowed job running normal] at drops
    cases drops
  | drop i job running stage =>
    exact replied.of_handler owned running stage (ServerFrame.refl _ _) rfl rfl rfl rfl
      fun _ => allowed job running
  | step i sends job s' running move =>
    have sound := owned.sound i job running
    have kept := replied.job i job running
    have goesOut := allowed job running
    refine replied.of_thread owned running move.frame
      (move.replied sound kept replied.bound goesOut)
      (fun before => move.answered sound kept before goesOut) ?_ move.miTx_le
    rcases move.data with same | ⟨err, stage | ⟨stage, rfl⟩, added⟩
    · exact Or.inl same
    · exact Or.inr ⟨err, by rw [stage]; rfl, added⟩
    · exact Or.inr ⟨0, by rw [stage]; rfl, added⟩
  | overwrite i j job s' running stage move =>
    have sound := owned.sound i job running
    have kept := replied.job i job running
    refine replied.of_thread owned running move.frame
      (move.replied sound kept replied.bound fun _ _ => rfl)
      (fun before => move.answered sound kept before fun _ _ => rfl) (Or.inl ?_) move.miTx_le
    refine move.data.resolve_right ?_
    rw [stage]
    rintro ⟨err, is | ⟨is, -⟩, -⟩ <;> cases is
  | switch free => exact elsewhere rfl rfl rfl rfl rfl
  | commit n wb unused => exact elsewhere rfl rfl rfl rfl rfl
  | visitEnd n sends active list => exact elsewhere rfl rfl rfl rfl rfl
  | visitSkip n x sends rest active list skips => exact elsewhere rfl rfl rfl rfl rfl
  | visitNormal n x sends rest active list ended normal =>
    refine replied.of_commited rfl rfl rfl fun p member => ?_
    cases sends with
    | false => exact replied.sent p member
    | true =>
      rcases List.mem_append.mp member with old | new
      · exact replied.sent p old
      · rw [List.mem_singleton.mp new]
        exact replied.visit list ended normal (allowed active)
  | visitOther n x sends rest active list ended other =>
    exact replied.of_commited rfl rfl rfl replied.sent
  | callbackFree n x sends rest active list used quiet => exact elsewhere rfl rfl rfl rfl rfl
  | callbackDel n x sends rest active list => exact elsewhere rfl rfl rfl rfl rfl
  | sweep x quiet free hashed => exact elsewhere rfl rfl rfl rfl rfl
  | sweepStep x phase server next sweeping evicts =>
    obtain ⟨-, tx, -, -, miTx⟩ := evictStep_frame evicts
    exact elsewhere rfl rfl rfl tx miTx
  | search x hashed => exact replied.of_ref rfl rfl rfl rfl
  | put x held => exact replied.of_ref rfl rfl rfl rfl

omit [DecidableEq ι] [Fintype ι] in
theorem init_replied (ftx : Nat) : Replied (TxSystem.init ι ftx) where
  job := fun _ _ is => nomatch is
  ended := by
    intro x ended
    rcases ended with ended | ended <;> cases ended
  bound := fun _ member => nomatch member
  single := List.nodup_nil
  sent := fun _ member => nomatch member

/-! ### The result -/

/-- The reply with success was sent for every transaction that has its COMMIT message, and no other
reply. -/
def RepliesFirst (s : TxSystem ι) : Prop :=
  ∀ p ∈ s.sent, (p.1, 0) ∈ s.data ∧ ∀ err, (p.1, err) ∈ s.data → err = 0

omit [DecidableEq ι] [Fintype ι] in
theorem Replied.first (replied : Replied s) : RepliesFirst s := by
  intro p member
  have success := replied.sent p member
  exact ⟨success, fun err other =>
    congrArg Prod.snd (List.inj_on_of_nodup_map replied.single other success rfl)⟩

/-- As long as every NORMAL request gets its reply, and no commit thread comes to a request of
`mds_statfs` between its `mds_tx_done` and its reply, the reply with success comes before the COMMIT
message. -/
theorem reply_before_commit (ftx : Nat) (events : List (TxEvent ι)) (s : TxSystem ι)
    (allowed : Guarded txEvent (fun s event => AllocsFree s event ∧ AnswersNormal s event)
      (TxSystem.init ι ftx) events)
    (reached : run txEvent (TxSystem.init ι ftx) events = some s) : RepliesFirst s :=
  (guarded_invariant (fun s => Owned s ∧ Replied s)
    (fun _ _ _ both here stepped =>
      ⟨both.1.event here.1 (txEvent_move stepped),
        both.2.event both.1 here.2 (txEvent_move stepped)⟩)
    ⟨init_owned ftx, init_replied ftx⟩ allowed reached).2.first

end Answers

/-- The events of a NORMAL request from its allocation to its COMMIT message. -/
def committedRequest : List (TxEvent Bool) :=
  upToReply true .normal ++ [.step true true, .step true true, .step true true, .step true true,
    .switch, .commit, .callback 0 true]

/-- A NORMAL request gets its reply and its COMMIT message. -/
theorem reply_before_commit_request :
    ∃ s, run txEvent (TxSystem.init Bool 1) committedRequest = some s ∧ s.sent = [(1, 0)] ∧
      RepliesFirst s := by
  refine ⟨_, rfl, rfl, reply_before_commit 1 committedRequest _ ?_ rfl⟩
  have answers : ∀ (s : TxSystem Bool), AllocsFree s (.step true true) ∧
      AnswersNormal s (.step true true) := fun _ => ⟨trivial, fun _ _ _ _ => rfl⟩
  refine .cons ⟨fun _ x is => ?_, trivial⟩ rfl (.cons (answers _) rfl (.cons (answers _) rfl
    (.cons (answers _) rfl (.cons ⟨trivial, fun _ _ _ => rfl⟩ rfl (.cons (answers _) rfl
      (.cons (answers _) rfl (.cons (answers _) rfl (.cons (answers _) rfl (.cons (answers _) rfl
        (.cons ⟨trivial, trivial⟩ rfl (.cons ⟨trivial, trivial⟩ rfl
          (.cons ⟨trivial, fun _ x is => ?_⟩ rfl trivial))))))))))))
  · cases is
    exact ⟨fun _ _ job => (nomatch job), rfl⟩
  · rintro ⟨i, job, running, -, sending⟩
    cases i with
    | false => cases running
    | true =>
      cases running
      cases sending

/-- The events of a NORMAL request of `mds_statfs` whose group is committed between its
`mds_tx_done` and its reply. -/
def committedEarly : List (TxEvent Bool) :=
  [.alloc true .normal ⟨1, 7⟩ true, .step true true, .step true true, .step true true,
    .statfs true true, .step true true, .step true true, .step true true, .step true true,
    .switch, .commit, .callback 0 true]

/-- `mds_statfs` ends its transaction before it sends the reply: the COMMIT message comes first. -/
theorem commit_before_reply : ¬ ∀ (ftx : Nat) (events : List (TxEvent Bool)) (s : TxSystem Bool),
    run txEvent (TxSystem.init Bool ftx) events = some s → RepliesFirst s := by
  intro claim
  have first := claim 1 committedEarly _ rfl (1, 0) (List.mem_singleton_self _)
  cases first.1

end Hvfs
