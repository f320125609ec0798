/-
This file proves that a commit thread sends the COMMIT messages of exactly the
NORMAL transactions that were done with success in its group, once, and when the
group is written back. This holds along the runs in which `itb_dirty` leaves the
NORMAL transactions in their groups, none of them is dropped or lost from its
callback list, and every COMMIT message can be sent.
-/

import Hvfs.TxLinked

namespace Hvfs

open Transition

/-! ### The COMMIT messages -/

section Commits

variable {ι : Type}

/-- The commit thread of the group `n` is behind its visit to `x`. -/
def TxSystem.Visited (s : TxSystem ι) (n x : Nat) : Prop :=
  (s.server.txg n).ccbList.head? = some x ∧ (s.callback n = some .free ∨ s.callback n = some .del)

/-- The NORMAL transaction is over and waits for the commit thread of its group. -/
def Awaits (s : TxServer) (p : Nat × Nat) : Prop :=
  ∃ x ∈ (s.txg p.2).ccbList, (s.tx x).tx = p.1 ∧ (s.tx x).Over

/-- A NORMAL transaction that has ended has its COMMIT message or waits for it, and a commit thread
sends no other message. -/
structure Committing (s : TxSystem ι) : Prop where
  visited : ∀ n, ∀ x ∈ (s.server.txg n).ccbList, (s.server.tx x).state = .commited → s.Visited n x
  covered : ∀ p ∈ s.ended, p ∈ s.sent ∨ Awaits s.server p
  sent : ∀ p ∈ s.sent, p ∈ s.ended ∧ s.WrittenBack p.2
  once : s.sent.Nodup
  sentVisited : ∀ p ∈ s.sent, ∀ n, ∀ x ∈ (s.server.txg n).ccbList, (s.server.tx x).tx = p.1 →
    s.Visited n x
  passed : ∀ n x, s.Visited n x → (s.server.tx x).op = .normal → ((s.server.tx x).tx, n) ∈ s.sent

variable {s s' : TxSystem ι}

/-- The invariant after a step that leaves the transactions, the callback lists and the messages. -/
theorem Committing.unchanged (committing : Committing s)
    (alike : ∀ x, Alike (s'.server.tx x) (s.server.tx x))
    (lists : ∀ n, (s'.server.txg n).ccbList = (s.server.txg n).ccbList)
    (visits : ∀ n x, s'.Visited n x ↔ s.Visited n x)
    (back : ∀ n, s.WrittenBack n → s'.WrittenBack n) (ended : s'.ended = s.ended)
    (sent : s'.sent = s.sent) : Committing s' where
  visited := by
    intro n x here
    rw [lists] at here
    rw [(alike x).state, visits]
    exact committing.visited n x here
  covered := by
    intro p member
    rw [ended] at member
    rw [sent]
    refine (committing.covered p member).imp_right ?_
    rintro ⟨x, here, number, past⟩
    refine ⟨x, by rw [lists]; exact here, (alike x).tx.trans number, ?_⟩
    rw [Tx.Over, (alike x).op, (alike x).state]
    exact past
  sent := by
    intro p member
    rw [sent] at member
    rw [ended]
    exact ⟨(committing.sent p member).1, back _ (committing.sent p member).2⟩
  once := by rw [sent]; exact committing.once
  sentVisited := by
    intro p member n x here
    rw [sent] at member
    rw [lists] at here
    rw [(alike x).tx, visits]
    exact committing.sentVisited p member n x here
  passed := by
    intro n x
    rw [visits, (alike x).op, (alike x).tx, sent]
    exact committing.passed n x

variable [DecidableEq ι] [Fintype ι]

omit [DecidableEq ι] in
/-- A transaction that a commit thread comes to is over and has not been committed. -/
theorem Committing.comes (committing : Committing s) (owned : Owned s) (drained : Drained s)
    (linked : Linked s) {n x : Nat} (active : s.callback n = some .visit)
    (here : x ∈ (s.server.txg n).ccbList) :
    (s.server.tx x).state = .done ∨ (s.server.tx x).state = .acked := by
  cases state : (s.server.tx x).state with
  | done => exact Or.inl rfl
  | acked => exact Or.inr rfl
  | fresh => exact absurd state (linked.member n x here).used
  | processing =>
    obtain ⟨i, job, running, rfl, opened⟩ := linked.working n x here state
    have held := linked.refs owned running opened here
    rw [drained.refs (drained.active n (by rw [active]; nofun)) i] at held
    cases held
  | commited =>
    obtain ⟨-, behind⟩ := committing.visited n x here state
    rw [active] at behind
    rcases behind with is | is <;> cases is

/-- The invariant after a step of a thread. -/
theorem Committing.of_step {i : ι} {job : Job} {sends : Bool} (committing : Committing s)
    (owned : Owned s) (drained : Drained s) (linked : Linked s) (running : s.thread i = some job)
    (move : JobMove s i job sends false s') : Committing s' := by
  have sound := owned.sound i job running
  have kept := linked.job i job running
  have frame := move.frame
  have back : ∀ n, s.WrittenBack n → s'.WrittenBack n := by
    rintro n ⟨earlier, other⟩
    exact ⟨by rw [frame.server.openTxg]; exact earlier, by rw [frame.server.wbTxg]; exact other⟩
  have more : ∀ p ∈ s.ended, p ∈ s'.ended := by
    intro p member
    rcases move.ended with same | ⟨-, -, -, -, added⟩
    · rw [same]
      exact member
    · rw [added]
      exact List.mem_append_left _ member
  -- a member of a callback list is linked already, and is not dropped
  have member : ∀ n, job.x ∈ (s.server.txg n).ccbList →
      job.stage.unlinked = false ∧ job.stage.dropping = false := by
    intro n here
    constructor
    · exact Bool.eq_false_iff.mpr fun has => kept.unlinked has n here
    · exact Bool.eq_false_iff.mpr fun has => kept.other (kept.dropped has) n here
  have numbers : job.stage.unlinked = false →
      ∀ y, (s'.server.tx y).tx = (s.server.tx y).tx := by
    intro is
    refine (move.number fun stage => ?_).1
    rw [stage] at is
    cases is
  -- the group of a thread that links its object is not written back
  have lists : ∀ n, s.callback n ≠ none →
      (s'.server.txg n).ccbList = (s.server.txg n).ccbList := by
    intro n active
    refine (move.ccbList n).resolve_right ?_
    rintro ⟨stage, -, here, -⟩
    have none := drained.refs (drained.active n active) i
    have group := sound.group (by rw [stage]; rfl)
    rw [running] at none
    simp [jobRefs, Job.refs, stage, Stage.grouped, here, group] at none
  have visits : ∀ n x, s'.Visited n x ↔ s.Visited n x := by
    intro n x
    rw [TxSystem.Visited, TxSystem.Visited, frame.callback]
    refine and_congr_left fun behind => ?_
    rw [lists n (by rcases behind with is | is <;> rw [is] <;> rintro ⟨⟩)]
  -- a new member is being processed by its thread
  have linking : ∀ n x, x ∈ (s'.server.txg n).ccbList →
      x ∈ (s.server.txg n).ccbList ∨ (x = job.x ∧ job.stage = .link) := by
    intro n x here
    rcases move.ccbList n with same | ⟨stage, -, -, added⟩
    · rw [same] at here
      exact Or.inl here
    · rw [added, List.mem_append, List.mem_singleton] at here
      exact here.imp_right fun is => ⟨is, stage⟩
  refine ⟨fun n x here commited => ?_, fun p isEnded => ?_, fun p isSent => ?_, ?_,
    fun p isSent n x here number => ?_, fun n x behind normal => ?_⟩
  · rw [visits]
    have was : (s.server.tx x).state = .commited := by
      by_cases same : x = job.x
      · rw [same] at commited ⊢
        exact move.commited_before commited
      · rw [frame.server.tx x same] at commited
        exact commited
    rcases linking n x here with old | ⟨rfl, stage⟩
    · exact committing.visited n x old was
    · rw [sound.state (by rw [stage]; rfl)] at was
      cases was
  · have waits : Awaits s.server p → Awaits s'.server p := by
      rintro ⟨x, here, number, past⟩
      by_cases same : x = job.x
      · subst same
        obtain ⟨is, undropped⟩ := member _ here
        refine ⟨job.x, ?_, (numbers is job.x).trans number, move.over_after sound is undropped past⟩
        rcases move.ccbList p.2 with same | ⟨-, -, -, added⟩
        · rw [same]
          exact here
        · rw [added]
          exact List.mem_append_left _ here
      · refine ⟨x, (frame.server.ccbList _ x same).mpr here, ?_, ?_⟩
        · rw [frame.server.tx x same]
          exact number
        · rw [frame.server.tx x same]
          exact past
    rw [frame.sent]
    rcases move.ended with same | ⟨⟨ending, stage⟩, normal, still, done, added⟩
    · rw [same] at isEnded
      exact (committing.covered p isEnded).imp_right waits
    · rw [added, List.mem_append, List.mem_singleton] at isEnded
      rcases isEnded with old | rfl
      · exact (committing.covered p old).imp_right waits
      · right
        refine ⟨job.x, ?_, numbers (by rw [stage]; rfl) job.x, still, Or.inl done⟩
        rw [(move.ccbList _).resolve_right fun added => by rw [stage] at added; cases added.1]
        exact kept.linked (by rw [stage]; rfl) normal
  · rw [frame.sent] at isSent
    exact ⟨more p (committing.sent p isSent).1, back _ (committing.sent p isSent).2⟩
  · rw [frame.sent]
    exact committing.once
  · rw [frame.sent] at isSent
    rw [visits]
    rcases linking n x here with old | ⟨rfl, stage⟩
    · refine committing.sentVisited p isSent n x old ?_
      by_cases same : x = job.x
      · subst same
        rw [← numbers (member n old).1 job.x]
        exact number
      · rw [← frame.server.tx x same]
        exact number
    · have begun : job.stage ≠ .init := by rw [stage]; rintro ⟨⟩
      rw [(move.number begun).1, sound.life (by rw [stage]; rfl)] at number
      refine absurd ?_ (kept.unended (by rw [stage]; rfl))
      rw [number]
      exact List.mem_map_of_mem (committing.sent p isSent).1
  · rw [visits] at behind
    rw [frame.sent]
    have here : x ∈ (s.server.txg n).ccbList := List.mem_of_mem_head? behind.1
    by_cases same : x = job.x
    · subst same
      have is := (member n here).1
      rw [numbers is]
      refine committing.passed n job.x behind (move.op_normal (fun stage => ?_) normal)
      rw [stage] at is
      cases is
    · rw [frame.server.tx x same] at normal ⊢
      exact committing.passed n x behind normal

omit [DecidableEq ι] [Fintype ι] in
/-- A transaction is a member of one callback list. -/
theorem Linked.group (linked : Linked s) {m n x : Nat} (first : x ∈ (s.server.txg m).ccbList)
    (second : x ∈ (s.server.txg n).ccbList) : m = n :=
  (linked.member m x first).txg.symm.trans (linked.member n x second).txg

omit [DecidableEq ι] in
/-- Two members of callback lists with one number are the same. -/
theorem Linked.unique (linked : Linked s) (owned : Owned s) {m n x y : Nat}
    (first : x ∈ (s.server.txg m).ccbList) (_second : y ∈ (s.server.txg n).ccbList)
    (number : (s.server.tx y).tx = (s.server.tx x).tx) : y = x := by
  have positive := (linked.member m x first).number
  exact owned.numbered.unique y x number (by rw [number]; exact positive)

omit [DecidableEq ι] in
/-- The invariant after a commit thread has assigned the last state to the head of its list, and has
sent the message when the transaction is NORMAL. -/
theorem Committing.of_visit {n x : Nat} {next : Callback} (committing : Committing s)
    (owned : Owned s) (drained : Drained s) (linked : Linked s)
    (active : s.callback n = some .visit) (head : (s.server.txg n).ccbList.head? = some x)
    (server : s'.server = setState s.server x .commited) (ended : s'.ended = s.ended)
    (callback : s'.callback = Function.update s.callback n (some next))
    (behind : next = .free ∨ next = .del)
    (sent : s'.sent = s.sent ∧ (s.server.tx x).op ≠ .normal ∨
      s'.sent = s.sent ++ [((s.server.tx x).tx, n)] ∧ (s.server.tx x).op = .normal) :
    Committing s' := by
  have here : x ∈ (s.server.txg n).ccbList := List.mem_of_mem_head? head
  have lists : ∀ m, (s'.server.txg m).ccbList = (s.server.txg m).ccbList := by
    intro m
    rw [server]
    rfl
  have numbers : ∀ y, (s'.server.tx y).tx = (s.server.tx y).tx := by
    intro y
    rw [server]
    exact setState_number _ _ _ y
  have others : ∀ y, y ≠ x → s'.server.tx y = s.server.tx y := by
    intro y other
    rw [server]
    exact Function.update_of_ne other _ _
  have ops : ∀ y, (s'.server.tx y).op = (s.server.tx y).op := by
    intro y
    by_cases same : y = x
    · rw [server, same]
      simp [setState, setTx]
    · rw [others y same]
  -- no transaction was visited in this group, and `x` is now
  have fresh : ∀ y, ¬s.Visited n y := by
    rintro y ⟨-, is⟩
    rw [active] at is
    rcases is with is | is <;> cases is
  have visits : ∀ m y, s.Visited m y → s'.Visited m y := by
    intro m y was
    have other : m ≠ n := by
      rintro rfl
      exact fresh y was
    rw [TxSystem.Visited, lists, callback, Function.update_of_ne other]
    exact was
  have visited : s'.Visited n x := by
    rw [TxSystem.Visited, lists, callback, Function.update_self]
    exact ⟨head, by rcases behind with rfl | rfl <;> simp⟩
  have more : ∀ p ∈ s.sent, p ∈ s'.sent := by
    intro p member
    rcases sent with ⟨same, -⟩ | ⟨added, -⟩
    · rw [same]
      exact member
    · rw [added]
      exact List.mem_append_left _ member
  have new : ∀ p ∈ s'.sent, p ∈ s.sent ∨
      p = ((s.server.tx x).tx, n) ∧ (s.server.tx x).op = .normal := by
    intro p member
    rcases sent with ⟨same, -⟩ | ⟨added, normal⟩
    · rw [same] at member
      exact Or.inl member
    · rw [added, List.mem_append, List.mem_singleton] at member
      exact member.imp_right fun is => ⟨is, normal⟩
  have given : (s.server.tx x).op = .normal → ((s.server.tx x).tx, n) ∈ s'.sent := by
    intro normal
    rcases sent with ⟨-, other⟩ | ⟨added, -⟩
    · exact absurd normal other
    · rw [added]
      exact List.mem_append_right _ (List.mem_singleton_self _)
  have past : (s.server.tx x).state ≠ .processing := by
    rcases committing.comes owned drained linked active here with is | is <;> rw [is] <;> rintro ⟨⟩
  refine ⟨fun m y member commited => ?_, fun p isEnded => ?_, fun p isSent => ?_, ?_,
    fun p isSent m y member number => ?_, fun m y was normal => ?_⟩
  · rw [lists] at member
    by_cases same : y = x
    · subst same
      rw [linked.group member here]
      exact visited
    · rw [others y same] at commited
      exact visits m y (committing.visited m y member commited)
  · rw [ended] at isEnded
    rcases committing.covered p isEnded with was | ⟨y, member, number, waiting⟩
    · exact Or.inl (more p was)
    · by_cases same : y = x
      · subst same
        left
        have group := linked.group member here
        rw [show p = ((s.server.tx y).tx, n) from Prod.ext number.symm group]
        exact given waiting.1
      · right
        refine ⟨y, by rw [lists]; exact member, (numbers y).trans number, ?_⟩
        rw [others y same]
        exact waiting
  · rw [ended, TxSystem.WrittenBack, server]
    rcases new p isSent with was | ⟨rfl, normal⟩
    · exact committing.sent p was
    · exact ⟨(linked.member n x here).ended normal past,
        drained.active n (by rw [active]; rintro ⟨⟩)⟩
  · rcases sent with ⟨same, -⟩ | ⟨added, -⟩
    · rw [same]
      exact committing.once
    · rw [added]
      refine List.Nodup.append committing.once (List.nodup_singleton _)
        (List.disjoint_singleton.mpr fun was => ?_)
      exact fresh x (committing.sentVisited _ was n x here rfl)
  · rw [lists] at member
    rw [numbers] at number
    rcases new p isSent with was | ⟨rfl, -⟩
    · exact visits m y (committing.sentVisited p was m y member number)
    · obtain rfl := linked.unique owned here member number
      rw [linked.group member here]
      exact visited
  · rw [ops] at normal
    rw [numbers]
    by_cases same : m = n
    · subst same
      obtain ⟨is, -⟩ := was
      rw [lists, head] at is
      obtain rfl := Option.some.inj is
      exact given normal
    · rw [TxSystem.Visited, lists, callback, Function.update_of_ne same] at was
      exact more _ (committing.passed m y was normal)

omit [DecidableEq ι] [Fintype ι] in
/-- The invariant after a commit thread has taken the head out of its list. -/
theorem Committing.of_del {n x : Nat} {rest : List Nat} (committing : Committing s)
    (linked : Linked s) (active : s.callback n = some .del)
    (list : (s.server.txg n).ccbList = x :: rest) (server : s'.server = ccbDel s.server n x)
    (callback : s'.callback = Function.update s.callback n (some .visit))
    (ended : s'.ended = s.ended) (sent : s'.sent = s.sent) : Committing s' := by
  have tx : s'.server.tx = s.server.tx := by
    rw [server]
    rfl
  have taken : ∀ m, (s'.server.txg m).ccbList =
      if m = n then rest else (s.server.txg m).ccbList := by
    intro m
    simp only [server, ccbDel, setGroup, Function.update_apply]
    split
    · rw [list, List.erase_cons_head]
    · rfl
  have visited : s.Visited n x := ⟨by rw [list]; rfl, Or.inr active⟩
  have notIn : x ∉ rest := by
    have nodup := linked.nodup n
    rw [list] at nodup
    exact (List.nodup_cons.mp nodup).1
  have member : ∀ m y, y ∈ (s'.server.txg m).ccbList →
      y ∈ (s.server.txg m).ccbList ∧ (m = n → y ≠ x) := by
    intro m y here
    rw [taken] at here
    split at here
    · rename_i same
      rw [same, list]
      refine ⟨List.mem_cons_of_mem _ here, fun _ equal => notIn ?_⟩
      rw [← equal]
      exact here
    · rename_i other
      exact ⟨here, fun same => absurd same other⟩
  -- the transactions that were visited in other groups are visited still
  have visits : ∀ m y, y ∈ (s'.server.txg m).ccbList → s.Visited m y → s'.Visited m y := by
    intro m y here was
    by_cases same : m = n
    · obtain ⟨is, -⟩ := was
      rw [same, list] at is
      exact absurd (Option.some.inj is).symm ((member m y here).2 same)
    · rw [TxSystem.Visited, taken, if_neg same, callback, Function.update_of_ne same]
      exact was
  refine ⟨fun m y here commited => ?_, fun p isEnded => ?_, fun p isSent => ?_, ?_,
    fun p isSent m y here number => ?_, fun m y was normal => ?_⟩
  · rw [tx] at commited
    exact visits m y here (committing.visited m y (member m y here).1 commited)
  · rw [ended] at isEnded
    rw [sent]
    rcases committing.covered p isEnded with was | ⟨y, here, number, waiting⟩
    · exact Or.inl was
    · by_cases same : p.2 = n
      · rw [same, list, List.mem_cons] at here
        rcases here with rfl | later
        · left
          rw [show p = ((s.server.tx y).tx, n) from Prod.ext number.symm same]
          exact committing.passed n y visited waiting.1
        · right
          refine ⟨y, ?_, by rw [tx]; exact number, by rw [tx]; exact waiting⟩
          rw [taken, if_pos same]
          exact later
      · right
        refine ⟨y, ?_, by rw [tx]; exact number, by rw [tx]; exact waiting⟩
        rw [taken, if_neg same]
        exact here
  · rw [sent] at isSent
    rw [ended, TxSystem.WrittenBack, server]
    exact committing.sent p isSent
  · rw [sent]
    exact committing.once
  · rw [sent] at isSent
    rw [tx] at number
    exact visits m y here (committing.sentVisited p isSent m y (member m y here).1 number)
  · have other : m ≠ n := by
      rintro rfl
      obtain ⟨-, is⟩ := was
      rw [callback, Function.update_self] at is
      rcases is with is | is <;> cases is
    rw [TxSystem.Visited, taken, if_neg other, callback, Function.update_of_ne other] at was
    rw [tx] at normal
    rw [tx, sent]
    exact committing.passed m y was normal

/-- The condition on the COMMIT messages: those of NORMAL transactions are allocated and sent. -/
def SendsCommits (s : TxSystem ι) : TxEvent ι → Prop
  | .callback n sends => s.callback n = some .visit →
    ∀ x ∈ (s.server.txg n).ccbList.head?, (s.server.tx x).op = .normal → sends = true
  | _ => True

/-- Every event that is allowed keeps the invariant. -/
theorem Committing.event {event : TxEvent ι} (committing : Committing s) (owned : Owned s)
    (drained : Drained s) (linked : Linked s) (stays : StaysInGroup s event)
    (goesOut : SendsCommits s event) (move : EventMove s event s') : Committing s' := by
  -- a step that changes no transaction in what this file is about, and no group
  have elsewhere : ∀ {after : TxSystem ι}, (∀ x, Alike (after.server.tx x) (s.server.tx x)) →
      (∀ n, (after.server.txg n).ccbList = (s.server.txg n).ccbList) →
      after.callback = s.callback → after.server.openTxg = s.server.openTxg →
      after.server.wbTxg = s.server.wbTxg → after.ended = s.ended → after.sent = s.sent →
      Committing after := by
    intro after alike lists callback openTxg wbTxg ended sent
    refine committing.unchanged alike lists (fun n x => ?_) (fun n back => ?_) ended sent
    · rw [TxSystem.Visited, TxSystem.Visited, lists, callback]
    · rw [TxSystem.WrittenBack, openTxg, wbTxg]
      exact back
  have alikeAt : ∀ {x : Nat} {tx : Tx}, Alike tx (s.server.tx x) →
      ∀ y, Alike ((setTx s.server x tx).tx y) (s.server.tx y) := by
    intro x tx alike y
    simp only [setTx, Function.update_apply]
    split
    · rename_i same
      rw [same]
      exact alike
    · exact .refl _
  cases move with
  | take i op req memory x rest idle quiet free head =>
    exact elsewhere (fun _ => .refl _) (fun _ => rfl) rfl rfl rfl rfl rfl
  | grow i op req idle quiet used =>
    exact elsewhere (fun _ => .refl _) (fun _ => rfl) rfl rfl rfl rfl rfl
  | noMemory i op req => exact committing
  | reassign i job running stage =>
    refine elsewhere (fun _ => .refl _) (fun n => ?_) rfl rfl rfl rfl rfl
    simp only [moved_server, txgGet, setGroup, Function.update_apply]
    split
    · rename_i here
      rw [here]
    · rfl
  | reply i err rpy job running stage =>
    exact elsewhere (alikeAt ⟨rfl, rfl, rfl, rfl⟩) (fun _ => rfl) rfl rfl rfl rfl rfl
  | statfs i rpy job running stage =>
    exact elsewhere (alikeAt ⟨rfl, rfl, rfl, rfl⟩) (fun _ => rfl) rfl rfl rfl rfl rfl
  | drop i job running stage =>
    exact elsewhere (fun _ => .refl _) (fun _ => rfl) rfl rfl rfl rfl rfl
  | step i sends job s' running move => exact committing.of_step owned drained linked running move
  | overwrite i j job s' running stage move => exact stays.elim
  | switch free =>
    refine committing.unchanged (fun _ => .refl _) linked.lists_of_switch (fun n x => ?_)
      (fun n back => ⟨Nat.lt_succ_of_lt back.1, fun same => ?_⟩) rfl rfl
    · rw [TxSystem.Visited, TxSystem.Visited, linked.lists_of_switch]
    · have : s.server.openTxg = n := Option.some.inj same
      exact absurd back.1 (by omega)
  | commit n wb unused =>
    -- the commit thread of the group starts
    have idle : s.callback n = none := by
      by_contra active
      exact (drained.active n active).2 wb
    refine committing.unchanged (fun _ => .refl _) (fun _ => rfl) (fun m x => ?_)
      (fun m back => ⟨back.1, (by rintro ⟨⟩)⟩) rfl rfl
    by_cases here : m = n
    · simp [TxSystem.Visited, here, idle]
    · simp [TxSystem.Visited, here]
  | visitEnd n sends active list =>
    refine committing.unchanged (fun _ => .refl _) (fun _ => rfl) (fun m x => ?_)
      (fun _ back => back) rfl rfl
    by_cases here : m = n
    · simp [TxSystem.Visited, here, list]
    · simp [TxSystem.Visited, here]
  | visitSkip n x sends rest active list skips =>
    have past := committing.comes owned drained linked active (x := x) (by rw [list]; simp)
    rcases past with is | is <;> rw [is] at skips <;> exact absurd skips (by decide)
  | visitNormal n x sends rest active list ended normal =>
    obtain rfl := goesOut active x (by rw [list]; rfl) normal
    exact committing.of_visit owned drained linked active (by rw [list]; rfl) rfl rfl rfl
      (Or.inl rfl) (Or.inr ⟨rfl, normal⟩)
  | visitOther n x sends rest active list ended other =>
    exact committing.of_visit owned drained linked active (by rw [list]; rfl) rfl rfl rfl
      (Or.inr rfl) (Or.inl ⟨rfl, other⟩)
  | callbackFree n x sends rest active list used quiet =>
    refine committing.unchanged (fun _ => .refl _) (fun _ => rfl) (fun m x => ?_)
      (fun _ back => back) rfl rfl
    by_cases here : m = n
    · simp [TxSystem.Visited, here, active, lruAdd]
    · simp [TxSystem.Visited, here, lruAdd]
  | callbackDel n x sends rest active list => exact committing.of_del linked active list rfl rfl rfl rfl
  | sweep x quiet free hashed =>
    exact elsewhere (fun _ => .refl _) (fun _ => rfl) rfl rfl rfl rfl rfl
  | sweepStep x phase server next sweeping evicts =>
    obtain ⟨frame, tx, txg, -, -⟩ := evictStep_frame evicts
    exact elsewhere (fun y => by rw [tx]; exact .refl _) (fun n => by rw [txg]) rfl frame.openTxg
      frame.wbTxg rfl rfl
  | search x hashed =>
    exact elsewhere (alikeAt ⟨rfl, rfl, rfl, rfl⟩) (fun _ => rfl) rfl rfl rfl rfl rfl
  | put x held => exact elsewhere (alikeAt ⟨rfl, rfl, rfl, rfl⟩) (fun _ => rfl) rfl rfl rfl rfl rfl

/-- A commit thread comes to transactions that are over; it sends COMMIT messages, once each, of
transactions that were done with success in its group, when that is written back; and when it is
through, every such transaction has its message. -/
structure CommitsWrittenBack (s : TxSystem ι) : Prop where
  past : ∀ n x, s.callback n = some .visit → (s.server.txg n).ccbList.head? = some x →
    TxState.done.rank ≤ (s.server.tx x).state.rank
  sent : ∀ p ∈ s.sent, p ∈ s.ended ∧ s.WrittenBack p.2
  once : s.sent.Nodup
  single : (s.ended.map Prod.fst).Nodup
  complete : ∀ p ∈ s.ended, s.WrittenBack p.2 → s.callback p.2 = none → p ∈ s.sent

omit [DecidableEq ι] in
theorem Committing.result (committing : Committing s) (owned : Owned s) (drained : Drained s)
    (linked : Linked s) : CommitsWrittenBack s where
  past := by
    intro n x active head
    rcases committing.comes owned drained linked active (List.mem_of_mem_head? head) with is | is
    · rw [is]
    · rw [is]
      decide
  sent := committing.sent
  once := committing.once
  single := linked.single
  complete := by
    intro p isEnded back idle
    refine (committing.covered p isEnded).resolve_right ?_
    rintro ⟨x, here, -⟩
    rw [drained.empty p.2 back idle] at here
    cases here

end Commits

end Hvfs
