/-
This file says once what each call on a transaction does to the server, as one
change of its state: a transaction is taken from the free list or allocated,
it is settled by a reply or by `mds_free_tx`, or a group is committed with all
the transactions of its callback list.

`mds_pre_free_tx` may run along the way. It only takes transactions out of the
hash table and frees their messages, so the server without its hash table and
without account of the messages, the *quiet* server, does not see it.
-/

import Hvfs.Tx
import Mathlib.Tactic.Tauto

namespace Hvfs

/-! ### Evicting -/

section Evict

variable {s : TxServer} {x : Nat}

/-- The server without its hash table and its account of messages. -/
def TxServer.quiet (s : TxServer) : TxServer :=
  { s with
    hashed := fun _ => false
    msgs := 0
    freed := [] }

theorem quiet_tx {other : TxServer} (same : other.quiet = s.quiet) : other.tx = s.tx := by
  have field : other.quiet.tx = s.quiet.tx := by rw [same]
  exact field

theorem quiet_lru {other : TxServer} (same : other.quiet = s.quiet) : other.lru = s.lru := by
  have field : other.quiet.lru = s.quiet.lru := by rw [same]
  exact field

theorem quiet_txg {other : TxServer} (same : other.quiet = s.quiet) : other.txg = s.txg := by
  have field : other.quiet.txg = s.quiet.txg := by rw [same]
  exact field

/-- A server with the same quiet server differs in its hash table and its account of messages. -/
theorem eq_of_quiet {other : TxServer} (same : other.quiet = s.quiet) : other = { s with
    hashed := other.hashed
    msgs := other.msgs
    freed := other.freed } := by
  cases s
  cases other
  simp only [TxServer.quiet, TxServer.mk.injEq] at same
  simp only [TxServer.mk.injEq]
  tauto

/-- The server after a transaction has been evicted. -/
def evicted (s : TxServer) (x : Nat) : TxServer :=
  { s with
    hashed := Function.update s.hashed x false
    freed := s.freed ++ (s.tx x).messages }

/-- An eviction neither waits nor fails in its assertion. -/
structure Evictable (tx : Tx) : Prop where
  ref : tx.ref ≤ 1
  ended : TxState.done.rank ≤ tx.state.rank

theorem mdsTxcEvict_eq (ready : Evictable (s.tx x)) : mdsTxcEvict s x = some (evicted s x) := by
  unfold mdsTxcEvict
  rw [if_neg (Int.not_lt.mpr ready.ref), if_neg (Nat.not_lt.mpr ready.ended)]
  rfl

theorem mdsTxcEvict_some {next : TxServer} (result : mdsTxcEvict s x = some next) :
    Evictable (s.tx x) ∧ next = evicted s x := by
  unfold mdsTxcEvict at result
  split at result
  · cases result
  · next alone =>
    split at result
    · cases result
    · next ended =>
      cases result
      exact ⟨⟨Int.not_lt.mp alone, Nat.not_lt.mp ended⟩, rfl⟩

/-- A loop of evictions that goes through leaves the quiet server as it is. -/
theorem preFreeLoop_quiet {xs : List Nat} {next : TxServer}
    (result : preFreeLoop xs s = some next) : next.quiet = s.quiet := by
  induction xs generalizing s with
  | nil =>
    cases result
    rfl
  | cons y rest inductionHypothesis =>
    unfold preFreeLoop at result
    split at result
    · obtain ⟨middle, evict, rest⟩ := Option.bind_eq_some_iff.mp result
      rw [inductionHypothesis rest, (mdsTxcEvict_some evict).2]
      rfl
    · exact inductionHypothesis result

theorem mdsPreFreeTx_quiet {goes : Bool} {next : TxServer}
    (result : mdsPreFreeTx s goes = some next) : next.quiet = s.quiet := by
  cases goes with
  | false =>
    cases result
    rfl
  | true => exact preFreeLoop_quiet result

/-- What an invariant has to know of the evictions: each of them keeps it. -/
theorem preFreeLoop_invariant {invariant : TxServer → Prop} {xs : List Nat} {next : TxServer}
    (kept : ∀ s y, invariant s → s.hashed y = true → Evictable (s.tx y) → invariant (evicted s y))
    (result : preFreeLoop xs s = some next) (initial : invariant s) : invariant next := by
  induction xs generalizing s with
  | nil =>
    cases result
    exact initial
  | cons y rest inductionHypothesis =>
    unfold preFreeLoop at result
    split at result
    · next member =>
      obtain ⟨middle, evict, rest⟩ := Option.bind_eq_some_iff.mp result
      obtain ⟨ready, rfl⟩ := mdsTxcEvict_some evict
      exact inductionHypothesis rest (kept s y initial member ready)
    · exact inductionHypothesis result initial

theorem mdsPreFreeTx_invariant {invariant : TxServer → Prop} {goes : Bool} {next : TxServer}
    (kept : ∀ s y, invariant s → s.hashed y = true → Evictable (s.tx y) → invariant (evicted s y))
    (result : mdsPreFreeTx s goes = some next) (initial : invariant s) : invariant next := by
  cases goes with
  | false =>
    cases result
    exact initial
  | true => exact preFreeLoop_invariant kept result initial

/-- The loop goes through when every hashed transaction on its way may be evicted. -/
theorem preFreeLoop_progress {xs : List Nat}
    (ready : ∀ y ∈ xs, s.hashed y = true → Evictable (s.tx y)) :
    ∃ next, preFreeLoop xs s = some next := by
  induction xs generalizing s with
  | nil => exact ⟨s, rfl⟩
  | cons y rest inductionHypothesis =>
    unfold preFreeLoop
    split
    · next member =>
      rw [mdsTxcEvict_eq (ready y List.mem_cons_self member)]
      refine inductionHypothesis fun z later hashed => ?_
      refine ready z (List.mem_cons_of_mem _ later) ?_
      by_cases same : z = y
      · rw [same]
        exact member
      · rw [← hashed]
        exact (Function.update_of_ne same ..).symm
    · exact inductionHypothesis fun z later => ready z (List.mem_cons_of_mem _ later)

theorem mdsPreFreeTx_progress {goes : Bool}
    (ready : ∀ y ∈ s.lru, s.hashed y = true → Evictable (s.tx y)) :
    ∃ next, mdsPreFreeTx s goes = some next := by
  cases goes with
  | false => exact ⟨s, rfl⟩
  | true => exact preFreeLoop_progress fun y member => ready y (List.mem_of_mem_take member)

/-- What the hash table promises: a hashed transaction has been one, and no reference is taken
besides that of its request. -/
structure TableReady (s : TxServer) : Prop where
  used : ∀ y, s.hashed y = true → (s.tx y).state ≠ .fresh
  alone : ∀ y, (s.tx y).ref ≤ 1

/-- The free transactions may be evicted. -/
theorem TableReady.evictable {y : Nat} (ready : TableReady s) (hashed : s.hashed y = true)
    (idle : (s.tx y).state ≠ .processing) : Evictable (s.tx y) := by
  refine ⟨ready.alone y, ?_⟩
  have used := ready.used y hashed
  cases state : (s.tx y).state with
  | fresh => exact absurd state used
  | processing => exact absurd state idle
  | done | acked | commited => decide

theorem TableReady.evicted {y : Nat} (ready : TableReady s) : TableReady (evicted s y) where
  used z hashed := by
    by_cases same : z = y
    · rw [same] at hashed
      rw [show (Hvfs.evicted s y).hashed y = false from Function.update_self ..] at hashed
      cases hashed
    · exact ready.used z ((Function.update_of_ne same ..).symm.trans hashed)
  alone := ready.alone

theorem TableReady.preFree {goes : Bool} {next : TxServer} (ready : TableReady s)
    (result : mdsPreFreeTx s goes = some next) : TableReady next :=
  mdsPreFreeTx_invariant (fun _ _ ready _ _ => ready.evicted) result ready

theorem TableReady.setTx {tx : Tx} (ready : TableReady s) (used : tx.state ≠ .fresh)
    (alone : tx.ref ≤ 1) : TableReady (setTx s x tx) where
  used z hashed := by
    by_cases same : z = x
    · rw [same]
      rwa [show (Hvfs.setTx s x tx).tx x = tx from Function.update_self ..]
    · rw [show (Hvfs.setTx s x tx).tx z = s.tx z from Function.update_of_ne same ..]
      exact ready.used z hashed
  alone z := by
    by_cases same : z = x
    · rw [same]
      rwa [show (Hvfs.setTx s x tx).tx x = tx from Function.update_self ..]
    · rw [show (Hvfs.setTx s x tx).tx z = s.tx z from Function.update_of_ne same ..]
      exact ready.alone z

/-- Nothing on the free list is in use. -/
def FreeIdle (s : TxServer) : Prop := ∀ y ∈ s.lru, (s.tx y).state ≠ .processing

theorem preFree_progress (goes : Bool) (ready : TableReady s) (idle : FreeIdle s) :
    ∃ next, mdsPreFreeTx s goes = some next :=
  mdsPreFreeTx_progress fun y member hashed => ready.evictable hashed (idle y member)

end Evict

/-! ### Settling -/

section Settle

variable {s : TxServer} {x : Nat}

/-- The server after a transaction has left PROCESSING and is now `tx`: its reference to its group
is put, and with `free` it goes to the free list. -/
def settle (s : TxServer) (x : Nat) (tx : Tx) (free : Bool) : TxServer :=
  let s := txgPut (setTx s x tx) (s.tx x).txg
  if free then lruAdd s x else s

/-- The level a reply leaves its transaction at: an error rewrites it to FORGET. -/
def replyOp (op : TxOp) (err : Int) : TxOp := if err = 0 then op else .forget

/-- A transaction after `mds_free_tx`. -/
def droppedTx (tx : Tx) : Tx :=
  { tx with
    state := .done
    ref := tx.ref - 1 }

/-- A transaction after its reply. -/
def repliedTx (tx : Tx) : Tx :=
  { tx with
    state := .acked
    ref := tx.ref - 1 }

/-- A dropped transaction is settled. -/
theorem mdsFreeTx_quiet {next : TxServer} (result : mdsFreeTx s x = some next) :
    next.quiet = (settle s x (droppedTx (s.tx x)) true).quiet := by
  unfold mdsFreeTx at result
  split at result
  · cases result
  · obtain ⟨middle, evict, rfl⟩ := Option.map_eq_some_iff.mp result
    rw [(mdsTxcEvict_some evict).2]
    simp only [TxServer.quiet, evicted, setState, mdsPutTx, setTx, txgPut, setGroup, lruAdd,
      settle, droppedTx, Function.update_self, Function.update_idem, if_true]

/-- `mds_free_tx` goes through. -/
theorem mdsFreeTx_progress (table : TableReady s) (off : x ∉ s.lru) :
    ∃ next, mdsFreeTx s x = some next ∧ TableReady next := by
  have stored : (setState s x .done).tx x = { s.tx x with state := .done } :=
    Function.update_self ..
  have ready : Evictable ((setState s x .done).tx x) := by
    rw [stored]
    exact ⟨table.alone x, Nat.le_refl _⟩
  have marked : TableReady (setState s x .done) :=
    table.setTx TxState.noConfusion (table.alone x)
  have ended : TableReady (evicted (setState s x .done) x) := marked.evicted
  have put : TableReady (mdsPutTx (evicted (setState s x .done) x) x) := by
    refine ended.setTx (x := x) ?_
      (Int.le_trans (Int.sub_le_self _ (by decide)) (ended.alone x))
    change ((setState s x .done).tx x).state ≠ .fresh
    rw [stored]
    exact TxState.noConfusion
  unfold mdsFreeTx
  rw [if_neg off, mdsTxcEvict_eq ready]
  exact ⟨_, rfl, ⟨put.used, put.alone⟩⟩

theorem setOp_reply (err : Int) :
    (if err = 0 then s else setOp s x .forget) = setOp s x (replyOp (s.tx x).op err) := by
  unfold replyOp
  by_cases success : err = 0
  · rw [if_pos success, if_pos success]
    simp only [setOp, setTx, Function.update_eq_self]
  · rw [if_neg success, if_neg success]

theorem FreeIdle.setTx {tx : Tx} (idle : FreeIdle s) (ended : tx.state ≠ .processing) :
    FreeIdle (setTx s x tx) := by
  intro y member
  by_cases same : y = x
  · rw [same]
    rwa [show (Hvfs.setTx s x tx).tx x = tx from Function.update_self ..]
  · rw [show (Hvfs.setTx s x tx).tx y = s.tx y from Function.update_of_ne same ..]
    exact idle y member

theorem FreeIdle.lruAdd (idle : FreeIdle s) (ended : (s.tx x).state ≠ .processing) :
    FreeIdle (lruAdd s x) := by
  intro y member
  rcases List.mem_append.mp member with before | added
  · exact idle y before
  · rw [List.mem_singleton.mp added]
    exact ended

theorem TableReady.lruAdd (ready : TableReady s) : TableReady (lruAdd s x) :=
  ⟨ready.used, ready.alone⟩

theorem FreeIdle.quiet {other : TxServer} (idle : FreeIdle s) (same : other.quiet = s.quiet) :
    FreeIdle other := by
  intro y member
  rw [quiet_tx same]
  exact idle y (quiet_lru same ▸ member)

/-- `mds_tx_done` goes through. -/
theorem mdsTxDone_progress (ready : TableReady s) (idle : FreeIdle s)
    (processing : (s.tx x).state = .processing) (goes : Bool) :
    ∃ next, mdsTxDone s x goes = some next ∧ TableReady next ∧ FreeIdle next := by
  have stored : (mdsPutTx (setState s x .done) x).tx x = droppedTx (s.tx x) := by
    simp only [mdsPutTx, setState, setTx, droppedTx, Function.update_self]
  have changed : mdsPutTx (setState s x .done) x = setTx s x (droppedTx (s.tx x)) := by
    simp only [mdsPutTx, setState, setTx, droppedTx, Function.update_self, Function.update_idem]
  have ended : (droppedTx (s.tx x)).state ≠ .processing := TxState.noConfusion
  have alone : (droppedTx (s.tx x)).ref ≤ 1 :=
    Int.le_trans (Int.sub_le_self _ (by decide)) (ready.alone x)
  have ready' : TableReady (mdsPutTx (setState s x .done) x) :=
    changed ▸ ready.setTx TxState.noConfusion alone
  have idle' : FreeIdle (mdsPutTx (setState s x .done) x) := changed ▸ idle.setTx ended
  have listed : FreeIdle (lruAdd (mdsPutTx (setState s x .done) x) x) :=
    idle'.lruAdd (by rw [stored]; exact ended)
  unfold mdsTxDone
  rw [if_pos processing]
  simp only
  split
  · obtain ⟨freed, preFree⟩ := preFree_progress goes ready'.lruAdd listed
    have kept := ready'.lruAdd.preFree preFree
    have still : FreeIdle freed := listed.quiet (mdsPreFreeTx_quiet preFree)
    rw [preFree]
    exact ⟨_, rfl, ⟨kept.used, kept.alone⟩, still⟩
  · exact ⟨_, rfl, ⟨ready'.used, ready'.alone⟩, idle'⟩

/-- `mds_tx_reply` goes through. -/
theorem mdsTxReply_progress (ready : TableReady s) (idle : FreeIdle s) (goes : Bool) :
    ∃ next, mdsTxReply s x goes = some next ∧ TableReady next := by
  have ended : ({ s.tx x with state := .acked } : Tx).state ≠ .processing := TxState.noConfusion
  have ready' : TableReady (setState s x .acked) :=
    ready.setTx TxState.noConfusion (ready.alone x)
  have idle' : FreeIdle (setState s x .acked) := idle.setTx ended
  have stored : (setState s x .acked).tx x = { s.tx x with state := .acked } :=
    Function.update_self ..
  unfold mdsTxReply
  split
  · simp only
    split
    · obtain ⟨freed, preFree⟩ := preFree_progress goes ready'.lruAdd
        (idle'.lruAdd (x := x) (by rw [stored]; exact ended))
      exact ⟨freed, preFree, ready'.lruAdd.preFree preFree⟩
    · exact ⟨_, rfl, ready'⟩
  · exact ⟨_, rfl, ready⟩

/-- A transaction that is done and acknowledged is settled, and it is free unless it is NORMAL. -/
theorem done_reply (processing : (s.tx x).state = .processing) {goes : Bool}
    {middle next : TxServer} (done : mdsTxDone s x goes = some middle)
    (reply : mdsTxReply middle x goes = some next) :
    next.quiet =
      (settle s x (repliedTx (s.tx x)) (decide ((s.tx x).op ≠ .normal))).quiet := by
  have low : TxState.done.rank ≤ TxState.done.rank := Nat.le_refl _
  have ended : (mdsPutTx (setState s x .done) x).tx x = droppedTx (s.tx x) := by
    simp only [mdsPutTx, setState, setTx, droppedTx, Function.update_self]
  unfold mdsTxDone at done
  rw [if_pos processing] at done
  cases level : (s.tx x).op with
  | normal =>
    simp only [ended, droppedTx, level, reduceCtorEq, if_false, Option.map_some,
      Option.some.injEq] at done
    subst done
    simp only [mdsTxReply, txgPut, mdsPutTx, setState, setTx, setGroup, level, low,
      Function.update_self, Function.update_idem, if_true, if_false, reduceCtorEq,
      Option.some.injEq] at reply
    subst reply
    simp only [TxServer.quiet, settle, txgPut, setTx, setGroup, repliedTx, level, ne_eq,
      not_true_eq_false, decide_false, Bool.false_eq_true, if_false]
  | nocommit =>
    simp only [ended, droppedTx, level, reduceCtorEq, if_false, Option.map_some,
      Option.some.injEq] at done
    subst done
    simp only [mdsTxReply, txgPut, mdsPutTx, setState, setTx, setGroup, level, low,
      Function.update_self, Function.update_idem, if_true] at reply
    rw [mdsPreFreeTx_quiet reply]
    simp only [TxServer.quiet, settle, txgPut, setTx, setGroup, lruAdd, repliedTx, level, ne_eq,
      reduceCtorEq, not_false_eq_true, decide_true, if_true]
  | forget =>
    simp only [ended, droppedTx, level, if_true] at done
    obtain ⟨freed, preFree, done⟩ := Option.map_eq_some_iff.mp done
    have same := mdsPreFreeTx_quiet preFree
    have stored : freed.tx x = droppedTx (s.tx x) := by
      rw [quiet_tx same]
      exact ended
    have acknowledged : next = setState (txgPut freed (freed.tx x).txg) x .acked := by
      cases done
      have kept : (setState (txgPut freed (freed.tx x).txg) x .acked).tx x =
          { freed.tx x with state := .acked } := Function.update_self ..
      have low : ((txgPut freed (freed.tx x).txg).tx x).state.rank ≤ TxState.done.rank := by
        change (freed.tx x).state.rank ≤ _
        rw [stored]
        exact Nat.le_refl _
      unfold mdsTxReply at reply
      rw [if_pos low] at reply
      simp only [kept] at reply
      rw [if_neg (by rw [stored]; simp only [droppedTx, level]; decide)] at reply
      exact (Option.some.inj reply).symm
    have quieted : next.quiet = setState (txgPut freed.quiet (s.tx x).txg) x .acked := by
      rw [acknowledged, stored]
      rfl
    rw [quieted, same]
    simp only [TxServer.quiet, settle, txgPut, mdsPutTx, setState, setTx, setGroup, lruAdd,
      repliedTx, level, Function.update_self, Function.update_idem, ne_eq, reduceCtorEq,
      not_false_eq_true, decide_true, if_true]

/-- A transaction whose reply goes out with the given error. -/
def answeredTx (tx : Tx) (err : Int) (rpy : Option Nat) : Tx :=
  repliedTx { tx with
    op := replyOp tx.op err
    rpy := rpy }

theorem setOp_setRpy (err : Int) :
    setOp (setRpy s x true) x (replyOp ((setRpy s x true).tx x).op err) =
      { setTx s x { s.tx x with
          op := replyOp (s.tx x).op err
          rpy := some s.msgs } with
        msgs := s.msgs + 1 } := by
  simp only [setOp, setRpy, setTx, Function.update_self, Function.update_idem, if_true]

theorem mdsSendReply_true (err : Int) (goes : Bool) : mdsSendReply s x err true goes =
    (mdsTxDone (setOp (setRpy s x true) x (replyOp ((setRpy s x true).tx x).op err)) x goes).bind
      fun s => mdsTxReply s x goes := by
  unfold mdsSendReply
  simp only [if_true, setOp_reply]

/-- A reply settles its transaction. -/
theorem mdsSendReply_quiet (processing : (s.tx x).state = .processing) {err : Int} {goes : Bool}
    {next : TxServer} (result : mdsSendReply s x err true goes = some next) :
    next.quiet = (settle s x (answeredTx (s.tx x) err (some s.msgs))
      (decide (replyOp (s.tx x).op err ≠ .normal))).quiet := by
  have stored : (setOp (setRpy s x true) x (replyOp ((setRpy s x true).tx x).op err)).tx x =
      { s.tx x with
        op := replyOp (s.tx x).op err
        rpy := some s.msgs } := by
    simp only [setOp, setRpy, setTx, Function.update_self, if_true]
  rw [mdsSendReply_true] at result
  obtain ⟨middle, done, reply⟩ := Option.bind_eq_some_iff.mp result
  rw [done_reply (by rw [stored]; exact processing) done reply, stored]
  simp only [TxServer.quiet, settle, answeredTx, repliedTx, setOp, setRpy, setTx, txgPut,
    setGroup, lruAdd, Function.update_self, Function.update_idem]
  split <;> rfl

/-- A reply goes through. -/
theorem mdsSendReply_progress (ready : TableReady s) (idle : FreeIdle s)
    (processing : (s.tx x).state = .processing) (err : Int) (goes : Bool) :
    ∃ next, mdsSendReply s x err true goes = some next ∧ TableReady next := by
  have used : ({ s.tx x with
      op := replyOp (s.tx x).op err
      rpy := some s.msgs } : Tx).state ≠ .fresh := by
    change (s.tx x).state ≠ .fresh
    rw [processing]
    exact TxState.noConfusion
  have ready' := ready.setTx (x := x) used (ready.alone x)
  have idle' : FreeIdle (setOp (setRpy s x true) x (replyOp ((setRpy s x true).tx x).op err)) := by
    intro y member
    have here : y ≠ x := fun same => idle x (same ▸ member) processing
    rw [setOp_setRpy]
    change (Function.update s.tx x _ y).state ≠ .processing
    rw [Function.update_of_ne here]
    exact idle y member
  have running : ((setOp (setRpy s x true) x (replyOp ((setRpy s x true).tx x).op err)).tx
      x).state = .processing := by
    rw [setOp_setRpy]
    change (Function.update s.tx x _ x).state = .processing
    rw [Function.update_self]
    exact processing
  obtain ⟨middle, done, table, free⟩ := mdsTxDone_progress
    (by rw [setOp_setRpy]; exact ⟨ready'.used, ready'.alone⟩) idle' running goes
  obtain ⟨next, reply, table⟩ := mdsTxReply_progress (x := x) table free goes
  refine ⟨next, ?_, table⟩
  rw [mdsSendReply_true, done]
  exact reply

/-- A reply without memory for its message drops its transaction. -/
theorem mdsSendReply_drop_quiet {err : Int} {goes : Bool} {next : TxServer}
    (result : mdsSendReply s x err false goes = some next) :
    next.quiet = (settle s x (droppedTx { s.tx x with rpy := none }) true).quiet := by
  have stored : (setRpy s x false).tx x = { s.tx x with rpy := none } := Function.update_self ..
  have dropped : mdsFreeTx (setRpy s x false) x = some next := result
  rw [mdsFreeTx_quiet dropped, stored]
  simp only [TxServer.quiet, settle, setRpy, setTx, txgPut, setGroup, lruAdd,
    Function.update_self, Function.update_idem, if_true]

theorem mdsSendReply_drop_progress (table : TableReady s) (off : x ∉ s.lru)
    (processing : (s.tx x).state = .processing) (err : Int) (goes : Bool) :
    ∃ next, mdsSendReply s x err false goes = some next ∧ TableReady next := by
  have used : ({ s.tx x with rpy := none } : Tx).state ≠ .fresh := by
    change (s.tx x).state ≠ .fresh
    rw [processing]
    exact TxState.noConfusion
  have ready := table.setTx (x := x) used (table.alone x)
  exact mdsFreeTx_progress (s := setRpy s x false) ⟨ready.used, ready.alone⟩ off

end Settle

/-! ### Committing -/

section Commit

variable {s : TxServer} {n : Nat}

/-- The server after the callbacks of group `n`: the transactions `xs` are COMMITED and free. -/
def committed (s : TxServer) (n : Nat) (xs : List Nat) : TxServer :=
  { setGroup s n { s.txg n with ccbList := [] } with
    tx := fun k => if k ∈ xs then { s.tx k with state := .commited } else s.tx k
    lru := s.lru ++ xs
    ftx := s.ftx + xs.length }

/-- A transaction that the callbacks of its group may commit. -/
structure Commitable (tx : Tx) : Prop where
  normal : tx.op = .normal
  ended : tx.state = .done ∨ tx.state = .acked

theorem mdsTxCommit_eq {x : Nat} {sends goes : Bool} (ready : Commitable (s.tx x))
    (off : x ∉ s.lru) :
    mdsTxCommit s x sends goes = (mdsPreFreeTx (lruAdd (setState s x .commited) x) goes).map
      fun freed => (txSendCommitMsg (s.tx x) sends, freed) := by
  have ended : ¬ (s.tx x).state.rank < TxState.done.rank ∧
      (s.tx x).state.rank ≤ TxState.acked.rank := by
    rcases ready.ended with ended | ended <;> rw [ended] <;> decide
  have stored : (setState s x .commited).tx x = { s.tx x with state := .commited } :=
    Function.update_self ..
  unfold mdsTxCommit
  rw [if_neg ended.1, if_pos ended.2]
  simp only [stored, ready.normal, if_true]
  exact if_neg off

theorem committed_nil (list : (s.txg n).ccbList = []) : committed s n [] = s := by
  have same : setGroup s n { s.txg n with ccbList := [] } = s := by
    rw [← list]
    simp only [setGroup, Function.update_eq_self]
  have none_more : s.ftx + (([] : List Nat).length : Int) = s.ftx := Int.add_zero _
  unfold committed
  simp only [same, List.not_mem_nil, if_false, List.append_nil, none_more]

theorem committed_cons {x : Nat} {rest : List Nat} (fresh : x ∉ rest) :
    committed (ccbDel (lruAdd (setState s x .commited) x) n x) n rest =
      committed s n (x :: rest) := by
  have lists : (s.lru ++ [x]) ++ rest = s.lru ++ x :: rest := List.append_assoc ..
  have counts : s.ftx + 1 + (rest.length : Int) = s.ftx + ((x :: rest).length : Int) := by
    rw [List.length_cons]
    omega
  have objects : (fun k => if k ∈ rest then
      { Function.update s.tx x { s.tx x with state := .commited } k with
        state := TxState.commited }
      else Function.update s.tx x { s.tx x with state := .commited } k) =
      fun k => if k ∈ x :: rest then { s.tx k with state := .commited } else s.tx k := by
    funext k
    by_cases here : k = x
    · rw [here, Function.update_self, if_neg fresh, if_pos List.mem_cons_self]
    · rw [Function.update_of_ne here]
      simp only [List.mem_cons, here, false_or]
  simp only [committed, ccbDel, lruAdd, setState, setTx, setGroup, Function.update_self,
    Function.update_idem, lists, counts, objects]

/-- The callbacks commit every transaction of the list, when each is ready and none is free. -/
theorem triggerLoop_eq {xs : List Nat} (sends goes : Nat → Bool) (table : TableReady s)
    (idle : FreeIdle s) (list : (s.txg n).ccbList = xs) (distinct : xs.Nodup)
    (ready : ∀ x ∈ xs, Commitable (s.tx x)) (off : ∀ x ∈ xs, x ∉ s.lru) :
    ∃ next, triggerLoop sends goes n xs s =
        some (xs.flatMap (fun x => txSendCommitMsg (s.tx x) (sends x)), next) ∧
      TableReady next ∧ next.quiet = (committed s n xs).quiet := by
  induction xs generalizing s with
  | nil => exact ⟨s, rfl, table, by rw [committed_nil list]⟩
  | cons x rest inductionHypothesis =>
    obtain ⟨fresh, distinct⟩ := List.nodup_cons.mp distinct
    have stored : (setState s x .commited).tx x = { s.tx x with state := .commited } :=
      Function.update_self ..
    have table' : TableReady (lruAdd (setState s x .commited) x) :=
      TableReady.lruAdd (table.setTx TxState.noConfusion (table.alone x))
    have idle' : FreeIdle (lruAdd (setState s x .commited) x) :=
      FreeIdle.lruAdd (FreeIdle.setTx idle TxState.noConfusion)
        (by rw [stored]; exact TxState.noConfusion)
    obtain ⟨freed, preFree⟩ := preFree_progress (goes x) table' idle'
    have quiet := mdsPreFreeTx_quiet preFree
    have freedTable := table'.preFree preFree
    have other : ∀ y ∈ rest, y ≠ x := fun y member same => fresh (same ▸ member)
    have kept : ∀ y ∈ rest, (ccbDel freed n x).tx y = s.tx y := by
      intro y member
      change freed.tx y = _
      rw [quiet_tx quiet]
      exact Function.update_of_ne (other y member) ..
    have groups : freed.txg = s.txg := (quiet_txg quiet).trans rfl
    have frees : freed.lru = s.lru ++ [x] := (quiet_lru quiet).trans rfl
    obtain ⟨next, loop, ended, same⟩ := inductionHypothesis (s := ccbDel freed n x)
      ⟨freedTable.used, freedTable.alone⟩ (idle'.quiet quiet : FreeIdle freed)
      (by
        simp only [ccbDel, setGroup, Function.update_self, groups, list]
        exact List.erase_cons_head ..)
      distinct
      (fun y member => by
        rw [kept y member]
        exact ready y (List.mem_cons_of_mem _ member))
      (fun y member onList => by
        rcases List.mem_append.mp (frees ▸ onList : y ∈ s.lru ++ [x]) with before | added
        · exact off y (List.mem_cons_of_mem _ member) before
        · exact other y member (List.mem_singleton.mp added))
    have messages : (rest.flatMap fun y => txSendCommitMsg ((ccbDel freed n x).tx y) (sends y)) =
        rest.flatMap fun y => txSendCommitMsg (s.tx y) (sends y) :=
      List.flatMap_congr fun y member => by rw [kept y member]
    refine ⟨next, ?_, ended, ?_⟩
    · unfold triggerLoop
      rw [mdsTxCommit_eq (ready x List.mem_cons_self) (off x List.mem_cons_self), preFree]
      simp only [Option.map_some, Option.bind_some]
      rw [loop, messages]
      rfl
    · have step : (committed (ccbDel freed n x) n rest).quiet =
          committed (ccbDel freed.quiet n x) n rest := rfl
      rw [same, step, quiet, ← committed_cons fresh]
      rfl

end Commit

/-! ### Allocating -/

section Alloc

variable {s : TxServer} {x : Nat} {rest : List Nat}

/-- The server without the head of its free list. -/
def takeFree (s : TxServer) (rest : List Nat) : TxServer :=
  { s with
    lru := rest
    ftx := s.ftx - 1 }

/-- The server with one more object. -/
def moreTotal (s : TxServer) : TxServer :=
  { s with total := s.total + 1 }

/-- What `mds_txc_alloc_tx` does: it takes the head of the free list, evicts it when it is in the
hash table, or finds that no transaction is free. -/
theorem mdsTxcAllocTx_cases {taken : Option Nat} {next : TxServer}
    (result : mdsTxcAllocTx s = some (taken, next)) :
    (∃ y rest, taken = some y ∧ 0 < s.ftx ∧ s.lru = y :: rest ∧
      (s.hashed y = true ∧ Evictable (s.tx y) ∧ next = evicted (takeFree s rest) y ∨
        s.hashed y = false ∧ next = takeFree s rest)) ∨
    taken = none ∧ ¬ 0 < s.ftx ∧ next = s := by
  unfold mdsTxcAllocTx at result
  split at result
  · next some_free =>
    rcases head : s.lru with _ | ⟨y, rest⟩
    · rw [head] at result
      cases result
    · rw [head] at result
      have taking : (if s.hashed y then (mdsTxcEvict (takeFree s rest) y).map fun s => (some y, s)
          else some (some y, takeFree s rest)) = some (taken, next) := result
      refine Or.inl ⟨y, rest, ?_⟩
      split at taking
      · next hashed =>
        obtain ⟨middle, evict, same⟩ := Option.map_eq_some_iff.mp taking
        cases same
        obtain ⟨ready, rfl⟩ := mdsTxcEvict_some evict
        exact ⟨rfl, some_free, rfl, Or.inl ⟨hashed, ready, rfl⟩⟩
      · next unhashed =>
        cases taking
        exact ⟨rfl, some_free, rfl, Or.inr ⟨eq_false_of_ne_true unhashed, rfl⟩⟩
  · next none_free =>
    cases result
    exact Or.inr ⟨rfl, none_free, rfl⟩

/-- What `mds_alloc_tx` does: it initialises the object that `mds_txc_alloc_tx` took, or a new one,
or there is no memory. -/
theorem mdsAllocTx_cases {op : TxOp} {req : TxRequest} {memory : Bool} {taken : Option Nat}
    {next : TxServer} (result : mdsAllocTx s op req memory = some (taken, next)) :
    (∃ y middle, taken = some y ∧ mdsTxcAllocTx s = some (some y, middle) ∧
      next = initTx middle y op req) ∨
    (¬ 0 < s.ftx ∧ taken = some s.total ∧ next = initTx (moreTotal s) s.total op req) ∨
    taken = none ∧ next = s := by
  unfold mdsAllocTx at result
  split at result
  · cases result
  · next y middle take =>
    cases result
    exact Or.inl ⟨y, middle, rfl, take, rfl⟩
  · next middle take =>
    rcases mdsTxcAllocTx_cases take with ⟨_, _, some_taken, _⟩ | ⟨_, none_free, rfl⟩
    · cases some_taken
    · split at result
      · cases result
        exact Or.inr (Or.inl ⟨none_free, rfl, rfl⟩)
      · cases result
        exact Or.inr (Or.inr ⟨rfl, rfl⟩)

/-- The object that `mds_alloc_tx` returns. -/
def startedTx (s : TxServer) (x : Nat) (op : TxOp) (req : TxRequest) : Tx :=
  { s.tx x with
    op := op
    state := .processing
    ref := 1
    tx := s.miTx + 1
    reqno := req.reqno
    reqinSite := req.ssiteId
    req := some s.msgs
    txg := s.openTxg }

theorem initTx_tx (op : TxOp) (req : TxRequest) :
    (initTx s x op req).tx = Function.update s.tx x (startedTx s x op req) := rfl

theorem initTx_hashed_ne {op : TxOp} {req : TxRequest} {y : Nat} (other : y ≠ x) :
    (initTx s x op req).hashed y = s.hashed y := by
  simp only [initTx, fixCcb, mdsTxcAdd, txgGet, setGroup, setTx, Function.update_self]
  by_cases forget : op = .forget
  · rw [if_pos forget, Function.update_of_ne other]
  · rw [if_neg forget, Function.update_of_ne other, Function.update_of_ne other]

theorem initTx_hashed {op : TxOp} {req : TxRequest} :
    (initTx s x op req).hashed x = decide (op ≠ .forget) := by
  simp only [initTx, fixCcb, mdsTxcAdd, txgGet, setGroup, setTx, Function.update_self]
  cases op <;> simp

theorem TableReady.initTx (table : TableReady s) (op : TxOp) (req : TxRequest) :
    TableReady (initTx s x op req) where
  used y hashed := by
    rw [initTx_tx]
    by_cases same : y = x
    · rw [same, Function.update_self]
      exact TxState.noConfusion
    · rw [Function.update_of_ne same]
      exact table.used y (initTx_hashed_ne same ▸ hashed)
  alone y := by
    rw [initTx_tx]
    by_cases same : y = x
    · rw [same, Function.update_self]
      exact Int.le_refl _
    · rw [Function.update_of_ne same]
      exact table.alone y

/-- Allocation takes the head of the free list. -/
theorem mdsAllocTx_free (table : TableReady s) (idle : FreeIdle s) (some_free : 0 < s.ftx)
    (head : s.lru = x :: rest) (op : TxOp) (req : TxRequest) (memory : Bool) :
    ∃ next, mdsAllocTx s op req memory = some (some x, next) ∧ TableReady next ∧
      next.quiet = (initTx (takeFree s rest) x op req).quiet := by
  have ready : TableReady (takeFree s rest) := ⟨table.used, table.alone⟩
  have taken : mdsTxcAllocTx s =
      if s.hashed x then (mdsTxcEvict (takeFree s rest) x).map fun s => (some x, s)
      else some (some x, takeFree s rest) := by
    unfold mdsTxcAllocTx
    rw [if_pos some_free, head]
    rfl
  unfold mdsAllocTx
  by_cases hashed : s.hashed x = true
  · have evictable : Evictable ((takeFree s rest).tx x) :=
      table.evictable hashed (idle x (head ▸ List.mem_cons_self))
    rw [taken, if_pos hashed, mdsTxcEvict_eq evictable]
    exact ⟨_, rfl, ready.evicted.initTx op req, rfl⟩
  · rw [taken, if_neg hashed]
    exact ⟨_, rfl, ready.initTx op req, rfl⟩

theorem mdsAllocTx_new {op : TxOp} {req : TxRequest} (none_free : ¬ 0 < s.ftx) :
    mdsAllocTx s op req true = some (some s.total, initTx (moreTotal s) s.total op req) := by
  unfold mdsAllocTx mdsTxcAllocTx
  rw [if_neg none_free]
  rfl

theorem mdsAllocTx_nomem {op : TxOp} {req : TxRequest} (none_free : ¬ 0 < s.ftx) :
    mdsAllocTx s op req false = some (none, s) := by
  unfold mdsAllocTx mdsTxcAllocTx
  rw [if_neg none_free]
  rfl

end Alloc

end Hvfs
