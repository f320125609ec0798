/-
This file is about the messages that a transaction points to: the request in
`tx->req` and the reply in `tx->rpy`. `mds_txc_evict` passes both to
`xnet_free_msg`, when the transaction is recycled, dropped, or swept up by
`mds_pre_free_tx`.

Two things go wrong with it. A FORGET transaction is not in the hash table, so
nobody evicts it after a reply. And neither `mds_txc_evict` nor `mds_alloc_tx`
clears `tx->rpy`, so a request that is dropped before it has a reply of its own
frees the reply of the request before. In the runs without either, every
message is freed once, and before its transaction is used again.
-/

import Hvfs.TxLists

namespace Hvfs

open Transition

/-! ### What is claimed, and when it holds -/

/-- No message is freed twice, and a transaction that is initialised anew has no unfreed message
left. -/
def FreesOnce (s : TxServer) (call : TxCall) : Prop :=
  (∀ next, txStep s call = some next → next.freed.Nodup) ∧
    ∀ op req memory x next, call = .alloc op req memory →
      mdsAllocTx s op req memory = some (some x, next) → ∀ m ∈ (s.tx x).messages, m ∈ next.freed

/-- A FORGET request is not replied to, a request that is dropped before its reply uses an object
without a reply, and no allocation takes an object whose `ccb` node is still linked. -/
def KeepsMessages (s : TxServer) : TxCall → Prop
  | .alloc _ _ _ => 0 < s.ftx → ∀ x, s.lru.head? = some x → s.linked x = false
  | .reply x _ rpy _ => rpy = true → (s.tx x).op ≠ .forget
  | .free x => (s.tx x).rpy = none
  | _ => True

/-! ### The invariant -/

/-- What one object says about the messages that have been freed. -/
structure TxMsgs (freed : List Nat) (msgs : Nat) (tx : Tx) (hashed : Bool) : Prop where
  known : ∀ m ∈ tx.messages, m < msgs
  apart : tx.messages.Nodup
  fresh : tx.state = .fresh → tx.messages = [] ∧ hashed = false
  request : tx.state = .processing → ∀ m ∈ tx.req, m ∉ freed
  reply : tx.state = .processing → ∀ m ∈ tx.rpy, m ∈ freed
  table : tx.state = .processing → hashed = decide (tx.op ≠ .forget)
  pending : TxState.done.rank ≤ tx.state.rank → hashed = true → ∀ m ∈ tx.messages, m ∉ freed
  cleared : TxState.done.rank ≤ tx.state.rank → hashed = false → ∀ m ∈ tx.messages, m ∈ freed

/-- The messages that have been freed are those that no object owes any more. -/
structure MsgGood (s : TxServer) : Prop where
  idle : FreeIdle s
  distinct : s.lru.Nodup
  lru_old : ∀ x ∈ s.lru, x < s.total
  unused : ∀ x, s.total ≤ x → (s.tx x).state = .fresh
  freed_once : s.freed.Nodup
  freed_known : ∀ m ∈ s.freed, m < s.msgs
  owned : ∀ x y m, m ∈ (s.tx x).messages → m ∈ (s.tx y).messages → x = y
  each : ∀ x, TxMsgs s.freed s.msgs (s.tx x) (s.hashed x)

theorem mem_messages {tx : Tx} {m : Nat} : m ∈ tx.messages ↔ m ∈ tx.req ∨ m ∈ tx.rpy := by
  rw [Tx.messages, List.mem_append, Option.mem_toList, Option.mem_toList]
  exact Iff.rfl

theorem ended_ne_processing {state : TxState} (ended : TxState.done.rank ≤ state.rank) :
    state ≠ .processing := by
  rintro rfl
  exact absurd ended (by decide)

theorem ended_ne_fresh {state : TxState} (ended : TxState.done.rank ≤ state.rank) :
    state ≠ .fresh := by
  rintro rfl
  exact absurd ended (by decide)

section Good

variable {s : TxServer} {x : Nat}

theorem init_msgGood (ftx : Nat) : MsgGood (TxServer.init ftx) where
  idle := fun _ _ => TxState.noConfusion
  distinct := List.nodup_range
  lru_old := fun _ member => List.mem_range.mp member
  unused := fun _ _ => rfl
  freed_once := List.nodup_nil
  freed_known := fun _ member => absurd member List.not_mem_nil
  owned := fun _ _ _ member => absurd member List.not_mem_nil
  each := fun _ => {
    known := fun _ member => absurd member List.not_mem_nil
    apart := List.nodup_nil
    fresh := fun _ => ⟨rfl, rfl⟩
    request := fun running => TxState.noConfusion running
    reply := fun running => TxState.noConfusion running
    table := fun running => TxState.noConfusion running
    pending := fun ended => (Nat.not_succ_le_zero 1 ended).elim
    cleared := fun ended => (Nat.not_succ_le_zero 1 ended).elim }

/-- The invariant does not look at the groups. -/
theorem MsgGood.setGroup (good : MsgGood s) (n : Nat) (txg : Txg) : MsgGood (setGroup s n txg) :=
  { good with }

theorem MsgGood.old (good : MsgGood s) (used : (s.tx x).state ≠ .fresh) : x < s.total := by
  by_contra beyond
  exact used (good.unused x (Nat.le_of_not_lt beyond))

/-- The server after a change of one object, its place in the hash table, and the freeing of some
of its messages. -/
def changeTx (s : TxServer) (x : Nat) (tx : Tx) (hashed : Bool) (more : List Nat) (msgs : Nat) :
    TxServer :=
  { s with
    tx := Function.update s.tx x tx
    hashed := Function.update s.hashed x hashed
    freed := s.freed ++ more
    msgs := msgs }

/-- Such a change keeps the invariant when the object itself is accounted for afterwards, it only
got new messages, and what was freed had been its own and unfreed. -/
theorem MsgGood.change (good : MsgGood s) {tx : Tx} {hashed : Bool} {more : List Nat}
    {msgs : Nat} (old : x < s.total) (idle : x ∈ s.lru → tx.state ≠ .processing)
    (grows : s.msgs ≤ msgs) (once : more.Nodup)
    (own : ∀ m ∈ more, m ∈ (s.tx x).messages ∧ m ∉ s.freed)
    (inherits : ∀ m ∈ tx.messages, m ∈ (s.tx x).messages ∨ s.msgs ≤ m)
    (this : TxMsgs (s.freed ++ more) msgs tx hashed) :
    MsgGood (changeTx s x tx hashed more msgs) := by
  have this_tx : (changeTx s x tx hashed more msgs).tx x = tx := Function.update_self ..
  have other_tx : ∀ y, y ≠ x → (changeTx s x tx hashed more msgs).tx y = s.tx y :=
    fun y other => Function.update_of_ne other ..
  have this_hashed : (changeTx s x tx hashed more msgs).hashed x = hashed :=
    Function.update_self ..
  have other_hashed : ∀ y, y ≠ x →
      (changeTx s x tx hashed more msgs).hashed y = s.hashed y :=
    fun y other => Function.update_of_ne other ..
  -- a message of another object is not among those freed here
  have foreign : ∀ y, y ≠ x → ∀ m ∈ (s.tx y).messages, m ∉ more :=
    fun y other m member freed => other (good.owned y x m member (own m freed).1)
  have separate : ∀ y, y ≠ x → ∀ m ∈ (s.tx y).messages, m ∉ tx.messages := by
    intro y other m member mine
    rcases inherits m mine with before | new
    · exact other (good.owned y x m member before)
    · exact absurd ((good.each y).known m member) (Nat.not_lt.mpr new)
  exact {
    idle := fun y member => by
      by_cases here : y = x
      · rw [here, this_tx]
        exact idle (here ▸ member)
      · rw [other_tx y here]
        exact good.idle y member
    distinct := good.distinct
    lru_old := good.lru_old
    unused := fun y beyond => by
      have other : y ≠ x := fun here => absurd old (Nat.not_lt.mpr (here ▸ beyond))
      rw [other_tx y other]
      exact good.unused y beyond
    freed_once := List.nodup_append.mpr ⟨good.freed_once, once,
      fun m before n freed same => (own n freed).2 (same ▸ before)⟩
    freed_known := fun m member => by
      rcases List.mem_append.mp member with before | freed
      · exact Nat.lt_of_lt_of_le (good.freed_known m before) grows
      · exact Nat.lt_of_lt_of_le ((good.each x).known m (own m freed).1) grows
    owned := fun y z m first second => by
      by_cases hereY : y = x
      · by_cases hereZ : z = x
        · rw [hereY, hereZ]
        · rw [hereY, this_tx] at first
          rw [other_tx z hereZ] at second
          exact absurd first (separate z hereZ m second)
      · rw [other_tx y hereY] at first
        by_cases hereZ : z = x
        · rw [hereZ, this_tx] at second
          exact absurd second (separate y hereY m first)
        · rw [other_tx z hereZ] at second
          exact good.owned y z m first second
    each := fun y => by
      by_cases here : y = x
      · rw [here, this_tx, this_hashed]
        exact this
      · rw [other_tx y here, other_hashed y here]
        have before := good.each y
        exact { before with
          known := fun m member => Nat.lt_of_lt_of_le (before.known m member) grows
          request := fun running m member freed => by
            rcases List.mem_append.mp freed with earlier | now
            · exact before.request running m member earlier
            · exact foreign y here m (mem_messages.mpr (Or.inl member)) now
          reply := fun running m member => List.mem_append_left _ (before.reply running m member)
          pending := fun ended table m member freed => by
            rcases List.mem_append.mp freed with earlier | now
            · exact before.pending ended table m member earlier
            · exact foreign y here m member now
          cleared := fun ended table m member =>
            List.mem_append_left _ (before.cleared ended table m member) } }

/-- The invariant looks at the objects, the free list, the hash table and the messages only. -/
theorem MsgGood.congr {other : TxServer} (good : MsgGood s) (tx : other.tx = s.tx)
    (total : other.total = s.total) (lru : other.lru = s.lru) (hashed : other.hashed = s.hashed)
    (freed : other.freed = s.freed) (msgs : other.msgs = s.msgs) : MsgGood other where
  idle := fun y member => by
    rw [tx]
    exact good.idle y (lru ▸ member)
  distinct := lru ▸ good.distinct
  lru_old := fun y member => total ▸ good.lru_old y (lru ▸ member)
  unused := fun y beyond => by
    rw [tx]
    exact good.unused y (total ▸ beyond)
  freed_once := freed ▸ good.freed_once
  freed_known := fun m member => msgs ▸ good.freed_known m (freed ▸ member)
  owned := by
    rw [tx]
    exact good.owned
  each := by
    rw [tx, hashed, freed, msgs]
    exact good.each

/-- An eviction frees messages that have not been freed. -/
theorem MsgGood.evict (good : MsgGood s) (hashed : s.hashed x = true)
    (ended : TxState.done.rank ≤ (s.tx x).state.rank) : MsgGood (evicted s x) := by
  have this := good.each x
  have changed : evicted s x = changeTx s x (s.tx x) false (s.tx x).messages s.msgs := by
    simp only [evicted, changeTx, Function.update_eq_self]
  rw [changed]
  refine good.change (good.old (ended_ne_fresh ended)) (good.idle x) (Nat.le_refl _) this.apart
    (fun m member => ⟨member, this.pending ended hashed m member⟩)
    (fun m member => Or.inl member) ?_
  exact {
    known := this.known
    apart := this.apart
    fresh := fun fresh => absurd fresh (ended_ne_fresh ended)
    request := fun running => absurd running (ended_ne_processing ended)
    reply := fun running => absurd running (ended_ne_processing ended)
    table := fun running => absurd running (ended_ne_processing ended)
    pending := fun _ table => Bool.noConfusion table
    cleared := fun _ _ m member => List.mem_append_right _ member }

theorem MsgGood.preFree {goes : Bool} {next : TxServer} (good : MsgGood s)
    (result : mdsPreFreeTx s goes = some next) : MsgGood next :=
  mdsPreFreeTx_invariant (fun _ _ good hashed ready => good.evict hashed ready.ended) result good

theorem MsgGood.lruAdd (good : MsgGood s) (off : x ∉ s.lru)
    (ended : TxState.done.rank ≤ (s.tx x).state.rank) : MsgGood (lruAdd s x) :=
  { good with
    idle := FreeIdle.lruAdd good.idle (ended_ne_processing ended)
    distinct := List.nodup_append.mpr ⟨good.distinct, List.nodup_singleton x,
      fun y before z added same => off ((same.trans (List.mem_singleton.mp added)) ▸ before)⟩
    lru_old := fun y member => by
      rcases List.mem_append.mp member with before | added
      · exact good.lru_old y before
      · rw [List.mem_singleton.mp added]
        exact good.old (ended_ne_fresh ended) }

/-- A change of an ended object that leaves it ended, with its messages. -/
theorem MsgGood.setEnded (good : MsgGood s) {tx : Tx}
    (before : TxState.done.rank ≤ (s.tx x).state.rank)
    (after : TxState.done.rank ≤ tx.state.rank) (same : tx.messages = (s.tx x).messages) :
    MsgGood (setTx s x tx) := by
  have this := good.each x
  have changed : setTx s x tx = changeTx s x tx (s.hashed x) [] s.msgs := by
    simp only [setTx, changeTx, Function.update_eq_self, List.append_nil]
  rw [changed]
  refine good.change (good.old (ended_ne_fresh before)) (fun _ => ended_ne_processing after)
    (Nat.le_refl _) List.nodup_nil (fun m member => absurd member List.not_mem_nil)
    (fun m member => Or.inl (same ▸ member)) ?_
  rw [List.append_nil]
  exact {
    known := same ▸ this.known
    apart := same ▸ this.apart
    fresh := fun fresh => absurd fresh (ended_ne_fresh after)
    request := fun running => absurd running (ended_ne_processing after)
    reply := fun running => absurd running (ended_ne_processing after)
    table := fun running => absurd running (ended_ne_processing after)
    pending := fun _ table => same ▸ this.pending before table
    cleared := fun _ table => same ▸ this.cleared before table }

/-! ### Ending a transaction -/

/-- `mds_tx_reply` of a transaction that is done. -/
theorem mdsTxReply_msgGood {goes : Bool} {next : TxServer} (good : MsgGood s)
    (ended : TxState.done.rank ≤ (s.tx x).state.rank)
    (off : (s.tx x).op = .nocommit → x ∉ s.lru)
    (result : mdsTxReply s x goes = some next) : MsgGood next := by
  have stored : (setState s x .acked).tx x = { s.tx x with state := .acked } :=
    Function.update_self ..
  have acked : MsgGood (setState s x .acked) := good.setEnded ended (Nat.le_succ 2) rfl
  unfold mdsTxReply at result
  split at result
  · simp only at result
    split at result
    · next level =>
      rw [stored] at level
      exact (acked.lruAdd (off level) (by rw [stored]; exact Nat.le_succ 2)).preFree result
    · cases result
      exact acked
  · cases result
    exact good

/-- An object that is done with a reply. -/
def doneTx (tx : Tx) (op : TxOp) (rpy : Nat) : Tx :=
  { tx with
    op := op
    state := .done
    ref := tx.ref - 1
    rpy := some rpy }

/-- The object of a request that is in the hash table, once it is done with a reply. -/
theorem MsgGood.done (good : MsgGood s) (running : (s.tx x).state = .processing)
    (level : (s.tx x).op ≠ .forget) (op : TxOp) :
    MsgGood (changeTx s x (doneTx (s.tx x) op s.msgs) (s.hashed x) [] (s.msgs + 1)) := by
  have this := good.each x
  have hashed : s.hashed x = true := by
    rw [this.table running]
    exact decide_eq_true level
  have old : x < s.total := good.old (by rw [running]; exact TxState.noConfusion)
  have member : ∀ m, m ∈ (doneTx (s.tx x) op s.msgs).messages →
      m ∈ (s.tx x).req ∨ m = s.msgs := by
    intro m here
    rcases mem_messages.mp here with request | reply
    · exact Or.inl request
    · exact Or.inr (Option.some.inj reply).symm
  refine good.change old (fun _ => TxState.noConfusion) (Nat.le_succ _) List.nodup_nil
    (fun m none => absurd none List.not_mem_nil) ?_ ?_
  · intro m here
    rcases member m here with request | reply
    · exact Or.inl (mem_messages.mpr (Or.inl request))
    · exact Or.inr (Nat.le_of_eq reply.symm)
  · rw [List.append_nil]
    exact {
      known := fun m here => by
        rcases member m here with request | reply
        · exact Nat.lt_succ_of_lt (this.known m (mem_messages.mpr (Or.inl request)))
        · exact Nat.lt_succ_of_le (Nat.le_of_eq reply)
      apart := by
        refine List.nodup_append.mpr ⟨?_, List.nodup_singleton _, fun m request n reply same => ?_⟩
        · exact (List.nodup_append.mp this.apart).1
        · have below := this.known m (mem_messages.mpr (Or.inl (Option.mem_toList.mp request)))
          rw [same, List.mem_singleton.mp reply] at below
          exact absurd below (lt_irrefl _)
      fresh := fun fresh => TxState.noConfusion fresh
      request := fun running => TxState.noConfusion running
      reply := fun running => TxState.noConfusion running
      table := fun running => TxState.noConfusion running
      pending := fun _ _ m here freed => by
        rcases member m here with request | reply
        · exact this.request running m request freed
        · exact absurd (good.freed_known m freed) (by rw [reply]; exact lt_irrefl _)
      cleared := fun _ table => by
        rw [hashed] at table
        cases table }

/-- A reply of a request that is in the hash table. -/
theorem mdsSendReply_msgGood {err : Int} {goes : Bool} {next : TxServer} (good : MsgGood s)
    (running : (s.tx x).state = .processing) (level : (s.tx x).op ≠ .forget)
    (result : mdsSendReply s x err true goes = some next) : MsgGood next := by
  have off : x ∉ s.lru := fun member => good.idle x member running
  rw [mdsSendReply_true] at result
  obtain ⟨middle, done, reply⟩ := Option.bind_eq_some_iff.mp result
  have marked : mdsPutTx (setState (setOp (setRpy s x true) x
      (replyOp ((setRpy s x true).tx x).op err)) x .done) x =
      changeTx s x (doneTx (s.tx x) (replyOp (s.tx x).op err) s.msgs) (s.hashed x) []
        (s.msgs + 1) := by
    simp only [mdsPutTx, setState, setOp, setRpy, setTx, changeTx, doneTx, Function.update_self,
      Function.update_idem, Function.update_eq_self, List.append_nil, if_true]
  have ended := good.done running level (replyOp (s.tx x).op err)
  have stored : (changeTx s x (doneTx (s.tx x) (replyOp (s.tx x).op err) s.msgs) (s.hashed x) []
      (s.msgs + 1)).tx x = doneTx (s.tx x) (replyOp (s.tx x).op err) s.msgs :=
    Function.update_self ..
  unfold mdsTxDone at done
  rw [if_pos (by
    simp only [setOp, setRpy, setTx, Function.update_self]
    exact running)] at done
  simp only [marked] at done
  obtain ⟨freed, preFree, rfl⟩ := Option.map_eq_some_iff.mp done
  rw [stored] at preFree
  split at preFree
  · next forget =>
    have listed := ended.lruAdd off (by rw [stored]; exact Nat.le_refl 2)
    have kept : freed.tx x = doneTx (s.tx x) (replyOp (s.tx x).op err) s.msgs :=
      (congrFun (quiet_tx (mdsPreFreeTx_quiet preFree)) x).trans stored
    refine mdsTxReply_msgGood (x := x) ((listed.preFree preFree).setGroup _ _) ?_ ?_ reply
    · change TxState.done.rank ≤ (freed.tx x).state.rank
      rw [kept]
      exact Nat.le_refl 2
    · intro nocommit
      change (freed.tx x).op = .nocommit at nocommit
      rw [kept, forget] at nocommit
      cases nocommit
  · cases preFree
    have rank : TxState.done.rank ≤ ((changeTx s x (doneTx (s.tx x) (replyOp (s.tx x).op err)
        s.msgs) (s.hashed x) [] (s.msgs + 1)).tx x).state.rank := by
      rw [stored]
      exact Nat.le_refl 2
    exact mdsTxReply_msgGood (x := x) (ended.setGroup _ _) rank (fun _ => off) reply

/-- A drop of a request whose object has no reply. -/
theorem mdsFreeTx_msgGood {next : TxServer} (good : MsgGood s)
    (running : (s.tx x).state = .processing) (silent : (s.tx x).rpy = none)
    (result : mdsFreeTx s x = some next) : MsgGood next := by
  have this := good.each x
  have old : x < s.total := good.old (by rw [running]; exact TxState.noConfusion)
  unfold mdsFreeTx at result
  split at result
  · cases result
  · next off =>
    obtain ⟨middle, evict, rfl⟩ := Option.map_eq_some_iff.mp result
    have changed : middle = changeTx s x { s.tx x with state := .done } false
        (s.tx x).messages s.msgs := by
      rw [(mdsTxcEvict_some evict).2]
      simp only [evicted, setState, setTx, changeTx, Function.update_self]
      rfl
    have own : ∀ m ∈ (s.tx x).messages, m ∉ s.freed := by
      intro m member
      rcases mem_messages.mp member with request | reply
      · exact this.request running m request
      · rw [silent] at reply
        cases reply
    have dropped : MsgGood middle := by
      rw [changed]
      refine good.change old (fun _ => TxState.noConfusion) (Nat.le_refl _) this.apart
        (fun m member => ⟨member, own m member⟩) (fun m member => Or.inl member) ?_
      exact {
        known := this.known
        apart := this.apart
        fresh := fun fresh => TxState.noConfusion fresh
        request := fun running => TxState.noConfusion running
        reply := fun running => TxState.noConfusion running
        table := fun running => TxState.noConfusion running
        pending := fun _ table => Bool.noConfusion table
        cleared := fun _ _ m member => List.mem_append_right _ member }
    have stored : middle.tx x = { s.tx x with state := .done } := by
      rw [changed]
      exact Function.update_self ..
    have put : MsgGood (mdsPutTx middle x) :=
      dropped.setEnded (by rw [stored]) (by simp only [stored, le_refl]) rfl
    refine MsgGood.lruAdd (put.setGroup _ _) ?_ ?_
    · change x ∉ middle.lru
      rw [changed]
      exact off
    · change TxState.done.rank ≤ ((mdsPutTx middle x).tx x).state.rank
      simp only [mdsPutTx, setTx, Function.update_self, stored]
      exact Nat.le_refl 2

/-- A reply whose message could not be allocated: the object gives up its old reply. -/
theorem mdsSendReply_drop_msgGood {err : Int} {goes : Bool} {next : TxServer} (good : MsgGood s)
    (running : (s.tx x).state = .processing)
    (result : mdsSendReply s x err false goes = some next) : MsgGood next := by
  have this := good.each x
  have old : x < s.total := good.old (by rw [running]; exact TxState.noConfusion)
  have stored : (setRpy s x false).tx x = { s.tx x with rpy := none } := Function.update_self ..
  have changed : setRpy s x false =
      changeTx s x { s.tx x with rpy := none } (s.hashed x) [] s.msgs := by
    simp only [setRpy, setTx, changeTx, Function.update_eq_self, List.append_nil,
      Bool.false_eq_true, if_false]
  have request : ∀ m, m ∈ ({ s.tx x with rpy := none } : Tx).messages → m ∈ (s.tx x).req := by
    intro m member
    rcases mem_messages.mp member with request | reply
    · exact request
    · cases reply
  have silent : MsgGood (setRpy s x false) := by
    rw [changed]
    refine good.change old (fun member => absurd running (good.idle x member)) (Nat.le_refl _)
      List.nodup_nil (fun m none => absurd none List.not_mem_nil)
      (fun m member => Or.inl (mem_messages.mpr (Or.inl (request m member)))) ?_
    rw [List.append_nil]
    exact {
      known := fun m member => this.known m (mem_messages.mpr (Or.inl (request m member)))
      apart := List.nodup_append.mpr ⟨(List.nodup_append.mp this.apart).1, List.nodup_nil,
        fun _ _ _ none => absurd none List.not_mem_nil⟩
      fresh := fun fresh => absurd (running.symm.trans fresh) TxState.noConfusion
      request := this.request
      reply := fun _ m none => by cases none
      table := this.table
      pending := fun ended => absurd running (ended_ne_processing ended)
      cleared := fun ended => absurd running (ended_ne_processing ended) }
  refine mdsFreeTx_msgGood (x := x) silent ?_ ?_ result
  · rw [stored]
    exact running
  · rw [stored]

/-! ### Allocating and committing -/

/-- Initialising an object whose messages have all been freed. -/
theorem initTx_msgGood (good : MsgGood s) (old : x < s.total) (off : x ∉ s.lru)
    (clear : ∀ m ∈ (s.tx x).messages, m ∈ s.freed) (op : TxOp) (req : TxRequest) :
    MsgGood (initTx s x op req) := by
  have this := good.each x
  have member : ∀ m, m ∈ (startedTx s x op req).messages → m = s.msgs ∨ m ∈ (s.tx x).rpy := by
    intro m here
    rcases mem_messages.mp here with request | reply
    · exact Or.inl (Option.some.inj request).symm
    · exact Or.inr reply
  have changed : MsgGood (changeTx s x (startedTx s x op req) (decide (op ≠ .forget)) []
      (s.msgs + 1)) := by
    refine good.change old (fun listed => absurd listed off) (Nat.le_succ _) List.nodup_nil
      (fun m none => absurd none List.not_mem_nil) ?_ ?_
    · intro m here
      rcases member m here with request | reply
      · exact Or.inr (Nat.le_of_eq request.symm)
      · exact Or.inl (mem_messages.mpr (Or.inr reply))
    · rw [List.append_nil]
      exact {
        known := fun m here => by
          rcases member m here with request | reply
          · exact Nat.lt_succ_of_le (Nat.le_of_eq request)
          · exact Nat.lt_succ_of_lt (this.known m (mem_messages.mpr (Or.inr reply)))
        apart := by
          refine List.nodup_append.mpr ⟨List.nodup_singleton _, ?_,
            fun m request n reply same => ?_⟩
          · exact (List.nodup_append.mp this.apart).2.1
          · have below := this.known n (mem_messages.mpr (Or.inr (Option.mem_toList.mp reply)))
            rw [← same, List.mem_singleton.mp request] at below
            exact absurd below (lt_irrefl _)
        fresh := fun fresh => TxState.noConfusion fresh
        request := fun _ m request freed => by
          have here : s.msgs = m := Option.some.inj request
          exact absurd (good.freed_known m freed) (by rw [← here]; exact lt_irrefl _)
        reply := fun _ m reply => clear m (mem_messages.mpr (Or.inr reply))
        table := fun _ => rfl
        pending := fun ended => (Nat.not_succ_le_self 1 ended).elim
        cleared := fun ended => (Nat.not_succ_le_self 1 ended).elim }
  refine changed.congr rfl rfl rfl ?_ (List.append_nil _).symm rfl
  funext y
  by_cases here : y = x
  · rw [here, initTx_hashed]
    exact (Function.update_self x (decide (op ≠ .forget)) s.hashed).symm
  · rw [initTx_hashed_ne here]
    exact (Function.update_of_ne here (decide (op ≠ .forget)) s.hashed).symm

theorem takeFree_msgGood {rest : List Nat} (good : MsgGood s) (head : s.lru = x :: rest) :
    MsgGood (takeFree s rest) := by
  have within : ∀ y ∈ rest, y ∈ s.lru := fun y member => head ▸ List.mem_cons_of_mem _ member
  have distinct := good.distinct
  rw [head] at distinct
  exact { good with
    idle := fun y member => good.idle y (within y member)
    distinct := (List.nodup_cons.mp distinct).2
    lru_old := fun y member => good.lru_old y (within y member) }

theorem moreTotal_msgGood (good : MsgGood s) : MsgGood (moreTotal s) :=
  { good with
    lru_old := fun y member => Nat.lt_succ_of_lt (good.lru_old y member)
    unused := fun y beyond => good.unused y (Nat.le_of_succ_le beyond) }

/-- An object that is not being processed and not in the hash table owes no message. -/
theorem MsgGood.clear (good : MsgGood s) (idle : (s.tx x).state ≠ .processing)
    (unhashed : s.hashed x = false) : ∀ m ∈ (s.tx x).messages, m ∈ s.freed := by
  intro m member
  have this := good.each x
  cases state : (s.tx x).state with
  | fresh =>
    rw [(this.fresh state).1] at member
    exact absurd member List.not_mem_nil
  | processing => exact absurd state idle
  | done => exact this.cleared (by rw [state]) unhashed m member
  | acked => exact this.cleared (by rw [state]; exact Nat.le_succ 2) unhashed m member
  | commited => exact this.cleared (by rw [state]; exact Nat.le_add_right 2 2) unhashed m member

/-- An allocation keeps the invariant, and the messages of its object have been freed. -/
theorem mdsAllocTx_msgGood {op : TxOp} {req : TxRequest} {memory : Bool} {taken : Option Nat}
    {next : TxServer} (good : MsgGood s)
    (result : mdsAllocTx s op req memory = some (taken, next)) :
    MsgGood next ∧ ∀ y, taken = some y → ∀ m ∈ (s.tx y).messages, m ∈ next.freed := by
  rcases mdsAllocTx_cases result with
    ⟨y, middle, rfl, take, rfl⟩ | ⟨_, rfl, rfl⟩ | ⟨rfl, rfl⟩
  · rcases mdsTxcAllocTx_cases take with ⟨z, rest, same, _, head, how⟩ | ⟨none_taken, _⟩
    · cases same
      have listed : y ∈ s.lru := head ▸ List.mem_cons_self
      have distinct := good.distinct
      rw [head] at distinct
      have off : y ∉ rest := (List.nodup_cons.mp distinct).1
      have short := takeFree_msgGood good head
      rcases how with ⟨hashed, ready, rfl⟩ | ⟨unhashed, rfl⟩
      · have clear : ∀ m ∈ (s.tx y).messages, m ∈ (evicted (takeFree s rest) y).freed :=
          fun m member => List.mem_append_right _ member
        refine ⟨initTx_msgGood (short.evict hashed ready.ended) (good.lru_old y listed) off clear
          op req, ?_⟩
        intro z same
        cases same
        exact clear
      · have clear := short.clear (x := y) (good.idle y listed) unhashed
        refine ⟨initTx_msgGood short (good.lru_old y listed) off clear op req, ?_⟩
        intro z same
        cases same
        exact clear
    · cases none_taken
  · have clear : ∀ m ∈ (s.tx s.total).messages, m ∈ s.freed := by
      rw [((good.each s.total).fresh (good.unused s.total (le_refl _))).1]
      exact fun m none => absurd none List.not_mem_nil
    have off : s.total ∉ s.lru := fun member => absurd (good.lru_old _ member) (lt_irrefl _)
    refine ⟨initTx_msgGood (moreTotal_msgGood good) (Nat.lt_succ_self _) off clear op req, ?_⟩
    intro y same
    cases same
    exact clear
  · exact ⟨good, fun y none => by cases none⟩

/-- A commit callback keeps the invariant. -/
theorem mdsTxCommit_msgGood {sends goes : Bool} {sent : List CommitMsg} {next : TxServer}
    (good : MsgGood s) (result : mdsTxCommit s x sends goes = some (sent, next)) : MsgGood next := by
  have stored : (setState s x .commited).tx x = { s.tx x with state := .commited } :=
    Function.update_self ..
  unfold mdsTxCommit at result
  split at result
  · cases result
    exact good
  · next ended =>
    have marked : MsgGood (setState s x .commited) :=
      good.setEnded (Nat.le_of_not_lt ended) (Nat.le_add_right 2 2) rfl
    split at result
    · simp only at result
      split at result
      · split at result
        · cases result
        · next off =>
          obtain ⟨freed, preFree, same⟩ := Option.map_eq_some_iff.mp result
          cases same
          exact (marked.lruAdd off (by rw [stored]; exact Nat.le_add_right 2 2)).preFree preFree
      · cases result
        exact marked
    · cases result
      exact good

theorem triggerLoop_msgGood {sends goes : Nat → Bool} {n : Nat} {xs : List Nat}
    {sent : List CommitMsg} {next : TxServer} (good : MsgGood s)
    (result : triggerLoop sends goes n xs s = some (sent, next)) : MsgGood next := by
  induction xs generalizing s sent with
  | nil =>
    cases result
    exact good
  | cons y rest inductionHypothesis =>
    obtain ⟨⟨first, middle⟩, commit, loop⟩ := Option.bind_eq_some_iff.mp result
    obtain ⟨⟨more, final⟩, loop, same⟩ := Option.map_eq_some_iff.mp loop
    cases same
    exact inductionHypothesis ((mdsTxCommit_msgGood good commit).setGroup _ _) loop

end Good

/-! ### Runs -/

section Runs

variable {s next : TxServer} {call : TxCall}

theorem txStep_msgGood (good : MsgGood s) (enabled : TxEnabled s call)
    (keeps : KeepsMessages s call) (stepped : txStep s call = some next) : MsgGood next := by
  cases call with
  | alloc op req memory =>
    obtain ⟨⟨taken, final⟩, allocated, rfl⟩ := Option.map_eq_some_iff.mp stepped
    exact (mdsAllocTx_msgGood good allocated).1
  | reply x err rpy goes =>
    cases rpy with
    | true => exact mdsSendReply_msgGood good enabled (keeps rfl) stepped
    | false =>
      have dropped : mdsSendReply s x err false goes = some next := stepped
      exact mdsSendReply_drop_msgGood good enabled dropped
  | free x => exact mdsFreeTx_msgGood good enabled keeps stepped
  | switch =>
    cases stepped
    exact { good with }
  | commit sends goes =>
    obtain ⟨n, wb, _⟩ := enabled
    rw [txStep, wb] at stepped
    obtain ⟨⟨sent, final⟩, loop, rfl⟩ := Option.map_eq_some_iff.mp stepped
    exact triggerLoop_msgGood (s := { s with wbTxg := none }) { good with } loop

theorem freesOnce_of_good (good : MsgGood s) (enabled : TxEnabled s call)
    (keeps : KeepsMessages s call) : FreesOnce s call := by
  refine ⟨fun next stepped => (txStep_msgGood good enabled keeps stepped).freed_once, ?_⟩
  rintro op req memory x next rfl allocated
  exact (mdsAllocTx_msgGood good allocated).2 x rfl

/-- In the runs in which no FORGET request gets a reply, no request is dropped on an object with an
old reply, and no object is taken whose `ccb` node is still linked, every message is freed at most
once, and before its transaction is initialised anew. -/
theorem messages_freed_once (ftx : Nat) (calls : List TxCall)
    (enabled : Guarded txStep TxEnabled (TxServer.init ftx) calls)
    (keeps : Guarded txStep KeepsMessages (TxServer.init ftx) calls) :
    Guarded txStep FreesOnce (TxServer.init ftx) calls := by
  have both := guarded_and.mpr ⟨enabled, keeps⟩
  have freed : Guarded txStep
      (fun s call => (TxEnabled s call ∧ KeepsMessages s call) ∧ FreesOnce s call)
      (TxServer.init ftx) calls :=
    (guarded_iff_of_invariant MsgGood
      (fun s call good => ⟨fun allowed =>
        ⟨allowed, freesOnce_of_good good allowed.1 allowed.2⟩, fun allowed => allowed.1⟩)
      (fun s call next good allowed stepped => txStep_msgGood good allowed.1 allowed.2 stepped)
      (init_msgGood ftx)).mp both
  exact (guarded_and.mp freed).2

/-- Two requests in turn on one object, each with a reply. -/
theorem messages_freed_once_twice :
    Guarded txStep FreesOnce (TxServer.init 1)
      [.alloc .nocommit ⟨1, 7⟩ true, .reply 0 0 true false, .alloc .nocommit ⟨2, 7⟩ true,
        .reply 0 0 true true] :=
  messages_freed_once 1 _
    (.cons trivial rfl (.cons rfl rfl (.cons trivial rfl (.cons rfl rfl trivial))))
    (.cons (fun _ x same => by cases same; rfl) rfl (.cons (fun _ => by decide) rfl
      (.cons (fun _ x same => by cases same; rfl) rfl (.cons (fun _ => by decide) rfl trivial))))

/-- A request that is dropped before it has a reply frees the reply of the request before, which
was freed when its object was taken. -/
theorem old_reply_freed_twice : ¬ ∀ (ftx : Nat) (calls : List TxCall),
    Guarded txStep TxEnabled (TxServer.init ftx) calls →
      Guarded txStep FreesOnce (TxServer.init ftx) calls := by
  intro claim
  have run := claim 1 [.alloc .nocommit ⟨1, 7⟩ true, .reply 0 0 true false,
    .alloc .nocommit ⟨2, 7⟩ true, .free 0]
    (.cons trivial rfl (.cons rfl rfl (.cons trivial rfl (.cons rfl rfl trivial))))
  have last := (((run.2 _ rfl).2 _ rfl).2 _ rfl).1.1 _ rfl
  exact absurd last (by decide)

end Runs

end Hvfs
