/-
This file is about the lists that transactions are linked into, over every
sequence of calls that each run to completion: `mds_alloc_tx`,
`mds_send_reply`, `mds_free_tx`, `txg_switch` and the commit of the group in
write-back.

A NORMAL transaction is linked to the callback list of its group when it is
allocated. A successful reply leaves it there until the commit; an error reply
and `mds_free_tx` put it on the free list as well. So the lists keep apart
exactly in the runs in which NORMAL transactions end in success.
-/

import Hvfs.TxSpec
import Hvfs.Library.Transition
import Mathlib.Data.Finset.Card
import Mathlib.Data.Finset.Range
import Mathlib.Tactic.Linarith

namespace Hvfs

open Transition

/-! ### Calls -/

/-- A call on the transactions, with what its environment decides. -/
inductive TxCall
  | alloc (op : TxOp) (req : TxRequest) (memory : Bool)
  | reply (x : Nat) (err : Int) (rpy goes : Bool)
  | free (x : Nat)
  | switch
  | commit (sends goes : Nat → Bool)

/-- One call, run to completion. `none` is a failed assertion. -/
def txStep (s : TxServer) : TxCall → Option TxServer
  | .alloc op req memory => (mdsAllocTx s op req memory).map Prod.snd
  | .reply x err rpy goes => mdsSendReply s x err rpy goes
  | .free x => mdsFreeTx s x
  | .switch => some (txgSwitch s)
  | .commit sends goes =>
    match s.wbTxg with
    | none => some s
    | some n => (txgCommit s n sends goes).map Prod.snd

/-- The calls that happen: a handler ends the transaction it is working on, the group is switched
when none is in write-back, and a commit passes its wait when no reference is left. -/
def TxEnabled (s : TxServer) : TxCall → Prop
  | .alloc .. => True
  | .reply x _ _ _ => (s.tx x).state = .processing
  | .free x => (s.tx x).state = .processing
  | .switch => s.wbTxg = none
  | .commit .. => ∃ n, s.wbTxg = some n ∧ (s.txg n).txPending = 0

/-- What the lists of the transactions promise. -/
structure Disciplined (s : TxServer) : Prop where
  distinct : s.lru.Nodup
  count : s.ftx = s.lru.length
  idle : ∀ x ∈ s.lru, (s.tx x).state ≠ .processing
  apart : ∀ n, s.Live n → ∀ x ∈ s.lru, x ∉ (s.txg n).ccbList
  neverRelinked : s.relinked = false

/-- A call that ends a NORMAL transaction ends it with a successful reply. -/
def ClosesCleanly (s : TxServer) : TxCall → Prop
  | .reply x err rpy _ => (s.tx x).op = .normal → err = 0 ∧ rpy = true
  | .free x => (s.tx x).op ≠ .normal
  | _ => True

/-! ### The invariant -/

/-- The transactions of group `n` that are being processed. -/
def processingIn (s : TxServer) (n : Nat) : Finset Nat :=
  (Finset.range s.total).filter fun x => (s.tx x).state = .processing ∧ (s.tx x).txg = n

/-- What holds of the transactions and their groups in the runs that close cleanly. -/
structure TxGood (s : TxServer) : Prop where
  lists : Disciplined s
  lru_old : ∀ x ∈ s.lru, x < s.total
  unused : ∀ x, s.total ≤ x → (s.tx x).state = .fresh
  older : ∀ n, s.wbTxg = some n → n < s.openTxg
  dead : ∀ n, ¬ s.Live n → (s.txg n).ccbList = []
  ccb_distinct : ∀ n, (s.txg n).ccbList.Nodup
  ccb_old : ∀ n, ∀ x ∈ (s.txg n).ccbList, x < s.total
  ccb_tx : ∀ n, ∀ x ∈ (s.txg n).ccbList, (s.tx x).op = .normal ∧ (s.tx x).txg = n ∧
    ((s.tx x).state = .processing ∨ (s.tx x).state = .done ∨ (s.tx x).state = .acked)
  running : ∀ x, (s.tx x).state = .processing → s.Live (s.tx x).txg
  queued : ∀ x, (s.tx x).state = .processing → (s.tx x).op = .normal →
    x ∈ (s.txg (s.tx x).txg).ccbList
  references : ∀ n, s.Live n → (s.txg n).txPending = (processingIn s n).card

section Good

variable {s : TxServer} {x : Nat}

theorem mem_processingIn {n : Nat} : x ∈ processingIn s n ↔
    x < s.total ∧ (s.tx x).state = .processing ∧ (s.tx x).txg = n := by
  rw [processingIn, Finset.mem_filter, Finset.mem_range]

theorem TxGood.old (good : TxGood s) (processing : (s.tx x).state = .processing) :
    x < s.total := by
  by_contra beyond
  have fresh := good.unused x (Nat.le_of_not_lt beyond)
  rw [processing] at fresh
  exact absurd fresh (by decide)

theorem TxGood.off_lru (good : TxGood s) (processing : (s.tx x).state = .processing) :
    x ∉ s.lru :=
  fun member => good.lists.idle x member processing

/-- A free transaction is on no callback list. -/
theorem TxGood.off_ccb (good : TxGood s) (free : x ∈ s.lru) (n : Nat) :
    x ∉ (s.txg n).ccbList := by
  by_cases live : s.Live n
  · exact good.lists.apart n live x free
  · rw [good.dead n live]
    exact List.not_mem_nil

theorem init_good (ftx : Nat) : TxGood (TxServer.init ftx) where
  lists := {
    distinct := List.nodup_range
    count := by
      change (ftx : Int) = (List.range ftx).length
      rw [List.length_range]
    idle := fun x _ => TxState.noConfusion
    apart := fun n _ x _ => List.not_mem_nil
    neverRelinked := rfl }
  lru_old := fun x member => List.mem_range.mp member
  unused := fun x _ => rfl
  older := fun n wb => absurd wb (Option.some_ne_none n).symm
  dead := fun n _ => rfl
  ccb_distinct := fun n => List.nodup_nil
  ccb_old := fun n x member => absurd member List.not_mem_nil
  ccb_tx := fun n x member => absurd member List.not_mem_nil
  running := fun x processing => TxState.noConfusion processing
  queued := fun x processing => TxState.noConfusion processing
  references := fun n _ => by
    have none_running : processingIn (TxServer.init ftx) n = ∅ :=
      Finset.eq_empty_of_forall_notMem fun x member =>
        TxState.noConfusion (mem_processingIn.mp member).2.1
    rw [none_running]
    rfl

theorem Disciplined.congr {other : TxServer} (lists : Disciplined s)
    (same : other.quiet = s.quiet) : Disciplined other := by
  rw [eq_of_quiet same]
  exact { lists with }

/-- The invariant does not look at the hash table or at messages. -/
theorem TxGood.congr {other : TxServer} (good : TxGood s) (same : other.quiet = s.quiet) :
    TxGood other := by
  rw [eq_of_quiet same]
  exact { good with
    lists := { good.lists with }
    references := good.references }

end Good

/-! ### Allocating keeps the invariant -/

section Alloc

variable {s : TxServer} {x : Nat} {rest : List Nat} {op : TxOp} {req : TxRequest}

theorem takeFree_good (good : TxGood s) (head : s.lru = x :: rest) : TxGood (takeFree s rest) := by
  have within : ∀ y ∈ rest, y ∈ s.lru := fun y member => head ▸ List.mem_cons_of_mem _ member
  have distinct := good.lists.distinct
  have count := good.lists.count
  rw [head] at distinct count
  exact { good with
    lists := {
      distinct := (List.nodup_cons.mp distinct).2
      count := by
        change s.ftx - 1 = rest.length
        rw [count, List.length_cons]
        omega
      idle := fun y member => good.lists.idle y (within y member)
      apart := fun n live y member => good.lists.apart n live y (within y member)
      neverRelinked := good.lists.neverRelinked }
    lru_old := fun y member => good.lru_old y (within y member)
    references := good.references }

theorem moreTotal_good (good : TxGood s) : TxGood (moreTotal s) := by
  have same : ∀ n, processingIn (moreTotal s) n = processingIn s n := by
    intro n
    ext y
    rw [mem_processingIn, mem_processingIn]
    constructor
    · rintro ⟨_, processing, group⟩
      exact ⟨good.old processing, processing, group⟩
    · rintro ⟨old, processing, group⟩
      exact ⟨Nat.lt_succ_of_lt old, processing, group⟩
  exact { good with
    lists := { good.lists with }
    lru_old := fun y member => Nat.lt_succ_of_lt (good.lru_old y member)
    unused := fun y beyond => good.unused y (Nat.le_of_succ_le beyond)
    ccb_old := fun n y member => Nat.lt_succ_of_lt (good.ccb_old n y member)
    references := fun n live => by
      rw [same n]
      exact good.references n live }

/-- Initialising an object that is linked nowhere and not in use. -/
theorem initTx_good (good : TxGood s) (old : x < s.total) (off : x ∉ s.lru)
    (idle : (s.tx x).state ≠ .processing) (unlinked : ∀ n, x ∉ (s.txg n).ccbList) :
    TxGood (initTx s x op req) := by
  have this_tx : (initTx s x op req).tx x = startedTx s x op req := Function.update_self ..
  have other_tx : ∀ y, y ≠ x → (initTx s x op req).tx y = s.tx y :=
    fun y other => Function.update_of_ne other ..
  have open_txg : (initTx s x op req).txg s.openTxg =
      ⟨(s.txg s.openTxg).txPending + 1,
        if op = .normal then (s.txg s.openTxg).ccbList ++ [x] else (s.txg s.openTxg).ccbList⟩ := by
    simp only [initTx, fixCcb, mdsTxcAdd, txgGet, setTx, setGroup, Function.update_self]
  have other_txg : ∀ n, n ≠ s.openTxg → (initTx s x op req).txg n = s.txg n := by
    intro n other
    simp only [initTx, fixCcb, mdsTxcAdd, txgGet, setTx, setGroup, Function.update_of_ne other]
  have mem_ccb : ∀ n y, y ∈ ((initTx s x op req).txg n).ccbList ↔
      y ∈ (s.txg n).ccbList ∨ y = x ∧ n = s.openTxg ∧ op = .normal := by
    intro n y
    by_cases here : n = s.openTxg
    · rw [here, open_txg]
      by_cases normal : op = .normal
      · simp only [normal, if_true, List.mem_append, List.mem_singleton, and_true]
      · simp only [normal, if_false, and_false, or_false]
    · rw [other_txg n here]
      simp only [here, false_and, and_false, or_false]
  have grown : ∀ n, processingIn (initTx s x op req) n =
      if n = s.openTxg then insert x (processingIn s n) else processingIn s n := by
    intro n
    ext y
    rw [mem_processingIn]
    by_cases same : y = x
    · rw [same, this_tx]
      by_cases here : n = s.openTxg
      · rw [if_pos here]
        exact ⟨fun _ => Finset.mem_insert_self .., fun _ => ⟨old, rfl, here.symm⟩⟩
      · rw [if_neg here]
        constructor
        · rintro ⟨_, _, group⟩
          exact absurd group.symm here
        · intro member
          exact absurd (mem_processingIn.mp member).2.1 idle
    · rw [other_tx y same]
      split
      · rw [Finset.mem_insert, mem_processingIn]
        simp only [same, false_or]
        rfl
      · rw [mem_processingIn]
        rfl
  have not_running : ∀ n, x ∉ processingIn s n :=
    fun n member => idle (mem_processingIn.mp member).2.1
  have nowhere : (txgGet s s.openTxg).linked x = false := by
    refine List.any_eq_false.mpr fun n _ => ?_
    have same : ((txgGet s s.openTxg).txg n).ccbList = (s.txg n).ccbList := by
      by_cases here : n = s.openTxg
      · simp only [txgGet, setGroup, here, Function.update_self]
      · simp only [txgGet, setGroup, Function.update_of_ne here]
    rw [decide_eq_true_eq, same]
    exact unlinked n
  exact {
    lists := {
      distinct := good.lists.distinct
      count := good.lists.count
      idle := fun y member => by
        rw [other_tx y fun same => off (same ▸ member)]
        exact good.lists.idle y member
      apart := fun n live y member => by
        rw [mem_ccb]
        rintro (linked | ⟨same, _⟩)
        · exact good.lists.apart n live y member linked
        · exact off (same ▸ member)
      neverRelinked := by
        change (s.relinked || (txgGet s s.openTxg).linked x) = false
        rw [good.lists.neverRelinked, nowhere]
        rfl }
    lru_old := good.lru_old
    unused := fun y beyond => by
      have other : y ≠ x := fun same => absurd (same ▸ beyond : s.total ≤ x) (Nat.not_le.mpr old)
      rw [other_tx y other]
      exact good.unused y beyond
    older := good.older
    dead := fun n dead => by
      rw [other_txg n fun same => dead (Or.inl same)]
      exact good.dead n dead
    ccb_distinct := fun n => by
      by_cases here : n = s.openTxg
      · rw [here, open_txg]
        split
        · exact List.nodup_append.mpr ⟨good.ccb_distinct _, List.nodup_singleton x,
            fun y member z added same => unlinked _
              ((same.trans (List.mem_singleton.mp added)) ▸ member)⟩
        · exact good.ccb_distinct _
      · rw [other_txg n here]
        exact good.ccb_distinct n
    ccb_old := fun n y member => by
      rcases (mem_ccb n y).mp member with linked | ⟨same, _⟩
      · exact good.ccb_old n y linked
      · exact same ▸ old
    ccb_tx := fun n y member => by
      rcases (mem_ccb n y).mp member with linked | ⟨same, here, normal⟩
      · rw [other_tx y fun same => unlinked n (same ▸ linked)]
        exact good.ccb_tx n y linked
      · rw [same, this_tx]
        exact ⟨normal, here.symm, Or.inl rfl⟩
    running := fun y processing => by
      by_cases same : y = x
      · rw [same, this_tx]
        exact Or.inl rfl
      · rw [other_tx y same] at processing ⊢
        exact good.running y processing
    queued := fun y processing normal => by
      by_cases same : y = x
      · rw [same, this_tx] at normal ⊢
        exact (mem_ccb _ x).mpr (Or.inr ⟨rfl, rfl, normal⟩)
      · rw [other_tx y same] at processing normal ⊢
        exact (mem_ccb _ y).mpr (Or.inl (good.queued y processing normal))
    references := fun n live => by
      rw [grown n]
      by_cases here : n = s.openTxg
      · rw [if_pos here, here, open_txg, Finset.card_insert_of_notMem (not_running _),
          good.references _ (Or.inl rfl), Nat.cast_succ]
      · rw [if_neg here, other_txg n here]
        exact good.references n live }

/-- Every allocation goes through and keeps the invariant. -/
theorem mdsAllocTx_good (good : TxGood s) (table : TableReady s) (op : TxOp) (req : TxRequest)
    (memory : Bool) :
    ∃ result next, mdsAllocTx s op req memory = some (result, next) ∧
      TxGood next ∧ TableReady next := by
  by_cases some_free : 0 < s.ftx
  · have count := good.lists.count
    rcases head : s.lru with _ | ⟨x, rest⟩
    · rw [head] at count
      rw [count] at some_free
      exact absurd some_free (lt_irrefl _)
    · have member : x ∈ s.lru := head ▸ List.mem_cons_self
      have distinct := good.lists.distinct
      rw [head] at distinct
      obtain ⟨next, result, ready, same⟩ :=
        mdsAllocTx_free table good.lists.idle some_free head op req memory
      have started : TxGood (initTx (takeFree s rest) x op req) :=
        initTx_good (takeFree_good good head) (good.lru_old x member)
          (List.nodup_cons.mp distinct).1 (good.lists.idle x member) (good.off_ccb member)
      exact ⟨_, next, result, started.congr same, ready⟩
  · cases memory with
    | false => exact ⟨_, _, mdsAllocTx_nomem some_free, good, table⟩
    | true =>
      have fresh := good.unused s.total (le_refl _)
      have ready : TableReady (moreTotal s) := ⟨table.used, table.alone⟩
      refine ⟨_, _, mdsAllocTx_new some_free, initTx_good (moreTotal_good good) ?_ ?_ ?_ ?_,
        ready.initTx op req⟩
      · exact Nat.lt_succ_self _
      · exact fun member => absurd (good.lru_old _ member) (lt_irrefl _)
      · change (s.tx s.total).state ≠ .processing
        rw [fresh]
        exact TxState.noConfusion
      · exact fun n member => absurd (good.ccb_old n _ member) (lt_irrefl _)

end Alloc

/-! ### Settling keeps the invariant -/

section Settle

variable {s : TxServer} {x : Nat} {tx : Tx}

theorem settle_tx (free : Bool) : (settle s x tx free).tx = Function.update s.tx x tx := by
  cases free <;> rfl

theorem settle_lru (free : Bool) :
    (settle s x tx free).lru = if free then s.lru ++ [x] else s.lru := by
  cases free <;> rfl

theorem settle_txg (free : Bool) : (settle s x tx free).txg =
    Function.update s.txg (s.tx x).txg
      { s.txg (s.tx x).txg with txPending := (s.txg (s.tx x).txg).txPending - 1 } := by
  cases free <;> rfl

theorem settle_ccb (free : Bool) (n : Nat) :
    ((settle s x tx free).txg n).ccbList = (s.txg n).ccbList := by
  rw [settle_txg]
  by_cases here : n = (s.tx x).txg
  · rw [here, Function.update_self]
  · rw [Function.update_of_ne here]

theorem settle_live (free : Bool) (n : Nat) : (settle s x tx free).Live n ↔ s.Live n := by
  cases free <;> exact Iff.rfl

/-- A transaction that ends in the way its level asks for keeps the invariant: it goes to the free
list unless it is NORMAL, and a NORMAL one stays on the callback list of its group. -/
theorem settle_good (good : TxGood s) (processing : (s.tx x).state = .processing)
    (ended : tx.state = .done ∨ tx.state = .acked) (group : tx.txg = (s.tx x).txg)
    (level : tx.op = .normal ↔ (s.tx x).op = .normal) :
    TxGood (settle s x tx (decide (tx.op ≠ .normal))) := by
  have off := good.off_lru processing
  have not_processing : tx.state ≠ .processing := by
    rcases ended with ended | ended <;> rw [ended] <;> exact TxState.noConfusion
  have this_tx : (settle s x tx (decide (tx.op ≠ .normal))).tx x = tx := by
    rw [settle_tx, Function.update_self]
  have other_tx : ∀ y, y ≠ x → (settle s x tx (decide (tx.op ≠ .normal))).tx y = s.tx y := by
    intro y other
    rw [settle_tx, Function.update_of_ne other]
  have mem_lru : ∀ y, y ∈ (settle s x tx (decide (tx.op ≠ .normal))).lru ↔
      y ∈ s.lru ∨ y = x ∧ tx.op ≠ .normal := by
    intro y
    rw [settle_lru]
    by_cases normal : tx.op = .normal
    · simp [normal]
    · simp [normal, List.mem_append]
  have still_running : ∀ y,
      ((settle s x tx (decide (tx.op ≠ .normal))).tx y).state = .processing → y ≠ x := by
    intro y running same
    rw [same, this_tx] at running
    exact not_processing running
  have shrunk : ∀ n, processingIn (settle s x tx (decide (tx.op ≠ .normal))) n =
      (processingIn s n).erase x := by
    intro n
    have total : (settle s x tx (decide (tx.op ≠ .normal))).total = s.total := by
      cases decide (tx.op ≠ .normal) <;> rfl
    ext y
    rw [mem_processingIn, total, Finset.mem_erase, mem_processingIn]
    constructor
    · rintro ⟨bound, running, here⟩
      have other := still_running y running
      rw [other_tx y other] at running here
      exact ⟨other, bound, running, here⟩
    · rintro ⟨other, bound, running, here⟩
      rw [other_tx y other]
      exact ⟨bound, running, here⟩
  exact {
    lists := {
      distinct := by
        rw [settle_lru]
        split
        · exact List.nodup_append.mpr ⟨good.lists.distinct, List.nodup_singleton x,
            fun y member z added same =>
              off ((same.trans (List.mem_singleton.mp added)) ▸ member)⟩
        · exact good.lists.distinct
      count := by
        by_cases normal : tx.op = .normal
        · simp only [normal, ne_eq, not_true_eq_false, decide_false]
          exact good.lists.count
        · simp only [normal, ne_eq, not_false_eq_true, decide_true]
          change s.ftx + 1 = ((s.lru ++ [x]).length : Int)
          rw [good.lists.count, List.length_append, List.length_singleton]
          exact (Nat.cast_succ _).symm
      idle := fun y member => by
        rcases (mem_lru y).mp member with before | ⟨same, _⟩
        · rw [other_tx y fun same => off (same ▸ before)]
          exact good.lists.idle y before
        · rw [same, this_tx]
          exact not_processing
      apart := fun n live y member => by
        rw [settle_ccb]
        rcases (mem_lru y).mp member with before | ⟨same, free⟩
        · exact good.off_ccb before n
        · intro linked
          rw [same] at linked
          exact free (level.mpr (good.ccb_tx n x linked).1)
      neverRelinked := by
        cases decide (tx.op ≠ .normal) <;> exact good.lists.neverRelinked }
    lru_old := fun y member => by
      have bound : y < s.total := by
        rcases (mem_lru y).mp member with before | ⟨same, _⟩
        · exact good.lru_old y before
        · rw [same]
          exact good.old processing
      cases decide (tx.op ≠ .normal) <;> exact bound
    unused := fun y beyond => by
      have bound : s.total ≤ y := by
        cases free : decide (tx.op ≠ .normal) <;> rw [free] at beyond <;> exact beyond
      have other : y ≠ x := fun same =>
        absurd (good.old processing) (Nat.not_lt.mpr (same ▸ bound))
      rw [other_tx y other]
      exact good.unused y bound
    older := by cases decide (tx.op ≠ .normal) <;> exact good.older
    dead := fun n dead => by
      rw [settle_ccb]
      exact good.dead n fun live => dead ((settle_live _ n).mpr live)
    ccb_distinct := fun n => by
      rw [settle_ccb]
      exact good.ccb_distinct n
    ccb_old := fun n y member => by
      rw [settle_ccb] at member
      have bound := good.ccb_old n y member
      cases decide (tx.op ≠ .normal) <;> exact bound
    ccb_tx := fun n y member => by
      rw [settle_ccb] at member
      obtain ⟨normal, here, states⟩ := good.ccb_tx n y member
      by_cases same : y = x
      · rw [same] at normal here ⊢
        rw [this_tx]
        exact ⟨level.mpr normal, group.trans here, Or.inr ended⟩
      · rw [other_tx y same]
        exact ⟨normal, here, states⟩
    running := fun y running => by
      have other := still_running y running
      rw [other_tx y other] at running ⊢
      exact (settle_live _ _).mpr (good.running y running)
    queued := fun y running normal => by
      have other := still_running y running
      rw [other_tx y other] at running normal ⊢
      rw [settle_ccb]
      exact good.queued y running normal
    references := fun n live => by
      have live := (settle_live _ n).mp live
      rw [shrunk n, settle_txg]
      by_cases here : n = (s.tx x).txg
      · have member : x ∈ processingIn s n :=
          mem_processingIn.mpr ⟨good.old processing, processing, here.symm⟩
        have counted : (processingIn s n).card = ((processingIn s n).erase x).card + 1 :=
          (Finset.card_erase_add_one member).symm
        rw [← here, Function.update_self]
        change (s.txg n).txPending - 1 = _
        rw [good.references n live, counted]
        omega
      · have absent : x ∉ processingIn s n :=
          fun member => here (mem_processingIn.mp member).2.2.symm
        rw [Function.update_of_ne here, Finset.erase_eq_of_notMem absent]
        exact good.references n live }

end Settle

/-! ### Ending a transaction keeps the invariant -/

section Ends

variable {s : TxServer} {x : Nat}

theorem mdsFreeTx_good (good : TxGood s) (table : TableReady s)
    (processing : (s.tx x).state = .processing) (level : (s.tx x).op ≠ .normal) :
    ∃ next, mdsFreeTx s x = some next ∧ TxGood next ∧ TableReady next := by
  obtain ⟨next, result, kept⟩ := mdsFreeTx_progress table (good.off_lru processing)
  have same := mdsFreeTx_quiet result
  have settled : TxGood (settle s x (droppedTx (s.tx x))
      (decide ((droppedTx (s.tx x)).op ≠ .normal))) :=
    settle_good good processing (Or.inl rfl) rfl Iff.rfl
  rw [decide_eq_true (show (droppedTx (s.tx x)).op ≠ .normal from level)] at settled
  exact ⟨next, result, settled.congr same, kept⟩

theorem mdsSendReply_good (good : TxGood s) (table : TableReady s)
    (processing : (s.tx x).state = .processing) {err : Int} {rpy goes : Bool}
    (clean : (s.tx x).op = .normal → err = 0 ∧ rpy = true) :
    ∃ next, mdsSendReply s x err rpy goes = some next ∧ TxGood next ∧ TableReady next := by
  cases rpy with
  | true =>
    obtain ⟨next, result, kept⟩ :=
      mdsSendReply_progress table good.lists.idle processing err goes
    have same := mdsSendReply_quiet processing result
    have level : replyOp (s.tx x).op err = .normal ↔ (s.tx x).op = .normal := by
      unfold replyOp
      split
      · exact Iff.rfl
      · next failed => exact ⟨TxOp.noConfusion, fun normal => absurd (clean normal).1 failed⟩
    have settled : TxGood (settle s x (answeredTx (s.tx x) err (some s.msgs))
        (decide (replyOp (s.tx x).op err ≠ .normal))) :=
      settle_good good processing (Or.inr rfl) rfl level
    exact ⟨next, result, settled.congr same, kept⟩
  | false =>
    have level : (s.tx x).op ≠ .normal := fun normal => Bool.noConfusion (clean normal).2
    obtain ⟨next, result, kept⟩ :=
      mdsSendReply_drop_progress table (good.off_lru processing) processing err goes
    have same := mdsSendReply_drop_quiet result
    have settled : TxGood (settle s x (droppedTx { s.tx x with rpy := none })
        (decide ((droppedTx { s.tx x with rpy := none }).op ≠ .normal))) :=
      settle_good good processing (Or.inl rfl) rfl Iff.rfl
    rw [decide_eq_true (show (droppedTx { s.tx x with rpy := none }).op ≠ .normal from level)]
      at settled
    exact ⟨next, result, settled.congr same, kept⟩

end Ends

/-! ### Switching and committing keep the invariant -/

section Groups

variable {s : TxServer} {n : Nat}

theorem txgSwitch_good (good : TxGood s) (settled : s.wbTxg = none) : TxGood (txgSwitch s) := by
  have live : ∀ m, (txgSwitch s).Live m ↔ m = s.openTxg + 1 ∨ s.Live m := by
    intro m
    unfold TxServer.Live
    rw [settled]
    change m = s.openTxg + 1 ∨ some s.openTxg = some m ↔ _
    rw [Option.some.injEq, eq_comm (a := s.openTxg)]
    simp only [reduceCtorEq, or_false]
  have new_txg : (txgSwitch s).txg (s.openTxg + 1) = Txg.zero := Function.update_self ..
  have old_txg : ∀ m, m ≠ s.openTxg + 1 → (txgSwitch s).txg m = s.txg m :=
    fun m other => Function.update_of_ne other ..
  have new_dead : ¬ s.Live (s.openTxg + 1) := by
    rintro (same | wb)
    · exact absurd same (Nat.succ_ne_self _)
    · rw [settled] at wb
      cases wb
  have ccb : ∀ m, ((txgSwitch s).txg m).ccbList = (s.txg m).ccbList := by
    intro m
    by_cases here : m = s.openTxg + 1
    · rw [here, new_txg, good.dead _ new_dead]
      rfl
    · rw [old_txg m here]
  exact {
    lists := { good.lists with
      apart := fun m _ y member => by
        rw [ccb m]
        exact good.off_ccb member m }
    lru_old := good.lru_old
    unused := good.unused
    older := fun m wb => by
      cases wb
      exact Nat.lt_succ_self _
    dead := fun m dead => by
      rw [ccb m]
      exact good.dead m fun alive => dead ((live m).mpr (Or.inr alive))
    ccb_distinct := fun m => by
      rw [ccb m]
      exact good.ccb_distinct m
    ccb_old := fun m y member => good.ccb_old m y (ccb m ▸ member)
    ccb_tx := fun m y member => good.ccb_tx m y (ccb m ▸ member)
    running := fun y running => (live _).mpr (Or.inr (good.running y running))
    queued := fun y running normal => by
      rw [ccb]
      exact good.queued y running normal
    references := fun m alive => by
      change _ = ((processingIn s m).card : Int)
      rcases (live m).mp alive with same | before
      · have empty : processingIn s m = ∅ := by
          refine Finset.eq_empty_of_forall_notMem fun y member => ?_
          obtain ⟨_, running, here⟩ := mem_processingIn.mp member
          exact new_dead (same ▸ here ▸ good.running y running)
        rw [empty, same, new_txg]
        rfl
      · have other : m ≠ s.openTxg + 1 := fun same => new_dead (same ▸ before)
        rw [old_txg m other]
        exact good.references m before }

theorem TxGood.none_running (good : TxGood s) (wb : s.wbTxg = some n)
    (settled : (s.txg n).txPending = 0) : processingIn s n = ∅ := by
  have counted := good.references n (Or.inr wb)
  rw [settled] at counted
  exact Finset.card_eq_zero.mp (by exact_mod_cast counted.symm)

/-- Once no reference to the group in write-back is left, the transactions of its callback list
have ended. -/
theorem TxGood.commitable (good : TxGood s) (wb : s.wbTxg = some n)
    (settled : (s.txg n).txPending = 0) :
    ∀ x ∈ (s.txg n).ccbList, Commitable (s.tx x) := by
  intro x member
  obtain ⟨normal, here, states⟩ := good.ccb_tx n x member
  refine ⟨normal, ?_⟩
  rcases states with running | ended
  · have within : x ∈ processingIn s n := mem_processingIn.mpr ⟨good.old running, running, here⟩
    rw [good.none_running wb settled] at within
    exact absurd within (Finset.notMem_empty x)
  · exact ended

theorem committed_good (good : TxGood s) (wb : s.wbTxg = some n)
    (settled : (s.txg n).txPending = 0) :
    TxGood (committed { s with wbTxg := none } n (s.txg n).ccbList) := by
  have ready := good.commitable wb settled
  have closed := good.older n wb
  have off : ∀ y ∈ (s.txg n).ccbList, y ∉ s.lru := fun y member free => good.off_ccb free n member
  have live : ∀ m, (committed { s with wbTxg := none } n (s.txg n).ccbList).Live m →
      m = s.openTxg := by
    rintro m (same | none)
    · exact same
    · cases none
  have tx_in : ∀ y ∈ (s.txg n).ccbList,
      (committed { s with wbTxg := none } n (s.txg n).ccbList).tx y =
        { s.tx y with state := .commited } := fun y member => if_pos member
  have tx_out : ∀ y, y ∉ (s.txg n).ccbList →
      (committed { s with wbTxg := none } n (s.txg n).ccbList).tx y = s.tx y :=
    fun y absent => if_neg absent
  have running_out : ∀ y,
      ((committed { s with wbTxg := none } n (s.txg n).ccbList).tx y).state = .processing →
        y ∉ (s.txg n).ccbList := by
    intro y running member
    rw [tx_in y member] at running
    exact TxState.noConfusion running
  have ccb_n : ((committed { s with wbTxg := none } n (s.txg n).ccbList).txg n).ccbList = [] := by
    change (Function.update s.txg n _ n).ccbList = []
    rw [Function.update_self]
  have txg_ne : ∀ m, m ≠ n →
      (committed { s with wbTxg := none } n (s.txg n).ccbList).txg m = s.txg m :=
    fun m other => Function.update_of_ne other ..
  have ccb_out : ∀ m, ∀ y ∈
      ((committed { s with wbTxg := none } n (s.txg n).ccbList).txg m).ccbList,
      y ∈ (s.txg m).ccbList ∧ y ∉ (s.txg n).ccbList := by
    intro m y member
    by_cases here : m = n
    · rw [here, ccb_n] at member
      cases member
    · rw [txg_ne m here] at member
      refine ⟨member, fun both => here ?_⟩
      exact (good.ccb_tx m y member).2.1.symm.trans (good.ccb_tx n y both).2.1
  exact {
    lists := {
      distinct := List.nodup_append.mpr ⟨good.lists.distinct, good.ccb_distinct n,
        fun y free z linked same => off z linked (same ▸ free)⟩
      count := by
        change s.ftx + ((s.txg n).ccbList.length : Int) =
          ((s.lru ++ (s.txg n).ccbList).length : Int)
        rw [good.lists.count, List.length_append, Nat.cast_add]
      idle := fun y member running => by
        have absent := running_out y running
        rcases List.mem_append.mp member with before | added
        · rw [tx_out y absent] at running
          exact good.lists.idle y before running
        · exact absent added
      apart := fun m alive y member linked => by
        obtain ⟨before, absent⟩ := ccb_out m y linked
        rcases List.mem_append.mp member with free | added
        · exact good.off_ccb free m before
        · exact absent added
      neverRelinked := good.lists.neverRelinked }
    lru_old := fun y member => by
      rcases List.mem_append.mp member with free | added
      · exact good.lru_old y free
      · exact good.ccb_old n y added
    unused := fun y beyond => by
      have absent : y ∉ (s.txg n).ccbList :=
        fun member => absurd (good.ccb_old n y member) (Nat.not_lt.mpr beyond)
      rw [tx_out y absent]
      exact good.unused y beyond
    older := fun m none => by cases none
    dead := fun m dead => by
      by_cases here : m = n
      · rw [here]
        exact ccb_n
      · rw [txg_ne m here]
        refine good.dead m ?_
        rintro (same | other)
        · exact dead (Or.inl same)
        · exact here (Option.some.inj (other.symm.trans wb))
    ccb_distinct := fun m => by
      by_cases here : m = n
      · rw [here, ccb_n]
        exact List.nodup_nil
      · rw [txg_ne m here]
        exact good.ccb_distinct m
    ccb_old := fun m y member => good.ccb_old m y (ccb_out m y member).1
    ccb_tx := fun m y member => by
      obtain ⟨before, absent⟩ := ccb_out m y member
      rw [tx_out y absent]
      exact good.ccb_tx m y before
    running := fun y running => by
      have absent := running_out y running
      rw [tx_out y absent] at running ⊢
      rcases good.running y running with same | other
      · exact Or.inl same
      · have here := Option.some.inj (other.symm.trans wb)
        have within : y ∈ processingIn s n :=
          mem_processingIn.mpr ⟨good.old running, running, here⟩
        rw [good.none_running wb settled] at within
        exact absurd within (Finset.notMem_empty y)
    queued := fun y running normal => by
      have absent := running_out y running
      rw [tx_out y absent] at running normal ⊢
      have linked := good.queued y running normal
      have other : (s.tx y).txg ≠ n := fun same => absent (same ▸ linked)
      rw [txg_ne _ other]
      exact linked
    references := fun m alive => by
      have same := live m alive
      have other : m ≠ n := fun here => absurd closed (by rw [← here, same]; exact lt_irrefl _)
      have unchanged : processingIn (committed { s with wbTxg := none } n (s.txg n).ccbList) m =
          processingIn s m := by
        ext y
        rw [mem_processingIn, mem_processingIn]
        constructor
        · rintro ⟨bound, running, group⟩
          have absent := running_out y running
          rw [tx_out y absent] at running group
          exact ⟨bound, running, group⟩
        · rintro ⟨bound, running, group⟩
          have absent : y ∉ (s.txg n).ccbList := by
            intro member
            have ended := (ready y member).ended
            rw [running] at ended
            rcases ended with ended | ended <;> exact TxState.noConfusion ended
          rw [tx_out y absent]
          exact ⟨bound, running, group⟩
      rw [unchanged, txg_ne m other]
      exact good.references m (Or.inl same) }

end Groups

/-! ### Runs -/

section Runs

variable {s : TxServer} {call : TxCall}

/-- A call that closes cleanly goes through and keeps the invariant. -/
theorem txStep_good (good : TxGood s) (table : TableReady s) (enabled : TxEnabled s call)
    (clean : ClosesCleanly s call) :
    ∃ next, txStep s call = some next ∧ TxGood next ∧ TableReady next := by
  cases call with
  | alloc op req memory =>
    obtain ⟨result, next, allocated, kept, ready⟩ := mdsAllocTx_good good table op req memory
    exact ⟨next, by rw [txStep, allocated]; rfl, kept, ready⟩
  | reply x err rpy goes => exact mdsSendReply_good good table enabled clean
  | free x => exact mdsFreeTx_good good table enabled clean
  | switch =>
    have settled : s.wbTxg = none := enabled
    exact ⟨_, rfl, txgSwitch_good good settled, ⟨table.used, table.alone⟩⟩
  | commit sends goes =>
    obtain ⟨n, wb, settled⟩ := enabled
    have ready := good.commitable wb settled
    obtain ⟨next, result, kept, same⟩ := triggerLoop_eq (s := { s with wbTxg := none }) (n := n)
      sends goes ⟨table.used, table.alone⟩ good.lists.idle rfl (good.ccb_distinct n) ready
      fun y member free => good.off_ccb free n member
    refine ⟨next, ?_, (committed_good good wb settled).congr same, kept⟩
    rw [txStep, wb]
    simp only [txgCommit, txgTriggerCcb]
    rw [result]
    rfl

/-- A NORMAL transaction that goes to the free list is on both lists. -/
theorem settle_undisciplined {x : Nat} {tx : Tx} {next : TxServer} (good : TxGood s)
    (processing : (s.tx x).state = .processing) (normal : (s.tx x).op = .normal)
    (same : next.quiet = (settle s x tx true).quiet) : ¬ Disciplined next := by
  intro lists
  have linked : x ∈ ((settle s x tx true).txg (s.tx x).txg).ccbList := by
    rw [settle_ccb]
    exact good.queued x processing normal
  have free : x ∈ (settle s x tx true).lru := by
    rw [settle_lru]
    exact List.mem_append_right _ (List.mem_singleton_self x)
  exact (lists.congr same.symm).apart _ ((settle_live true _).mpr (good.running x processing)) x
    free linked

/-- A call keeps the lists in order exactly when it closes cleanly. -/
theorem txStep_disciplined_iff (good : TxGood s) (table : TableReady s)
    (enabled : TxEnabled s call) :
    (∃ next, txStep s call = some next ∧ Disciplined next) ↔ ClosesCleanly s call := by
  constructor
  · rintro ⟨next, stepped, lists⟩
    by_contra unclean
    cases call with
    | alloc op req memory => exact unclean trivial
    | reply x err rpy goes =>
      obtain ⟨normal, failed⟩ := Classical.not_imp.mp unclean
      have processing : (s.tx x).state = .processing := enabled
      cases rpy with
      | true =>
        have error : err ≠ 0 := fun success => failed ⟨success, rfl⟩
        have same := mdsSendReply_quiet processing stepped
        have level : replyOp (s.tx x).op err ≠ .normal := by
          rw [replyOp, if_neg error]
          exact TxOp.noConfusion
        rw [decide_eq_true level] at same
        exact settle_undisciplined good processing normal same lists
      | false =>
        have dropped : mdsSendReply s x err false goes = some next := stepped
        exact settle_undisciplined good processing normal (mdsSendReply_drop_quiet dropped) lists
    | free x =>
      have normal : (s.tx x).op = .normal := Classical.not_not.mp unclean
      have processing : (s.tx x).state = .processing := enabled
      exact settle_undisciplined good processing normal (mdsFreeTx_quiet stepped) lists
    | switch => exact unclean trivial
    | commit sends goes => exact unclean trivial
  · intro clean
    obtain ⟨next, stepped, kept, _⟩ := txStep_good good table enabled clean
    exact ⟨next, stepped, kept.lists⟩

/-- The free list is in order after every call of a run exactly when every NORMAL transaction that
ends in the run ends with a successful reply. -/
theorem tx_lists_disciplined_iff (ftx : Nat) (calls : List TxCall)
    (enabled : Guarded txStep TxEnabled (TxServer.init ftx) calls) :
    (∀ before after, calls = before ++ after →
        ∃ s, run txStep (TxServer.init ftx) before = some s ∧ Disciplined s) ↔
      Guarded txStep ClosesCleanly (TxServer.init ftx) calls := by
  have initial : TxGood (TxServer.init ftx) ∧ TableReady (TxServer.init ftx) :=
    ⟨init_good ftx, ⟨fun _ hashed => Bool.noConfusion hashed, fun _ => Int.le_of_lt Int.one_pos⟩⟩
  rw [prefixes_iff_guarded initial.1.lists]
  have agree : Guarded txStep (fun s call => TxEnabled s call ∧ ClosesCleanly s call)
        (TxServer.init ftx) calls ↔
      Guarded txStep (fun s call => TxEnabled s call ∧
        ∃ next, txStep s call = some next ∧ Disciplined next) (TxServer.init ftx) calls :=
    guarded_iff_of_invariant (fun s => TxGood s ∧ TableReady s)
      (fun s call good => and_congr_right fun allowed =>
        (txStep_disciplined_iff good.1 good.2 allowed).symm)
      (fun s call next good clean stepped => by
        obtain ⟨other, same, kept⟩ := txStep_good good.1 good.2 clean.1 clean.2
        cases stepped.symm.trans same
        exact kept)
      initial
  rw [guarded_and, guarded_and] at agree
  exact ⟨fun lists => (agree.mpr ⟨enabled, lists⟩).2, fun clean => (agree.mp ⟨enabled, clean⟩).2⟩

/-- A NORMAL request that succeeds is committed with its group. -/
theorem tx_lists_disciplined_iff_committed :
    (∀ before after,
      [TxCall.alloc .normal ⟨1, 7⟩ true, .reply 0 0 true false, .switch,
          .commit (fun _ => true) fun _ => false] =
          before ++ after →
        ∃ s, run txStep (TxServer.init 1) before = some s ∧ Disciplined s) ↔
      Guarded txStep ClosesCleanly (TxServer.init 1)
        [.alloc .normal ⟨1, 7⟩ true, .reply 0 0 true false, .switch,
          .commit (fun _ => true) fun _ => false] :=
  tx_lists_disciplined_iff 1 _
    (.cons trivial rfl (.cons rfl rfl (.cons rfl rfl (.cons ⟨0, rfl, rfl⟩ rfl trivial))))

/-- A NORMAL request that fails is free while its callback is still to come. -/
theorem tx_lists_error_reply : ¬ ∀ (ftx : Nat) (calls : List TxCall),
    Guarded txStep TxEnabled (TxServer.init ftx) calls →
      ∀ before after, calls = before ++ after →
        ∃ s, run txStep (TxServer.init ftx) before = some s ∧ Disciplined s := by
  intro claim
  obtain ⟨s, reached, lists⟩ := claim 1
    [.alloc .normal ⟨1, 7⟩ true, .reply 0 (-EINVAL) true false]
    (.cons trivial rfl (.cons rfl rfl trivial)) _ [] (List.append_nil _).symm
  have both : (run txStep (TxServer.init 1) [.alloc .normal ⟨1, 7⟩ true,
      .reply 0 (-EINVAL) true false]).map
        (fun s => (s.openTxg, s.lru, (s.txg 0).ccbList)) = some (0, [0], [0]) := by decide
  rw [reached] at both
  simp only [Option.map_some, Option.some.injEq, Prod.mk.injEq] at both
  obtain ⟨here, free, linked⟩ := both
  exact lists.apart 0 (Or.inl here.symm) 0 (by rw [free]; decide) (by rw [linked]; decide)

end Runs

end Hvfs
