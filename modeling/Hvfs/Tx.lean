/-
This file embeds the transactions of `mds/tx.c` with what they use of
`mds/txg.c`: the transaction objects, their free list and the hash table that
`mds_txc_search` reads, the transaction groups with their reference counts and
commit callback lists, and the life of a transaction from `mds_alloc_tx` to
`mds_tx_commit`.

An object is named by the order of its allocation, a group by its number, a
message by the order in which the server got it. The numbers of groups and of
transactions are not bounded here, though the counters of the source, which
`atomic64_inc` adds to by 32 bits, come round after 2^32. An intrusive list is
the list of the objects linked into it. What a list node holds is only known as
long as no node is initialised while another node still points to it; `relinked`
records that this has happened.
-/

import Hvfs.Const
import Mathlib.Data.List.Nodup
import Mathlib.Logic.Function.Basic

namespace Hvfs

/-! ### Transactions and transaction groups -/

/-- `HVFS_TX_NORMAL`, `HVFS_TX_NOCOMMIT` and `HVFS_TX_FORGET`. -/
inductive TxOp
  | normal
  | nocommit
  | forget
  deriving DecidableEq, Repr

/-- `tx->state`: the states of `tx.h`, and the 0 of memory that was never a transaction. -/
inductive TxState
  | fresh
  | processing
  | done
  | acked
  | commited
  deriving DecidableEq, Repr

/-- The number of a state, as `<` and `<=` of the source compare them. -/
def TxState.rank : TxState → Nat
  | .fresh => 0
  | .processing => 1
  | .done => 2
  | .acked => 3
  | .commited => 4

/-- `struct hvfs_tx`; `txg` is the number of the group that `tx->txg` points to. -/
structure Tx where
  op : TxOp
  state : TxState
  ref : Int
  tx : Nat
  reqno : U64
  reqinSite : U64
  req : Option Nat
  rpy : Option Nat
  txg : Nat
  deriving DecidableEq, Repr

/-- The memory that `xzalloc` returns for a transaction. -/
def Tx.zero : Tx where
  op := .normal
  state := .fresh
  ref := 0
  tx := 0
  reqno := 0
  reqinSite := 0
  req := none
  rpy := none
  txg := 0

/-- `struct hvfs_txg`: the references to it, and its commit callback list. -/
structure Txg where
  txPending : Int
  ccbList : List Nat
  deriving DecidableEq, Repr

/-- What `txg_alloc` returns. -/
def Txg.zero : Txg where
  txPending := 0
  ccbList := []

/-- What `mds_alloc_tx` reads of a message: `req->tx.reqno` and `req->tx.ssite_id`. -/
structure TxRequest where
  reqno : U64
  ssiteId : U64
  deriving DecidableEq, Repr

/-- The message of `__tx_send_commit_msg`; `tx` tells which transaction it is about. -/
structure CommitMsg where
  site : U64
  reqno : U64
  tx : Nat
  deriving DecidableEq, Repr

/-- `hmo.txc` with the objects of its free list and those in use, `hmi.mi_tx`, and the groups with
the numbers of `hmo.txg[TXG_OPEN]`, which is also `hmi.mi_txg`, and `hmo.txg[TXG_WB]`. -/
structure TxServer where
  tx : Nat → Tx
  total : Nat
  lru : List Nat
  ftx : Int
  /-- The transactions in `hmo.txc.txht`. -/
  hashed : Nat → Bool
  miTx : Nat
  txg : Nat → Txg
  openTxg : Nat
  wbTxg : Option Nat
  /-- The messages so far, and those passed to `xnet_free_msg`. -/
  msgs : Nat
  freed : List Nat
  /-- A transaction was initialised while its `ccb` node was linked. -/
  relinked : Bool

/-- The server after `mds_init_txc` with `ftx` transactions and `txg_init` with group 0. -/
def TxServer.init (ftx : Nat) : TxServer where
  tx := fun _ => Tx.zero
  total := ftx
  lru := List.range ftx
  ftx := ftx
  hashed := fun _ => false
  miTx := 0
  txg := fun _ => Txg.zero
  openTxg := 0
  wbTxg := none
  msgs := 0
  freed := []
  relinked := false

/-- The groups in `hmo.txg`. -/
def TxServer.Live (s : TxServer) (n : Nat) : Prop := n = s.openTxg ∨ s.wbTxg = some n

instance (s : TxServer) (n : Nat) : Decidable (s.Live n) :=
  inferInstanceAs (Decidable (_ ∨ _))

/-- The `ccb` node of the transaction is linked. -/
def TxServer.linked (s : TxServer) (x : Nat) : Bool :=
  (List.range (s.openTxg + 1)).any fun n => decide (x ∈ (s.txg n).ccbList)

/-! ### Elementary steps -/

/-- The server after a change of one transaction. -/
def setTx (s : TxServer) (x : Nat) (tx : Tx) : TxServer :=
  { s with tx := Function.update s.tx x tx }

/-- The server after a change of one group. -/
def setGroup (s : TxServer) (n : Nat) (txg : Txg) : TxServer :=
  { s with txg := Function.update s.txg n txg }

/-- `txg_get`. -/
def txgGet (s : TxServer) (n : Nat) : TxServer :=
  setGroup s n { s.txg n with txPending := (s.txg n).txPending + 1 }

/-- `txg_put`. -/
def txgPut (s : TxServer) (n : Nat) : TxServer :=
  setGroup s n { s.txg n with txPending := (s.txg n).txPending - 1 }

/-- `tx->state = state`. -/
def setState (s : TxServer) (x : Nat) (state : TxState) : TxServer :=
  setTx s x { s.tx x with state := state }

/-- `tx->op = op`. -/
def setOp (s : TxServer) (x : Nat) (op : TxOp) : TxServer :=
  setTx s x { s.tx x with op := op }

/-- `tx->txg = txg`. -/
def setTxg (s : TxServer) (x n : Nat) : TxServer :=
  setTx s x { s.tx x with txg := n }

/-- `tx->rpy = xnet_alloc_msg(..)`, which may fail. -/
def setRpy (s : TxServer) (x : Nat) (memory : Bool) : TxServer :=
  { setTx s x { s.tx x with rpy := if memory then some s.msgs else none } with
    msgs := if memory then s.msgs + 1 else s.msgs }

/-- `mds_put_tx`. -/
def mdsPutTx (s : TxServer) (x : Nat) : TxServer :=
  setTx s x { s.tx x with ref := (s.tx x).ref - 1 }

/-- `list_add_tail(&tx->lru, &hmo.txc.lru)` with the count of free transactions. -/
def lruAdd (s : TxServer) (x : Nat) : TxServer :=
  { s with
    lru := s.lru ++ [x]
    ftx := s.ftx + 1 }

/-- `list_del(&tx->ccb)` of a transaction in the list of group `n`. -/
def ccbDel (s : TxServer) (n x : Nat) : TxServer :=
  setGroup s n { s.txg n with ccbList := (s.txg n).ccbList.erase x }

/-! ### The transaction cache -/

/-- `mds_txc_add`. -/
def mdsTxcAdd (s : TxServer) (x : Nat) : TxServer :=
  { s with
    hashed := if (s.tx x).op = .forget then s.hashed else Function.update s.hashed x true }

/-- The messages that a transaction points to. -/
def Tx.messages (tx : Tx) : List Nat := tx.req.toList ++ tx.rpy.toList

/-- `mds_txc_evict`. `none` is its wait while another reference is held, or its assertion that the
transaction has ended. -/
def mdsTxcEvict (s : TxServer) (x : Nat) : Option TxServer :=
  if 1 < (s.tx x).ref then none
  else if (s.tx x).state.rank < TxState.done.rank then none
  else
    some { s with
      hashed := Function.update s.hashed x false
      freed := s.freed ++ (s.tx x).messages }

/-- The loop of `mds_pre_free_tx`, over the transactions still to visit. -/
def preFreeLoop : List Nat → TxServer → Option TxServer
  | [], s => some s
  | x :: rest, s =>
    if s.hashed x then (mdsTxcEvict s x).bind (preFreeLoop rest) else preFreeLoop rest s

/-- `HVFS_TX_PRE_FREE_HINT`. -/
def HVFS_TX_PRE_FREE_HINT : Nat := 16

/-- `mds_pre_free_tx`, which goes on only when its random number allows it. -/
def mdsPreFreeTx (s : TxServer) (goes : Bool) : Option TxServer :=
  if goes then preFreeLoop (s.lru.take HVFS_TX_PRE_FREE_HINT) s else some s

/-! ### Allocating and freeing -/

/-- `INIT_LIST_HEAD(&tx->ccb)` with `mds_tx_fix_ccb`, which links a NORMAL transaction to the
callback list of its group. -/
def fixCcb (s : TxServer) (n x : Nat) (op : TxOp) : TxServer :=
  { setGroup s n
      { s.txg n with ccbList := if op = .normal then (s.txg n).ccbList ++ [x] else
          (s.txg n).ccbList } with
    relinked := s.relinked || s.linked x }

/-- From `init_tx:` on in `mds_alloc_tx`. The field `rpy` keeps what it held. -/
def initTx (s : TxServer) (x : Nat) (op : TxOp) (req : TxRequest) : TxServer :=
  let n := s.openTxg
  let s := { setTx s x { s.tx x with
      op := op
      state := .processing
      ref := 1
      tx := s.miTx + 1
      reqno := req.reqno
      reqinSite := req.ssiteId
      req := some s.msgs
      txg := n } with
    miTx := s.miTx + 1
    msgs := s.msgs + 1
    hashed := Function.update s.hashed x false }
  fixCcb (mdsTxcAdd (txgGet s n) x) n x op

/-- `mds_txc_alloc_tx`: the head of the free list, when there is a free transaction. The outer
`none` is its assertion that the list is not empty then. -/
def mdsTxcAllocTx (s : TxServer) : Option (Option Nat × TxServer) :=
  if 0 < s.ftx then
    match s.lru with
    | [] => none
    | x :: rest =>
      let s := { s with
        lru := rest
        ftx := s.ftx - 1 }
      if s.hashed x then (mdsTxcEvict s x).map fun s => (some x, s) else some (some x, s)
  else some (none, s)

/-- `mds_alloc_tx`; `memory` says whether `xzalloc` succeeds. The inner `none` is the null
pointer. -/
def mdsAllocTx (s : TxServer) (op : TxOp) (req : TxRequest) (memory : Bool) :
    Option (Option Nat × TxServer) :=
  match mdsTxcAllocTx s with
  | none => none
  | some (some x, s) => some (some x, initTx s x op req)
  | some (none, s) =>
    if memory then
      some (some s.total, initTx { s with total := s.total + 1 } s.total op req)
    else some (none, s)

/-- `mds_free_tx`. `none` is its assertion that the transaction is not on the free list, or the
wait in `mds_txc_evict`. -/
def mdsFreeTx (s : TxServer) (x : Nat) : Option TxServer :=
  if x ∈ s.lru then none
  else
    (mdsTxcEvict (setState s x .done) x).map fun s =>
      let s := mdsPutTx s x
      lruAdd (txgPut s (s.tx x).txg) x

/-! ### Ending a transaction -/

/-- `mds_tx_done`; `goes` is the random number of `mds_pre_free_tx`. -/
def mdsTxDone (s : TxServer) (x : Nat) (goes : Bool) : Option TxServer :=
  if (s.tx x).state = .processing then
    let s := mdsPutTx (setState s x .done) x
    let freed := if (s.tx x).op = .forget then mdsPreFreeTx (lruAdd s x) goes else some s
    freed.map fun s => txgPut s (s.tx x).txg
  else some s

/-- `mds_tx_reply`. -/
def mdsTxReply (s : TxServer) (x : Nat) (goes : Bool) : Option TxServer :=
  if (s.tx x).state.rank ≤ TxState.done.rank then
    let s := setState s x .acked
    if (s.tx x).op = .nocommit then mdsPreFreeTx (lruAdd s x) goes else some s
  else some s

/-- `mds_send_reply`; `rpy` says whether `xnet_alloc_msg` succeeds. -/
def mdsSendReply (s : TxServer) (x : Nat) (err : Int) (rpy goes : Bool) : Option TxServer :=
  let s := setRpy s x rpy
  if rpy then
    let s := if err = 0 then s else setOp s x .forget
    (mdsTxDone s x goes).bind fun s => mdsTxReply s x goes
  else mdsFreeTx s x

/-! ### Committing -/

/-- `__tx_send_commit_msg`, with the message that goes out; `sends` says whether `xnet_alloc_msg` and
`xnet_isend` both succeed. -/
def txSendCommitMsg (tx : Tx) (sends : Bool) : List CommitMsg :=
  if sends then [⟨tx.reqinSite, tx.reqno, tx.tx⟩] else []

/-- `mds_tx_commit`, with the messages it sends. `none` is its assertion that the transaction is not
on the free list. -/
def mdsTxCommit (s : TxServer) (x : Nat) (sends goes : Bool) :
    Option (List CommitMsg × TxServer) :=
  if (s.tx x).state.rank < TxState.done.rank then some ([], s)
  else if (s.tx x).state.rank ≤ TxState.acked.rank then
    let s := setState s x .commited
    if (s.tx x).op = .normal then
      if x ∈ s.lru then none
      else
        (mdsPreFreeTx (lruAdd s x) goes).map fun freed => (txSendCommitMsg (s.tx x) sends, freed)
    else some ([], s)
  else some ([], s)

/-- The loop of `txg_trigger_ccb` for group `n` over the transactions still to visit. -/
def triggerLoop (sends goes : Nat → Bool) (n : Nat) :
    List Nat → TxServer → Option (List CommitMsg × TxServer)
  | [], s => some ([], s)
  | x :: rest, s =>
    (mdsTxCommit s x (sends x) (goes x)).bind fun (sent, s) =>
      (triggerLoop sends goes n rest (ccbDel s n x)).map fun (more, s) => (sent ++ more, s)

/-- `txg_trigger_ccb`. -/
def txgTriggerCcb (s : TxServer) (n : Nat) (sends goes : Nat → Bool) :
    Option (List CommitMsg × TxServer) :=
  triggerLoop sends goes n (s.txg n).ccbList s

/-- `txg_switch`; the assertion that no group is in write-back is its callers' check. -/
def txgSwitch (s : TxServer) : TxServer :=
  { setGroup s (s.openTxg + 1) Txg.zero with
    openTxg := s.openTxg + 1
    wbTxg := some s.openTxg }

/-- `txg_commit` for group `n` from the point where no reference to it is left, without the walk
of the dirty list. -/
def txgCommit (s : TxServer) (n : Nat) (sends goes : Nat → Bool) :
    Option (List CommitMsg × TxServer) :=
  txgTriggerCcb { s with wbTxg := none } n sends goes

end Hvfs
