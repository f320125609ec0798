/-
This file embeds the calls on transactions as they run next to each other: any
number of service threads, each with one request, the commit threads, the
threads that search the hash table, and `mds_pre_free_tx`.

A step is what the source does under one lock or with one atomic operation; an
operation on an intrusive list is one step, and so is `mds_get_open_txg`. The
test of `tx->state` in `mds_tx_done` and in `mds_tx_commit` is one step with the
assignment behind it: a request that is being processed is assigned to by its own
thread only, and `mds_tx_commit` assigns the last state. `mds_pre_free_tx` is
called at the end of other calls; here it is a sweeper of its own that may run at
any time, one at a time, and holds `hmo.txc.lock` while it does.

`mds_tx_fix_ccb` links into the callback list of a group without a lock. When two
such insertions overlap the second may write over the first: that is an event of
its own, after which the list does not hold the first transaction.

What a service thread has still to do is its *stage*, named by the next step.
-/

import Hvfs.Tx
import Mathlib.Data.Fintype.Basic

namespace Hvfs

/-! ### Service threads -/

/-- Where `mds_txc_evict` is: before its wait, behind it, and behind `hlist_del_init`. -/
inductive EvictPhase
  | waiting
  | waited
  | unhashed
  deriving DecidableEq, Repr

/-- The two ways to finish: `mds_send_reply` sends the reply before `mds_tx_done`, `mds_statfs`
sends it after. -/
inductive Ending
  | reply
  | statfs
  deriving DecidableEq, Repr

/-- The next step of a service thread. -/
inductive Stage
  /-- `mds_txc_evict` of the object that `mds_txc_alloc_tx` took. -/
  | evictOld (phase : EvictPhase)
  /-- `mds_alloc_tx`: the fields of the object, `mds_get_open_txg`, `mds_txc_add` with
  `mds_tx_fix_ccb`. -/
  | init
  | getTxg
  | link
  /-- The handler, until it ends in one way or another. -/
  | handler
  /-- `itb_dirty` has got the group `nt`: `txg_put(t)` and `*otxg = nt`. -/
  | putOld (nt : Nat)
  | setNew (nt : Nat)
  /-- `mds_send_reply`: an error rewrites the level, and the reply is sent. -/
  | rewrite (err : Int)
  /-- `mds_tx_done`: the state, `mds_put_tx`, the free list, `txg_put`. -/
  | done (ending : Ending)
  | putRef (ending : Ending)
  | freeForget (ending : Ending)
  | putTxg (ending : Ending)
  /-- `mds_statfs` sends its reply. -/
  | send
  /-- `mds_tx_reply`: the test of the state, the assignment, the free list. -/
  | acked
  | setAcked
  | freeNocommit
  /-- `mds_free_tx`: the state, the eviction, `mds_put_tx`, `txg_put`, the free list. -/
  | dropMark
  | evictDrop (phase : EvictPhase)
  | dropRef
  | dropTxg
  | dropFree
  deriving DecidableEq, Repr

/-- A request with its thread: the object, the arguments of `mds_alloc_tx`, the number that
`mds_rdtx` gave it, and the group that it references. -/
structure Job where
  x : Nat
  op : TxOp
  req : TxRequest
  life : Nat
  group : Nat
  stage : Stage
  deriving DecidableEq, Repr

/-! ### The system -/

/-- The next step of a commit thread in `txg_trigger_ccb`, on the head of the callback list. -/
inductive Callback
  | visit
  | free
  | del
  deriving DecidableEq, Repr

/-- The server with its threads. -/
structure TxSystem (ι : Type) where
  server : TxServer
  thread : ι → Option Job
  /-- The commit threads, by their groups. -/
  callback : Nat → Option Callback
  /-- The object that the sweeper evicts. -/
  sweeper : Option (Nat × EvictPhase)
  /-- The references that searches hold. -/
  found : Nat → Nat
  /-- The replies sent, by transaction and error. -/
  data : List (Nat × Int)
  /-- The NORMAL transactions that were done with success, by transaction and group. -/
  ended : List (Nat × Nat)
  /-- The COMMIT messages that were sent, by transaction and the group that was committed. -/
  sent : List (Nat × Nat)

/-- The system before its first request. -/
def TxSystem.init (ι : Type) (ftx : Nat) : TxSystem ι where
  server := TxServer.init ftx
  thread := fun _ => none
  callback := fun _ => none
  sweeper := none
  found := fun _ => 0
  data := []
  ended := []
  sent := []

/-- What may happen next. -/
inductive TxEvent (ι : Type)
  /-- A thread takes up a request; `memory` is `xzalloc`. -/
  | alloc (i : ι) (op : TxOp) (req : TxRequest) (memory : Bool)
  /-- `itb_dirty` gets the open group for a thread in its handler. -/
  | reassign (i : ι)
  /-- A handler ends in `mds_send_reply`, in the end of `mds_statfs`, or in `mds_free_tx`; `rpy` is
  `xnet_alloc_msg`. -/
  | reply (i : ι) (err : Int) (rpy : Bool)
  | statfs (i : ι) (rpy : Bool)
  | drop (i : ι)
  /-- A thread makes its next step; `sends` is `xnet_isend`. -/
  | step (i : ι) (sends : Bool)
  /-- The insertion of thread `i` into a callback list, which that of thread `j` writes over. -/
  | overwrite (i j : ι)
  /-- `txg_switch`. -/
  | switch
  /-- A commit thread passes its wait, and is through with the dirty list. -/
  | commit
  /-- The commit thread of a group makes its next step; `sends` says whether `xnet_alloc_msg` and
  `xnet_isend` of `__tx_send_commit_msg` both succeed. -/
  | callback (n : Nat) (sends : Bool)
  /-- The sweeper comes to a transaction, or makes its next step. -/
  | sweep (x : Nat)
  | sweepStep
  /-- `mds_txc_search` finds a transaction, and its `mds_put_tx`. -/
  | search (x : Nat)
  | put (x : Nat)

/-! ### Steps -/

section Steps

variable {ι : Type} [DecidableEq ι]

/-- A thread with its next stage. -/
def TxSystem.setJob (s : TxSystem ι) (i : ι) (job : Option Job) : TxSystem ι :=
  { s with thread := Function.update s.thread i job }

/-- From `init_tx:` on in `mds_alloc_tx` up to `mds_get_open_txg`, with the reference count and the
list nodes. The number of `mds_rdtx` never comes round here. -/
def initFields (s : TxServer) (x : Nat) (op : TxOp) (req : TxRequest) : TxServer :=
  { setTx s x { s.tx x with
      op := op
      state := .processing
      ref := 1
      tx := s.miTx + 1
      reqno := req.reqno
      reqinSite := req.ssiteId
      req := some s.msgs } with
    miTx := s.miTx + 1
    msgs := s.msgs + 1
    hashed := Function.update s.hashed x false }

/-- `INIT_LIST_HEAD(&tx->ccb)` with a `mds_tx_fix_ccb` whose insertion is written over. -/
def fixCcbLost (s : TxServer) (x : Nat) : TxServer :=
  { s with relinked := s.relinked || s.linked x }

/-- One step of `mds_txc_evict`, and the phase behind it. `none` is its wait or its assertion. -/
def evictStep (s : TxServer) (x : Nat) : EvictPhase → Option (TxServer × Option EvictPhase)
  | .waiting => if 1 < (s.tx x).ref then none else some (s, some .waited)
  | .waited => some ({ s with hashed := Function.update s.hashed x false }, some .unhashed)
  | .unhashed =>
    if (s.tx x).state.rank < TxState.done.rank then none
    else some ({ s with freed := s.freed ++ (s.tx x).messages }, none)

/-- What follows `mds_tx_done`. -/
def Ending.next : Ending → Stage
  | .reply => .acked
  | .statfs => .send

/-- The next step of a thread. A step on the free list waits for the sweeper. -/
def jobStep (s : TxSystem ι) (i : ι) (job : Job) (sends : Bool) : Option (TxSystem ι) :=
  let x := job.x
  let tx := s.server.tx x
  let go (server : TxServer) (stage : Stage) : Option (TxSystem ι) :=
    some { s.setJob i (some { job with stage := stage }) with server := server }
  let finish (server : TxServer) : Option (TxSystem ι) :=
    some { s.setJob i none with server := server }
  match job.stage with
  | .evictOld phase =>
    (evictStep s.server x phase).bind fun (server, phase) =>
      match phase with
      | some phase => go server (.evictOld phase)
      | none => go server .init
  | .init =>
    some { s.setJob i (some { job with
        life := s.server.miTx + 1
        stage := .getTxg }) with
      server := initFields s.server x job.op job.req }
  | .getTxg =>
    let n := s.server.openTxg
    some { s.setJob i (some { job with
        group := n
        stage := .link }) with
      server := setTxg (txgGet s.server n) x n }
  | .link => go (fixCcb (mdsTxcAdd s.server x) tx.txg x job.op) .handler
  | .handler => none
  | .putOld nt => go (txgPut s.server job.group) (.setNew nt)
  | .setNew nt =>
    some { s.setJob i (some { job with
        group := nt
        stage := .handler }) with
      server := setTxg s.server x nt }
  | .rewrite err =>
    some { s.setJob i (some { job with stage := .done .reply }) with
      server := if err = 0 then s.server else setOp s.server x .forget
      data := if sends then s.data ++ [(tx.tx, err)] else s.data }
  | .done ending =>
    if tx.state = .processing then
      some { s.setJob i (some { job with stage := .putRef ending }) with
        server := setState s.server x .done
        ended := if tx.op = .normal then s.ended ++ [(tx.tx, tx.txg)] else s.ended }
    else go s.server ending.next
  | .putRef ending => go (mdsPutTx s.server x) (.freeForget ending)
  | .freeForget ending =>
    if tx.op = .forget then
      if s.sweeper = none then go (lruAdd s.server x) (.putTxg ending) else none
    else go s.server (.putTxg ending)
  | .putTxg ending => go (txgPut s.server tx.txg) ending.next
  | .send =>
    some { s.setJob i (some { job with stage := .acked }) with
      data := if sends then s.data ++ [(tx.tx, 0)] else s.data }
  | .acked =>
    if tx.state.rank ≤ TxState.done.rank then go s.server .setAcked else finish s.server
  | .setAcked => go (setState s.server x .acked) .freeNocommit
  | .freeNocommit =>
    if tx.op = .nocommit then
      if s.sweeper = none then finish (lruAdd s.server x) else none
    else finish s.server
  | .dropMark =>
    if x ∈ s.server.lru then none else go (setState s.server x .done) (.evictDrop .waiting)
  | .evictDrop phase =>
    (evictStep s.server x phase).bind fun (server, phase) =>
      match phase with
      | some phase => go server (.evictDrop phase)
      | none => go server .dropRef
  | .dropRef => go (mdsPutTx s.server x) .dropTxg
  | .dropTxg => go (txgPut s.server tx.txg) .dropFree
  | .dropFree => if s.sweeper = none then finish (lruAdd s.server x) else none

/-- A thread without a request takes one up: `mds_txc_alloc_tx` takes the head of the free list, or
an object is allocated. -/
def allocStep (s : TxSystem ι) (i : ι) (op : TxOp) (req : TxRequest) (memory : Bool) :
    Option (TxSystem ι) :=
  let start (server : TxServer) (x : Nat) (stage : Stage) : Option (TxSystem ι) :=
    some { s.setJob i (some ⟨x, op, req, 0, 0, stage⟩) with server := server }
  if s.sweeper = none then
    if 0 < s.server.ftx then
      match s.server.lru with
      | [] => none
      | x :: rest =>
        start { s.server with
            lru := rest
            ftx := s.server.ftx - 1 } x
          (if s.server.hashed x then .evictOld .waiting else .init)
    else if memory then
      start { s.server with total := s.server.total + 1 } s.server.total .init
    else some s
  else none

/-- The next step of the commit thread of group `n` in `txg_trigger_ccb`. A COMMIT that cannot be
allocated or sent is given up. -/
def callbackStep (s : TxSystem ι) (n : Nat) (sends : Bool) : Callback → Option (TxSystem ι)
  | .visit =>
    match (s.server.txg n).ccbList with
    | [] => some { s with callback := Function.update s.callback n none }
    | x :: _ =>
      let tx := s.server.tx x
      if tx.state.rank < TxState.done.rank ∨ TxState.acked.rank < tx.state.rank then
        some { s with callback := Function.update s.callback n (some .del) }
      else if tx.op = .normal then
        some { s with
          server := setState s.server x .commited
          callback := Function.update s.callback n (some .free)
          sent := if sends then s.sent ++ [(tx.tx, n)] else s.sent }
      else
        some { s with
          server := setState s.server x .commited
          callback := Function.update s.callback n (some .del) }
  | .free =>
    match (s.server.txg n).ccbList with
    | [] => none
    | x :: _ =>
      if x ∈ s.server.lru ∨ s.sweeper ≠ none then none
      else
        some { s with
          server := lruAdd s.server x
          callback := Function.update s.callback n (some .del) }
  | .del =>
    match (s.server.txg n).ccbList with
    | [] => none
    | x :: _ =>
      some { s with
        server := ccbDel s.server n x
        callback := Function.update s.callback n (some .visit) }

/-- A thread in its handler goes on with another stage. -/
def handlerStep (s : TxSystem ι) (i : ι) (go : Job → TxSystem ι) : Option (TxSystem ι) :=
  match s.thread i with
  | none => none
  | some job => if job.stage = .handler then some (go job) else none

/-- The thread is about to insert its transaction into the callback list of group `n`. -/
def Job.Inserts (s : TxServer) (n : Nat) (job : Job) : Prop :=
  job.stage = .link ∧ job.op = .normal ∧ (s.tx job.x).txg = n

instance (s : TxServer) (n : Nat) (job : Job) : Decidable (job.Inserts s n) :=
  inferInstanceAs (Decidable (_ ∧ _ ∧ _))

/-- The system after an event; `none` when the event cannot happen. -/
def txEvent (s : TxSystem ι) : TxEvent ι → Option (TxSystem ι)
  | .alloc i op req memory =>
    match s.thread i with
    | none => allocStep s i op req memory
    | some _ => none
  | .reassign i =>
    handlerStep s i fun job =>
      { s.setJob i (some { job with stage := .putOld s.server.openTxg }) with
        server := txgGet s.server s.server.openTxg }
  | .reply i err rpy =>
    handlerStep s i fun job =>
      { s.setJob i (some { job with stage := if rpy then .rewrite err else .dropMark }) with
        server := setRpy s.server job.x rpy }
  | .statfs i rpy =>
    handlerStep s i fun job =>
      { s.setJob i (some { job with stage := if rpy then .done .statfs else .dropMark }) with
        server := setRpy s.server job.x rpy }
  | .drop i => handlerStep s i fun job => s.setJob i (some { job with stage := .dropMark })
  | .step i sends =>
    match s.thread i with
    | none => none
    | some job => jobStep s i job sends
  | .overwrite i j =>
    match s.thread i, s.thread j with
    | some job, some other =>
      let n := (s.server.tx job.x).txg
      if i ≠ j ∧ job.Inserts s.server n ∧ other.Inserts s.server n then
        some { s.setJob i (some { job with stage := .handler }) with
          server := fixCcbLost (mdsTxcAdd s.server job.x) job.x }
      else none
    | _, _ => none
  | .switch => if s.server.wbTxg = none then some { s with server := txgSwitch s.server } else none
  | .commit =>
    match s.server.wbTxg with
    | none => none
    | some n =>
      if (s.server.txg n).txPending = 0 then
        some { s with
          server := { s.server with wbTxg := none }
          callback := Function.update s.callback n (some .visit) }
      else none
  | .callback n sends =>
    match s.callback n with
    | none => none
    | some stage => callbackStep s n sends stage
  | .sweep x =>
    if s.sweeper = none ∧ x ∈ s.server.lru.take HVFS_TX_PRE_FREE_HINT ∧ s.server.hashed x = true
    then some { s with sweeper := some (x, .waiting) }
    else none
  | .sweepStep =>
    match s.sweeper with
    | none => none
    | some (x, phase) =>
      (evictStep s.server x phase).map fun (server, phase) =>
        { s with
          server := server
          sweeper := phase.map fun phase => (x, phase) }
  | .search x =>
    if s.server.hashed x then
      some { s with
        server := setTx s.server x { s.server.tx x with ref := (s.server.tx x).ref + 1 }
        found := Function.update s.found x (s.found x + 1) }
    else none
  | .put x =>
    if 0 < s.found x then
      some { s with
        server := mdsPutTx s.server x
        found := Function.update s.found x (s.found x - 1) }
    else none

end Steps

end Hvfs
