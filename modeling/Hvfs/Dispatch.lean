/-
This file embeds `mds_client_dispatch` with the life of the transaction that
each handler is given: `mds_statfs`, the handlers that search the CBHT, and the
two that are not implemented.

Of `mds_cbht_search` a handler's transaction sees its error and whether
`itb_dirty` has reassigned it to the open group; the group may have been
switched since the transaction was allocated.
-/

import Hvfs.Client
import Hvfs.TxSpec
import Mathlib.Algebra.BigOperators.Group.Finset.Basic
import Mathlib.Data.Finset.Option

namespace Hvfs

/-! ### Messages -/

def HVFS_CLT2MDS_STATFS : U64 := 0x8001000000000000#64
def HVFS_CLT2MDS_LOOKUP : U64 := 0x8002000000000000#64
def HVFS_CLT2MDS_CREATE : U64 := 0x8004000000000000#64
def HVFS_CLT2MDS_RELEASE : U64 := 0x8008000000000000#64
def HVFS_CLT2MDS_UPDATE : U64 := 0x8010000000000000#64
def HVFS_CLT2MDS_UNLINK : U64 := 0x8040000000000000#64
def HVFS_CLT2MDS_SYMLINK : U64 := 0x8080000000000000#64
def HVFS_CLT2MDS_LB : U64 := 0x8100000000000000#64

def XNET_NEED_REPLY : U16 := 0x0001#16
def XNET_NEED_TX : U16 := 0x0002#16

/-- A message from a client: `tx.cmd`, `tx.flag`, what `mds_alloc_tx` reads, and the payload. -/
structure ClientMsg where
  cmd : U64
  flag : U16
  tx : TxRequest
  payload : ClientRequest
  deriving DecidableEq, Repr

/-! ### Outcomes -/

/-- What a transaction sees of `mds_cbht_search`. -/
structure SearchOutcome where
  err : Int
  /-- The open group is switched meanwhile, when no group is in write-back. -/
  switched : Bool := false
  /-- `itb_dirty` reassigns the transaction to the open group. -/
  reassigned : Bool := false
  deriving DecidableEq, Repr

/-- The outcomes of the allocations and of the search. -/
structure DispatchChance where
  /-- `xzalloc` in `mds_alloc_tx`. -/
  tx : Bool := true
  /-- `get_hmr`, or `xzalloc` in `mds_statfs`. -/
  hmr : Bool := true
  /-- `xnet_alloc_msg`. -/
  rpy : Bool := true
  /-- The random number of `mds_pre_free_tx`. -/
  goes : Bool := false
  search : SearchOutcome
  deriving DecidableEq, Repr

/-! ### Handlers -/

/-- `mds_cbht_search` as the transaction sees it. -/
def searchTx (s : TxServer) (x : Nat) (outcome : SearchOutcome) : TxServer :=
  let s := if outcome.switched ∧ s.wbTxg = none then txgSwitch s else s
  if outcome.reassigned then
    let nt := s.openTxg
    setTxg (txgPut (txgGet s nt) (s.tx x).txg) x nt
  else s

/-- `mds_statfs`. -/
def mdsStatfs (s : TxServer) (x : Nat) (chance : DispatchChance) : Option TxServer :=
  if !chance.hmr then mdsFreeTx s x
  else
    let s := setRpy s x chance.rpy
    if !chance.rpy then mdsFreeTx s x
    else (mdsTxDone s x chance.goes).bind fun s => mdsTxReply s x chance.goes

/-- A handler that searches, from its checks to its reply. -/
def handle (s : TxServer) (x : Nat) (plan : HandlerPlan) (chance : DispatchChance) :
    Option TxServer :=
  match plan with
  | .reply err => mdsSendReply s x err chance.rpy chance.goes
  | .free => mdsFreeTx s x
  | .search _ =>
    mdsSendReply (searchTx s x chance.search) x chance.search.err chance.rpy chance.goes

section Handlers

variable (hvfsHash : U64 → List U8 → U64) (s : TxServer) (x : Nat) (request : ClientRequest)
  (chance : DispatchChance)

def mdsLookup : Option TxServer :=
  handle s x (handlerPlan (lookupIndex hvfsHash request) request chance.hmr) chance

def mdsCreate : Option TxServer :=
  handle s x (handlerPlan (createIndex hvfsHash request) request chance.hmr) chance

def mdsUpdate : Option TxServer :=
  handle s x (handlerPlan (updateIndex hvfsHash request) request chance.hmr) chance

def mdsUnlink : Option TxServer :=
  handle s x (handlerPlan (unlinkIndex hvfsHash request) request chance.hmr) chance

def mdsSymlink : Option TxServer :=
  handle s x (handlerPlan (symlinkIndex hvfsHash request) request chance.hmr) chance

end Handlers

/-- `mds_release`: not implemented. -/
def mdsRelease (s : TxServer) : Option TxServer := some s

/-- `mds_lb`: not implemented. -/
def mdsLb (s : TxServer) : Option TxServer := some s

/-! ### The dispatcher -/

/-- The level that the flags of a message ask for. -/
def opOfFlag (flag : U16) : TxOp :=
  if Flag.has flag XNET_NEED_TX then .normal
  else if Flag.has flag XNET_NEED_REPLY then .nocommit
  else .forget

/-- The switch of `mds_client_dispatch`. -/
def dispatchCmd (hvfsHash : U64 → List U8 → U64) (s : TxServer) (x : Nat) (msg : ClientMsg)
    (chance : DispatchChance) : Option TxServer :=
  if msg.cmd = HVFS_CLT2MDS_STATFS then mdsStatfs s x chance
  else if msg.cmd = HVFS_CLT2MDS_LOOKUP then mdsLookup hvfsHash s x msg.payload chance
  else if msg.cmd = HVFS_CLT2MDS_CREATE then mdsCreate hvfsHash s x msg.payload chance
  else if msg.cmd = HVFS_CLT2MDS_RELEASE then mdsRelease s
  else if msg.cmd = HVFS_CLT2MDS_UPDATE then mdsUpdate hvfsHash s x msg.payload chance
  else if msg.cmd = HVFS_CLT2MDS_UNLINK then mdsUnlink hvfsHash s x msg.payload chance
  else if msg.cmd = HVFS_CLT2MDS_SYMLINK then mdsSymlink hvfsHash s x msg.payload chance
  else if msg.cmd = HVFS_CLT2MDS_LB then mdsLb s
  else some s

/-- How a dispatch ends: its return value, the transaction it allocated, and the server. -/
structure Dispatched where
  ret : Int
  tx : Option Nat
  server : TxServer

/-- `mds_client_dispatch`. `none` is a failed assertion. -/
def mdsClientDispatch (hvfsHash : U64 → List U8 → U64) (s : TxServer) (msg : ClientMsg)
    (chance : DispatchChance) : Option Dispatched :=
  (mdsAllocTx s (opOfFlag msg.flag) msg.tx chance.tx).bind fun
    | (none, s) => some ⟨-ENOMEM, none, s⟩
    | (some x, s) => (dispatchCmd hvfsHash s x msg chance).map fun s => ⟨0, some x, s⟩

/-! ### References to the live groups -/

/-- The groups in `hmo.txg`. -/
def TxServer.liveGroups (s : TxServer) : Finset Nat := insert s.openTxg s.wbTxg.toFinset

/-- The references to the groups in `hmo.txg`. -/
def TxServer.totalPending (s : TxServer) : Int := ∑ n ∈ s.liveGroups, (s.txg n).txPending

section Total

variable {s : TxServer} {n x : Nat}

theorem mem_liveGroups : n ∈ s.liveGroups ↔ s.Live n := by
  rw [TxServer.liveGroups, Finset.mem_insert, Option.mem_toFinset]
  exact Iff.rfl

theorem totalPending_setGroup (live : s.Live n) (txg : Txg) :
    (setGroup s n txg).totalPending =
      s.totalPending + txg.txPending - (s.txg n).txPending := by
  have member := mem_liveGroups.mpr live
  have rest : ∑ k ∈ s.liveGroups.erase n, (Function.update s.txg n txg k).txPending =
      ∑ k ∈ s.liveGroups.erase n, (s.txg k).txPending :=
    Finset.sum_congr rfl fun k others => by
      rw [Function.update_of_ne (Finset.ne_of_mem_erase others)]
  change ∑ k ∈ s.liveGroups, (Function.update s.txg n txg k).txPending = _
  rw [TxServer.totalPending, ← Finset.add_sum_erase _ _ member, rest, Function.update_self,
    ← Finset.add_sum_erase s.liveGroups (fun k => (s.txg k).txPending) member]
  omega

theorem totalPending_get (live : s.Live n) :
    (txgGet s n).totalPending = s.totalPending + 1 := by
  rw [txgGet, totalPending_setGroup live]
  simp only
  omega

theorem totalPending_put (live : s.Live n) :
    (txgPut s n).totalPending = s.totalPending - 1 := by
  rw [txgPut, totalPending_setGroup live]
  simp only
  omega

theorem totalPending_quiet {other : TxServer} (same : other.quiet = s.quiet) :
    other.totalPending = s.totalPending := by
  rw [eq_of_quiet same]
  rfl

/-- A switch adds a group without references. -/
theorem totalPending_switch (settled : s.wbTxg = none) :
    (txgSwitch s).totalPending = s.totalPending := by
  have new : s.openTxg + 1 ∉ ({s.openTxg} : Finset Nat) :=
    Finset.notMem_singleton.mpr (Nat.succ_ne_self _)
  have before : s.liveGroups = {s.openTxg} := by
    rw [TxServer.liveGroups, settled]
    rfl
  have after : (txgSwitch s).liveGroups = insert (s.openTxg + 1) {s.openTxg} := rfl
  rw [TxServer.totalPending, TxServer.totalPending, before, after, Finset.sum_insert new,
    Finset.sum_singleton, Finset.sum_singleton]
  simp only [txgSwitch, setGroup, Function.update_self,
    Function.update_of_ne (Nat.ne_of_lt (Nat.lt_succ_self s.openTxg))]
  exact Int.zero_add _

/-! ### What a dispatch does to them -/

/-- An initialised transaction is being processed in a live group, to which it holds a reference. -/
structure Started (before s : TxServer) (x : Nat) : Prop where
  processing : (s.tx x).state = .processing
  live : s.Live (s.tx x).txg
  total : s.totalPending = before.totalPending + 1

theorem initTx_started (op : TxOp) (req : TxRequest) : Started s (initTx s x op req) x where
  processing := by
    rw [initTx_tx, Function.update_self]
    rfl
  live := by
    rw [initTx_tx, Function.update_self]
    exact Or.inl rfl
  total := by
    have live : s.Live s.openTxg := Or.inl rfl
    have same : (initTx s x op req).totalPending =
        (setGroup (txgGet s s.openTxg) s.openTxg
          { (txgGet s s.openTxg).txg s.openTxg with
            ccbList := if op = .normal then ((txgGet s s.openTxg).txg s.openTxg).ccbList ++ [x] else
              ((txgGet s s.openTxg).txg s.openTxg).ccbList }).totalPending := rfl
    rw [same, totalPending_setGroup (s := txgGet s s.openTxg) live, totalPending_get live]
    simp only
    omega

theorem mdsTxcAllocTx_total {taken : Option Nat} {next : TxServer}
    (result : mdsTxcAllocTx s = some (taken, next)) : next.totalPending = s.totalPending := by
  rcases mdsTxcAllocTx_cases result with ⟨y, rest, _, _, _, ⟨_, _, rfl⟩ | ⟨_, rfl⟩⟩ | ⟨_, _, rfl⟩
  · rfl
  · rfl
  · rfl

theorem mdsAllocTx_started {op : TxOp} {req : TxRequest} {memory : Bool} {next : TxServer}
    (result : mdsAllocTx s op req memory = some (some x, next)) : Started s next x := by
  rcases mdsAllocTx_cases result with ⟨y, middle, same, take, rfl⟩ | ⟨_, same, rfl⟩ | ⟨same, _⟩
  · cases same
    obtain ⟨processing, live, total⟩ := initTx_started (s := middle) (x := x) op req
    exact ⟨processing, live, by rw [total, mdsTxcAllocTx_total take]⟩
  · cases same
    obtain ⟨processing, live, total⟩ :=
      initTx_started (s := moreTotal s) (x := s.total) op req
    exact ⟨processing, live, total⟩
  · cases same

/-- A search leaves its transaction started. -/
theorem Started.search {before : TxServer} (started : Started before s x)
    (outcome : SearchOutcome) : Started before (searchTx s x outcome) x := by
  have switched : Started before
      (if outcome.switched ∧ s.wbTxg = none then txgSwitch s else s) x := by
    split
    · next possible =>
      refine ⟨started.processing, ?_, (totalPending_switch possible.2).trans started.total⟩
      rcases started.live with here | wb
      · exact Or.inr (congrArg some here.symm)
      · rw [possible.2] at wb
        cases wb
    · exact started
  unfold searchTx
  simp only
  generalize (if outcome.switched ∧ s.wbTxg = none then txgSwitch s else s) = s' at switched ⊢
  split
  · have live : s'.Live s'.openTxg := Or.inl rfl
    have got := totalPending_get live
    have put := totalPending_put (s := txgGet s' s'.openTxg) (n := (s'.tx x).txg) switched.live
    refine ⟨?_, ?_, ?_⟩
    · simp only [setTxg, setTx, Function.update_self]
      exact switched.processing
    · simp only [setTxg, setTx, Function.update_self]
      exact Or.inl rfl
    · change (txgPut (txgGet s' s'.openTxg) (s'.tx x).txg).totalPending = _
      rw [put, got, switched.total]
      omega
  · exact switched

/-- A transaction that has ended, and whose reference has been put. -/
structure Closed (before s : TxServer) (x : Nat) : Prop where
  ended : (s.tx x).state ≠ .processing
  total : s.totalPending = before.totalPending

theorem Started.settle {before next : TxServer} {tx : Tx} {free : Bool}
    (started : Started before s x) (ended : tx.state ≠ .processing)
    (same : next.quiet = (settle s x tx free).quiet) : Closed before next x where
  ended := by
    have stored : (Hvfs.settle s x tx free).tx = Function.update s.tx x tx := by
      cases free <;> rfl
    rw [quiet_tx same, stored, Function.update_self]
    exact ended
  total := by
    have put : (Hvfs.settle s x tx free).totalPending = s.totalPending - 1 := by
      rw [← totalPending_put started.live]
      cases free <;> rfl
    rw [totalPending_quiet same, put, started.total]
    omega

theorem Started.free {before next : TxServer} (started : Started before s x)
    (result : mdsFreeTx s x = some next) : Closed before next x :=
  started.settle TxState.noConfusion (mdsFreeTx_quiet result)

theorem Started.sendReply {before next : TxServer} (started : Started before s x) {err : Int}
    {rpy goes : Bool} (result : mdsSendReply s x err rpy goes = some next) :
    Closed before next x := by
  cases rpy with
  | true => exact started.settle TxState.noConfusion (mdsSendReply_quiet started.processing result)
  | false => exact started.settle TxState.noConfusion (mdsSendReply_drop_quiet result)

theorem Started.handle {before next : TxServer} (started : Started before s x)
    {plan : HandlerPlan} {chance : DispatchChance} (result : handle s x plan chance = some next) :
    Closed before next x := by
  cases plan with
  | reply err => exact started.sendReply result
  | free => exact started.free result
  | search hi => exact (started.search chance.search).sendReply result

theorem Started.statfs {before next : TxServer} (started : Started before s x)
    {chance : DispatchChance} (result : mdsStatfs s x chance = some next) :
    Closed before next x := by
  have allocated : ∀ memory, Started before (setRpy s x memory) x := fun memory =>
    ⟨by
      simp only [setRpy, setTx, Function.update_self]
      exact started.processing,
     by
      simp only [setRpy, setTx, Function.update_self]
      exact started.live, started.total⟩
  unfold mdsStatfs at result
  split at result
  · exact started.free result
  · simp only at result
    split at result
    · exact (allocated chance.rpy).free result
    · obtain ⟨middle, done, reply⟩ := Option.bind_eq_some_iff.mp result
      exact (allocated chance.rpy).settle TxState.noConfusion
        (done_reply (allocated chance.rpy).processing done reply)

/-- The commands that `mds_client_dispatch` has a working handler for. -/
def handledCmds : List U64 :=
  [HVFS_CLT2MDS_STATFS, HVFS_CLT2MDS_LOOKUP, HVFS_CLT2MDS_CREATE, HVFS_CLT2MDS_UPDATE,
    HVFS_CLT2MDS_UNLINK, HVFS_CLT2MDS_SYMLINK]

theorem dispatchCmd_handled {before next : TxServer} {hvfsHash : U64 → List U8 → U64}
    {msg : ClientMsg} {chance : DispatchChance} (started : Started before s x)
    (handled : msg.cmd ∈ handledCmds)
    (result : dispatchCmd hvfsHash s x msg chance = some next) : Closed before next x := by
  simp only [handledCmds, List.mem_cons, List.not_mem_nil, or_false] at handled
  rcases handled with cmd | cmd | cmd | cmd | cmd | cmd <;> rw [dispatchCmd, cmd] at result
  · exact started.statfs result
  · exact started.handle (show mdsLookup hvfsHash s x msg.payload chance = _ from result)
  · exact started.handle (show mdsCreate hvfsHash s x msg.payload chance = _ from result)
  · exact started.handle (show mdsUpdate hvfsHash s x msg.payload chance = _ from result)
  · exact started.handle (show mdsUnlink hvfsHash s x msg.payload chance = _ from result)
  · exact started.handle (show mdsSymlink hvfsHash s x msg.payload chance = _ from result)

/-- The other commands leave the transaction as it is. -/
theorem dispatchCmd_unhandled {hvfsHash : U64 → List U8 → U64} {msg : ClientMsg}
    {chance : DispatchChance} (unhandled : msg.cmd ∉ handledCmds) :
    dispatchCmd hvfsHash s x msg chance = some s := by
  simp only [handledCmds, List.mem_cons, List.not_mem_nil, or_false, not_or] at unhandled
  obtain ⟨statfs, lookup, create, update, unlink, symlink⟩ := unhandled
  unfold dispatchCmd
  rw [if_neg statfs, if_neg lookup, if_neg create, if_neg update, if_neg unlink, if_neg symlink]
  simp only [mdsRelease, mdsLb, ite_self]

/-- A dispatch that returns 0 has closed the transaction it allocated exactly when the command has
a working handler. -/
theorem dispatch_closes_iff (hvfsHash : U64 → List U8 → U64) (s : TxServer) (msg : ClientMsg)
    (chance : DispatchChance) (x : Nat) (after : TxServer)
    (result : mdsClientDispatch hvfsHash s msg chance = some ⟨0, some x, after⟩) :
    Closed s after x ↔ msg.cmd ∈ handledCmds := by
  obtain ⟨⟨taken, middle⟩, allocated, rest⟩ := Option.bind_eq_some_iff.mp result
  cases taken with
  | none => cases rest
  | some y =>
    obtain ⟨final, handled, same⟩ := Option.map_eq_some_iff.mp rest
    cases same
    have started := mdsAllocTx_started allocated
    constructor
    · intro closed
      by_contra unhandled
      rw [dispatchCmd_unhandled unhandled] at handled
      cases handled
      exact closed.ended started.processing
    · intro member
      exact dispatchCmd_handled started member handled

/-- The message of a client that wants a reply and a COMMIT. -/
def normalMsg (cmd : U64) : ClientMsg where
  cmd := cmd
  flag := XNET_NEED_TX ||| XNET_NEED_REPLY
  tx := ⟨1, 7⟩
  payload := ⟨0, true, ⟨0, 0, 0, 0, 0, ⟨0, none, {}, ⟨0, 0, 0⟩, 0⟩, []⟩, 0⟩

/-- A LOOKUP that is too short is answered with an error, which closes its transaction. -/
theorem dispatch_closes_iff_lookup :
    ∃ after, mdsClientDispatch (fun _ _ => 0) (TxServer.init 1) (normalMsg HVFS_CLT2MDS_LOOKUP)
        { search := ⟨0, false, false⟩ } = some ⟨0, some 0, after⟩ ∧
      (Closed (TxServer.init 1) after 0 ↔
        (normalMsg HVFS_CLT2MDS_LOOKUP).cmd ∈ handledCmds) :=
  ⟨_, rfl, dispatch_closes_iff (fun _ _ => 0) (TxServer.init 1) (normalMsg HVFS_CLT2MDS_LOOKUP)
    { search := ⟨0, false, false⟩ } 0 _ rfl⟩

/-- A RELEASE leaves its transaction open. -/
theorem release_not_closed : ¬ ∀ (hvfsHash : U64 → List U8 → U64) (s : TxServer) (msg : ClientMsg)
    (chance : DispatchChance) (x : Nat) (after : TxServer),
    mdsClientDispatch hvfsHash s msg chance = some ⟨0, some x, after⟩ → Closed s after x := by
  intro claim
  have closed := claim (fun _ _ => 0) (TxServer.init 1) (normalMsg HVFS_CLT2MDS_RELEASE)
    { search := ⟨0, false, false⟩ } 0 _ rfl
  exact closed.ended rfl

end Total

end Hvfs
