/-
This file says once what the steps of the system of `TxThreads` can do: what a
step on one object leaves as it is, the branches of a step of a thread, and the
branches of an event. The invariants of the next files are proved over these
branches.
-/

import Hvfs.TxThreads
import Hvfs.Library.Transition

namespace Hvfs

/-! ### What a step on one object leaves as it is -/

section Frame

/-- What a step on the object `x` leaves as it is. -/
structure ServerFrame (s after : TxServer) (x : Nat) : Prop where
  tx : ∀ y, y ≠ x → after.tx y = s.tx y
  hashed : ∀ y, y ≠ x → after.hashed y = s.hashed y
  total : after.total = s.total
  openTxg : after.openTxg = s.openTxg
  wbTxg : after.wbTxg = s.wbTxg
  lru : after.lru = s.lru ∨ after.lru = s.lru ++ [x]
  ccbList : ∀ n y, y ≠ x → (y ∈ (after.txg n).ccbList ↔ y ∈ (s.txg n).ccbList)

variable (s : TxServer) (x n : Nat)

theorem ServerFrame.refl : ServerFrame s s x :=
  ⟨fun _ _ => rfl, fun _ _ => rfl, rfl, rfl, rfl, Or.inl rfl, fun _ _ _ => Iff.rfl⟩

theorem setTx_frame (tx : Tx) : ServerFrame s (setTx s x tx) x :=
  { ServerFrame.refl s x with tx := fun _ other => Function.update_of_ne other _ _ }

/-- A step on the group `n` that leaves its list as it is. -/
theorem setGroup_frame {txg : Txg} (list : txg.ccbList = (s.txg n).ccbList) :
    ServerFrame s (setGroup s n txg) x := by
  refine { ServerFrame.refl s x with ccbList := fun m y _ => ?_ }
  simp only [setGroup]
  by_cases same : m = n
  · rw [same, Function.update_self, list]
  · rw [Function.update_of_ne same]

theorem txgGet_frame : ServerFrame s (txgGet s n) x := setGroup_frame s x n rfl

theorem txgPut_frame : ServerFrame s (txgPut s n) x := setGroup_frame s x n rfl

theorem lruAdd_frame : ServerFrame s (lruAdd s x) x :=
  { ServerFrame.refl s x with lru := Or.inr rfl }

theorem mdsTxcAdd_frame : ServerFrame s (mdsTxcAdd s x) x := by
  refine { ServerFrame.refl s x with hashed := fun y other => ?_ }
  rw [mdsTxcAdd]
  split
  · rfl
  · exact Function.update_of_ne other _ _

theorem fixCcb_frame (op : TxOp) : ServerFrame s (fixCcb s n x op) x := by
  refine { ServerFrame.refl s x with ccbList := fun m y other => ?_ }
  simp only [fixCcb, setGroup]
  by_cases same : m = n
  · rw [same, Function.update_self]
    split
    · rw [List.mem_append, List.mem_singleton]
      exact ⟨fun either => either.resolve_right other, Or.inl⟩
    · exact Iff.rfl
  · rw [Function.update_of_ne same]

omit s n in
/-- A lost insertion leaves the callback lists as for a transaction that is not NORMAL. -/
theorem fixCcbLost_eq (s : TxServer) (n x : Nat) : fixCcbLost s x = fixCcb s n x .forget := by
  have same : setGroup s n { s.txg n with ccbList := (s.txg n).ccbList } = s := by
    unfold setGroup
    rw [Function.update_eq_self]
  unfold fixCcb fixCcbLost
  rw [if_neg (by decide), same]

theorem initFields_frame (op : TxOp) (req : TxRequest) :
    ServerFrame s (initFields s x op req) x :=
  { ServerFrame.refl s x with
    tx := fun _ other => Function.update_of_ne other _ _
    hashed := fun _ other => Function.update_of_ne other _ _ }

variable {s x}

/-- What `mds_txc_evict` changes. -/
theorem evictStep_cases {server : TxServer} {phase : EvictPhase} {next : Option EvictPhase}
    (stepped : evictStep s x phase = some (server, next)) :
    (phase = .waiting ∧ next = some .waited ∧ server = s ∧ (s.tx x).ref ≤ 1) ∨
      (phase = .waited ∧ next = some .unhashed ∧
        server = { s with hashed := Function.update s.hashed x false }) ∨
      (phase = .unhashed ∧ next = none ∧ TxState.done.rank ≤ (s.tx x).state.rank ∧
        server = { s with freed := s.freed ++ (s.tx x).messages }) := by
  cases phase with
  | waiting =>
    rw [evictStep] at stepped
    split at stepped
    · cases stepped
    · rename_i small
      obtain ⟨rfl, rfl⟩ := Prod.mk.inj (Option.some.inj stepped)
      exact Or.inl ⟨rfl, rfl, rfl, by omega⟩
  | waited =>
    obtain ⟨rfl, rfl⟩ := Prod.mk.inj (Option.some.inj stepped)
    exact Or.inr (Or.inl ⟨rfl, rfl, rfl⟩)
  | unhashed =>
    rw [evictStep] at stepped
    split at stepped
    · cases stepped
    · rename_i ended
      obtain ⟨rfl, rfl⟩ := Prod.mk.inj (Option.some.inj stepped)
      exact Or.inr (Or.inr ⟨rfl, rfl, Nat.not_lt.mp ended, rfl⟩)

theorem evictStep_frame {server : TxServer} {phase : EvictPhase} {next : Option EvictPhase}
    (stepped : evictStep s x phase = some (server, next)) :
    ServerFrame s server x ∧ server.tx = s.tx ∧ server.txg = s.txg ∧ server.lru = s.lru ∧
      server.miTx = s.miTx := by
  rcases evictStep_cases stepped with ⟨-, -, rfl, -⟩ | ⟨-, -, rfl⟩ | ⟨-, -, -, rfl⟩
  · exact ⟨ServerFrame.refl _ _, rfl, rfl, rfl, rfl⟩
  · exact ⟨{ ServerFrame.refl s x with hashed := fun _ other => Function.update_of_ne other _ _ },
      rfl, rfl, rfl, rfl⟩
  · exact ⟨{ ServerFrame.refl s x with }, rfl, rfl, rfl, rfl⟩

end Frame

/-! ### The steps of a thread -/

section Job

variable {ι : Type} [DecidableEq ι]

/-- A thread goes on with a stage, and the server is changed. -/
def TxSystem.moved (s : TxSystem ι) (i : ι) (job : Job) (server : TxServer) (stage : Stage) :
    TxSystem ι :=
  { s.setJob i (some { job with stage := stage }) with server := server }

/-- A thread is through with its request. -/
def TxSystem.finished (s : TxSystem ι) (i : ι) (server : TxServer) : TxSystem ι :=
  { s.setJob i none with server := server }

/-- The steps of the thread `i` with the request `job`, one constructor for each branch; `lost` says
whether an insertion into a callback list is written over. -/
inductive JobMove (s : TxSystem ι) (i : ι) (job : Job) (sends lost : Bool) : TxSystem ι → Prop
  | evictOld (phase next : EvictPhase) (server : TxServer) (stage : job.stage = .evictOld phase)
      (evicts : evictStep s.server job.x phase = some (server, some next)) :
      JobMove s i job sends lost (s.moved i job server (.evictOld next))
  | evictedOld (phase : EvictPhase) (server : TxServer) (stage : job.stage = .evictOld phase)
      (evicts : evictStep s.server job.x phase = some (server, none)) :
      JobMove s i job sends lost (s.moved i job server .init)
  | init (stage : job.stage = .init) :
      JobMove s i job sends lost (s.moved i { job with life := s.server.miTx + 1 }
        (initFields s.server job.x job.op job.req) .getTxg)
  | getTxg (stage : job.stage = .getTxg) :
      JobMove s i job sends lost (s.moved i { job with group := s.server.openTxg }
        (setTxg (txgGet s.server s.server.openTxg) job.x s.server.openTxg) .link)
  | link (stage : job.stage = .link) :
      JobMove s i job sends lost (s.moved i job
        (fixCcb (mdsTxcAdd s.server job.x) (s.server.tx job.x).txg job.x
          (if lost then .forget else job.op)) .handler)
  | putOld (nt : Nat) (stage : job.stage = .putOld nt) :
      JobMove s i job sends lost (s.moved i job (txgPut s.server job.group) (.setNew nt))
  | setNew (nt : Nat) (stage : job.stage = .setNew nt) :
      JobMove s i job sends lost (s.moved i { job with group := nt } (setTxg s.server job.x nt) .handler)
  | rewrite (err : Int) (stage : job.stage = .rewrite err) :
      JobMove s i job sends lost
        { s.moved i job (if err = 0 then s.server else setOp s.server job.x .forget)
            (.done .reply) with
          data := if sends then s.data ++ [((s.server.tx job.x).tx, err)] else s.data }
  | done (ending : Ending) (stage : job.stage = .done ending)
      (state : (s.server.tx job.x).state = .processing) :
      JobMove s i job sends lost
        { s.moved i job (setState s.server job.x .done) (.putRef ending) with
          ended := if (s.server.tx job.x).op = .normal then
              s.ended ++ [((s.server.tx job.x).tx, (s.server.tx job.x).txg)]
            else s.ended }
  | doneInvalid (ending : Ending) (stage : job.stage = .done ending)
      (state : (s.server.tx job.x).state ≠ .processing) :
      JobMove s i job sends lost (s.moved i job s.server ending.next)
  | putRef (ending : Ending) (stage : job.stage = .putRef ending) :
      JobMove s i job sends lost (s.moved i job (mdsPutTx s.server job.x) (.freeForget ending))
  | freeForget (ending : Ending) (stage : job.stage = .freeForget ending)
      (op : (s.server.tx job.x).op = .forget) (quiet : s.sweeper = none) :
      JobMove s i job sends lost (s.moved i job (lruAdd s.server job.x) (.putTxg ending))
  | keep (ending : Ending) (stage : job.stage = .freeForget ending)
      (op : (s.server.tx job.x).op ≠ .forget) :
      JobMove s i job sends lost (s.moved i job s.server (.putTxg ending))
  | putTxg (ending : Ending) (stage : job.stage = .putTxg ending) :
      JobMove s i job sends lost (s.moved i job (txgPut s.server (s.server.tx job.x).txg) ending.next)
  | send (stage : job.stage = .send) :
      JobMove s i job sends lost
        { s.moved i job s.server .acked with
          data := if sends then s.data ++ [((s.server.tx job.x).tx, 0)] else s.data }
  | acked (stage : job.stage = .acked)
      (state : (s.server.tx job.x).state.rank ≤ TxState.done.rank) :
      JobMove s i job sends lost (s.moved i job s.server .setAcked)
  | commited (stage : job.stage = .acked)
      (state : ¬(s.server.tx job.x).state.rank ≤ TxState.done.rank) :
      JobMove s i job sends lost (s.finished i s.server)
  | setAcked (stage : job.stage = .setAcked) :
      JobMove s i job sends lost (s.moved i job (setState s.server job.x .acked) .freeNocommit)
  | freeNocommit (stage : job.stage = .freeNocommit) (op : (s.server.tx job.x).op = .nocommit)
      (quiet : s.sweeper = none) :
      JobMove s i job sends lost (s.finished i (lruAdd s.server job.x))
  | leave (stage : job.stage = .freeNocommit) (op : (s.server.tx job.x).op ≠ .nocommit) :
      JobMove s i job sends lost (s.finished i s.server)
  | dropMark (stage : job.stage = .dropMark) (free : job.x ∉ s.server.lru) :
      JobMove s i job sends lost
        (s.moved i job (setState s.server job.x .done) (.evictDrop .waiting))
  | evictDrop (phase next : EvictPhase) (server : TxServer) (stage : job.stage = .evictDrop phase)
      (evicts : evictStep s.server job.x phase = some (server, some next)) :
      JobMove s i job sends lost (s.moved i job server (.evictDrop next))
  | evictedDrop (phase : EvictPhase) (server : TxServer) (stage : job.stage = .evictDrop phase)
      (evicts : evictStep s.server job.x phase = some (server, none)) :
      JobMove s i job sends lost (s.moved i job server .dropRef)
  | dropRef (stage : job.stage = .dropRef) :
      JobMove s i job sends lost (s.moved i job (mdsPutTx s.server job.x) .dropTxg)
  | dropTxg (stage : job.stage = .dropTxg) :
      JobMove s i job sends lost (s.moved i job (txgPut s.server (s.server.tx job.x).txg) .dropFree)
  | dropFree (stage : job.stage = .dropFree) (quiet : s.sweeper = none) :
      JobMove s i job sends lost (s.finished i (lruAdd s.server job.x))

variable {s s' : TxSystem ι} {i : ι} {job : Job} {sends lost : Bool}

theorem jobStep_move (stepped : jobStep s i job sends = some s') :
    JobMove s i job sends false s' := by
  unfold jobStep at stepped
  cases stage : job.stage with
  | evictOld phase =>
    simp only [stage] at stepped
    obtain ⟨⟨server, next⟩, evicts, ends⟩ := Option.bind_eq_some_iff.mp stepped
    cases next with
    | none =>
      obtain rfl := Option.some.inj ends
      exact .evictedOld phase server stage evicts
    | some next =>
      obtain rfl := Option.some.inj ends
      exact .evictOld phase next server stage evicts
  | evictDrop phase =>
    simp only [stage] at stepped
    obtain ⟨⟨server, next⟩, evicts, ends⟩ := Option.bind_eq_some_iff.mp stepped
    cases next with
    | none =>
      obtain rfl := Option.some.inj ends
      exact .evictedDrop phase server stage evicts
    | some next =>
      obtain rfl := Option.some.inj ends
      exact .evictDrop phase next server stage evicts
  | init => simp only [stage] at stepped; obtain rfl := Option.some.inj stepped; exact .init stage
  | getTxg =>
    simp only [stage] at stepped; obtain rfl := Option.some.inj stepped; exact .getTxg stage
  | link => simp only [stage] at stepped; obtain rfl := Option.some.inj stepped; exact .link stage
  | handler => simp only [stage] at stepped; cases stepped
  | putOld nt =>
    simp only [stage] at stepped; obtain rfl := Option.some.inj stepped; exact .putOld nt stage
  | setNew nt =>
    simp only [stage] at stepped; obtain rfl := Option.some.inj stepped; exact .setNew nt stage
  | rewrite err =>
    simp only [stage] at stepped; obtain rfl := Option.some.inj stepped; exact .rewrite err stage
  | done ending =>
    simp only [stage] at stepped
    split at stepped
    · rename_i state
      obtain rfl := Option.some.inj stepped
      exact .done ending stage state
    · rename_i state
      obtain rfl := Option.some.inj stepped
      exact .doneInvalid ending stage state
  | putRef ending =>
    simp only [stage] at stepped; obtain rfl := Option.some.inj stepped; exact .putRef ending stage
  | freeForget ending =>
    simp only [stage] at stepped
    split at stepped
    · rename_i op
      split at stepped
      · rename_i quiet
        obtain rfl := Option.some.inj stepped
        exact .freeForget ending stage op quiet
      · cases stepped
    · rename_i op
      obtain rfl := Option.some.inj stepped
      exact .keep ending stage op
  | putTxg ending =>
    simp only [stage] at stepped; obtain rfl := Option.some.inj stepped; exact .putTxg ending stage
  | send => simp only [stage] at stepped; obtain rfl := Option.some.inj stepped; exact .send stage
  | acked =>
    simp only [stage] at stepped
    split at stepped
    · rename_i state
      obtain rfl := Option.some.inj stepped
      exact .acked stage state
    · rename_i state
      obtain rfl := Option.some.inj stepped
      exact .commited stage state
  | setAcked =>
    simp only [stage] at stepped; obtain rfl := Option.some.inj stepped; exact .setAcked stage
  | freeNocommit =>
    simp only [stage] at stepped
    split at stepped
    · rename_i op
      split at stepped
      · rename_i quiet
        obtain rfl := Option.some.inj stepped
        exact .freeNocommit stage op quiet
      · cases stepped
    · rename_i op
      obtain rfl := Option.some.inj stepped
      exact .leave stage op
  | dropMark =>
    simp only [stage] at stepped
    split at stepped
    · cases stepped
    · rename_i free
      obtain rfl := Option.some.inj stepped
      exact .dropMark stage free
  | dropRef =>
    simp only [stage] at stepped; obtain rfl := Option.some.inj stepped; exact .dropRef stage
  | dropTxg =>
    simp only [stage] at stepped; obtain rfl := Option.some.inj stepped; exact .dropTxg stage
  | dropFree =>
    simp only [stage] at stepped
    split at stepped
    · rename_i quiet
      obtain rfl := Option.some.inj stepped
      exact .dropFree stage quiet
    · cases stepped

/-- What a step of the thread `i` with the request `job` leaves as it is. -/
structure JobFrame (s s' : TxSystem ι) (i : ι) (job : Job) : Prop where
  server : ServerFrame s.server s'.server job.x
  thread : ∀ j, j ≠ i → s'.thread j = s.thread j
  same : ∀ after, s'.thread i = some after → after.x = job.x ∧ after.op = job.op
  callback : s'.callback = s.callback
  sweeper : s'.sweeper = s.sweeper
  found : s'.found = s.found
  sent : s'.sent = s.sent

theorem JobFrame.of_server {server : TxServer} {after : Option Job} {data : List (Nat × Int)}
    {ended : List (Nat × Nat)} (frame : ServerFrame s.server server job.x)
    (same : ∀ job', after = some job' → job'.x = job.x ∧ job'.op = job.op) :
    JobFrame s { s.setJob i after with
      server := server
      data := data
      ended := ended } i job where
  server := frame
  thread := fun _ other => Function.update_of_ne other _ _
  same := by
    intro job' is
    change Function.update s.thread i after i = some job' at is
    rw [Function.update_self] at is
    exact same job' is
  callback := rfl
  sweeper := rfl
  found := rfl
  sent := rfl

theorem ServerFrame.trans {s middle after : TxServer} {x : Nat} (first : ServerFrame s middle x)
    (second : ServerFrame middle after x) (lru : after.lru = middle.lru) :
    ServerFrame s after x where
  tx := fun y other => (second.tx y other).trans (first.tx y other)
  hashed := fun y other => (second.hashed y other).trans (first.hashed y other)
  total := second.total.trans first.total
  openTxg := second.openTxg.trans first.openTxg
  wbTxg := second.wbTxg.trans first.wbTxg
  lru := by rw [lru]; exact first.lru
  ccbList := fun n y other => (second.ccbList n y other).trans (first.ccbList n y other)

theorem JobMove.frame (move : JobMove s i job sends lost s') : JobFrame s s' i job := by
  have self : ∀ {job' : Job}, job'.x = job.x → job'.op = job.op →
      ∀ after, some job' = some after → after.x = job.x ∧ after.op = job.op := by
    rintro job' x op _ ⟨⟩
    exact ⟨x, op⟩
  cases move with
  | evictOld phase next server stage evicts =>
    exact .of_server (evictStep_frame evicts).1 (self rfl rfl)
  | evictedOld phase server stage evicts =>
    exact .of_server (evictStep_frame evicts).1 (self rfl rfl)
  | init stage => exact .of_server (initFields_frame _ _ _ _) (self rfl rfl)
  | getTxg stage =>
    exact .of_server ((txgGet_frame _ _ _).trans (setTx_frame _ _ _) rfl) (self rfl rfl)
  | link stage =>
    exact .of_server ((mdsTxcAdd_frame _ _).trans (fixCcb_frame _ _ _ _) rfl) (self rfl rfl)
  | putOld nt stage => exact .of_server (txgPut_frame _ _ _) (self rfl rfl)
  | setNew nt stage => exact .of_server (setTx_frame _ _ _) (self rfl rfl)
  | rewrite err stage =>
    refine .of_server ?_ (self rfl rfl)
    split
    · exact ServerFrame.refl _ _
    · exact setTx_frame _ _ _
  | done ending stage state => exact .of_server (setTx_frame _ _ _) (self rfl rfl)
  | doneInvalid ending stage state => exact .of_server (ServerFrame.refl _ _) (self rfl rfl)
  | putRef ending stage => exact .of_server (setTx_frame _ _ _) (self rfl rfl)
  | freeForget ending stage op quiet => exact .of_server (lruAdd_frame _ _) (self rfl rfl)
  | keep ending stage op => exact .of_server (ServerFrame.refl _ _) (self rfl rfl)
  | putTxg ending stage => exact .of_server (txgPut_frame _ _ _) (self rfl rfl)
  | send stage => exact .of_server (ServerFrame.refl _ _) (self rfl rfl)
  | acked stage state => exact .of_server (ServerFrame.refl _ _) (self rfl rfl)
  | commited stage state => exact .of_server (ServerFrame.refl _ _) nofun
  | setAcked stage => exact .of_server (setTx_frame _ _ _) (self rfl rfl)
  | freeNocommit stage op quiet => exact .of_server (lruAdd_frame _ _) nofun
  | leave stage op => exact .of_server (ServerFrame.refl _ _) nofun
  | dropMark stage free => exact .of_server (setTx_frame _ _ _) (self rfl rfl)
  | evictDrop phase next server stage evicts =>
    exact .of_server (evictStep_frame evicts).1 (self rfl rfl)
  | evictedDrop phase server stage evicts =>
    exact .of_server (evictStep_frame evicts).1 (self rfl rfl)
  | dropRef stage => exact .of_server (setTx_frame _ _ _) (self rfl rfl)
  | dropTxg stage => exact .of_server (txgPut_frame _ _ _) (self rfl rfl)
  | dropFree stage quiet => exact .of_server (lruAdd_frame _ _) nofun

/-! ### The events -/

/-- What may happen, one constructor for each branch. -/
inductive EventMove (s : TxSystem ι) : TxEvent ι → TxSystem ι → Prop
  | take (i : ι) (op : TxOp) (req : TxRequest) (memory : Bool) (x : Nat) (rest : List Nat)
      (idle : s.thread i = none) (quiet : s.sweeper = none) (free : 0 < s.server.ftx)
      (head : s.server.lru = x :: rest) :
      EventMove s (.alloc i op req memory)
        { s.setJob i (some ⟨x, op, req, 0, 0,
            if s.server.hashed x then .evictOld .waiting else .init⟩) with
          server := { s.server with
            lru := rest
            ftx := s.server.ftx - 1 } }
  | grow (i : ι) (op : TxOp) (req : TxRequest) (idle : s.thread i = none) (quiet : s.sweeper = none)
      (used : ¬0 < s.server.ftx) :
      EventMove s (.alloc i op req true)
        { s.setJob i (some ⟨s.server.total, op, req, 0, 0, .init⟩) with
          server := { s.server with total := s.server.total + 1 } }
  | noMemory (i : ι) (op : TxOp) (req : TxRequest) : EventMove s (.alloc i op req false) s
  | reassign (i : ι) (job : Job) (running : s.thread i = some job) (stage : job.stage = .handler) :
      EventMove s (.reassign i)
        (s.moved i job (txgGet s.server s.server.openTxg) (.putOld s.server.openTxg))
  | reply (i : ι) (err : Int) (rpy : Bool) (job : Job) (running : s.thread i = some job)
      (stage : job.stage = .handler) :
      EventMove s (.reply i err rpy)
        (s.moved i job (setRpy s.server job.x rpy) (if rpy then .rewrite err else .dropMark))
  | statfs (i : ι) (rpy : Bool) (job : Job) (running : s.thread i = some job)
      (stage : job.stage = .handler) :
      EventMove s (.statfs i rpy)
        (s.moved i job (setRpy s.server job.x rpy) (if rpy then .done .statfs else .dropMark))
  | drop (i : ι) (job : Job) (running : s.thread i = some job) (stage : job.stage = .handler) :
      EventMove s (.drop i) (s.moved i job s.server .dropMark)
  | step (i : ι) (sends : Bool) (job : Job) (s' : TxSystem ι) (running : s.thread i = some job)
      (move : JobMove s i job sends false s') : EventMove s (.step i sends) s'
  | overwrite (i j : ι) (job : Job) (s' : TxSystem ι) (running : s.thread i = some job)
      (stage : job.stage = .link) (move : JobMove s i job true true s') :
      EventMove s (.overwrite i j) s'
  | switch (free : s.server.wbTxg = none) :
      EventMove s .switch { s with server := txgSwitch s.server }
  | commit (n : Nat) (wb : s.server.wbTxg = some n) (unused : (s.server.txg n).txPending = 0) :
      EventMove s .commit
        { s with
          server := { s.server with wbTxg := none }
          callback := Function.update s.callback n (some .visit) }
  | visitEnd (n : Nat) (sends : Bool) (active : s.callback n = some .visit)
      (list : (s.server.txg n).ccbList = []) :
      EventMove s (.callback n sends) { s with callback := Function.update s.callback n none }
  | visitSkip (n x : Nat) (sends : Bool) (rest : List Nat) (active : s.callback n = some .visit)
      (list : (s.server.txg n).ccbList = x :: rest)
      (skips : (s.server.tx x).state.rank < TxState.done.rank ∨
        TxState.acked.rank < (s.server.tx x).state.rank) :
      EventMove s (.callback n sends) { s with callback := Function.update s.callback n (some .del) }
  | visitNormal (n x : Nat) (sends : Bool) (rest : List Nat) (active : s.callback n = some .visit)
      (list : (s.server.txg n).ccbList = x :: rest)
      (ended : ¬((s.server.tx x).state.rank < TxState.done.rank ∨
        TxState.acked.rank < (s.server.tx x).state.rank))
      (normal : (s.server.tx x).op = .normal) :
      EventMove s (.callback n sends)
        { s with
          server := setState s.server x .commited
          callback := Function.update s.callback n (some .free)
          sent := if sends then s.sent ++ [((s.server.tx x).tx, n)] else s.sent }
  | visitOther (n x : Nat) (sends : Bool) (rest : List Nat) (active : s.callback n = some .visit)
      (list : (s.server.txg n).ccbList = x :: rest)
      (ended : ¬((s.server.tx x).state.rank < TxState.done.rank ∨
        TxState.acked.rank < (s.server.tx x).state.rank))
      (other : (s.server.tx x).op ≠ .normal) :
      EventMove s (.callback n sends)
        { s with
          server := setState s.server x .commited
          callback := Function.update s.callback n (some .del) }
  | callbackFree (n x : Nat) (sends : Bool) (rest : List Nat) (active : s.callback n = some .free)
      (list : (s.server.txg n).ccbList = x :: rest) (used : x ∉ s.server.lru)
      (quiet : s.sweeper = none) :
      EventMove s (.callback n sends)
        { s with
          server := lruAdd s.server x
          callback := Function.update s.callback n (some .del) }
  | callbackDel (n x : Nat) (sends : Bool) (rest : List Nat) (active : s.callback n = some .del)
      (list : (s.server.txg n).ccbList = x :: rest) :
      EventMove s (.callback n sends)
        { s with
          server := ccbDel s.server n x
          callback := Function.update s.callback n (some .visit) }
  | sweep (x : Nat) (quiet : s.sweeper = none) (free : x ∈ s.server.lru)
      (hashed : s.server.hashed x = true) :
      EventMove s (.sweep x) { s with sweeper := some (x, .waiting) }
  | sweepStep (x : Nat) (phase : EvictPhase) (server : TxServer) (next : Option EvictPhase)
      (sweeping : s.sweeper = some (x, phase))
      (evicts : evictStep s.server x phase = some (server, next)) :
      EventMove s .sweepStep
        { s with
          server := server
          sweeper := next.map fun phase => (x, phase) }
  | search (x : Nat) (hashed : s.server.hashed x = true) :
      EventMove s (.search x)
        { s with
          server := setTx s.server x { s.server.tx x with ref := (s.server.tx x).ref + 1 }
          found := Function.update s.found x (s.found x + 1) }
  | put (x : Nat) (held : 0 < s.found x) :
      EventMove s (.put x)
        { s with
          server := mdsPutTx s.server x
          found := Function.update s.found x (s.found x - 1) }

theorem allocStep_move {op : TxOp} {req : TxRequest} {memory : Bool} (idle : s.thread i = none)
    (stepped : allocStep s i op req memory = some s') :
    EventMove s (.alloc i op req memory) s' := by
  unfold allocStep at stepped
  simp only at stepped
  split at stepped
  · rename_i quiet
    split at stepped
    · rename_i free
      split at stepped
      · cases stepped
      · rename_i x rest head
        obtain rfl := Option.some.inj stepped
        exact .take i op req memory x rest idle quiet free head
    · rename_i used
      split at stepped
      · rename_i given
        subst given
        obtain rfl := Option.some.inj stepped
        exact .grow i op req idle quiet used
      · rename_i failed
        obtain rfl := Bool.eq_false_iff.mpr failed
        obtain rfl := Option.some.inj stepped
        exact .noMemory i op req
  · cases stepped

theorem callbackStep_move {n : Nat} {sends : Bool} {stage : Callback} (active : s.callback n = some stage)
    (stepped : callbackStep s n sends stage = some s') : EventMove s (.callback n sends) s' := by
  cases stage with
  | visit =>
    simp only [callbackStep] at stepped
    split at stepped
    · rename_i list
      obtain rfl := Option.some.inj stepped
      exact .visitEnd n sends active list
    · rename_i x rest list
      split at stepped
      · rename_i skips
        obtain rfl := Option.some.inj stepped
        exact .visitSkip n x sends rest active list skips
      · rename_i ended
        split at stepped
        · rename_i normal
          obtain rfl := Option.some.inj stepped
          exact .visitNormal n x sends rest active list ended normal
        · rename_i other
          obtain rfl := Option.some.inj stepped
          exact .visitOther n x sends rest active list ended other
  | free =>
    simp only [callbackStep] at stepped
    split at stepped
    · cases stepped
    · rename_i x rest list
      split at stepped
      · cases stepped
      · rename_i allowed
        obtain ⟨used, quiet⟩ := not_or.mp allowed
        obtain rfl := Option.some.inj stepped
        exact .callbackFree n x sends rest active list used (not_not.mp quiet)
  | del =>
    simp only [callbackStep] at stepped
    split at stepped
    · cases stepped
    · rename_i x rest list
      obtain rfl := Option.some.inj stepped
      exact .callbackDel n x sends rest active list

omit [DecidableEq ι] in
/-- A thread in its handler goes on with another stage. -/
theorem handlerStep_move {go : Job → TxSystem ι} (stepped : handlerStep s i go = some s') :
    ∃ job, s.thread i = some job ∧ job.stage = .handler ∧ s' = go job := by
  unfold handlerStep at stepped
  split at stepped
  · cases stepped
  · rename_i job running
    split at stepped
    · rename_i stage
      exact ⟨job, running, stage, (Option.some.inj stepped).symm⟩
    · cases stepped

/-- Every event is one of the branches. -/
theorem txEvent_move {event : TxEvent ι} (stepped : txEvent s event = some s') :
    EventMove s event s' := by
  cases event with
  | alloc i op req memory =>
    simp only [txEvent] at stepped
    split at stepped
    · rename_i idle
      exact allocStep_move idle stepped
    · cases stepped
  | reassign i =>
    obtain ⟨job, running, stage, rfl⟩ := handlerStep_move stepped
    exact .reassign i job running stage
  | reply i err rpy =>
    obtain ⟨job, running, stage, rfl⟩ := handlerStep_move stepped
    exact .reply i err rpy job running stage
  | statfs i rpy =>
    obtain ⟨job, running, stage, rfl⟩ := handlerStep_move stepped
    exact .statfs i rpy job running stage
  | drop i =>
    obtain ⟨job, running, stage, rfl⟩ := handlerStep_move stepped
    exact .drop i job running stage
  | step i sends =>
    simp only [txEvent] at stepped
    split at stepped
    · cases stepped
    · rename_i job running
      exact .step i sends job s' running (jobStep_move stepped)
  | overwrite i j =>
    simp only [txEvent] at stepped
    split at stepped
    · rename_i job other running _
      split at stepped
      · rename_i overlap
        obtain rfl := Option.some.inj stepped
        rw [fixCcbLost_eq _ (s.server.tx job.x).txg]
        exact .overwrite i j job _ running overlap.2.1.1 (.link overlap.2.1.1)
      · cases stepped
    · cases stepped
  | switch =>
    simp only [txEvent] at stepped
    split at stepped
    · rename_i free
      obtain rfl := Option.some.inj stepped
      exact .switch free
    · cases stepped
  | commit =>
    simp only [txEvent] at stepped
    split at stepped
    · cases stepped
    · rename_i n wb
      split at stepped
      · rename_i unused
        obtain rfl := Option.some.inj stepped
        exact .commit n wb unused
      · cases stepped
  | callback n sends =>
    simp only [txEvent] at stepped
    split at stepped
    · cases stepped
    · rename_i stage active
      exact callbackStep_move active stepped
  | sweep x =>
    simp only [txEvent] at stepped
    split at stepped
    · rename_i allowed
      obtain rfl := Option.some.inj stepped
      exact .sweep x allowed.1 (List.mem_of_mem_take allowed.2.1) allowed.2.2
    · cases stepped
  | sweepStep =>
    simp only [txEvent] at stepped
    split at stepped
    · cases stepped
    · rename_i x phase sweeping
      obtain ⟨⟨server, next⟩, evicts, rfl⟩ := Option.map_eq_some_iff.mp stepped
      exact .sweepStep x phase server next sweeping evicts
  | search x =>
    simp only [txEvent] at stepped
    split at stepped
    · rename_i hashed
      obtain rfl := Option.some.inj stepped
      exact .search x hashed
    · cases stepped
  | put x =>
    simp only [txEvent] at stepped
    split at stepped
    · rename_i held
      obtain rfl := Option.some.inj stepped
      exact .put x held
    · cases stepped

end Job

end Hvfs
