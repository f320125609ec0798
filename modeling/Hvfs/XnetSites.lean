/-
This file embeds the site table of the network layer, which keeps for each site
the descriptor of a connection to it, and settles when a message goes to its
site. The table is changed by the assignment of addresses, by the connections
that `xnet_send` makes, by those that the poll thread accepts, and by closes;
`xnet_send` selects a record of the table first and takes the descriptor out of
it when it writes.
-/

import Hvfs.Const
import Hvfs.Library.Transition
import Mathlib.Logic.Function.Basic

namespace Hvfs

open Transition

/-! ### The table -/

/-- `struct xnet_site` with the only `struct xnet_addr` in its list: the site that it was made for,
the flag `XNET_SITE_LOCAL`, the address, and the descriptor of the connection, zero when there is
none. -/
structure XnetSite where
  site_id : Nat
  isLocal : Bool
  sin_addr : U32
  sin_port : U16
  sockfd : Nat
  deriving DecidableEq, Repr

/-- The entries of `struct site_table`. -/
def siteSpace : Nat := 1 <<< 20

/-- What became of a call of `xnet_send`. -/
inductive SendResult
  /-- The message went to a descriptor with this site at the other end, if any is. -/
  | wrote (peer : Option Nat)
  /-- An error was returned, and nothing was written. -/
  | failed
  /-- A null pointer, or one from behind the table, was followed. -/
  | fault
  deriving DecidableEq, Repr

/-- The site table, and what it is about. -/
structure SiteTable where
  /-- `gst.site`, by the places of the records in memory. -/
  site : Nat → Option Nat
  memory : Nat → XnetSite
  allocated : Nat
  /-- The sites of `global_xc_list`. -/
  registered : List Nat
  /-- The open connections, by descriptor: the site at the other end. -/
  peer : Nat → Option Nat
  /-- Where each site listens. -/
  home : Nat → Option (U32 × U16)
  /-- The site that each thread sends to, and the record that it selected. -/
  selected : Nat → Option (Nat × Nat)
  /-- The sites that were sent to, and the results. -/
  results : List (Nat × SendResult)

/-- `st_init`. -/
def stInit : SiteTable where
  site _ := none
  memory _ := ⟨0, false, 0, 0, 0⟩
  allocated := 0
  registered := []
  peer _ := none
  home _ := none
  selected _ := none
  results := []

/-- `st_lookup`. What lies behind the table is no record. -/
def stLookup (t : SiteTable) (site_id : Nat) : Option Nat :=
  if site_id < siteSpace then t.site site_id else none

/-- The record is in the table and not local, so that the loops over the table come to it. A record
is only ever in the table for the site that it was made for. -/
def Remote (t : SiteTable) (place : Nat) : Prop :=
  t.site (t.memory place).site_id = some place ∧ (t.memory place).isLocal = false

instance (t : SiteTable) (place : Nat) : Decidable (Remote t place) :=
  inferInstanceAs (Decidable (_ ∧ _))

/-- `st_update_sockfd`. -/
def stUpdateSockfd (t : SiteTable) (sin_addr : U32) (sin_port : U16) (fd : Nat) : SiteTable :=
  { t with memory := fun place =>
      if Remote t place ∧ (t.memory place).sin_addr = sin_addr then
        { t.memory place with sockfd := fd, sin_port := sin_port }
      else t.memory place }

/-- `st_clean_sockfd`. -/
def stCleanSockfd (t : SiteTable) (fd : Nat) : SiteTable :=
  { t with
    memory := fun place =>
      if Remote t place ∧ (t.memory place).sockfd = fd then { t.memory place with sockfd := 0 }
      else t.memory place
    peer := Function.update t.peer fd none }

/-- `xnet_update_ipaddr`, for a site that the table has room for. Only the first address of the
array is put into the list. -/
def xnetUpdateIpaddr (t : SiteTable) (site_id : Nat) : List (U32 × U16) → SiteTable
  | [] => t
  | (sin_addr, sin_port) :: _ =>
    { t with
      site := Function.update t.site site_id (some t.allocated)
      memory := Function.update t.memory t.allocated
        ⟨site_id, decide (site_id ∈ t.registered), sin_addr, sin_port, 0⟩
      allocated := t.allocated + 1
      home := Function.update t.home site_id (some (sin_addr, sin_port)) }

/-! ### Sending, accepting and closing -/

/-- What comes of the attempt to connect, after the passes that fail and are made again: nothing, or
a descriptor with a site at the other end, which is then given to the poll thread or not. -/
inductive Connect
  | failed
  | connected (fd peer : Nat) (polled : Bool)

/-- A new connection: its descriptor is none that is in use. -/
def SiteTable.opened (t : SiteTable) (fd peer : Nat) : SiteTable :=
  { t with peer := Function.update t.peer fd (some peer) }

/-- `xa->sockfd = csock`. -/
def SiteTable.setSockfd (t : SiteTable) (place fd : Nat) : SiteTable :=
  { t with memory := Function.update t.memory place { t.memory place with sockfd := fd } }

/-- The thread has a record to write to. -/
def SiteTable.select (t : SiteTable) (thread dsite_id place : Nat) : SiteTable :=
  { t with selected := Function.update t.selected thread (some (dsite_id, place)) }

/-- The thread returns. -/
def SiteTable.finish (t : SiteTable) (thread dsite_id : Nat) (result : SendResult) : SiteTable :=
  { t with
    selected := Function.update t.selected thread none
    results := t.results ++ [(dsite_id, result)] }

/-- `xnet_send`, up to the selection of a record. Who answers at an address is a site that listens
there. -/
def xnetSendSelect (t : SiteTable) (thread dsite_id : Nat) (connect : Connect) :
    Option SiteTable :=
  match stLookup t dsite_id with
  | none => some (t.finish thread dsite_id .fault)
  | some place =>
    let xs := t.memory place
    if xs.sockfd = 0 then
      match connect with
      | .failed => some (t.finish thread dsite_id .failed)
      | .connected fd peer polled =>
        if fd ≠ 0 ∧ t.peer fd = none ∧ t.home peer = some (xs.sin_addr, xs.sin_port) then
          let t := stUpdateSockfd (t.opened fd peer) xs.sin_addr xs.sin_port fd
          if polled then some ((t.setSockfd place fd).select thread dsite_id place)
          else some (t.finish thread dsite_id .failed)
        else none
    else some (t.select thread dsite_id place)

/-- `xnet_send`, the write to `xa->sockfd`. Descriptor zero is none of the connections, and a write
to a closed descriptor fails. -/
def xnetSendWrite (t : SiteTable) (thread dsite_id place : Nat) : SiteTable :=
  let fd := (t.memory place).sockfd
  if fd = 0 then t.finish thread dsite_id (.wrote none)
  else
    match t.peer fd with
    | none => t.finish thread dsite_id .failed
    | some peer => t.finish thread dsite_id (.wrote (some peer))

/-- The poll thread accepts a connection from a site, whose address comes with it. -/
def pollinAccept (t : SiteTable) (fd peer : Nat) (sin_addr : U32) (sin_port : U16) :
    Option SiteTable :=
  if fd ≠ 0 ∧ t.peer fd = none then
    some (stUpdateSockfd (t.opened fd peer) sin_addr sin_port fd)
  else none

inductive SiteEvent
  | updateIpaddr (site_id : Nat) (ipaddr : List (U32 × U16))
  | register (site_id : Nat)
  | select (thread dsite_id : Nat) (connect : Connect)
  | write (thread : Nat)
  | accept (fd peer : Nat) (sin_addr : U32) (sin_port : U16)
  | close (fd : Nat)

def siteStep (t : SiteTable) : SiteEvent → Option SiteTable
  | .updateIpaddr site_id ipaddr =>
    if site_id < siteSpace then some (xnetUpdateIpaddr t site_id ipaddr) else none
  | .register site_id => some { t with registered := t.registered ++ [site_id] }
  | .select thread dsite_id connect =>
    match t.selected thread with
    | none => xnetSendSelect t thread dsite_id connect
    | some _ => none
  | .write thread =>
    match t.selected thread with
    | none => none
    | some (dsite_id, place) => some (xnetSendWrite t thread dsite_id place)
  | .accept fd peer sin_addr sin_port => pollinAccept t fd peer sin_addr sin_port
  | .close fd => if t.peer fd = none then none else some (stCleanSockfd t fd)

/-! ### What is promised, and when -/

/-- A message went to its site or nowhere. There is no other result for a site in the table, and for
the others there is no error returned at all. -/
def RightSend : Nat × SendResult → Prop
  | (dsite_id, .wrote peer) => peer = some dsite_id
  | (_, .failed) => True
  | (_, .fault) => False

/-- The site is the only one on its host, the local ones apart. -/
def AloneAt (t : SiteTable) (sin_addr : U32) (site_id : Nat) : Prop :=
  ∀ place, Remote t place → (t.memory place).sin_addr = sin_addr →
    (t.memory place).site_id = site_id

/-- No record still has the number of the descriptor. -/
def Unstored (t : SiteTable) (fd : Nat) : Prop :=
  ∀ place < t.allocated, (t.memory place).sockfd ≠ fd

/-- A site that is sent to is in the table; a site that a connection is made to or accepted from is
alone on its host, and when one is made also at the address that is stored; the descriptor of a new
connection is not stored any more; a selected record still has a descriptor at the write. -/
def SitesApart (t : SiteTable) : SiteEvent → Prop
  | .select _ dsite_id connect => ∃ place, stLookup t dsite_id = some place ∧
    ∀ fd peer polled, connect = .connected fd peer polled → (t.memory place).sockfd = 0 →
      (∀ other, t.home other = some ((t.memory place).sin_addr, (t.memory place).sin_port) →
        other = dsite_id) ∧
      AloneAt t (t.memory place).sin_addr dsite_id ∧ Unstored t fd
  | .write thread => ∀ dsite_id place, t.selected thread = some (dsite_id, place) →
    (t.memory place).sockfd ≠ 0
  | .accept fd peer sin_addr _ => AloneAt t sin_addr peer ∧ Unstored t fd
  | _ => True

/-! ### The invariant -/

/-- The connection of each record leads to its site, and every send was right. -/
structure StoredRight (t : SiteTable) : Prop where
  own : ∀ site_id place, t.site site_id = some place →
    place < t.allocated ∧ (t.memory place).site_id = site_id
  held : ∀ thread dsite_id place, t.selected thread = some (dsite_id, place) →
    place < t.allocated ∧ (t.memory place).site_id = dsite_id
  leads : ∀ place < t.allocated, (t.memory place).sockfd ≠ 0 →
    ∀ site_id, t.peer (t.memory place).sockfd = some site_id →
      site_id = (t.memory place).site_id
  sends : ∀ entry ∈ t.results, RightSend entry

theorem stInit_storedRight : StoredRight stInit where
  own _ _ absurdity := by cases absurdity
  held _ _ _ absurdity := by cases absurdity
  leads _ absurdity := by cases absurdity
  sends _ absurdity := by cases absurdity

section Steps

variable {t : SiteTable} {thread dsite_id place fd peer : Nat}

/-- A new connection to a site, stored in records of this site only. -/
theorem StoredRight.connect {memory : Nat → XnetSite} (right : StoredRight t)
    (sites : ∀ place, (memory place).site_id = (t.memory place).site_id)
    (stored : ∀ place, (memory place).sockfd = (t.memory place).sockfd ∨
      (memory place).sockfd = fd ∧ (t.memory place).site_id = peer)
    (unstored : Unstored t fd) :
    StoredRight { t with memory := memory, peer := Function.update t.peer fd (some peer) } where
  own site_id place mapped := by
    rw [sites]
    exact right.own site_id place mapped
  held thread dsite_id place selected := by
    rw [sites]
    exact right.held thread dsite_id place selected
  leads place inMemory connected site_id leads := by
    rw [sites]
    rcases stored place with same | ⟨new, own⟩
    · simp only [same] at connected leads
      rw [Function.update_of_ne (unstored place inMemory)] at leads
      exact right.leads place inMemory connected site_id leads
    · simp only [new, Function.update_self] at leads
      cases leads
      exact own.symm
  sends := right.sends

/-- `st_update_sockfd` touches only the records of a site that is alone on its host. -/
theorem stUpdateSockfd_stored {sin_addr : U32} {sin_port : U16} (alone : AloneAt t sin_addr peer)
    (place : Nat) :
    ((stUpdateSockfd (t.opened fd peer) sin_addr sin_port fd).memory place).site_id =
        (t.memory place).site_id ∧
      (((stUpdateSockfd (t.opened fd peer) sin_addr sin_port fd).memory place).sockfd =
          (t.memory place).sockfd ∨
        ((stUpdateSockfd (t.opened fd peer) sin_addr sin_port fd).memory place).sockfd = fd ∧
          (t.memory place).site_id = peer) := by
  unfold stUpdateSockfd
  dsimp only
  split
  · next touched => exact ⟨rfl, Or.inr ⟨rfl, alone place touched.1 touched.2⟩⟩
  · exact ⟨rfl, Or.inl rfl⟩

/-- Nor does `xnet_send` with the record that it connected. -/
theorem setSockfd_stored {sin_addr : U32} {sin_port : U16} (alone : AloneAt t sin_addr peer)
    (own : (t.memory place).site_id = peer) (there : Nat) :
    (((stUpdateSockfd (t.opened fd peer) sin_addr sin_port fd).setSockfd place fd).memory
        there).site_id = (t.memory there).site_id ∧
      ((((stUpdateSockfd (t.opened fd peer) sin_addr sin_port fd).setSockfd place fd).memory
          there).sockfd = (t.memory there).sockfd ∨
        (((stUpdateSockfd (t.opened fd peer) sin_addr sin_port fd).setSockfd place fd).memory
          there).sockfd = fd ∧ (t.memory there).site_id = peer) := by
  have touched := @stUpdateSockfd_stored t fd peer sin_addr sin_port alone
  dsimp only [SiteTable.setSockfd]
  by_cases same : there = place
  · subst same
    rw [Function.update_self]
    exact ⟨(touched there).1, Or.inr ⟨rfl, own⟩⟩
  · rw [Function.update_of_ne same]
    exact touched there

theorem StoredRight.finish {result : SendResult} (right : StoredRight t)
    (send : RightSend (dsite_id, result)) : StoredRight (t.finish thread dsite_id result) where
  own := right.own
  held other site_id place selected := by
    dsimp only [SiteTable.finish] at selected
    by_cases same : other = thread
    · rw [same, Function.update_self] at selected
      cases selected
    · rw [Function.update_of_ne same] at selected
      exact right.held other site_id place selected
  leads := right.leads
  sends entry member := by
    rcases List.mem_append.mp member with before | last
    · exact right.sends entry before
    · rw [List.mem_singleton.mp last]
      exact send

theorem StoredRight.select (right : StoredRight t) (inMemory : place < t.allocated)
    (own : (t.memory place).site_id = dsite_id) :
    StoredRight (t.select thread dsite_id place) where
  own := right.own
  held other site_id there selected := by
    dsimp only [SiteTable.select] at selected
    by_cases same : other = thread
    · rw [same, Function.update_self] at selected
      cases selected
      exact ⟨inMemory, own⟩
    · rw [Function.update_of_ne same] at selected
      exact right.held other site_id there selected
  leads := right.leads
  sends := right.sends

theorem StoredRight.updateIpaddr (right : StoredRight t) (site_id : Nat)
    (ipaddr : List (U32 × U16)) : StoredRight (xnetUpdateIpaddr t site_id ipaddr) := by
  rcases ipaddr with _ | ⟨⟨sin_addr, sin_port⟩, others⟩
  · exact right
  · have old : ∀ {place}, place < t.allocated → place ≠ t.allocated := fun h => Nat.ne_of_lt h
    refine ⟨fun mapped place at_ => ?_, fun thread dsite_id place selected => ?_,
      fun place inMemory connected mapped leads => ?_, right.sends⟩
    · by_cases same : mapped = site_id
      · simp only [same, xnetUpdateIpaddr, Function.update_self] at at_
        cases at_
        simp only [xnetUpdateIpaddr, Function.update_self, same]
        exact ⟨Nat.lt_succ_self _, trivial⟩
      · simp only [xnetUpdateIpaddr, Function.update_of_ne same] at at_ ⊢
        obtain ⟨inMemory, own⟩ := right.own mapped place at_
        rw [Function.update_of_ne (old inMemory)]
        exact ⟨Nat.lt_succ_of_lt inMemory, own⟩
    · obtain ⟨inMemory, own⟩ := right.held thread dsite_id place selected
      simp only [xnetUpdateIpaddr, Function.update_of_ne (old inMemory)]
      exact ⟨Nat.lt_succ_of_lt inMemory, own⟩
    · simp only [xnetUpdateIpaddr] at inMemory connected leads ⊢
      by_cases new : place = t.allocated
      · rw [new, Function.update_self] at connected
        exact absurd rfl connected
      · rw [Function.update_of_ne new] at connected leads ⊢
        exact right.leads place (by omega) connected mapped leads

theorem StoredRight.clean (right : StoredRight t) (fd : Nat) :
    StoredRight (stCleanSockfd t fd) := by
  have sites : ∀ place, ((stCleanSockfd t fd).memory place).site_id = (t.memory place).site_id := by
    intro place
    unfold stCleanSockfd
    dsimp only
    split <;> rfl
  refine ⟨fun site_id place mapped => ?_, fun thread dsite_id place selected => ?_,
    fun place inMemory connected site_id leads => ?_, right.sends⟩
  · rw [sites]
    exact right.own site_id place mapped
  · rw [sites]
    exact right.held thread dsite_id place selected
  · rw [sites]
    simp only [stCleanSockfd] at connected leads
    split at connected
    · exact absurd rfl connected
    · next kept =>
      rw [if_neg kept] at leads
      by_cases same : (t.memory place).sockfd = fd
      · rw [same, Function.update_self] at leads
        cases leads
      · rw [Function.update_of_ne same] at leads
        exact right.leads place inMemory connected site_id leads

theorem stLookup_site (found : stLookup t dsite_id = some place) :
    t.site dsite_id = some place := by
  unfold stLookup at found
  split at found
  · exact found
  · cases found

/-- The selection for a site in the table, alone on its host. -/
theorem StoredRight.sendSelect {next : SiteTable} {connect : Connect} (right : StoredRight t)
    (apart : SitesApart t (.select thread dsite_id connect))
    (selected : xnetSendSelect t thread dsite_id connect = some next) : StoredRight next := by
  obtain ⟨place, found, whenConnected⟩ := apart
  obtain ⟨inMemory, own⟩ := right.own dsite_id place (stLookup_site found)
  simp only [xnetSendSelect, found] at selected
  by_cases unconnected : (t.memory place).sockfd = 0
  · rw [if_pos unconnected] at selected
    rcases connect with _ | ⟨fd, peer, polled⟩
    · cases selected
      exact right.finish trivial
    · obtain ⟨sole, alone, unstored⟩ := whenConnected fd peer polled rfl unconnected
      dsimp only at selected
      split at selected
      · next possible =>
        obtain rfl := sole peer possible.2.2
        rcases polled with _ | _
        · cases selected
          refine StoredRight.finish (right.connect (fun there => ?_) (fun there => ?_) unstored)
            trivial
          · exact (stUpdateSockfd_stored alone there).1
          · exact (stUpdateSockfd_stored alone there).2
        · cases selected
          refine StoredRight.select (right.connect (fun there => ?_) (fun there => ?_) unstored)
            inMemory ((setSockfd_stored alone own place).1.trans own)
          · exact (setSockfd_stored alone own there).1
          · exact (setSockfd_stored alone own there).2
      · cases selected
  · rw [if_neg unconnected] at selected
    cases selected
    exact right.select inMemory own

theorem StoredRight.sendWrite (right : StoredRight t)
    (selected : t.selected thread = some (dsite_id, place))
    (connected : (t.memory place).sockfd ≠ 0) :
    StoredRight (xnetSendWrite t thread dsite_id place) := by
  obtain ⟨inMemory, own⟩ := right.held thread dsite_id place selected
  unfold xnetSendWrite
  simp only [if_neg connected]
  split
  · exact right.finish trivial
  · next peer leads =>
    refine right.finish (congrArg some ?_)
    rw [right.leads place inMemory connected peer leads, own]

theorem StoredRight.accept {next : SiteTable} {sin_addr : U32} {sin_port : U16}
    (right : StoredRight t) (apart : SitesApart t (.accept fd peer sin_addr sin_port))
    (accepted : pollinAccept t fd peer sin_addr sin_port = some next) : StoredRight next := by
  obtain ⟨alone, unstored⟩ := apart
  unfold pollinAccept at accepted
  split at accepted
  · cases accepted
    refine right.connect (fun there => ?_) (fun there => ?_) unstored
    · exact (stUpdateSockfd_stored alone there).1
    · exact (stUpdateSockfd_stored alone there).2
  · cases accepted

end Steps

theorem siteStep_storedRight {t next : SiteTable} {event : SiteEvent} (right : StoredRight t)
    (apart : SitesApart t event) (stepped : siteStep t event = some next) : StoredRight next := by
  cases event with
  | updateIpaddr site_id ipaddr =>
    simp only [siteStep] at stepped
    split at stepped
    · cases stepped
      exact right.updateIpaddr site_id ipaddr
    · cases stepped
  | register site_id =>
    cases stepped
    exact ⟨right.own, right.held, right.leads, right.sends⟩
  | select thread dsite_id connect =>
    simp only [siteStep] at stepped
    split at stepped
    · exact right.sendSelect apart stepped
    · cases stepped
  | write thread =>
    simp only [siteStep] at stepped
    split at stepped
    · cases stepped
    · next dsite_id place selected =>
      cases stepped
      exact right.sendWrite selected (apart dsite_id place selected)
  | accept fd peer sin_addr sin_port => exact right.accept apart stepped
  | close fd =>
    simp only [siteStep] at stepped
    split at stepped
    · cases stepped
    · cases stepped
      exact right.clean fd

/-- In every run in which sites are sent to that are in the table and connections are made to and
accepted from sites alone on their hosts, every message goes to its site or nowhere. -/
theorem sends_reach_their_site (events : List SiteEvent) (final : SiteTable)
    (apart : Guarded siteStep SitesApart stInit events)
    (reached : run siteStep stInit events = some final) :
    ∀ entry ∈ final.results, RightSend entry :=
  (guarded_invariant StoredRight
    (fun _ _ _ right apart stepped => siteStep_storedRight right apart stepped)
    stInit_storedRight apart reached).sends

/-- The sites 1 and 2 on hosts of their own, and two threads that send to them. -/
def twoHosts : List SiteEvent :=
  [.updateIpaddr 1 [(10, 9001)], .updateIpaddr 2 [(11, 9001)],
    .select 0 1 (.connected 5 1 true), .select 1 2 (.connected 6 2 true), .write 1, .write 0]

/-- Two sites on hosts of their own are connected to and sent to. -/
theorem sends_reach_their_site_alone : ∃ final,
    run siteStep stInit twoHosts = some final ∧
      final.results = [(2, .wrote (some 2)), (1, .wrote (some 1))] ∧
      ∀ entry ∈ final.results, RightSend entry := by
  refine ⟨_, rfl, rfl, sends_reach_their_site twoHosts _ ?_ rfl⟩
  have homes : ∀ {other site_id : Nat} {sin_addr : U32},
      (site_id, sin_addr) ∈ [(1, (10 : U32)), (2, 11)] →
      Function.update (Function.update (fun _ : Nat => none) 1 (some (10, 9001))) 2
        (some (11, 9001)) other = some (sin_addr, (9001 : U16)) → other = site_id := by
    intro other site_id sin_addr known home
    simp only [Function.update_apply] at home
    split at home
    · cases home
      simp_all
    · split at home
      · cases home
        simp_all
      · cases home
  refine .cons trivial rfl (.cons trivial rfl (.cons ⟨0, rfl, ?_⟩ rfl (.cons ⟨1, rfl, ?_⟩ rfl
    (.cons ?_ rfl (.cons ?_ rfl trivial)))))
  · rintro fd peer polled same -
    cases same
    refine ⟨fun other home => homes List.mem_cons_self home, ?_, ?_⟩
    · rintro (_ | _ | place) remote host
      · rfl
      · cases host
      · cases remote.1
    · rintro (_ | _ | place) inMemory
      · exact (by decide : (0 : Nat) ≠ 5)
      · exact (by decide : (0 : Nat) ≠ 5)
      · exact absurd inMemory (Nat.not_lt.mpr (Nat.le_add_left 2 place))
  · rintro fd peer polled same -
    cases same
    refine ⟨fun other home => homes (List.mem_cons_of_mem _ List.mem_cons_self) home, ?_, ?_⟩
    · rintro (_ | _ | place) remote host
      · cases host
      · rfl
      · cases remote.1
    · rintro (_ | _ | place) inMemory
      · exact (by decide : (5 : Nat) ≠ 6)
      · exact (by decide : (0 : Nat) ≠ 6)
      · exact absurd inMemory (Nat.not_lt.mpr (Nat.le_add_left 2 place))
  · intro dsite_id place selected
    cases selected
    exact (by decide : (6 : Nat) ≠ 0)
  · intro dsite_id place selected
    cases selected
    exact (by decide : (5 : Nat) ≠ 0)

/-- Two sites share a host. The first one connects here, and then what is sent to the second goes
to the first. A site that is not in the table is sent to without an error. -/
theorem sends_share_host : ∃ final,
    run siteStep stInit [.updateIpaddr 1 [(10, 9001)], .updateIpaddr 2 [(10, 9002)],
      .accept 5 1 10 40000, .select 0 2 .failed, .write 0, .select 0 7 .failed] = some final ∧
      final.results = [(2, .wrote (some 1)), (7, .fault)] ∧
      ¬RightSend (2, .wrote (some 1)) ∧ ¬RightSend (7, .fault) := by
  refine ⟨_, rfl, rfl, ?_, fun absurdity => absurdity⟩
  simp [RightSend]

end Hvfs
