import EthIo.Client.Task

/-!
# `client`, `clientrecv` and the network

Two tasks share the global `conn`: `client` replaces it whenever it makes a netconn, with `NULL` if
`netconn_new` fails, and `clientrecv` reads it each time it starts a `netconn_recv`. The network
posts to the mailboxes of the netconns: data, the end of the stream, and the three endings
`err_tcp` reports.

`netconn_recv` is followed through `netconn_recv_data_tcp` and `netconn_recv_data` to what it
returns. It returns `ERR_OK` for data and for nothing else: a FIN comes back as `ERR_CLSD`, a reset
or an abort as itself, a `NULL` netconn as `ERR_ARG`, an empty netbuf pool as `ERR_MEM`, a mailbox
that a close has taken away as `ERR_CONN`. The loop `while ((err = netconn_recv(..)) == 0)` has
no way back from any of them, so `receiver_alive_iff` asks for runs that meet none.

What the body of the loop does with the data is not part of this module, nor is what a receiver that
has left still does to its netconn. A task that waits at a mailbox which a close takes away waits
on; the memory it waits at is gone, and what follows is not modelled.
-/

namespace EthIo.Client

open EthIo.Base

/-- The endings lwIP posts to a mailbox in place of a pbuf. -/
inductive Marker
  | netconn_aborted
  | netconn_reset
  | netconn_closed
  deriving DecidableEq, Repr

/-- `lwip_netconn_is_err_msg`: the error a marker stands for. -/
def Marker.err : Marker → err_t
  | .netconn_aborted => ERR_ABRT
  | .netconn_reset => ERR_RST
  | .netconn_closed => ERR_CLSD

/-- A message in `recvmbox`. -/
inductive Msg
  | data
  | marker (m : Marker)
  deriving DecidableEq, Repr

/-- What `netconn_recv` looks at: the mailbox, `none` once it has been deleted; the pending error;
`NETCONN_FLAG_MBOXCLOSED`; and whether the netconn still has its pcb. -/
structure Netconn where
  recvmbox : Option (List Msg)
  pending_err : err_t
  mboxClosed : Bool
  pcb : Bool
  deriving DecidableEq, Repr

/-- A netconn as `netconn_new` returns it. -/
def Netconn.fresh : Netconn := ⟨some [], ERR_OK, false, true⟩

/-- One more message, unless the mailbox is gone or full. -/
def Netconn.post (c : Netconn) (m : Msg) (posted : Bool) : Netconn :=
  if posted then { c with recvmbox := c.recvmbox.map (· ++ [m]) } else c

/-- `netconn_drain`. -/
def Netconn.drain (c : Netconn) : Netconn := { c with recvmbox := none }

/-- Where `clientrecv` stands. -/
inductive RecvPc
  | netconn_recv
  | mbox_fetch (id : Nat)
  | mbox_tryfetch (id : Nat)
  | body
  | left (err : err_t)
  deriving DecidableEq, Repr

/-- The two tasks and the netconns. -/
structure System where
  client : State
  recv : RecvPc
  netconns : Nat → Netconn

/-- Both tasks at their start; `conn` is a global, zero before `client` has set it. -/
def System.start (input1 input2 : Bool) : System :=
  ⟨Client.start input1 input2, .netconn_recv, fun _ => .fresh⟩

/-- One netconn replaced. -/
def System.setNetconn (s : System) (id : Nat) (c : Netconn) : System :=
  { s with netconns := fun j => if j = id then c else s.netconns j }

/-- A step of one of the tasks or of the network. -/
inductive Event
  | client (a : Label)
  | netconn_recv (netbuf : Bool)
  | fetch
  | netbuf_delete
  | recv_tcp (id : Nat) (fin posted : Bool)
  | err_tcp (id : Nat) (m : Marker) (posted : Bool)
  deriving DecidableEq, Repr

/-- What a call of `client` does to the netconns. -/
def System.after (s : System) : Label → System
  | .netconn_new true => s.setNetconn s.client.created .fresh
  | .netconn_close err =>
    match s.client.conn with
    | some id =>
      -- refused while a connect or a write is in progress, or when the pcb is gone
      if err = ERR_CONN ∨ err = ERR_INPROGRESS then s
      else s.setNetconn id
        { (s.netconns id).drain with pcb := (s.netconns id).pcb && decide (err ≠ ERR_OK) }
    | none => s
  | _ => s

/-- `netconn_err`, where `netconn_recv` returns it, or the error it returns in its place. -/
def pendingOr (c : Netconn) (err : err_t) : err_t :=
  if c.pending_err ≠ ERR_OK then c.pending_err else err

/-- What `netconn_recv` makes of the message it has fetched. -/
def received (c : Netconn) : Msg → RecvPc
  | .data => .body
  | .marker .netconn_closed =>
    if c.pcb then .left ERR_CLSD else .left (pendingOr c ERR_RST)
  | .marker m => .left m.err

/-- What it returns when a mailbox it may not wait at is empty. -/
def emptied (c : Netconn) : RecvPc :=
  .left (pendingOr c (if c.mboxClosed then ERR_CONN else ERR_WOULDBLOCK))

/-- The mailbox a fetch is from, and whether it may wait there. -/
def RecvPc.fetching : RecvPc → Option (Nat × Bool)
  | .mbox_fetch id => some (id, true)
  | .mbox_tryfetch id => some (id, false)
  | _ => none

/-- The system, one step at a time. -/
def System.step (s : System) : Event → Option System
  | .client a => (Client.step s.client a).map fun c => { s.after a with client := c }
  | .netconn_recv netbuf =>
    if s.recv = .netconn_recv then
      match s.client.conn with
      | none => some { s with recv := .left ERR_ARG }
      | some id =>
        if netbuf = false then some { s with recv := .left ERR_MEM }
        else if (s.netconns id).recvmbox = none then some { s with recv := .left ERR_CONN }
        else if (s.netconns id).mboxClosed = true ∨ (s.netconns id).pending_err ≠ ERR_OK then
          some { s with recv := .mbox_tryfetch id }
        else some { s with recv := .mbox_fetch id }
    else none
  | .fetch =>
    match s.recv.fetching with
    | none => none
    | some (id, waits) =>
      match (s.netconns id).recvmbox with
      | some (m :: ms) =>
        some { s.setNetconn id { s.netconns id with recvmbox := some ms } with
          recv := received (s.netconns id) m }
      | _ => if waits then none else some { s with recv := emptied (s.netconns id) }
  | .netbuf_delete => if s.recv = .body then some { s with recv := .netconn_recv } else none
  | .recv_tcp id fin posted =>
    if id < s.client.created ∧ (s.netconns id).pcb = true then
      some (s.setNetconn id
        ((s.netconns id).post (if fin then .marker .netconn_closed else .data) posted))
    else none
  | .err_tcp id m posted =>
    if id < s.client.created ∧ (s.netconns id).pcb = true then
      some (s.setNetconn id
        ({ s.netconns id with pcb := false, pending_err := m.err, mboxClosed := true }.post
          (.marker m) posted))
    else none

/-- The system as a machine. -/
def system : Machine System Event := ⟨System.step⟩

/-- Whether every `netconn_recv` so far was started on the netconn `client` created last. -/
def startedOnLast (s : System) : Event → Bool → Bool
  | .netconn_recv _, ok =>
    ok && decide (0 < s.client.created ∧ s.client.conn = some (s.client.created - 1))
  | _, ok => ok

/-- The system with that record. -/
def watched : Machine (System × Bool) Event := system.observe startedOnLast

/-- **The receiver is in its loop, and has served the current connection only.** -/
def Alive (s : System × Bool) : Prop :=
  (∀ err, s.1.recv ≠ .left err) ∧ s.2 = true

/-- The message a fetch would find. -/
def System.next (s : System) : Option Msg :=
  match s.recv.fetching with
  | none => none
  | some (id, _) => (s.netconns id).recvmbox.bind List.head?

/-- A step on which the receiver finds what it expects: on a start, a netconn with its mailbox and a
netbuf; on a fetch, data. -/
def Expected (s : System × Bool) : Event → Prop
  | .netconn_recv netbuf =>
    netbuf = true ∧ ∃ id, s.1.client.conn = some id ∧ (s.1.netconns id).recvmbox ≠ none
  | .fetch => s.1.next = some .data
  | _ => True

/-- While `conn` is not `NULL` it is the netconn created last. -/
def Current (c : State) : Prop := ∀ id, c.conn = some id → id + 1 = c.created

/-- Only `netconn_new` touches the global. -/
theorem step_conn {c c' : State} {a : Label} (hnew : ∀ made, a ≠ .netconn_new made)
    (hstep : Client.step c a = some c') : c'.conn = c.conn ∧ c'.created = c.created := by
  cases a with
  | netconn_new made => exact absurd rfl (hnew made)
  | readInput2 =>
    obtain ⟨_, _, rfl⟩ := step_readInput2.mp hstep
    exact ⟨rfl, rfl⟩
  | netconn_write err =>
    obtain ⟨_, _, rfl⟩ := step_netconn_write.mp hstep
    exact ⟨rfl, rfl⟩
  | _ =>
    simp only [Client.step] at hstep
    try split_ifs at hstep
    all_goals
      cases hstep
      exact ⟨rfl, rfl⟩

theorem current_step {c c' : State} {a : Label} (h : Current c)
    (hstep : Client.step c a = some c') : Current c' := by
  by_cases hnew : ∃ made, a = .netconn_new made
  · obtain ⟨made, rfl⟩ := hnew
    simp only [Client.step] at hstep
    split_ifs at hstep <;> cases hstep <;> intro id hid <;> cases hid
    rfl
  · obtain ⟨hconn, hcreated⟩ := step_conn (fun made hm => hnew ⟨made, hm⟩) hstep
    intro id hid
    rw [hcreated]
    exact h id (hconn ▸ hid)

theorem after_recv (s : System) (a : Label) : (s.after a).recv = s.recv := by
  unfold System.after
  repeat' split
  all_goals rfl

/-- The receiver is alive, and `conn` is current. -/
def AliveInv (s : System × Bool) : Prop := Alive s ∧ Current s.1.client

theorem aliveInv_start (input1 input2 : Bool) : AliveInv (System.start input1 input2, true) :=
  ⟨⟨fun _ h => RecvPc.noConfusion h, rfl⟩, fun _ h => Option.noConfusion rfl (heq_of_eq h)⟩

theorem recv_at {s s' : System} {netbuf : Bool} (hs : s.step (.netconn_recv netbuf) = some s') :
    s.recv = .netconn_recv := by
  by_contra hpc
  rw [System.step, if_neg hpc] at hs
  cases hs

/-- A start on a netconn with its mailbox and a netbuf goes on to a fetch. -/
theorem step_netconn_recv {s : System} {id : Nat} (hpc : s.recv = .netconn_recv)
    (hconn : s.client.conn = some id) (hmbox : (s.netconns id).recvmbox ≠ none) :
    s.step (.netconn_recv true) = some { s with recv := .mbox_tryfetch id } ∨
      s.step (.netconn_recv true) = some { s with recv := .mbox_fetch id } := by
  simp only [System.step, if_pos hpc, hconn, Bool.true_eq_false, ↓reduceIte, if_neg hmbox]
  split_ifs
  · exact .inl rfl
  · exact .inr rfl

/-- A fetch that finds data hands it to the body of the loop. -/
theorem step_fetch_data {s s' : System} (hnext : s.next = some .data)
    (hstep : s.step .fetch = some s') : s'.recv = .body ∧ s'.client = s.client := by
  unfold System.next at hnext
  simp only [System.step] at hstep
  split at hstep
  · cases hstep
  · next id waits hf =>
    rw [hf] at hnext
    dsimp only at hnext
    split at hstep
    · next m ms hm =>
      rw [hm] at hnext
      cases hnext
      cases hstep
      exact ⟨rfl, rfl⟩
    · next hm =>
      cases hmb : (s.netconns id).recvmbox with
      | none => simp [hmb] at hnext
      | some l =>
        cases l with
        | nil => simp [hmb] at hnext
        | cons m ms => exact absurd hmb (hm m ms)

/-- An expected step keeps the receiver alive. -/
theorem aliveInv_keep (s : System) (ok : Bool) (e : Event) (s' : System) (hI : AliveInv (s, ok))
    (hG : Expected (s, ok) e) (hs : s.step e = some s') :
    AliveInv (s', startedOnLast s e ok) := by
  obtain ⟨⟨halive, hok⟩, hcurrent⟩ := hI
  have halive : ∀ err, s.recv ≠ .left err := halive
  have hok : ok = true := hok
  cases e with
  | client a =>
    obtain ⟨c, hc, rfl⟩ := Option.map_eq_some_iff.mp hs
    exact ⟨⟨fun err => by rw [after_recv]; exact halive err, hok⟩, current_step hcurrent hc⟩
  | netconn_recv netbuf =>
    obtain ⟨rfl, id, hconn, hmbox⟩ := hG
    have hlast : startedOnLast s (.netconn_recv true) ok = true := by
      have hid : id + 1 = s.client.created := hcurrent id hconn
      have hconn : s.client.conn = some id := hconn
      simp only [startedOnLast, hok, Bool.true_and, decide_eq_true_eq, hconn, Option.some_inj]
      omega
    rcases step_netconn_recv (recv_at hs) hconn hmbox with h | h
    all_goals
      cases h.symm.trans hs
      exact ⟨⟨fun _ h => RecvPc.noConfusion h, hlast⟩, hcurrent⟩
  | fetch =>
    obtain ⟨hbody, hclient⟩ := step_fetch_data hG hs
    refine ⟨⟨fun err h => ?_, hok⟩, ?_⟩
    · exact RecvPc.noConfusion (hbody.symm.trans h)
    · rw [hclient]
      exact hcurrent
  | netbuf_delete =>
    simp only [System.step] at hs
    split_ifs at hs
    cases hs
    exact ⟨⟨fun _ h => RecvPc.noConfusion h, hok⟩, hcurrent⟩
  | recv_tcp id fin posted =>
    simp only [System.step] at hs
    split_ifs at hs
    all_goals
      cases hs
      exact ⟨⟨halive, hok⟩, hcurrent⟩
  | err_tcp id m posted =>
    simp only [System.step] at hs
    split_ifs at hs
    cases hs
    exact ⟨⟨halive, hok⟩, hcurrent⟩

/-- What is not data ends the loop. -/
theorem received_marker (c : Netconn) {m : Msg} (hm : m ≠ .data) :
    ∃ err, received c m = .left err := by
  cases m with
  | data => exact absurd rfl hm
  | marker m =>
    cases m with
    | netconn_closed =>
      unfold received
      split_ifs
      · exact ⟨_, rfl⟩
      · exact ⟨_, rfl⟩
    | netconn_aborted => exact ⟨_, rfl⟩
    | netconn_reset => exact ⟨_, rfl⟩

/-- A start or a fetch that finds something else ends the loop. -/
theorem alive_breaks (s : System) (ok : Bool) (e : Event) (s' : System) (_ : AliveInv (s, ok))
    (hG : ¬ Expected (s, ok) e) (hs : s.step e = some s') :
    ¬ Alive (s', startedOnLast s e ok) := by
  suffices h : ∃ err, s'.recv = .left err by
    obtain ⟨err, herr⟩ := h
    exact fun halive => halive.1 err herr
  cases e with
  | netconn_recv netbuf =>
    rw [System.step, if_pos (recv_at hs)] at hs
    cases hconn : s.client.conn with
    | none =>
      rw [hconn] at hs
      cases hs
      exact ⟨_, rfl⟩
    | some id =>
      rw [hconn] at hs
      dsimp only at hs
      split_ifs at hs with hbuf hmbox hclosed
      · cases hs
        exact ⟨_, rfl⟩
      · cases hs
        exact ⟨_, rfl⟩
      · exact absurd ⟨Bool.eq_true_of_not_eq_false hbuf, id, hconn, hmbox⟩ hG
      · exact absurd ⟨Bool.eq_true_of_not_eq_false hbuf, id, hconn, hmbox⟩ hG
  | fetch =>
    have hG : s.next ≠ some .data := hG
    simp only [System.next] at hG
    simp only [System.step] at hs
    split at hs
    · cases hs
    · next id waits hf =>
      rw [hf] at hG
      dsimp only at hG
      split at hs
      · next m ms hm =>
        obtain ⟨err, herr⟩ := received_marker (s.netconns id) (m := m) (by
          rintro rfl
          exact hG (by rw [hm]; rfl))
        cases hs
        exact ⟨err, herr⟩
      · cases waits with
        | true => cases hs
        | false =>
          cases hs
          exact ⟨_, rfl⟩
  | _ => exact absurd trivial hG

/-- **When the receiver stays alive on the current connection**: exactly on the runs where each
`netconn_recv` finds a netconn, a netbuf and a mailbox, and each fetch finds data. -/
theorem receiver_alive_iff {input1 input2 : Bool} {es : List Event} {s : System}
    (hrun : system.exec (System.start input1 input2) es = some s) :
    watched.Always Alive (System.start input1 input2, true) es ↔
      watched.Guarded Expected (System.start input1 input2, true) es :=
  Machine.observe_always_iff_guarded (fun _ hI => hI.1) aliveInv_keep alive_breaks
    (aliveInv_start input1 input2) hrun

/-- A connection, one command received, and the receiver waiting for the next. -/
theorem receiver_alive_one_command :
    watched.Always Alive (System.start true true, true)
        [.client (.netconn_new true), .client (.netconn_connect ERR_OK), .netconn_recv true,
          .recv_tcp 0 false true, .fetch, .netbuf_delete, .netconn_recv true] ↔
      watched.Guarded Expected (System.start true true, true)
        [.client (.netconn_new true), .client (.netconn_connect ERR_OK), .netconn_recv true,
          .recv_tcp 0 false true, .fetch, .netbuf_delete, .netconn_recv true] :=
  receiver_alive_iff rfl

/-- The peer closes its side: the FIN comes back from `netconn_recv` as `ERR_CLSD`, and the task has
left its loop. -/
theorem fin_ends_receiver :
    (watched.exec (System.start true true, true)
        [.client (.netconn_new true), .client (.netconn_connect ERR_OK), .netconn_recv true,
          .recv_tcp 0 true true, .fetch]).isSome = true ∧
      ¬ watched.Always Alive (System.start true true, true)
        [.client (.netconn_new true), .client (.netconn_connect ERR_OK), .netconn_recv true,
          .recv_tcp 0 true true, .fetch] := by
  refine ⟨rfl, ?_⟩
  intro h
  have hleft := h.last rfl
  exact hleft.1 ERR_CLSD rfl

end EthIo.Client
