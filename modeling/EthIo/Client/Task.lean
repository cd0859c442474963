import EthIo.Base.Machine
import EthIo.Base.Numeral

/-!
# The task `client`

Two nested loops over one global: the outer loop makes a netconn and connects it, the inner one
waits for a notification, scans the two inputs and writes one of four reports. `step` is one call of
the task at a time; what a call returns is in its label, so a run is a run for some sequence of
results of `netconn_new`, `netconn_connect` and `netconn_write`, any `err_t` each. The gives of the
other tasks and interrupts and the levels of the pins are labels of their own.

The inner loop has no way out. The outer loop is left on every result of `netconn_connect` but one,
`-1`, which is `ERR_MEM` and not the whole of the errors; `send_loop_live_iff` is what follows.

Of `ulTaskNotifyTake` only its contract is modelled: it blocks while the count is zero, and returns
the count and clears it otherwise.
-/

namespace EthIo.Client

open EthIo.Base

/-! ## `err_t` -/

/-- `err_t`, a signed byte. -/
abbrev err_t := Int8

def ERR_OK : err_t := 0
def ERR_MEM : err_t := -1
def ERR_INPROGRESS : err_t := -5
def ERR_WOULDBLOCK : err_t := -7
def ERR_CONN : err_t := -11
def ERR_ABRT : err_t := -13
def ERR_RST : err_t := -14
def ERR_CLSD : err_t := -15
def ERR_ARG : err_t := -16

/-! ## The inputs and the reports -/

/-- `Input_Scan` once its two pins have been read. -/
def Input_Scan (input1 input2 : Bool) : UInt8 :=
  if input1 then if input2 then 11 else 10 else if input2 then 1 else 0

/-- The four `send_buf`s, each with the terminating NUL that `sizeof` counts. -/
def send_buf1 : List UInt8 := ascii "Input1 is high,Input2 is high.\n" ++ [0]
def send_buf2 : List UInt8 := ascii "Input1 is high,Input2 is low.\n" ++ [0]
def send_buf3 : List UInt8 := ascii "Input1 is low,Input2 is high.\n" ++ [0]
def send_buf4 : List UInt8 := ascii "Input1 is low,Input2 is low.\n" ++ [0]

/-- The buffer the `switch` writes for a scan, if it has a case for it. -/
def reportOf (scan : UInt8) : Option (List UInt8) :=
  if scan = 11 then some send_buf1
  else if scan = 10 then some send_buf2
  else if scan = 1 then some send_buf3
  else if scan = 0 then some send_buf4
  else none

/-! ## The machine -/

/-- Where the task stands: before the call of this name. -/
inductive Pc
  | netconn_new
  | vTaskDelay
  | netconn_connect
  | netconn_close
  | ulTaskNotifyTake
  | readInput1
  | readInput2 (input1 : Bool)
  | netconn_write (buf : List UInt8)
  deriving DecidableEq, Repr

/-- The task inside its inner loop. -/
def Pc.sending : Pc → Bool
  | .ulTaskNotifyTake | .readInput1 | .readInput2 _ | .netconn_write _ => true
  | _ => false

/-- The task's position and what it shares with the others: the global `conn`, its notification
count, and the pins. Netconns are numbered in the order of their creation. -/
structure State where
  pc : Pc
  conn : Option Nat
  created : Nat
  ulNotifiedValue : UInt32
  input1 : Bool
  input2 : Bool
  deriving DecidableEq, Repr

/-- The task as it starts. -/
def start (input1 input2 : Bool) : State :=
  ⟨.netconn_new, none, 0, 0, input1, input2⟩

/-- One call of the task with its result, a give to it, or a change of the pins. -/
inductive Label
  | netconn_new (made : Bool)
  | vTaskDelay
  | netconn_connect (err : err_t)
  | netconn_close (err : err_t)
  | ulTaskNotifyTake
  | readInput1
  | readInput2
  | netconn_write (err : err_t)
  | give
  | pins (input1 input2 : Bool)
  deriving DecidableEq, Repr

/-- `while(1)` of `client`, one call at a time. -/
def step (s : State) : Label → Option State
  | .netconn_new made =>
    if s.pc = .netconn_new then
      if made then
        some { s with conn := some s.created, created := s.created + 1, pc := .netconn_connect }
      else some { s with conn := none, pc := .vTaskDelay }
    else none
  | .vTaskDelay => if s.pc = .vTaskDelay then some { s with pc := .netconn_new } else none
  | .netconn_connect err =>
    if s.pc = .netconn_connect then
      -- `ret == -1`, after `IP4_ADDR`
      if err.toInt = -1 then some { s with pc := .netconn_close }
      else some { s with pc := .ulTaskNotifyTake }
    else none
  | .netconn_close _ =>
    if s.pc = .netconn_close then some { s with pc := .vTaskDelay } else none
  | .ulTaskNotifyTake =>
    if s.pc = .ulTaskNotifyTake ∧ s.ulNotifiedValue ≠ 0 then
      -- the count goes through `uint16_t NotifyValue` before it is compared with zero
      if s.ulNotifiedValue.toUInt16 ≠ 0 then
        some { s with ulNotifiedValue := 0, pc := .readInput1 }
      else some { s with ulNotifiedValue := 0 }
    else none
  | .readInput1 =>
    if s.pc = .readInput1 then some { s with pc := .readInput2 s.input1 } else none
  | .readInput2 =>
    match s.pc with
    | .readInput2 input1 =>
      match reportOf (Input_Scan input1 s.input2) with
      | some buf => some { s with pc := .netconn_write buf }
      | none => some { s with pc := .ulTaskNotifyTake }
    | _ => none
  | .netconn_write _ =>
    match s.pc with
    | .netconn_write _ => some { s with pc := .ulTaskNotifyTake }
    | _ => none
  | .give => some { s with ulNotifiedValue := s.ulNotifiedValue + 1 }
  | .pins input1 input2 => some { s with input1 := input1, input2 := input2 }

/-- The task as a machine. -/
def machine : Machine State Label := ⟨step⟩

/-- The report that describes two levels. -/
def describes (input1 input2 : Bool) : List UInt8 :=
  match input1, input2 with
  | true, true => send_buf1
  | true, false => send_buf2
  | false, true => send_buf3
  | false, false => send_buf4

/-- The `switch` has a case for every result of a scan, and it is the report of the two levels. -/
theorem reportOf_Input_Scan (input1 input2 : Bool) :
    reportOf (Input_Scan input1 input2) = some (describes input1 input2) := by
  cases input1 <;> cases input2 <;> rfl

theorem step_readInput2 {s s' : State} :
    step s .readInput2 = some s' ↔ ∃ input1, s.pc = .readInput2 input1 ∧
      s' = { s with pc := .netconn_write (describes input1 s.input2) } := by
  cases hpc : s.pc <;> simp [step, hpc, reportOf_Input_Scan, eq_comm]

theorem step_netconn_write {s s' : State} {err : err_t} :
    step s (.netconn_write err) = some s' ↔ ∃ buf, s.pc = .netconn_write buf ∧
      s' = { s with pc := .ulTaskNotifyTake } := by
  cases hpc : s.pc <;> simp [step, hpc, eq_comm]

/-! ## The connection behind the send loop -/

/-- What has become of the current netconn: its last connect succeeded, and a write on it failed. -/
structure Link where
  connected : Bool
  writeFailed : Bool
  deriving DecidableEq, Repr

/-- The results of the calls on the current netconn, as they come in. -/
def Link.see (_ : State) : Label → Link → Link
  | .netconn_new _, _ => ⟨false, false⟩
  | .netconn_connect err, l => { l with connected := decide (err = ERR_OK) }
  | .netconn_write err, l => { l with writeFailed := l.writeFailed || decide (err ≠ ERR_OK) }
  | _, l => l

/-- The task with what has become of its connection. -/
def observed : Machine (State × Link) Label := machine.observe Link.see

/-- **Whenever the task is in its send loop, its connection is live.** -/
def SendsLive (s : State × Link) : Prop :=
  s.1.pc.sending = true → s.2.connected = true ∧ s.2.writeFailed = false

/-- A label under which the loop is right: the one error `client` looks for, or none. -/
def Handled (_ : State × Link) : Label → Prop
  | .netconn_connect err => err = ERR_OK ∨ err = ERR_MEM
  | .netconn_write err => err = ERR_OK
  | _ => True

/-- The send loop is live, and before it no write has been made on the netconn. -/
def LinkInv (s : State × Link) : Prop :=
  SendsLive s ∧ (s.1.pc = .netconn_connect → s.2.writeFailed = false)

theorem toInt_eq_neg_one_iff (err : err_t) : err.toInt = -1 ↔ err = ERR_MEM := by
  constructor
  · intro h
    exact Int8.toInt_inj.mp h
  · rintro rfl
    rfl

theorem linkInv_start (input1 input2 : Bool) (l : Link) : LinkInv (start input1 input2, l) :=
  ⟨fun h => Bool.noConfusion h, fun h => Pc.noConfusion h⟩

theorem linkInv_of_live {s : State} {l : Link} (h : l.connected = true ∧ l.writeFailed = false) :
    LinkInv (s, l) :=
  ⟨fun _ => h, fun _ => h.2⟩

/-- A handled step keeps the connection behind the loop live. -/
theorem linkInv_keep (s : State) (l : Link) (a : Label) (s' : State) (hI : LinkInv (s, l))
    (hG : Handled (s, l) a) (hs : step s a = some s') : LinkInv (s', Link.see s a l) := by
  obtain ⟨hlive, hfresh⟩ := hI
  have hlive : s.pc.sending = true → l.connected = true ∧ l.writeFailed = false := hlive
  cases a with
  | netconn_new made =>
    simp only [step] at hs
    split_ifs at hs <;> cases hs <;> simp [LinkInv, SendsLive, Link.see, Pc.sending]
  | vTaskDelay =>
    simp only [step] at hs
    split_ifs at hs
    cases hs
    simp [LinkInv, SendsLive, Pc.sending]
  | netconn_connect err =>
    simp only [step, toInt_eq_neg_one_iff] at hs
    split_ifs at hs with hpc hmem
    · cases hs
      simp [LinkInv, SendsLive, Pc.sending]
    · cases hs
      refine linkInv_of_live ⟨?_, hfresh hpc⟩
      simp [Link.see, hG.resolve_right hmem]
  | netconn_close err =>
    simp only [step] at hs
    split_ifs at hs
    cases hs
    simp [LinkInv, SendsLive, Pc.sending]
  | ulTaskNotifyTake =>
    simp only [step] at hs
    split_ifs at hs with hpc hcount <;> cases hs <;>
      exact linkInv_of_live (hlive (by rw [hpc.1]; rfl))
  | readInput1 =>
    simp only [step] at hs
    split_ifs at hs with hpc
    cases hs
    exact linkInv_of_live (hlive (by rw [hpc]; rfl))
  | readInput2 =>
    obtain ⟨input1, hpc, rfl⟩ := step_readInput2.mp hs
    exact linkInv_of_live (hlive (by rw [hpc]; rfl))
  | netconn_write err =>
    obtain ⟨buf, hpc, rfl⟩ := step_netconn_write.mp hs
    have herr : err = ERR_OK := hG
    obtain ⟨hconnected, hwritten⟩ := hlive (by rw [hpc]; rfl)
    refine linkInv_of_live ⟨hconnected, ?_⟩
    simp [Link.see, herr, hwritten]
  | give =>
    cases hs
    exact ⟨hlive, hfresh⟩
  | pins input1 input2 =>
    cases hs
    exact ⟨hlive, hfresh⟩

/-- A result the loop does not handle leaves it sending on a connection that is not live. -/
theorem sendsLive_breaks (s : State) (l : Link) (a : Label) (s' : State) (_ : LinkInv (s, l))
    (hG : ¬ Handled (s, l) a) (hs : step s a = some s') : ¬ SendsLive (s', Link.see s a l) := by
  cases a with
  | netconn_connect err =>
    obtain ⟨hok, hmem⟩ := not_or.mp hG
    simp only [step, toInt_eq_neg_one_iff, if_neg hmem] at hs
    split_ifs at hs
    cases hs
    intro h
    have hconnected := (h rfl).1
    simp [Link.see, hok] at hconnected
  | netconn_write err =>
    have herr : err ≠ ERR_OK := hG
    obtain ⟨buf, hpc, rfl⟩ := step_netconn_write.mp hs
    intro h
    have hfailed := (h rfl).2
    simp [Link.see, herr] at hfailed
  | _ => exact absurd trivial hG

/-- **When the send loop is live**: exactly on the runs where every `netconn_connect` returns
`ERR_OK` or `ERR_MEM` and every `netconn_write` returns `ERR_OK`. -/
theorem send_loop_live_iff {input1 input2 : Bool} {l : Link} {as : List Label}
    {s : State} (hrun : machine.exec (start input1 input2) as = some s) :
    observed.Always SendsLive (start input1 input2, l) as ↔
      observed.Guarded Handled (start input1 input2, l) as :=
  Machine.observe_always_iff_guarded (fun _ hI => hI.1) linkInv_keep sendsLive_breaks
    (linkInv_start input1 input2 l) hrun

/-- A run with one good connection and one report. -/
theorem send_loop_live_one_report :
    observed.Always SendsLive (start true false, ⟨false, false⟩)
        [.netconn_new true, .netconn_connect ERR_OK, .give, .ulTaskNotifyTake, .readInput1,
          .readInput2, .netconn_write ERR_OK] ↔
      observed.Guarded Handled (start true false, ⟨false, false⟩)
        [.netconn_new true, .netconn_connect ERR_OK, .give, .ulTaskNotifyTake, .readInput1,
          .readInput2, .netconn_write ERR_OK] :=
  send_loop_live_iff (s := ⟨.ulTaskNotifyTake, some 0, 1, 0, true, false⟩) rfl

/-- The peer refuses: `netconn_connect` returns `ERR_RST`, and the loop sends all the same. -/
theorem refused_connect_sends :
    (observed.exec (start true true, ⟨false, false⟩)
        [.netconn_new true, .netconn_connect ERR_RST]).isSome = true ∧
      ¬ observed.Always SendsLive (start true true, ⟨false, false⟩)
        [.netconn_new true, .netconn_connect ERR_RST] :=
  ⟨rfl, fun h => Bool.noConfusion ((h.2 _ rfl).2 _ rfl rfl).1⟩

end EthIo.Client
