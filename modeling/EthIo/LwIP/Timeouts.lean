import EthIo.Base.Machine

/-!
# The timeouts of the stack

`timeouts.c` keeps what is to be called later in a list, the soonest first, with the time of each in
milliseconds of a clock of 32 bits. `sys_check_timeouts` calls what is due, one after the other;
what it calls may set and clear timeouts itself. The timers of the stack set themselves again:
`lwip_cyclic_timer` from the time it was due, and `tcpip_tcp_timer` for as long as there are
connections.

`TIME_LESS_THAN` compares two times as 32-bit differences, so that it does not matter where the
clock wraps. The functions here are written for any `Clock`: that of the code is `UInt32`, and `Nat`
is the clock that does not wrap, which it is compared with.

`timers` is the thread of the stack at work. Its labels are the calls other code makes, the rounds
of `sys_check_timeouts`, the end of a handler, and the passing of time, which may come anywhere.
Only what a handler does to the timeouts is followed. An element of the pool is a free one or one in
the list, so the pool is a count. `sys_restart_timeouts`, which nothing calls, is left out.
-/

namespace EthIo.LwIP

open EthIo.Base

/-! ## Clocks -/

/-- What the code does with times: it compares two, adds milliseconds to one, and takes one from
another. -/
class Clock (T : Type) where
  TIME_LESS_THAN : T → T → Bool
  plus : T → UInt32 → T
  minus : T → T → UInt32

export Clock (TIME_LESS_THAN plus minus)

def LWIP_MAX_TIMEOUT : UInt32 := 0x7fffffff

/-- `u32_t`. -/
instance : Clock UInt32 where
  TIME_LESS_THAN t compare_to := decide (t - compare_to > LWIP_MAX_TIMEOUT)
  plus t msecs := t + msecs
  minus t u := t - u

/-- Milliseconds that are never too many. -/
instance : Clock Nat where
  TIME_LESS_THAN t compare_to := decide (t < compare_to)
  plus t msecs := t + msecs.toNat
  minus t u := (t - u).toUInt32

/-! ## The list -/

/-- The handlers of this file, and those of others. -/
inductive sys_timeout_handler
  | lwip_cyclic_timer
  | tcpip_tcp_timer
  | other (n : Nat)
  deriving DecidableEq, Repr

/-- `struct sys_timeo`, without its link. -/
structure sys_timeo (T : Type) where
  time : T
  h : Option sys_timeout_handler
  arg : Nat
  deriving DecidableEq, Repr

/-- The variables of the file, and how many elements of the pool are free. -/
structure Timeouts (T : Type) where
  next_timeout : List (sys_timeo T)
  MEMP_SYS_TIMEOUT : Nat
  current_timeout_due_time : T
  tcpip_tcp_timer_active : Bool

/-- The functions `lwip_cyclic_timers` calls. -/
inductive lwip_cyclic_timer_handler
  | tcp_tmr
  | ip_reass_tmr
  | etharp_tmr
  | dhcp_coarse_tmr
  | dhcp_fine_tmr
  deriving DecidableEq, Repr

def TCP_TMR_INTERVAL : UInt32 := 250
def IP_TMR_INTERVAL : UInt32 := 1000
def ARP_TMR_INTERVAL : UInt32 := 1000
def DHCP_COARSE_TIMER_MSECS : UInt32 := 60 * 1000
def DHCP_FINE_TIMER_MSECS : UInt32 := 500

/-- `lwip_cyclic_timers`, as configured. -/
def lwip_cyclic_timers : List (UInt32 × lwip_cyclic_timer_handler) :=
  [(TCP_TMR_INTERVAL, .tcp_tmr), (IP_TMR_INTERVAL, .ip_reass_tmr), (ARP_TMR_INTERVAL, .etharp_tmr),
    (DHCP_COARSE_TIMER_MSECS, .dhcp_coarse_tmr), (DHCP_FINE_TIMER_MSECS, .dhcp_fine_tmr)]

/-- `cyclic->interval_ms`, of the cyclic timer at an index. -/
def interval_ms (cyclic : Nat) : UInt32 := (lwip_cyclic_timers[cyclic]?.map Prod.fst).getD 0

def MEMP_NUM_SYS_TIMEOUT : Nat := 6

section Calls

variable {T : Type} [Clock T]

/-- The `for` loop of `sys_timeout_abs`, from `t` on. -/
def insertBehind (timeout t : sys_timeo T) : List (sys_timeo T) → List (sys_timeo T)
  | [] => [t, timeout]
  | next :: rest =>
    if TIME_LESS_THAN timeout.time next.time then t :: timeout :: next :: rest
    else t :: insertBehind timeout next rest

/-- A timeout put into the list. -/
def insertTimeout (timeout : sys_timeo T) : List (sys_timeo T) → List (sys_timeo T)
  | [] => [timeout]
  | next :: rest =>
    if TIME_LESS_THAN timeout.time next.time then timeout :: next :: rest
    else insertBehind timeout next rest

/-- `sys_timeout_abs`, which sets nothing if the pool is empty. -/
def sys_timeout_abs (abs_time : T) (handler : Option sys_timeout_handler) (arg : Nat)
    (s : Timeouts T) : Timeouts T :=
  if s.MEMP_SYS_TIMEOUT = 0 then s
  else
    { s with
      MEMP_SYS_TIMEOUT := s.MEMP_SYS_TIMEOUT - 1
      next_timeout := insertTimeout ⟨abs_time, handler, arg⟩ s.next_timeout }

/-- `sys_timeout`, called at `now`. -/
def sys_timeout (now : T) (msecs : UInt32) (handler : Option sys_timeout_handler) (arg : Nat)
    (s : Timeouts T) : Timeouts T :=
  sys_timeout_abs (plus now msecs) handler arg s

/-- The list without the first timeout for this handler and argument, if there is one. -/
def unlink (handler : Option sys_timeout_handler) (arg : Nat) :
    List (sys_timeo T) → Option (List (sys_timeo T))
  | [] => none
  | t :: rest =>
    if t.h = handler ∧ t.arg = arg then some rest else (unlink handler arg rest).map (t :: ·)

/-- `sys_untimeout`. -/
def sys_untimeout (handler : Option sys_timeout_handler) (arg : Nat) (s : Timeouts T) :
    Timeouts T :=
  match unlink handler arg s.next_timeout with
  | none => s
  | some rest => { s with next_timeout := rest, MEMP_SYS_TIMEOUT := s.MEMP_SYS_TIMEOUT + 1 }

/-- A round of `sys_check_timeouts` that was called at `now`: what is to be called, if any. -/
def expire (now : T) (s : Timeouts T) : Option (sys_timeo T × Timeouts T) :=
  match s.next_timeout with
  | [] => none
  | tmptimeout :: next =>
    if TIME_LESS_THAN now tmptimeout.time then none
    else
      some (tmptimeout,
        { s with
          next_timeout := next
          current_timeout_due_time := tmptimeout.time
          MEMP_SYS_TIMEOUT := s.MEMP_SYS_TIMEOUT + 1 })

/-- What `lwip_cyclic_timer` does behind the call of its handler. -/
def lwip_cyclic_timer (now : T) (cyclic : Nat) (s : Timeouts T) : Timeouts T :=
  let next_timeout_time := plus s.current_timeout_due_time (interval_ms cyclic)
  if TIME_LESS_THAN next_timeout_time now then
    sys_timeout_abs (plus now (interval_ms cyclic)) (some .lwip_cyclic_timer) cyclic s
  else sys_timeout_abs next_timeout_time (some .lwip_cyclic_timer) cyclic s

/-- What `tcpip_tcp_timer` does behind `tcp_tmr()`; `pcbs` is whether there are connections. -/
def tcpip_tcp_timer (now : T) (pcbs : Bool) (s : Timeouts T) : Timeouts T :=
  if pcbs then sys_timeout now TCP_TMR_INTERVAL (some .tcpip_tcp_timer) 0 s
  else { s with tcpip_tcp_timer_active := false }

/-- `tcp_timer_needed`. -/
def tcp_timer_needed (now : T) (pcbs : Bool) (s : Timeouts T) : Timeouts T :=
  if !s.tcpip_tcp_timer_active && pcbs then
    sys_timeout now TCP_TMR_INTERVAL (some .tcpip_tcp_timer) 0
      { s with tcpip_tcp_timer_active := true }
  else s

/-- `sys_timeouts_init`: the cyclic timers but the one of TCP, which is at index 0. -/
def sys_timeouts_init (now : T) (s : Timeouts T) : Timeouts T :=
  (List.range' 1 (lwip_cyclic_timers.length - 1)).foldl
    (fun s i => sys_timeout now (interval_ms i) (some .lwip_cyclic_timer) i s) s

/-- `sys_timeouts_sleeptime`, with `none` for `SYS_TIMEOUTS_SLEEPTIME_INFINITE`. -/
def sys_timeouts_sleeptime (now : T) (s : Timeouts T) : Option UInt32 :=
  match s.next_timeout with
  | [] => none
  | next :: _ =>
    if TIME_LESS_THAN next.time now then some 0 else some (minus next.time now)

end Calls

/-! ## The thread at work -/

/-- The time, the timeouts, when the call of `sys_check_timeouts` began if there is one, and the
timeout whose handler it has called and that has not returned. -/
structure TimerState (T : Type) where
  now : T
  timeouts : Timeouts T
  checking : Option T
  calling : Option (sys_timeo T)

/-- Time passes; a function is called; `sys_check_timeouts` does a round; the handler it has called
returns, where there are connections or not. -/
inductive TimerLabel
  | tick (ms : UInt32)
  | sys_timeout (msecs : UInt32) (handler : Option Nat) (arg : Nat)
  | sys_untimeout (handler : Option Nat) (arg : Nat)
  | tcp_timer_needed (pcbs : Bool)
  | sys_check_timeouts
  | round
  | handled (pcbs : Bool)
  deriving DecidableEq, Repr

section Machine

variable {T : Type} [Clock T]

/-- What a handler does to the timeouts at its end. -/
def sys_timeo.handled (t : sys_timeo T) (now : T) (pcbs : Bool) (s : Timeouts T) : Timeouts T :=
  match t.h with
  | some .lwip_cyclic_timer => lwip_cyclic_timer now t.arg s
  | some .tcpip_tcp_timer => tcpip_tcp_timer now pcbs s
  | _ => s

def TimerState.step (s : TimerState T) : TimerLabel → Option (TimerState T)
  | .tick ms => some { s with now := plus s.now ms }
  | .sys_timeout msecs handler arg =>
    some { s with
      timeouts := EthIo.LwIP.sys_timeout s.now msecs (handler.map .other) arg s.timeouts }
  | .sys_untimeout handler arg =>
    some { s with timeouts := EthIo.LwIP.sys_untimeout (handler.map .other) arg s.timeouts }
  | .tcp_timer_needed pcbs =>
    some { s with timeouts := EthIo.LwIP.tcp_timer_needed s.now pcbs s.timeouts }
  | .sys_check_timeouts =>
    if s.checking.isNone then some { s with checking := some s.now } else none
  | .round =>
    match s.checking, s.calling with
    | some now, none =>
      match expire now s.timeouts with
      | none => some { s with checking := none }
      -- a handler that is `NULL` is not called
      | some (t, timeouts) => some { s with timeouts := timeouts, calling := t.h.map fun _ => t }
    | _, _ => none
  | .handled pcbs =>
    s.calling.map fun t =>
      { s with timeouts := t.handled s.now pcbs s.timeouts, calling := none }

/-- The timeouts and what is done with them. -/
def timers (T : Type) [Clock T] : Machine (TimerState T) TimerLabel := ⟨TimerState.step⟩

/-- `sys_timeouts_init` has been called at `now`. -/
def timersStart (now : T) : TimerState T where
  now := now
  timeouts := sys_timeouts_init now
    { next_timeout := []
      MEMP_SYS_TIMEOUT := MEMP_NUM_SYS_TIMEOUT
      current_timeout_due_time := now
      tcpip_tcp_timer_active := false }
  checking := none
  calling := none

/-- **What a round does**: the check returns where nothing is due, or else calls what is. -/
theorem TimerState.step_round {s s' : TimerState T} (hs : s.step .round = some s') :
    ∃ n, s.checking = some n ∧ s.calling = none ∧
      (expire n s.timeouts = none ∧ s' = { s with checking := none } ∨
        ∃ t timeouts, expire n s.timeouts = some (t, timeouts) ∧
          s' = { s with timeouts := timeouts, calling := t.h.map fun _ => t }) := by
  simp only [TimerState.step] at hs
  rcases hn : s.checking with _ | n
  · rw [hn] at hs
    cases hs
  · rcases hcalling : s.calling with _ | t
    · refine ⟨n, rfl, rfl, ?_⟩
      simp only [hn, hcalling] at hs
      rcases hexpire : expire n s.timeouts with _ | ⟨t, timeouts⟩
      · rw [hexpire] at hs
        cases hs
        exact .inl ⟨rfl, rfl⟩
      · rw [hexpire] at hs
        cases hs
        exact .inr ⟨t, timeouts, rfl, rfl⟩
    · rw [hn, hcalling] at hs
      cases hs

end Machine

end EthIo.LwIP
