import EthIo.LwIP.TimeoutsOrder
import EthIo.LwIP.TimeoutsPace

/-!
# The thread of the stack asleep

`tcpip_timeouts_mbox_fetch` waits for a message no longer than `sys_timeouts_sleeptime` says, which
is until the first timeout is due. Before it waits it gives up the lock of the stack, and two things
may make it wake too late: it may be kept from its wait for a while after it has read how long that
may be, and what has the lock may set a timeout that is due sooner, for which nothing wakes it.

`lateBy` counts the first. In every prompt run, the thread is never to wake later than any of the
timeouts is due by more than that count, if and only if no timeout that is set from when it has read
until it wakes is due earlier than that (`sleeps_in_time`). It does not sleep for long: as long as
the timers of the stack are kept, the last of them is due within 500 ms (`sleep_bounded`). How long
the thread is kept from running once its wait is over, and how long the handlers take, is not
counted.

A tick of the system is a millisecond here, so that `sys_arch_mbox_fetch` waits for the time it is
given.
-/

namespace EthIo.LwIP

open EthIo.Base

/-- The thread has the lock, or has a message and is after the lock; or it has read how long it may
wait, and does not wait yet; or it waits in `sys_arch_mbox_fetch`: for that many milliseconds more,
or for as long as it takes. -/
inductive ThreadPc
  | awake
  | fetching (sleeptime : Option UInt32)
  | asleep (left : Option UInt32)
  deriving DecidableEq, Repr

/-- The timeouts and the thread. -/
structure ThreadState (T : Type) where
  timers : TimerState T
  pc : ThreadPc

/-- What is done with the timeouts, by the thread or by another; the thread reads how long it may
wait; its wait begins; it is over, or a message ends it. -/
inductive ThreadLabel
  | timer (a : TimerLabel)
  | tcpip_timeouts_mbox_fetch
  | sys_arch_mbox_fetch
  | SYS_ARCH_TIMEOUT
  | message
  deriving DecidableEq, Repr

/-- Time passes for one who waits as well. -/
def ThreadPc.after (pc : ThreadPc) : TimerLabel → ThreadPc
  | .tick ms =>
    match pc with
    | .asleep (some left) => .asleep (some (if ms < left then left - ms else 0))
    | _ => pc
  | _ => pc

section

variable {T : Type} [Clock T]

def ThreadState.step (s : ThreadState T) : ThreadLabel → Option (ThreadState T)
  | .timer a =>
    -- only `tcpip_timeouts_mbox_fetch` calls it
    if a = .sys_check_timeouts then none
    else (s.timers.step a).map fun timers => ⟨timers, s.pc.after a⟩
  | .tcpip_timeouts_mbox_fetch =>
    if s.pc = .awake ∧ s.timers.checking.isNone ∧ s.timers.calling.isNone then
      match sys_timeouts_sleeptime s.timers.now s.timers.timeouts with
      | none => some ⟨s.timers, .fetching none⟩
      | some sleeptime =>
        if sleeptime = 0 then
          (s.timers.step .sys_check_timeouts).map fun timers => ⟨timers, .awake⟩
        else some ⟨s.timers, .fetching (some sleeptime)⟩
    else none
  | .sys_arch_mbox_fetch =>
    match s.pc with
    | .fetching sleeptime => some ⟨s.timers, .asleep sleeptime⟩
    | _ => none
  | .SYS_ARCH_TIMEOUT =>
    if s.pc = .asleep (some 0) then
      (s.timers.step .sys_check_timeouts).map fun timers => ⟨timers, .awake⟩
    else none
  | .message =>
    match s.pc with
    | .asleep _ => some ⟨s.timers, .awake⟩
    | _ => none

/-- The thread and all that has the lock while it does not. -/
def tcpip_thread (T : Type) [Clock T] : Machine (ThreadState T) ThreadLabel := ⟨ThreadState.step⟩

/-- The thread, when it has called `sys_timeouts_init` at `now`. -/
def threadStart (now : T) : ThreadState T := ⟨timersStart now, .awake⟩

end

/-- How long it has still to wait, from when its wait begins, if it is not awake. -/
def ThreadPc.wait : ThreadPc → Option (Option UInt32)
  | .awake => none
  | .fetching left | .asleep left => some left

/-- For how long the thread has been kept from its wait, after it has read how long that may be. -/
def lateBy (s : ThreadState Nat) : ThreadLabel → Nat → Nat
  | .timer (.tick ms), late =>
    match s.pc with
    | .fetching _ => late + ms.toNat
    | _ => late
  | .tcpip_timeouts_mbox_fetch, _ => 0
  | _, late => late

/-- The thread, with what it is late by. -/
def lateThread : Machine (ThreadState Nat × Nat) ThreadLabel := (tcpip_thread Nat).observe lateBy

/-- **It is to wake** when any of these timeouts is due, or `late` milliseconds behind that. -/
def ThreadPc.InTime (now late : Nat) (l : List (sys_timeo Nat)) (pc : ThreadPc) : Prop :=
  ∀ left ∈ pc.wait, ∀ t ∈ l, ∃ ms ∈ left, ms.toNat ≤ t.time - now + late

/-- Its wait is over within that time. -/
def ThreadPc.UpWithin (msecs : Nat) (pc : ThreadPc) : Prop :=
  ∀ left ∈ pc.wait, ∃ ms ∈ left, ms.toNat ≤ msecs

/-- The thread wakes in time, but for what it is late by. -/
def InTime (p : ThreadState Nat × Nat) : Prop :=
  p.1.pc.InTime p.1.timers.now p.2 p.1.timers.timeouts.next_timeout

/-- What is set is due no sooner than the thread is up, but for what that is late by. -/
def SetsInTime (p : ThreadState Nat × Nat) : ThreadLabel → Prop
  | .timer (.sys_timeout msecs _ _) =>
    p.1.timers.timeouts.MEMP_SYS_TIMEOUT ≠ 0 → p.1.pc.UpWithin (msecs.toNat + p.2)
  | .timer (.tcp_timer_needed pcbs) =>
    p.1.timers.timeouts.tcpip_tcp_timer_active = false → pcbs = true →
      p.1.timers.timeouts.MEMP_SYS_TIMEOUT ≠ 0 →
        p.1.pc.UpWithin (TCP_TMR_INTERVAL.toNat + p.2)
  | _ => True

/-- Nothing is left for long, and nothing is set for longer than may be. -/
def ThreadPrompt (s : ThreadState Nat) : ThreadLabel → Prop
  | .timer a => Prompt s.timers a
  | _ => True

/-- What the clock of the code shows. -/
def ThreadState.shown (s : ThreadState Nat) : ThreadState UInt32 := ⟨s.timers.shown, s.pc⟩

-- not by way of all the numbers of 32 bits there are
instance (msecs : Nat) (pc : ThreadPc) : Decidable (pc.UpWithin msecs) :=
  match h : pc.wait with
  | none => isTrue (by simp [ThreadPc.UpWithin, h])
  | some none => isFalse (by simp [ThreadPc.UpWithin, h])
  | some (some ms) => decidable_of_iff (ms.toNat ≤ msecs) (by simp [ThreadPc.UpWithin, h])

instance : ∀ (p : ThreadState Nat × Nat) (a : ThreadLabel), Decidable (SetsInTime p a)
  | p, .timer (.sys_timeout msecs _ _) =>
    inferInstanceAs (Decidable
      (p.1.timers.timeouts.MEMP_SYS_TIMEOUT ≠ 0 → p.1.pc.UpWithin (msecs.toNat + p.2)))
  | p, .timer (.tcp_timer_needed pcbs) =>
    inferInstanceAs (Decidable
      (p.1.timers.timeouts.tcpip_tcp_timer_active = false → pcbs = true →
        p.1.timers.timeouts.MEMP_SYS_TIMEOUT ≠ 0 →
          p.1.pc.UpWithin (TCP_TMR_INTERVAL.toNat + p.2)))
  | _, .timer (.tick _) | _, .timer (.sys_untimeout _ _) | _, .timer .sys_check_timeouts
  | _, .timer .round | _, .timer (.handled _) | _, .tcpip_timeouts_mbox_fetch
  | _, .sys_arch_mbox_fetch | _, .SYS_ARCH_TIMEOUT | _, .message =>
    inferInstanceAs (Decidable True)

instance : ∀ (s : ThreadState Nat) (a : ThreadLabel), Decidable (ThreadPrompt s a)
  | s, .timer a => inferInstanceAs (Decidable (Prompt s.timers a))
  | _, .tcpip_timeouts_mbox_fetch | _, .sys_arch_mbox_fetch | _, .SYS_ARCH_TIMEOUT
  | _, .message => inferInstanceAs (Decidable True)

/-- The list is sorted, and one that is not awake is in no check. -/
structure ThreadInv (s : ThreadState Nat) : Prop where
  sorted : s.timers.timeouts.next_timeout.Pairwise fun t u => t.time ≤ u.time
  idle : s.pc = .awake ∨ s.timers.checking = none ∧ s.timers.calling = none

/-! ## The list stays sorted -/

section Sorted

variable {s s' : TimerState Nat} {a : TimerLabel}

theorem sorted_sys_timeout_abs {t : Nat} {handler : Option sys_timeout_handler} {arg : Nat}
    {s : Timeouts Nat} (h : s.next_timeout.Pairwise fun t u => t.time ≤ u.time) :
    (sys_timeout_abs t handler arg s).next_timeout.Pairwise fun t u => t.time ≤ u.time := by
  rw [sys_timeout_abs_list]
  split_ifs
  · exact h
  · exact pairwise_orderedInsert h _

theorem sorted_step (h : s.timeouts.next_timeout.Pairwise fun t u => t.time ≤ u.time)
    (hs : s.step a = some s') :
    s'.timeouts.next_timeout.Pairwise fun t u => t.time ≤ u.time := by
  by_cases hround : a = .round
  · subst hround
    obtain ⟨n, -, -, hround⟩ := TimerState.step_round hs
    obtain ⟨-, rfl⟩ | ⟨t, timeouts, hexpire, rfl⟩ := hround
    · exact h
    · rw [(expire_some hexpire).1] at h
      exact (List.pairwise_cons.mp h).2
  by_cases hclear : ∃ handler arg, a = .sys_untimeout handler arg
  · obtain ⟨handler, arg, rfl⟩ := hclear
    cases hs
    exact h.sublist (sys_untimeout_sublist _ arg s.timeouts)
  rcases step_asks hs hround fun handler arg ha => hclear ⟨handler, arg, ha⟩ with
    ⟨-, hsame, -⟩ | ⟨u, -, -, -, hset⟩
  · rw [hsame]
    exact h
  · rw [hset]
    exact sorted_sys_timeout_abs h

end Sorted

/-! ## Steps of the thread -/

/-- **What a step does**: it is one of the timeouts, a check that begins, a wait that is to begin or
begins, or a message. -/
theorem ThreadState.step_cases {T : Type} [Clock T] {s s' : ThreadState T} {a : ThreadLabel}
    (hs : s.step a = some s') :
    (∃ b timers, a = .timer b ∧ b ≠ .sys_check_timeouts ∧ s.timers.step b = some timers ∧
      s' = ⟨timers, s.pc.after b⟩) ∨
    (∃ timers, (∀ b, a ≠ .timer b) ∧ s.timers.step .sys_check_timeouts = some timers ∧
      s' = ⟨timers, .awake⟩) ∨
    (∃ left, a = .tcpip_timeouts_mbox_fetch ∧ s.timers.checking = none ∧
      s.timers.calling = none ∧ sys_timeouts_sleeptime s.timers.now s.timers.timeouts = left ∧
      left ≠ some 0 ∧ s' = ⟨s.timers, .fetching left⟩) ∨
    (∃ left, a = .sys_arch_mbox_fetch ∧ s.pc = .fetching left ∧
      s' = ⟨s.timers, .asleep left⟩) ∨
    (a = .message ∧ s' = ⟨s.timers, .awake⟩) := by
  cases a with
  | timer b =>
    simp only [ThreadState.step] at hs
    split_ifs at hs with hb
    obtain ⟨timers, hstep, rfl⟩ := Option.map_eq_some_iff.mp hs
    exact .inl ⟨b, timers, rfl, hb, hstep, rfl⟩
  | tcpip_timeouts_mbox_fetch =>
    simp only [ThreadState.step] at hs
    split_ifs at hs with hfree
    obtain ⟨-, hchecking, hcalling⟩ := hfree
    rw [Option.isNone_iff_eq_none] at hchecking hcalling
    rcases hsleep : sys_timeouts_sleeptime s.timers.now s.timers.timeouts with _ | sleeptime
    · rw [hsleep] at hs
      cases hs
      refine .inr (.inr (.inl ⟨none, rfl, hchecking, hcalling, rfl, ?_, rfl⟩))
      exact Option.some_ne_none 0 |>.symm
    · rw [hsleep] at hs
      simp only at hs
      split_ifs at hs with hzero
      · obtain ⟨timers, hstep, rfl⟩ := Option.map_eq_some_iff.mp hs
        exact .inr (.inl ⟨timers, fun _ => ThreadLabel.noConfusion, hstep, rfl⟩)
      · cases hs
        refine .inr (.inr (.inl ⟨some sleeptime, rfl, hchecking, hcalling, rfl, ?_, rfl⟩))
        exact fun h => hzero (Option.some.inj h)
  | sys_arch_mbox_fetch =>
    rcases hpc : s.pc with _ | left | left
    · simp only [ThreadState.step, hpc] at hs
      cases hs
    · simp only [ThreadState.step, hpc] at hs
      cases hs
      exact .inr (.inr (.inr (.inl ⟨left, rfl, rfl, rfl⟩)))
    · simp only [ThreadState.step, hpc] at hs
      cases hs
  | SYS_ARCH_TIMEOUT =>
    simp only [ThreadState.step] at hs
    split_ifs at hs
    obtain ⟨timers, hstep, rfl⟩ := Option.map_eq_some_iff.mp hs
    exact .inr (.inl ⟨timers, fun _ => ThreadLabel.noConfusion, hstep, rfl⟩)
  | message =>
    rcases hpc : s.pc with _ | left | left
    · simp only [ThreadState.step, hpc] at hs
      cases hs
    · simp only [ThreadState.step, hpc] at hs
      cases hs
    · simp only [ThreadState.step, hpc] at hs
      cases hs
      exact .inr (.inr (.inr (.inr ⟨rfl, rfl⟩)))

section Sleep

variable {now late : Nat} {pc : ThreadPc} {l : List (sys_timeo Nat)}

/-- **It is to wait until the first timeout is due**, and so until any is. -/
theorem inTime_sleeptime {s : Timeouts Nat} {left : Option UInt32}
    (hsorted : s.next_timeout.Pairwise fun t u => t.time ≤ u.time)
    (hsleep : sys_timeouts_sleeptime now s = left) (hleft : left ≠ some 0) :
    (ThreadPc.fetching left).InTime now 0 s.next_timeout := by
  intro left' hleft' u hu
  cases hleft'
  unfold sys_timeouts_sleeptime at hsleep
  rcases hlist : s.next_timeout with _ | ⟨t, next⟩
  · rw [hlist] at hu
    cases hu
  · rw [hlist] at hsleep hsorted hu
    simp only at hsleep
    split_ifs at hsleep
    · exact absurd hsleep.symm hleft
    · refine ⟨minus t.time now, hsleep.symm, ?_⟩
      have hfirst : t.time ≤ u.time := by
        rcases List.mem_cons.mp hu with rfl | hu
        · exact Nat.le_refl _
        · exact (List.pairwise_cons.mp hsorted).1 u hu
      calc (t.time - now).toUInt32.toNat
        _ ≤ t.time - now := Nat.mod_le _ _
        _ ≤ u.time - now := Nat.sub_le_sub_right hfirst now

/-- A thread that is kept from its wait is late by as much. -/
theorem ThreadPc.InTime.kept (h : pc.InTime now late l) (ms : Nat) :
    pc.InTime (now + ms) (late + ms) l := by
  intro left hleft t ht
  obtain ⟨ms', hms, hle⟩ := h left hleft t ht
  exact ⟨ms', hms, by omega⟩

/-- The clock and a wait go on together. -/
theorem ThreadPc.InTime.asleep {left : Option UInt32}
    (h : (ThreadPc.asleep left).InTime now late l) (ms : UInt32) :
    ((ThreadPc.asleep left).after (.tick ms)).InTime (now + ms.toNat) late l := by
  cases left with
  | none =>
    intro left hleft t ht
    obtain ⟨ms', hms, -⟩ := h none rfl t ht
    cases hms
  | some left =>
    intro left' hleft' t ht
    cases hleft'
    obtain ⟨ms', hms, hle⟩ := h (some left) rfl t ht
    cases hms
    refine ⟨_, rfl, ?_⟩
    split_ifs with hlt
    · rw [UInt32.toNat_sub_of_le _ _ (UInt32.le_of_lt hlt)]
      omega
    · exact Nat.zero_le _

theorem ThreadPc.InTime.subset {l' : List (sys_timeo Nat)} (h : pc.InTime now late l)
    (hsub : l' ⊆ l) : pc.InTime now late l' :=
  fun left hleft t ht => h left hleft t (hsub ht)

/-- **What is set while it is not awake** must be due when it is up, and need be no more. -/
theorem ThreadPc.InTime.set_iff {s : Timeouts Nat} (h : pc.InTime now late s.next_timeout)
    (msecs : UInt32) (handler : Option sys_timeout_handler) (arg : Nat) :
    pc.InTime now late (sys_timeout now msecs handler arg s).next_timeout ↔
      (s.MEMP_SYS_TIMEOUT ≠ 0 → pc.UpWithin (msecs.toNat + late)) := by
  have hdue : now + msecs.toNat - now + late = msecs.toNat + late := by
    rw [Nat.add_sub_cancel_left]
  constructor
  · intro hset hpool left hleft
    have hput := sys_timeout_abs_put (s := s) (plus now msecs) handler arg
      (Nat.pos_of_ne_zero hpool)
    obtain ⟨ms, hms, hle⟩ := hset left hleft _ (hput.1.mem_iff.mpr List.mem_cons_self)
    exact ⟨ms, hms, hle.trans_eq hdue⟩
  · intro hup left hleft t ht
    by_cases hpool : s.MEMP_SYS_TIMEOUT = 0
    · rw [sys_timeout, sys_timeout_abs, if_pos hpool] at ht
      exact h left hleft t ht
    · rcases mem_sys_timeout_abs ht with rfl | ht
      · obtain ⟨ms, hms, hle⟩ := hup hpool left hleft
        exact ⟨ms, hms, hle.trans_eq hdue.symm⟩
      · exact h left hleft t ht

end Sleep

section Step

variable {s s' : ThreadState Nat} {late : Nat} {a : ThreadLabel}

/-- Without a check there is no handler, and none begins. -/
theorem idle_step {s s' : TimerState Nat} {b : TimerLabel}
    (hidle : s.checking = none ∧ s.calling = none) (hb : b ≠ .sys_check_timeouts)
    (hs : s.step b = some s') : s'.checking = none ∧ s'.calling = none := by
  cases b with
  | tick ms =>
    cases hs
    exact hidle
  | sys_timeout msecs handler arg =>
    cases hs
    exact hidle
  | sys_untimeout handler arg =>
    cases hs
    exact hidle
  | tcp_timer_needed pcbs =>
    cases hs
    exact hidle
  | sys_check_timeouts => exact absurd rfl hb
  | round =>
    obtain ⟨n, hn, -⟩ := TimerState.step_round hs
    rw [hidle.1] at hn
    cases hn
  | handled pcbs =>
    obtain ⟨t, ht, -⟩ := Option.map_eq_some_iff.mp hs
    rw [hidle.2] at ht
    cases ht

theorem inTime_awake (timers : TimerState Nat) : InTime (⟨timers, .awake⟩, late) := by
  intro left hleft
  cases hleft

theorem setsInTime_of_ne (hne : ∀ b, a ≠ .timer b) : SetsInTime (s, late) a := by
  cases a with
  | timer b => exact absurd rfl (hne b)
  | tcpip_timeouts_mbox_fetch => trivial
  | sys_arch_mbox_fetch => trivial
  | SYS_ARCH_TIMEOUT => trivial
  | message => trivial

/-- Time that passes makes the thread late where it is kept from its wait, and only there. -/
theorem inTime_tick (h : InTime (s, late)) (ms : UInt32) :
    (s.pc.after (.tick ms)).InTime (s.timers.now + ms.toNat) (lateBy s (.timer (.tick ms)) late)
      s.timers.timeouts.next_timeout := by
  obtain ⟨timers, pc⟩ := s
  have hpc : pc.InTime timers.now late timers.timeouts.next_timeout := h
  cases pc with
  | awake =>
    intro left hleft
    cases hleft
  | fetching left => exact hpc.kept ms.toNat
  | asleep left => exact hpc.asleep ms

/-- Of what is done with the timeouts, it matters what is set. -/
theorem inTime_timer_iff {b : TimerLabel} {timers : TimerState Nat} (hI : ThreadInv s)
    (h : InTime (s, late)) (hb : b ≠ .sys_check_timeouts)
    (hstep : s.timers.step b = some timers) :
    InTime (⟨timers, s.pc.after b⟩, lateBy s (.timer b) late) ↔
      SetsInTime (s, late) (.timer b) := by
  cases b with
  | tick ms =>
    cases hstep
    exact iff_of_true (inTime_tick h ms) trivial
  | sys_timeout msecs handler arg =>
    cases hstep
    exact ThreadPc.InTime.set_iff h msecs _ arg
  | sys_untimeout handler arg =>
    cases hstep
    have hsub := (sys_untimeout_sublist (handler.map .other) arg s.timers.timeouts).subset
    exact iff_of_true (ThreadPc.InTime.subset h hsub) trivial
  | tcp_timer_needed pcbs =>
    cases hstep
    show s.pc.InTime s.timers.now late
      (tcp_timer_needed s.timers.now pcbs s.timers.timeouts).next_timeout ↔ _
    unfold tcp_timer_needed
    split_ifs with hneeded
    · rw [Bool.and_eq_true, Bool.not_eq_true'] at hneeded
      have hset := ThreadPc.InTime.set_iff
        (s := { s.timers.timeouts with tcpip_tcp_timer_active := true }) h TCP_TMR_INTERVAL
        (some .tcpip_tcp_timer) 0
      refine hset.trans ⟨fun hup _ _ => hup, fun hup => hup hneeded.1 hneeded.2⟩
    · refine iff_of_true h fun hactive hpcbs => absurd ?_ hneeded
      rw [hactive, hpcbs]
      rfl
  | sys_check_timeouts => exact absurd rfl hb
  | round =>
    rcases hI.idle with hawake | ⟨hchecking, -⟩
    · rw [hawake]
      exact iff_of_true (inTime_awake timers) trivial
    · obtain ⟨n, hn, -⟩ := TimerState.step_round hstep
      rw [hchecking] at hn
      cases hn
  | handled pcbs =>
    rcases hI.idle with hawake | ⟨-, hcalling⟩
    · rw [hawake]
      exact iff_of_true (inTime_awake timers) trivial
    · obtain ⟨t, ht, -⟩ := Option.map_eq_some_iff.mp hstep
      rw [hcalling] at ht
      cases ht

/-- **Every step keeps the list sorted**, and one that is not awake out of a check. -/
theorem ThreadInv.step (h : ThreadInv s) (hs : s.step a = some s') : ThreadInv s' := by
  obtain ⟨b, timers, rfl, hb, hstep, rfl⟩ | ⟨timers, -, hstep, rfl⟩ |
    ⟨left, -, hchecking, hcalling, -, -, rfl⟩ | ⟨left, -, hpc, rfl⟩ | ⟨-, rfl⟩ :=
    ThreadState.step_cases hs
  · refine ⟨sorted_step h.sorted hstep, ?_⟩
    rcases h.idle with hawake | hidle
    · left
      show s.pc.after b = .awake
      rw [hawake]
      cases b <;> rfl
    · exact .inr (idle_step hidle hb hstep)
  · exact ⟨sorted_step h.sorted hstep, .inl rfl⟩
  · exact ⟨h.sorted, .inr ⟨hchecking, hcalling⟩⟩
  · refine ⟨h.sorted, .inr (h.idle.resolve_left fun hawake => ?_)⟩
    rw [hpc] at hawake
    cases hawake
  · exact ⟨h.sorted, .inl rfl⟩

/-- **The thread oversleeps by what it is late by**, and by what is set too soon. -/
theorem inTime_step_iff (hI : ThreadInv s) (h : InTime (s, late)) (hs : s.step a = some s') :
    InTime (s', lateBy s a late) ↔ SetsInTime (s, late) a := by
  obtain ⟨b, timers, rfl, hb, hstep, rfl⟩ | ⟨timers, hne, hstep, rfl⟩ |
    ⟨left, rfl, -, -, hsleep, hleft, rfl⟩ | ⟨left, rfl, hpc, rfl⟩ | ⟨rfl, rfl⟩ :=
    ThreadState.step_cases hs
  · exact inTime_timer_iff hI h hb hstep
  · exact iff_of_true (inTime_awake timers) (setsInTime_of_ne hne)
  · exact iff_of_true (inTime_sleeptime hI.sorted hsleep hleft) trivial
  · have hwait : s.pc.InTime s.timers.now late s.timers.timeouts.next_timeout := h
    rw [hpc] at hwait
    exact iff_of_true hwait trivial
  · exact iff_of_true (inTime_awake s.timers) trivial

end Step

/-! ## On the clock of the code -/

section Shown

variable {s s' : ThreadState Nat} {a : ThreadLabel}

theorem sys_timeouts_sleeptime_shown {now : Nat} {s : Timeouts Nat}
    (hs : ∀ e ∈ s.next_timeout, Near now e.time) :
    sys_timeouts_sleeptime now.toUInt32 s.shown = sys_timeouts_sleeptime now s := by
  have hlist : s.shown.next_timeout = s.next_timeout.map sys_timeo.shown := rfl
  have hself : Near now now := ⟨Nat.le_add_right _ _, Nat.lt_add_of_pos_right (by decide)⟩
  unfold sys_timeouts_sleeptime
  rw [hlist]
  rcases hpending : s.next_timeout with _ | ⟨t, next⟩
  · rfl
  · have hless : TIME_LESS_THAN t.shown.time now.toUInt32 = TIME_LESS_THAN t.time now :=
      (hs t (hpending ▸ List.mem_cons_self)).less hself
    simp only [List.map_cons, hless]
    split_ifs with hlt
    · rfl
    · have hle : now ≤ t.time := Nat.le_of_not_lt fun h => hlt (decide_eq_true h)
      have hminus : t.time.toUInt32 - now.toUInt32 = (t.time - now).toUInt32 := by
        rw [Nat.toUInt32_eq, Nat.toUInt32_eq, Nat.toUInt32_eq, UInt32.ofNat_sub hle]
      exact congrArg some hminus

/-- **A prompt step keeps the window.** -/
theorem window_step (h : InWindow s.timers) (hprompt : ThreadPrompt s a)
    (hs : s.step a = some s') : InWindow s'.timers := by
  obtain ⟨b, timers, rfl, -, hstep, rfl⟩ | ⟨timers, -, hstep, rfl⟩ |
    ⟨left, -, -, -, -, -, rfl⟩ | ⟨left, -, -, rfl⟩ | ⟨-, rfl⟩ := ThreadState.step_cases hs
  · exact h.step hprompt hstep
  · exact h.step (a := .sys_check_timeouts) trivial hstep
  · exact h
  · exact h
  · exact h

/-- **A step on the clock of the code** is one on the clock that does not wrap. -/
theorem thread_step_shown (h : InWindow s.timers) (hprompt : ThreadPrompt s a) :
    s.shown.step a = (s.step a).map ThreadState.shown := by
  have hcheck : s.shown.timers.step .sys_check_timeouts =
      (s.timers.step .sys_check_timeouts).map TimerState.shown :=
    h.step_shown (a := .sys_check_timeouts) trivial
  have hpc : s.shown.pc = s.pc := rfl
  cases a with
  | timer b =>
    have hstep : s.shown.timers.step b = (s.timers.step b).map TimerState.shown :=
      h.step_shown hprompt
    simp only [ThreadState.step, hstep, hpc]
    split_ifs
    · rfl
    · rw [Option.map_map, Option.map_map]
      rfl
  | tcpip_timeouts_mbox_fetch =>
    have hchecking : s.shown.timers.checking.isNone = s.timers.checking.isNone :=
      Option.isNone_map
    have hcalling : s.shown.timers.calling.isNone = s.timers.calling.isNone := Option.isNone_map
    have hsleep : sys_timeouts_sleeptime s.shown.timers.now s.shown.timers.timeouts = _ :=
      sys_timeouts_sleeptime_shown h.pending
    simp only [ThreadState.step, hpc, hchecking, hcalling, hsleep, hcheck]
    split_ifs
    · rcases sys_timeouts_sleeptime s.timers.now s.timers.timeouts with _ | sleeptime
      · rfl
      · simp only
        split_ifs
        · rw [Option.map_map, Option.map_map]
          rfl
        · rfl
    · rfl
  | SYS_ARCH_TIMEOUT =>
    simp only [ThreadState.step, hpc, hcheck]
    split_ifs
    · rw [Option.map_map, Option.map_map]
      rfl
    · rfl
  | sys_arch_mbox_fetch =>
    simp only [ThreadState.step, hpc]
    cases s.pc <;> rfl
  | message =>
    simp only [ThreadState.step, hpc]
    cases s.pc <;> rfl

end Shown

/-- **Prompt runs**, on the clock of the code and on one that never wraps. -/
theorem thread_exec_shown {now : Nat} {ls : List ThreadLabel}
    (hprompt : (tcpip_thread Nat).Guarded ThreadPrompt (threadStart now) ls) :
    (tcpip_thread UInt32).exec (threadStart now.toUInt32) ls =
      ((tcpip_thread Nat).exec (threadStart now) ls).map ThreadState.shown := by
  have hstart : threadStart now.toUInt32 = (threadStart now).shown :=
    congrArg (ThreadState.mk · .awake) (start_shown now).symm
  rw [hstart]
  exact Machine.exec_map (I := fun s => InWindow s.timers)
    (fun _ _ _ hI hG hs => window_step hI hG hs) (fun _ _ hI hG => thread_step_shown hI hG)
    (inWindow_start now) hprompt

theorem threadInv_start (now : Nat) : ThreadInv (threadStart now) :=
  ⟨(agenda_start now).sorted, .inl rfl⟩

/-- **The thread wakes in time** but for what it is late by, on the clock of the code, just where
nothing is set too soon. -/
theorem sleeps_in_time {now : Nat} {ls : List ThreadLabel}
    (hprompt : (tcpip_thread Nat).Guarded ThreadPrompt (threadStart now) ls)
    {c : ThreadState UInt32}
    (hc : (tcpip_thread UInt32).exec (threadStart now.toUInt32) ls = some c) :
    ∃ s, (tcpip_thread Nat).exec (threadStart now) ls = some s ∧ c = s.shown ∧
      (lateThread.Always InTime (threadStart now, 0) ls ↔
        lateThread.Guarded SetsInTime (threadStart now, 0) ls) := by
  rw [thread_exec_shown hprompt] at hc
  obtain ⟨s, hrun, rfl⟩ := Option.map_eq_some_iff.mp hc
  refine ⟨s, hrun, rfl, ?_⟩
  exact Machine.observe_always_iff_guarded (I := fun p => ThreadInv p.1 ∧ InTime p)
    (fun _ hI => hI.2)
    (fun _ _ _ _ hI hG hs => ⟨hI.1.step hs, (inTime_step_iff hI.1 hI.2 hs).mpr hG⟩)
    (fun _ _ _ _ hI hG hs hin => hG ((inTime_step_iff hI.1 hI.2 hs).mp hin))
    ⟨threadInv_start now, inTime_awake _⟩ hrun

/-- The thread is to sleep for half a second and is kept from it for a while; and while it sleeps,
another opens a connection. -/
def connectAsleep : List ThreadLabel :=
  [.tcpip_timeouts_mbox_fetch, .timer (.tick 20), .sys_arch_mbox_fetch, .timer (.tick 100),
    .timer (.tcp_timer_needed true), .timer (.tick 400), .SYS_ARCH_TIMEOUT, .timer .round]

theorem sleeps_in_time_not_connectAsleep :
    ¬ lateThread.Always InTime (threadStart (2 ^ 32 - 300), 0) connectAsleep ∧
      lateThread.Always InTime (threadStart (2 ^ 32 - 300), 0) (connectAsleep.take 4) := by
  have hprompt : (tcpip_thread Nat).Guarded ThreadPrompt (threadStart (2 ^ 32 - 300))
      connectAsleep := by decide
  have hprompt' : (tcpip_thread Nat).Guarded ThreadPrompt (threadStart (2 ^ 32 - 300))
      (connectAsleep.take 4) := by decide
  have hc : ∃ c, (tcpip_thread UInt32).exec (threadStart (2 ^ 32 - 300).toUInt32) connectAsleep =
      some c := ⟨_, rfl⟩
  have hc' : ∃ c, (tcpip_thread UInt32).exec (threadStart (2 ^ 32 - 300).toUInt32)
      (connectAsleep.take 4) = some c := ⟨_, rfl⟩
  obtain ⟨c, hc⟩ := hc
  obtain ⟨c', hc'⟩ := hc'
  obtain ⟨s, -, -, hiff⟩ := sleeps_in_time hprompt hc
  obtain ⟨s', -, -, hiff'⟩ := sleeps_in_time hprompt' hc'
  rw [hiff, hiff']
  decide

/-! ## How long it sleeps -/

/-- A cyclic timer that is set is due within an interval. -/
def TimerState.Soon (s : TimerState Nat) : Prop :=
  ∀ t ∈ s.timeouts.next_timeout, t.h = some .lwip_cyclic_timer →
    t.time ≤ s.now + (interval_ms t.arg).toNat

/-- A prompt step, with at most one timeout of other code set. -/
def ThreadModest (s : ThreadState Nat) : ThreadLabel → Prop
  | .timer a => Prompt s.timers a ∧ OneOther s.timers a
  | _ => True

instance : ∀ (s : ThreadState Nat) (a : ThreadLabel), Decidable (ThreadModest s a)
  | s, .timer a => inferInstanceAs (Decidable (Prompt s.timers a ∧ OneOther s.timers a))
  | _, .tcpip_timeouts_mbox_fetch | _, .sys_arch_mbox_fetch | _, .SYS_ARCH_TIMEOUT
  | _, .message => inferInstanceAs (Decidable True)

theorem ThreadModest.prompt {s : ThreadState Nat} {a : ThreadLabel} (h : ThreadModest s a) :
    ThreadPrompt s a := by
  cases a with
  | timer b => exact h.1
  | _ => trivial

/-- The timers of the stack are kept, and the last of them wakes the thread. -/
structure Rested (s : ThreadState Nat) : Prop extends ThreadInv s where
  window : InWindow s.timers
  kept : Kept s.timers
  soon : s.timers.Soon
  up : s.pc.UpWithin DHCP_FINE_TIMER_MSECS.toNat

section Soon

variable {s s' : TimerState Nat} {a : TimerLabel}

theorem TimerState.Soon.set (h : s.Soon) {t : Nat} {handler : Option sys_timeout_handler}
    {arg : Nat} (active : Bool) (hnew : handler = some .lwip_cyclic_timer →
      t ≤ s.now + (interval_ms arg).toNat) {u : sys_timeo Nat}
    (hu : u ∈ (sys_timeout_abs t handler arg
      { s.timeouts with tcpip_tcp_timer_active := active }).next_timeout)
    (hcyclic : u.h = some .lwip_cyclic_timer) :
    u.time ≤ s.now + (interval_ms u.arg).toNat := by
  rcases mem_sys_timeout_abs hu with rfl | hu
  · exact hnew hcyclic
  · exact h u hu hcyclic

/-- A cyclic timer is set again from now, or from when it was due, which is not later. -/
theorem TimerState.Soon.handled {t : sys_timeo Nat} (h : s.Soon) (hw : InWindow s)
    (ht : s.calling = some t) (pcbs : Bool) {u : sys_timeo Nat}
    (hu : u ∈ (t.handled s.now pcbs s.timeouts).next_timeout)
    (hcyclic : u.h = some .lwip_cyclic_timer) :
    u.time ≤ s.now + (interval_ms u.arg).toNat := by
  rcases handled_asks s.now t pcbs s.timeouts with ⟨-, hsame⟩ | ⟨v, hasks, -, hset⟩
  · rw [hsame] at hu
    exact h u hu hcyclic
  · rw [hset] at hu
    refine h.set s.timeouts.tcpip_tcp_timer_active (fun hv => ?_) hu hcyclic
    obtain ⟨hh, harg, htime⟩ := asks_cyclic hasks hv
    obtain ⟨hcurrent, hdue, -⟩ := hw.calling t ht
    rw [hcurrent] at hdue
    rw [htime, harg]
    split_ifs
    · exact Nat.le_refl _
    · exact Nat.add_le_add_right hdue _

theorem TimerState.Soon.step (h : s.Soon) (hw : InWindow s) (hs : s.step a = some s') :
    s'.Soon := by
  cases a with
  | tick ms =>
    cases hs
    intro t ht hcyclic
    refine (h t ht hcyclic).trans (Nat.add_le_add_right ?_ _)
    exact Nat.le_add_right _ _
  | sys_timeout msecs handler arg =>
    cases hs
    intro t ht hcyclic
    refine h.set s.timeouts.tcpip_tcp_timer_active (fun hnot => ?_) ht hcyclic
    cases handler <;> cases hnot
  | sys_untimeout handler arg =>
    cases hs
    intro t ht hcyclic
    exact h t ((sys_untimeout_sublist _ arg s.timeouts).subset ht) hcyclic
  | tcp_timer_needed pcbs =>
    cases hs
    intro t ht hcyclic
    unfold tcp_timer_needed at ht
    split_ifs at ht
    · refine h.set true (fun hnot => ?_) ht hcyclic
      cases hnot
    · exact h t ht hcyclic
  | sys_check_timeouts =>
    simp only [TimerState.step] at hs
    split_ifs at hs
    cases hs
    exact h
  | round =>
    obtain ⟨n, -, -, hround⟩ := TimerState.step_round hs
    obtain ⟨-, rfl⟩ | ⟨t, timeouts, hexpire, rfl⟩ := hround
    · exact h
    · intro u hu hcyclic
      refine h u ?_ hcyclic
      rw [(expire_some hexpire).1]
      exact List.mem_cons_of_mem t hu
  | handled pcbs =>
    obtain ⟨t, ht, rfl⟩ := Option.map_eq_some_iff.mp hs
    intro u hu hcyclic
    exact h.handled hw ht pcbs hu hcyclic

theorem soon_start (now : Nat) : (timersStart now).Soon := by
  refine timersStart_rule (I := TimerState.Soon) now ?_ ?_
  · intro t ht
    cases ht
  · intro s h i _ t ht hcyclic
    exact h.set s.timeouts.tcpip_tcp_timer_active (fun _ => Nat.le_refl _) ht hcyclic

end Soon

section Rested

variable {s s' : ThreadState Nat} {a : ThreadLabel}

theorem ThreadPc.UpWithin.after {pc : ThreadPc} {msecs : Nat} (h : pc.UpWithin msecs)
    (b : TimerLabel) : (pc.after b).UpWithin msecs := by
  cases b with
  | tick ms =>
    rcases pc with _ | left | (_ | left)
    · exact h
    · exact h
    · exact h
    · intro left' hleft'
      cases hleft'
      obtain ⟨ms', hms, hle⟩ := h (some left) rfl
      cases hms
      refine ⟨_, rfl, ?_⟩
      split_ifs with hlt
      · rw [UInt32.toNat_sub_of_le _ _ (UInt32.le_of_lt hlt)]
        exact (Nat.sub_le _ _).trans hle
      · exact Nat.zero_le _
  | sys_timeout msecs handler arg => exact h
  | sys_untimeout handler arg => exact h
  | tcp_timer_needed pcbs => exact h
  | sys_check_timeouts => exact h
  | round => exact h
  | handled pcbs => exact h

/-- **The last of the cyclic timers** is set, and due within its interval. -/
theorem Rested.up_sleeptime {left : Option UInt32} (h : Rested s)
    (hcalling : s.timers.calling = none)
    (hsleep : sys_timeouts_sleeptime s.timers.now s.timers.timeouts = left)
    (hleft : left ≠ some 0) :
    (ThreadPc.fetching left).UpWithin DHCP_FINE_TIMER_MSECS.toNat := by
  have hheld : s.timers.held = s.timers.timeouts.next_timeout := by
    rw [TimerState.held, hcalling]
    rfl
  have hkept := h.kept.kept
  rw [hheld] at hkept
  obtain ⟨t, ht, hcyclic, harg⟩ := hkept.cyclic 4 (by decide) (by decide)
  have hsoon := h.soon t ht hcyclic
  rw [harg] at hsoon
  intro left' hleft'
  obtain ⟨ms, hms, hle⟩ := inTime_sleeptime h.sorted hsleep hleft left' hleft' t ht
  exact ⟨ms, hms, hle.trans (Nat.sub_le_iff_le_add'.mpr hsoon)⟩

theorem upWithin_awake (msecs : Nat) : ThreadPc.awake.UpWithin msecs := by
  intro left hleft
  cases hleft

/-- **Every step keeps the thread rested.** -/
theorem Rested.step (h : Rested s) (hmodest : ThreadModest s a) (hs : s.step a = some s') :
    Rested s' := by
  have hI := h.toThreadInv.step hs
  obtain ⟨b, timers, rfl, -, hstep, rfl⟩ | ⟨timers, -, hstep, rfl⟩ |
    ⟨left, -, -, hcalling, hsleep, hleft, rfl⟩ | ⟨left, -, hpc, rfl⟩ | ⟨-, rfl⟩ :=
    ThreadState.step_cases hs
  · exact ⟨hI, h.window.step hmodest.1 hstep, h.kept.step hmodest.2 hstep,
      h.soon.step h.window hstep, h.up.after b⟩
  · exact ⟨hI, h.window.step (a := .sys_check_timeouts) trivial hstep,
      h.kept.step (a := .sys_check_timeouts) trivial hstep, h.soon.step h.window hstep,
      upWithin_awake _⟩
  · exact ⟨hI, h.window, h.kept, h.soon, h.up_sleeptime hcalling hsleep hleft⟩
  · have hup := h.up
    rw [hpc] at hup
    exact ⟨hI, h.window, h.kept, h.soon, hup⟩
  · exact ⟨hI, h.window, h.kept, h.soon, upWithin_awake _⟩

end Rested

/-- **The thread sleeps for no more than 500 ms**, on the clock of the code. -/
theorem sleep_bounded {now : Nat} {ls : List ThreadLabel}
    (hmodest : (tcpip_thread Nat).Guarded ThreadModest (threadStart now) ls)
    {c : ThreadState UInt32}
    (hc : (tcpip_thread UInt32).exec (threadStart now.toUInt32) ls = some c) :
    c.pc.UpWithin DHCP_FINE_TIMER_MSECS.toNat := by
  have hprompt := hmodest.mono fun _ _ hG => hG.prompt
  rw [thread_exec_shown hprompt] at hc
  obtain ⟨s, hrun, rfl⟩ := Option.map_eq_some_iff.mp hc
  have hstart : Rested (threadStart now) :=
    ⟨threadInv_start now, inWindow_start now, kept_start now, soon_start now,
      upWithin_awake _⟩
  exact ((Machine.always_of_guarded (fun _ _ _ hI hG hs => hI.step hG hs) hstart hmodest).last
    hrun).up

theorem sleep_bounded_connectAsleep : ∃ c,
    (tcpip_thread UInt32).exec (threadStart (2 ^ 32 - 300).toUInt32)
      (connectAsleep.take 4) = some c ∧
    c.pc = .asleep (some 400) ∧ c.pc.UpWithin DHCP_FINE_TIMER_MSECS.toNat := by
  have hpc : ((tcpip_thread UInt32).exec (threadStart (2 ^ 32 - 300).toUInt32)
      (connectAsleep.take 4)).map ThreadState.pc = some (.asleep (some 400)) := by decide
  obtain ⟨c, hc, hleft⟩ := Option.map_eq_some_iff.mp hpc
  exact ⟨c, hc, hleft, sleep_bounded (by decide) hc⟩

end EthIo.LwIP
