import EthIo.Base.Wrap
import EthIo.LwIP.Timeouts

/-!
# The timeouts on a clock that wraps

`Nat.toUInt32` is what the clock of the code shows of a time. As long as no timeout is left for
`2 ^ 30` ms after it is due, which is twelve days, and none is set for more than
`LWIP_UINT32_MAX / 4`, which `sys_timeout` asserts, all the times compared are less than half a turn
apart, and the code does with the times its clock shows what it would do with the times themselves:
`timeouts_wrap`. `Prompt` is that condition, and `InWindow` what it keeps.
-/

namespace EthIo.LwIP

open EthIo.Base

/-! ## What the clock shows -/

/-- A timeout whose time the clock shows. -/
def sys_timeo.shown (t : sys_timeo Nat) : sys_timeo UInt32 := ⟨t.time.toUInt32, t.h, t.arg⟩

def Timeouts.shown (s : Timeouts Nat) : Timeouts UInt32 where
  next_timeout := s.next_timeout.map sys_timeo.shown
  MEMP_SYS_TIMEOUT := s.MEMP_SYS_TIMEOUT
  current_timeout_due_time := s.current_timeout_due_time.toUInt32
  tcpip_tcp_timer_active := s.tcpip_tcp_timer_active

def TimerState.shown (s : TimerState Nat) : TimerState UInt32 where
  now := s.now.toUInt32
  timeouts := s.timeouts.shown
  checking := s.checking.map Nat.toUInt32
  calling := s.calling.map sys_timeo.shown

theorem plus_shown (t : Nat) (msecs : UInt32) :
    (plus t msecs).toUInt32 = plus t.toUInt32 msecs := by
  show (t + msecs.toNat).toUInt32 = t.toUInt32 + msecs
  rw [Nat.toUInt32_eq, Nat.toUInt32_eq, UInt32.ofNat_add, UInt32.ofNat_toNat]

/-- **Times less than half a turn apart** compare as the clock shows them. -/
theorem less_shown {t c : Nat} (hlt : t < c + 2 ^ 31) (hle : c < t + 2 ^ 31) :
    TIME_LESS_THAN t.toUInt32 c.toUInt32 = TIME_LESS_THAN t c := by
  show decide _ = decide _
  rw [decide_eq_decide, gt_iff_lt, UInt32.lt_iff_toNat_lt, UInt32.toNat_sub]
  have hhalf : LWIP_MAX_TIMEOUT.toNat < (2 * 2 ^ 31 - c % (2 * 2 ^ 31) + t % (2 * 2 ^ 31)) %
      (2 * 2 ^ 31) ↔ t < c := half_le_modSub_iff hlt (Nat.le_of_lt hle)
  exact hhalf

/-! ## The calls -/

section Calls

variable {T : Type}

section

variable [Clock T]

theorem insertBehind_eq (timeout t : sys_timeo T) (l : List (sys_timeo T)) :
    insertBehind timeout t l =
      t :: l.orderedInsert (fun a b => TIME_LESS_THAN a.time b.time = true) timeout := by
  induction l generalizing t with
  | nil => rfl
  | cons next rest ih =>
    rw [insertBehind, List.orderedInsert_cons, ih]
    split_ifs <;> rfl

/-- **The list is an agenda**: a timeout goes before the first that is later. -/
theorem insertTimeout_eq (timeout : sys_timeo T) (l : List (sys_timeo T)) :
    insertTimeout timeout l =
      l.orderedInsert (fun a b => TIME_LESS_THAN a.time b.time = true) timeout := by
  cases l with
  | nil => rfl
  | cons next rest => rw [insertTimeout, List.orderedInsert_cons, insertBehind_eq]

end

/-- What `unlink` takes out. -/
theorem unlink_eq (handler : Option sys_timeout_handler) (arg : Nat) (l : List (sys_timeo T)) :
    (unlink handler arg l = none ∧ l.find? (fun t => t.h = handler ∧ t.arg = arg) = none) ∨
      ∃ t rest, unlink handler arg l = some rest ∧
        l.find? (fun t => t.h = handler ∧ t.arg = arg) = some t ∧ t.h = handler ∧
        l.Perm (t :: rest) ∧ rest.Sublist l := by
  induction l with
  | nil => exact .inl ⟨rfl, rfl⟩
  | cons t rest ih =>
    by_cases h : t.h = handler ∧ t.arg = arg
    · refine .inr ⟨t, rest, if_pos h, ?_, h.1, .refl _, List.sublist_cons_self t rest⟩
      exact List.find?_cons_of_pos (decide_eq_true h)
    · have hskip : (t :: rest).find? (fun t => t.h = handler ∧ t.arg = arg) =
          rest.find? fun t => t.h = handler ∧ t.arg = arg :=
        List.find?_cons_of_neg (by rwa [decide_eq_true_eq])
      rw [unlink, if_neg h, hskip]
      rcases ih with ⟨hnone, hfind⟩ | ⟨u, rest', hsome, hfind, hu, hperm, hsub⟩
      · exact .inl ⟨by rw [hnone]; rfl, hfind⟩
      · refine .inr ⟨u, t :: rest', by rw [hsome]; rfl, hfind, hu, ?_, hsub.cons_cons t⟩
        exact (hperm.cons t).trans (.swap u t rest')

end Calls

/-! ## The window -/

/-- A time that is less than a quarter of a turn away. -/
def Near (now t : Nat) : Prop := now ≤ t + 2 ^ 30 ∧ t < now + 2 ^ 30

/-- What is compared is near. -/
structure InWindow (s : TimerState Nat) : Prop where
  pending : ∀ t ∈ s.timeouts.next_timeout, Near s.now t.time
  checking : ∀ n ∈ s.checking, n ≤ s.now ∧ s.now ≤ n + 2 ^ 30
  calling : ∀ t ∈ s.calling, t.time = s.timeouts.current_timeout_due_time ∧
    t.time ≤ s.now ∧ s.now ≤ t.time + 2 ^ 30

/-- `LWIP_UINT32_MAX / 4`. -/
def maxMsecs : UInt32 := 0xffffffff / 4

/-- **Nothing is left for long**, and nothing is set for longer than may be. -/
def Prompt (s : TimerState Nat) : TimerLabel → Prop
  | .tick ms =>
    (∀ t ∈ s.timeouts.next_timeout, s.now + ms.toNat ≤ t.time + 2 ^ 30) ∧
      (∀ n ∈ s.checking, s.now + ms.toNat ≤ n + 2 ^ 30) ∧
      ∀ t ∈ s.calling, s.now + ms.toNat ≤ t.time + 2 ^ 30
  | .sys_timeout msecs _ _ => msecs ≤ maxMsecs
  | _ => True

instance : ∀ (s : TimerState Nat) (a : TimerLabel), Decidable (Prompt s a)
  | s, .tick ms =>
    inferInstanceAs (Decidable
      ((∀ t ∈ s.timeouts.next_timeout, s.now + ms.toNat ≤ t.time + 2 ^ 30) ∧
        (∀ n ∈ s.checking, s.now + ms.toNat ≤ n + 2 ^ 30) ∧
        ∀ t ∈ s.calling, s.now + ms.toNat ≤ t.time + 2 ^ 30))
  | _, .sys_timeout msecs _ _ => inferInstanceAs (Decidable (msecs ≤ maxMsecs))
  | _, .sys_untimeout _ _ | _, .tcp_timer_needed _ | _, .sys_check_timeouts | _, .round
  | _, .handled _ => inferInstanceAs (Decidable True)

theorem interval_ms_lt (cyclic : Nat) : (interval_ms cyclic).toNat < 2 ^ 30 := by
  rcases Nat.lt_or_ge cyclic 5 with h | h
  · have hall : ∀ i < 5, (interval_ms i).toNat < 2 ^ 30 := by decide
    exact hall cyclic h
  · rw [interval_ms, List.getElem?_eq_none h]
    decide

/-- What a call may do to the timeouts: set a flag, and perhaps one timeout. -/
def Sets (now : Nat) (s s' : Timeouts Nat) : Prop :=
  ∃ active, s' = { s with tcpip_tcp_timer_active := active } ∨
    ∃ t handler arg, now ≤ t ∧ t < now + 2 ^ 30 ∧
      s' = sys_timeout_abs t handler arg { s with tcpip_tcp_timer_active := active }

/-- A timeout that is put in. -/
theorem sys_timeout_abs_spec (t : Nat) (handler : Option sys_timeout_handler) (arg : Nat)
    (s : Timeouts Nat) :
    sys_timeout_abs t handler arg s = s ∨
      (sys_timeout_abs t handler arg s).next_timeout =
        s.next_timeout.orderedInsert (fun a b => a.time < b.time) ⟨t, handler, arg⟩ := by
  unfold sys_timeout_abs
  split_ifs
  · exact .inl rfl
  · refine .inr ((insertTimeout_eq _ _).trans ?_)
    congr 1
    funext a b
    exact decide_eq_true_eq

/-- What a round does: nothing where nothing is due, or else the first timeout. -/
theorem expire_eq (n : Nat) (s : Timeouts Nat) :
    (expire n s = none ∧ ∀ t ∈ s.next_timeout.head?, n < t.time) ∨
      ∃ t next, s.next_timeout = t :: next ∧ t.time ≤ n ∧
        expire n s = some (t,
          { s with
            next_timeout := next
            current_timeout_due_time := t.time
            MEMP_SYS_TIMEOUT := s.MEMP_SYS_TIMEOUT + 1 }) := by
  unfold expire
  rcases s.next_timeout with _ | ⟨t, next⟩
  · exact .inl ⟨rfl, nofun⟩
  · have hless : TIME_LESS_THAN n t.time = true ↔ n < t.time := decide_eq_true_iff
    simp only [hless]
    split_ifs with hlt
    · refine .inl ⟨rfl, fun u hu => ?_⟩
      cases hu
      exact hlt
    · exact .inr ⟨t, next, rfl, Nat.le_of_not_lt hlt, rfl⟩

section Sets

variable {now : Nat} {s s' : Timeouts Nat}

theorem Sets.current (h : Sets now s s') :
    s'.current_timeout_due_time = s.current_timeout_due_time := by
  obtain ⟨active, rfl | ⟨t, handler, arg, -, -, rfl⟩⟩ := h
  · rfl
  · unfold sys_timeout_abs
    split_ifs <;> rfl

/-- The list before, and perhaps one timeout more, in its place. -/
theorem Sets.list (h : Sets now s s') : s'.next_timeout = s.next_timeout ∨
    ∃ t : sys_timeo Nat, now ≤ t.time ∧ t.time < now + 2 ^ 30 ∧
      s'.next_timeout = s.next_timeout.orderedInsert (fun a b => a.time < b.time) t := by
  obtain ⟨active, rfl | ⟨t, handler, arg, hle, hlt, rfl⟩⟩ := h
  · exact .inl rfl
  · rcases sys_timeout_abs_spec t handler arg { s with tcpip_tcp_timer_active := active }
      with hsame | hput
    · rw [hsame]
      exact .inl rfl
    · exact .inr ⟨_, hle, hlt, hput⟩

theorem sets_timeout {msecs : UInt32} (h : msecs.toNat < 2 ^ 30)
    (handler : Option sys_timeout_handler) (arg : Nat) (active : Bool) :
    Sets now s (sys_timeout now msecs handler arg { s with tcpip_tcp_timer_active := active }) :=
  ⟨active, .inr ⟨now + msecs.toNat, handler, arg, Nat.le_add_right _ _,
    Nat.add_lt_add_left h now, rfl⟩⟩

theorem sets_tcp_timer_needed (pcbs : Bool) : Sets now s (tcp_timer_needed now pcbs s) := by
  unfold tcp_timer_needed
  split_ifs
  · exact sets_timeout (by decide) _ _ true
  · exact ⟨_, .inl rfl⟩

/-- What a handler sets is not earlier than now. -/
theorem sets_handled (hdue : s.current_timeout_due_time ≤ now) (t : sys_timeo Nat)
    (pcbs : Bool) : Sets now s (t.handled now pcbs s) := by
  have hkeep : Sets now s s := ⟨_, .inl rfl⟩
  unfold sys_timeo.handled
  split
  · have hinterval := interval_ms_lt t.arg
    simp only [lwip_cyclic_timer]
    split_ifs with hless
    · exact sets_timeout hinterval _ _ s.tcpip_tcp_timer_active
    · have hnot : ¬ s.current_timeout_due_time + (interval_ms t.arg).toNat < now :=
        fun h => hless (decide_eq_true h)
      refine ⟨_, .inr ⟨_, some .lwip_cyclic_timer, t.arg, Nat.le_of_not_lt hnot, ?_, rfl⟩⟩
      exact Nat.add_lt_add_of_le_of_lt hdue hinterval
  · unfold tcpip_tcp_timer
    split_ifs
    · exact sets_timeout (by decide) _ _ s.tcpip_tcp_timer_active
    · exact ⟨_, .inl rfl⟩
  · exact hkeep

end Sets

/-! ## What the code does on its clock -/

section Shown

variable {now : Nat} {s : Timeouts Nat}

theorem Near.less {t u : Nat} (ht : Near now t) (hu : Near now u) :
    TIME_LESS_THAN t.toUInt32 u.toUInt32 = TIME_LESS_THAN t u := by
  obtain ⟨ht, ht'⟩ := ht
  obtain ⟨hu, hu'⟩ := hu
  exact less_shown (by omega) (by omega)

theorem sys_timeout_abs_shown (hs : ∀ e ∈ s.next_timeout, Near now e.time) {t : Nat}
    (ht : Near now t) (handler : Option sys_timeout_handler) (arg : Nat) :
    sys_timeout_abs t.toUInt32 handler arg s.shown = (sys_timeout_abs t handler arg s).shown := by
  have hlist : insertTimeout ⟨t.toUInt32, handler, arg⟩ (s.next_timeout.map sys_timeo.shown) =
      (insertTimeout ⟨t, handler, arg⟩ s.next_timeout).map sys_timeo.shown := by
    rw [insertTimeout_eq, insertTimeout_eq]
    symm
    apply List.map_orderedInsert
    · intro e he
      exact iff_of_eq (congrArg (· = true) ((hs e he).less ht).symm)
    · intro e he
      exact iff_of_eq (congrArg (· = true) (ht.less (hs e he)).symm)
  unfold sys_timeout_abs
  rw [apply_ite Timeouts.shown]
  exact if_congr Iff.rfl rfl (by rw [Timeouts.shown, Timeouts.shown, hlist])

theorem sys_timeout_shown (hs : ∀ e ∈ s.next_timeout, Near now e.time) {msecs : UInt32}
    (hmsecs : msecs.toNat < 2 ^ 30) (handler : Option sys_timeout_handler) (arg : Nat) :
    sys_timeout now.toUInt32 msecs handler arg s.shown =
      (sys_timeout now msecs handler arg s).shown := by
  unfold sys_timeout
  rw [← plus_shown]
  apply sys_timeout_abs_shown hs
  show now ≤ now + msecs.toNat + 2 ^ 30 ∧ now + msecs.toNat < now + 2 ^ 30
  omega

theorem unlink_shown (handler : Option sys_timeout_handler) (arg : Nat)
    (l : List (sys_timeo Nat)) :
    unlink handler arg (l.map sys_timeo.shown) =
      (unlink handler arg l).map (List.map sys_timeo.shown) := by
  induction l with
  | nil => rfl
  | cons t rest ih =>
    rw [List.map_cons, unlink, unlink, ih, Option.map_map]
    show (if t.h = handler ∧ t.arg = arg then _ else _) = _
    split_ifs
    · rfl
    · rw [Option.map_map]
      rfl

theorem sys_untimeout_shown (handler : Option sys_timeout_handler) (arg : Nat) :
    sys_untimeout handler arg s.shown = (sys_untimeout handler arg s).shown := by
  have hlist : s.shown.next_timeout = s.next_timeout.map sys_timeo.shown := rfl
  unfold sys_untimeout
  rw [hlist, unlink_shown]
  cases unlink handler arg s.next_timeout <;> rfl

theorem expire_shown {n : Nat} (hs : ∀ e ∈ s.next_timeout, Near now e.time) (hn : n ≤ now)
    (hlate : now ≤ n + 2 ^ 30) :
    expire n.toUInt32 s.shown = (expire n s).map (Prod.map sys_timeo.shown Timeouts.shown) := by
  have hlist : s.shown.next_timeout = s.next_timeout.map sys_timeo.shown := rfl
  unfold expire
  rw [hlist]
  rcases hpending : s.next_timeout with _ | ⟨t, next⟩
  · rfl
  · obtain ⟨ht, ht'⟩ := hs t (hpending ▸ List.mem_cons_self)
    have hless : TIME_LESS_THAN n.toUInt32 t.shown.time = TIME_LESS_THAN n t.time :=
      less_shown (by omega) (by omega)
    simp only [List.map_cons, hless]
    split_ifs <;> rfl

theorem tcp_timer_needed_shown (hs : ∀ e ∈ s.next_timeout, Near now e.time) (pcbs : Bool) :
    tcp_timer_needed now.toUInt32 pcbs s.shown = (tcp_timer_needed now pcbs s).shown := by
  unfold tcp_timer_needed
  rw [apply_ite Timeouts.shown]
  apply if_congr Iff.rfl ?_ rfl
  exact sys_timeout_shown (s := { s with tcpip_tcp_timer_active := true }) hs (by decide) _ _

theorem lwip_cyclic_timer_shown (hs : ∀ e ∈ s.next_timeout, Near now e.time)
    (hdue : s.current_timeout_due_time ≤ now) (hlate : now ≤ s.current_timeout_due_time + 2 ^ 30)
    (cyclic : Nat) :
    lwip_cyclic_timer now.toUInt32 cyclic s.shown = (lwip_cyclic_timer now cyclic s).shown := by
  have hinterval := interval_ms_lt cyclic
  have hnext : Near now (plus s.current_timeout_due_time (interval_ms cyclic)) := by
    show now ≤ s.current_timeout_due_time + (interval_ms cyclic).toNat + 2 ^ 30 ∧
      s.current_timeout_due_time + (interval_ms cyclic).toNat < now + 2 ^ 30
    omega
  have hself : Near now now := ⟨Nat.le_add_right _ _, Nat.lt_add_of_pos_right (by decide)⟩
  have hless := hnext.less hself
  have habs := sys_timeout_abs_shown hs hnext (some .lwip_cyclic_timer) cyclic
  rw [plus_shown] at hless habs
  simp only [lwip_cyclic_timer]
  rw [apply_ite Timeouts.shown, ← hless]
  exact if_congr Iff.rfl (sys_timeout_shown hs hinterval _ _) habs

theorem tcpip_tcp_timer_shown (hs : ∀ e ∈ s.next_timeout, Near now e.time) (pcbs : Bool) :
    tcpip_tcp_timer now.toUInt32 pcbs s.shown = (tcpip_tcp_timer now pcbs s).shown := by
  unfold tcpip_tcp_timer
  rw [apply_ite Timeouts.shown]
  exact if_congr Iff.rfl (sys_timeout_shown hs (by decide) _ _) rfl

theorem handled_shown (hs : ∀ e ∈ s.next_timeout, Near now e.time)
    (hdue : s.current_timeout_due_time ≤ now) (hlate : now ≤ s.current_timeout_due_time + 2 ^ 30)
    (t : sys_timeo Nat) (pcbs : Bool) :
    t.shown.handled now.toUInt32 pcbs s.shown = (t.handled now pcbs s).shown := by
  have hh : t.shown.h = t.h := rfl
  unfold sys_timeo.handled
  rw [hh]
  rcases t.h with _ | (_ | _ | _)
  · rfl
  · exact lwip_cyclic_timer_shown hs hdue hlate t.arg
  · exact tcpip_tcp_timer_shown hs pcbs
  · rfl

end Shown

/-! ## Steps and runs -/

theorem maxMsecs_lt {msecs : UInt32} (h : msecs ≤ maxMsecs) : msecs.toNat < 2 ^ 30 := by
  have hle : msecs.toNat ≤ 1073741823 := UInt32.le_iff_toNat_le.mp h
  omega

section Step

variable {s s' : TimerState Nat} {a : TimerLabel}

/-- **A step on the clock of the code** is one on the clock that does not wrap. -/
theorem InWindow.step_shown (h : InWindow s) (hprompt : Prompt s a) :
    s.shown.step a = (s.step a).map TimerState.shown := by
  obtain ⟨hpending, hchecking, hcalling⟩ := h
  have hstate (f : Timeouts Nat) :
      { s.shown with timeouts := f.shown } = TimerState.shown { s with timeouts := f } := rfl
  cases a with
  | tick ms =>
    have hnow := plus_shown s.now ms
    show some { s.shown with now := plus s.now.toUInt32 ms } = _
    rw [← hnow]
    rfl
  | sys_timeout msecs handler arg =>
    have hshown := sys_timeout_shown hpending (maxMsecs_lt hprompt) (handler.map .other) arg
    exact congrArg (fun t => some { s.shown with timeouts := t }) hshown
  | sys_untimeout handler arg =>
    have hshown := sys_untimeout_shown (s := s.timeouts) (handler.map .other) arg
    exact congrArg (fun t => some { s.shown with timeouts := t }) hshown
  | tcp_timer_needed pcbs =>
    have hshown := tcp_timer_needed_shown hpending pcbs
    exact congrArg (fun t => some { s.shown with timeouts := t }) hshown
  | sys_check_timeouts =>
    have hnone : s.shown.checking.isNone = s.checking.isNone := Option.isNone_map
    simp only [TimerState.step, hnone]
    split_ifs <;> rfl
  | round =>
    have hchecking' : s.shown.checking = s.checking.map Nat.toUInt32 := rfl
    have hcalling' : s.shown.calling = s.calling.map sys_timeo.shown := rfl
    simp only [TimerState.step, hchecking', hcalling']
    rcases hn : s.checking with _ | n
    · rfl
    · rcases s.calling with _ | t
      · obtain ⟨hle, hlate⟩ := hchecking n hn
        have hexpire : expire n.toUInt32 s.shown.timeouts = _ := expire_shown hpending hle hlate
        simp only [Option.map_some, Option.map_none, hexpire]
        rcases expire n s.timeouts with _ | ⟨⟨time, _ | h, arg⟩, timeouts⟩ <;> rfl
      · rfl
  | handled pcbs =>
    have hcalling' : s.shown.calling = s.calling.map sys_timeo.shown := rfl
    simp only [TimerState.step, hcalling']
    rcases ht : s.calling with _ | t
    · rfl
    · obtain ⟨hcurrent, hle, hlate⟩ := hcalling t ht
      rw [hcurrent] at hle hlate
      have hshown := handled_shown hpending hle hlate t pcbs
      exact congrArg (fun t => some { s.shown with timeouts := t, calling := none }) hshown

theorem InWindow.sets {timeouts : Timeouts Nat} (h : InWindow s)
    (hsets : Sets s.now s.timeouts timeouts) : InWindow { s with timeouts := timeouts } where
  pending := by
    rcases hsets.list with hsame | ⟨u, hle, hlt, hput⟩
    · rw [hsame]
      exact h.pending
    · intro t ht
      rw [hput, List.mem_orderedInsert] at ht
      rcases ht with rfl | ht
      · exact ⟨Nat.le_add_right_of_le hle, hlt⟩
      · exact h.pending t ht
  checking := h.checking
  calling t ht := by
    rw [hsets.current]
    exact h.calling t ht

/-- **A prompt step keeps the window.** -/
theorem InWindow.step (h : InWindow s) (hprompt : Prompt s a) (hs : s.step a = some s') :
    InWindow s' := by
  cases a with
  | tick ms =>
    cases hs
    obtain ⟨hpending, hchecking, hcalling⟩ := hprompt
    refine ⟨fun t ht => ⟨hpending t ht, ?_⟩, fun n hn => ⟨?_, hchecking n hn⟩, fun t ht => ?_⟩
    · exact Nat.lt_of_lt_of_le (h.pending t ht).2 (Nat.add_le_add_right (Nat.le_add_right _ _) _)
    · exact Nat.le_add_right_of_le (h.checking n hn).1
    · obtain ⟨hcurrent, hle, -⟩ := h.calling t ht
      exact ⟨hcurrent, Nat.le_add_right_of_le hle, hcalling t ht⟩
  | sys_timeout msecs handler arg =>
    cases hs
    exact h.sets (sets_timeout (maxMsecs_lt hprompt) _ _ s.timeouts.tcpip_tcp_timer_active)
  | sys_untimeout handler arg =>
    cases hs
    unfold sys_untimeout
    rcases unlink_eq (handler.map .other) arg s.timeouts.next_timeout with
      ⟨hnone, -⟩ | ⟨t, rest, hsome, -, -, -, hsub⟩
    · rw [hnone]
      exact h
    · rw [hsome]
      exact ⟨fun t ht => h.pending t (hsub.subset ht), h.checking, h.calling⟩
  | tcp_timer_needed pcbs =>
    cases hs
    exact h.sets (sets_tcp_timer_needed pcbs)
  | sys_check_timeouts =>
    simp only [TimerState.step] at hs
    split_ifs at hs
    cases hs
    refine ⟨h.pending, fun n hn => ?_, h.calling⟩
    cases hn
    exact ⟨Nat.le_refl _, Nat.le_add_right _ _⟩
  | round =>
    obtain ⟨n, hn, -, ⟨-, rfl⟩ | ⟨t, timeouts, hexpire, rfl⟩⟩ := TimerState.step_round hs
    · exact ⟨h.pending, fun m hm => absurd hm (Option.not_mem_none m), h.calling⟩
    · rcases expire_eq n s.timeouts with ⟨hnone, -⟩ | ⟨t, next, hlist, hdue, hsome⟩
      · rw [hnone] at hexpire
        cases hexpire
      · rw [hsome] at hexpire
        cases hexpire
        have hnear := h.pending t (hlist ▸ List.mem_cons_self)
        refine ⟨fun u hu => h.pending u (hlist ▸ List.mem_cons_of_mem t hu), h.checking,
          fun u hu => ?_⟩
        obtain ⟨-, -, rfl⟩ := Option.map_eq_some_iff.mp hu
        exact ⟨rfl, hdue.trans (h.checking n hn).1, hnear.1⟩
  | handled pcbs =>
    obtain ⟨t, ht, rfl⟩ := Option.map_eq_some_iff.mp hs
    obtain ⟨hcurrent, hle, -⟩ := h.calling t ht
    rw [hcurrent] at hle
    have hkept := h.sets (sets_handled hle t pcbs)
    exact ⟨hkept.pending, hkept.checking, fun u hu => absurd hu (Option.not_mem_none u)⟩

end Step

/-- What holds with no timeout and is kept by setting one holds at the start. -/
theorem timersStart_rule {T : Type} [Clock T] {I : TimerState T → Prop} (now : T)
    (h₀ : I ⟨now, ⟨[], MEMP_NUM_SYS_TIMEOUT, now, false⟩, none, none⟩)
    (sets : ∀ s : TimerState T, I s → ∀ i, i ∈ List.range' 1 (lwip_cyclic_timers.length - 1) →
      I { s with
        timeouts := sys_timeout s.now (interval_ms i) (some .lwip_cyclic_timer) i s.timeouts }) :
    I (timersStart now) := by
  have h₁ := sets _ h₀ 1 (by decide)
  have h₂ := sets _ h₁ 2 (by decide)
  have h₃ := sets _ h₂ 3 (by decide)
  exact sets _ h₃ 4 (by decide)

theorem inWindow_start (now : Nat) : InWindow (timersStart now) := by
  apply timersStart_rule
  · exact ⟨nofun, nofun, nofun⟩
  · intro s h i _
    exact h.sets (sets_timeout (interval_ms_lt i) _ i s.timeouts.tcpip_tcp_timer_active)

theorem start_shown (now : Nat) : (timersStart now).shown = timersStart now.toUInt32 := by
  have hfold (l : List Nat) (s : Timeouts Nat) (hs : InWindow ⟨now, s, none, none⟩) :
      (l.foldl (fun s i => sys_timeout now (interval_ms i) (some .lwip_cyclic_timer) i s) s).shown =
        l.foldl (fun s i => sys_timeout now.toUInt32 (interval_ms i) (some .lwip_cyclic_timer) i s)
          s.shown := by
    induction l generalizing s with
    | nil => rfl
    | cons i l ih =>
      have hset : Sets now s (sys_timeout now (interval_ms i) (some .lwip_cyclic_timer) i s) :=
        sets_timeout (interval_ms_lt i) _ i s.tcpip_tcp_timer_active
      rw [List.foldl_cons, List.foldl_cons, ih _ (hs.sets hset),
        sys_timeout_shown hs.pending (interval_ms_lt i)]
  have hinit := hfold (List.range' 1 (lwip_cyclic_timers.length - 1))
    ⟨[], MEMP_NUM_SYS_TIMEOUT, now, false⟩ ⟨nofun, nofun, nofun⟩
  show (TimerState.mk _ _ none none : TimerState UInt32) = TimerState.mk _ _ none none
  exact congrArg (fun timeouts => TimerState.mk now.toUInt32 timeouts none none) hinit

/-- **Prompt runs**, on the clock of the code and on one that never wraps. -/
theorem InWindow.exec_shown {s : TimerState Nat} {ls : List TimerLabel} (h : InWindow s)
    (hprompt : (timers Nat).Guarded Prompt s ls) :
    (timers UInt32).exec s.shown ls = ((timers Nat).exec s ls).map TimerState.shown :=
  Machine.exec_map (fun _ _ _ hI hG hs => hI.step hG hs) (fun _ _ hI hG => hI.step_shown hG) h
    hprompt

/-- **It does not matter where the clock wraps**: from the start on, the code does with the times of
its clock what it does with times that never wrap. -/
theorem timeouts_wrap {now : Nat} {ls : List TimerLabel}
    (hprompt : (timers Nat).Guarded Prompt (timersStart now) ls) :
    (timers UInt32).exec (timersStart now.toUInt32) ls =
      ((timers Nat).exec (timersStart now) ls).map TimerState.shown := by
  rw [← start_shown]
  exact (inWindow_start now).exec_shown hprompt

/-- The stack is started 300 ms before the clock wraps, and the next check is behind that. -/
def acrossWrap : List TimerLabel :=
  [.tcp_timer_needed true, .tick 600, .sys_check_timeouts, .round, .handled false, .round,
    .sys_timeout 5 (some 0) 0, .handled false, .round]

theorem timeouts_wrap_across :
    (timers UInt32).exec (timersStart (2 ^ 32 - 300).toUInt32) acrossWrap =
      ((timers Nat).exec (timersStart (2 ^ 32 - 300)) acrossWrap).map TimerState.shown :=
  timeouts_wrap (by decide)

end EthIo.LwIP
