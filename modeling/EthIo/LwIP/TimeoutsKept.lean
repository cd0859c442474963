import EthIo.LwIP.TimeoutsWrap

/-!
# The timers of the stack are not lost

A timer that sets itself again is in the list or its handler is running. Between the two its element
of the pool is free, and where another timeout had taken it the timer would be gone for good:
`sys_timeout_abs` sets nothing if the pool is empty, and nothing sets a cyclic timer a second time.

The pool has an element for each timer of the stack and one more. So as long as no more than one
timeout of other code is set at a time (`OneOther`), each cyclic timer is there, once, in every
state of every run, and the one of TCP just where its flag is set (`timers_kept`). Each has a slot
of its own, which is what is counted. Nothing here depends on times, so it holds on any clock.
-/

namespace EthIo.LwIP

open EthIo.Base

section

variable {T : Type}

/-- A timer of the stack. -/
def sys_timeo.internal (t : sys_timeo T) : Bool :=
  match t.h with
  | some .lwip_cyclic_timer | some .tcpip_tcp_timer => true
  | _ => false

/-- Where a timeout is counted: the timers of the stack by their index, the others behind them. -/
def sys_timeo.slot (t : sys_timeo T) : Nat :=
  match t.h with
  | some .lwip_cyclic_timer => t.arg
  | some .tcpip_tcp_timer => 0
  | _ => lwip_cyclic_timers.length

/-- **Each timer once**: in these timeouts, where the flag of TCP's is `active`. -/
structure KeptBy (l : List (sys_timeo T)) (active : Bool) : Prop where
  nodup : (l.map sys_timeo.slot).Nodup
  arg : ∀ t ∈ l, t.h = some .lwip_cyclic_timer → 0 < t.arg ∧ t.arg < lwip_cyclic_timers.length
  cyclic : ∀ i, 0 < i → i < lwip_cyclic_timers.length →
    ∃ t ∈ l, t.h = some .lwip_cyclic_timer ∧ t.arg = i
  tcp : active = true ↔ ∃ t ∈ l, t.h = some .tcpip_tcp_timer

/-- The timeouts that are set, and the timer of the stack whose handler is running. -/
def TimerState.held (s : TimerState T) : List (sys_timeo T) :=
  s.calling.toList.filter sys_timeo.internal ++ s.timeouts.next_timeout

/-- **The timers of the stack are kept**, and the pool is accounted for. -/
structure Kept (s : TimerState T) : Prop where
  kept : KeptBy s.held s.timeouts.tcpip_tcp_timer_active
  pool : s.timeouts.MEMP_SYS_TIMEOUT + s.timeouts.next_timeout.length = MEMP_NUM_SYS_TIMEOUT

/-- Other code has at most one timeout set. -/
def OneOther (s : TimerState T) : TimerLabel → Prop
  | .sys_timeout _ _ _ => ∀ t ∈ s.timeouts.next_timeout, t.internal = true
  | _ => True

instance : ∀ (s : TimerState T) (a : TimerLabel), Decidable (OneOther s a)
  | s, .sys_timeout _ _ _ =>
    inferInstanceAs (Decidable (∀ t ∈ s.timeouts.next_timeout, t.internal = true))
  | _, .tick _ | _, .sys_untimeout _ _ | _, .tcp_timer_needed _ | _, .sys_check_timeouts
  | _, .round | _, .handled _ => inferInstanceAs (Decidable True)

/-! ## Timeouts that come and go -/

theorem internal_iff {t : sys_timeo T} :
    t.internal = true ↔ t.h = some .lwip_cyclic_timer ∨ t.h = some .tcpip_tcp_timer := by
  unfold sys_timeo.internal
  rcases t.h with _ | (_ | _ | _) <;> simp

theorem slot_of_other {t : sys_timeo T} (h : t.internal = false) :
    t.slot = lwip_cyclic_timers.length := by
  unfold sys_timeo.internal at h
  unfold sys_timeo.slot
  rcases ht : t.h with _ | (_ | _ | _) <;> rw [ht] at h <;> first | rfl | cases h

theorem slot_of_cyclic {t : sys_timeo T} (h : t.h = some .lwip_cyclic_timer) :
    t.slot = t.arg := by
  rw [sys_timeo.slot, h]

theorem slot_of_tcp {t : sys_timeo T} (h : t.h = some .tcpip_tcp_timer) : t.slot = 0 := by
  rw [sys_timeo.slot, h]

/-- A timeout of other code is none of the timers asked for. -/
theorem exists_cons_other {l : List (sys_timeo T)} {t : sys_timeo T} (hint : t.internal = false)
    {P : sys_timeo T → Prop} (hP : P t → t.internal = true) :
    (∃ v ∈ t :: l, P v) ↔ ∃ v ∈ l, P v := by
  simp only [List.mem_cons, exists_eq_or_imp]
  exact or_iff_right fun ht => Bool.false_ne_true (hint.symm.trans (hP ht))

namespace KeptBy

variable {l l' : List (sys_timeo T)} {t u : sys_timeo T} {active : Bool}

theorem perm (h : KeptBy l active) (hperm : l'.Perm l) : KeptBy l' active where
  nodup := (hperm.map _).nodup_iff.mpr h.nodup
  arg t ht := h.arg t (hperm.mem_iff.mp ht)
  cyclic i hpos hlt := by
    obtain ⟨t, ht, hcyclic⟩ := h.cyclic i hpos hlt
    exact ⟨t, hperm.mem_iff.mpr ht, hcyclic⟩
  tcp := by
    simp only [hperm.mem_iff]
    exact h.tcp

/-- A slot of a timer of the stack is below that of the others. -/
theorem slot_lt (h : KeptBy l active) (ht : t ∈ l) (hint : t.internal = true) :
    t.slot < lwip_cyclic_timers.length := by
  rcases internal_iff.mp hint with hcyclic | htcp
  · rw [slot_of_cyclic hcyclic]
    exact (h.arg t ht hcyclic).2
  · rw [slot_of_tcp htcp]
    decide

/-- **There is room** for each that is kept. -/
theorem length_le (h : KeptBy l active) : l.length ≤ MEMP_NUM_SYS_TIMEOUT := by
  have hsub : l.map sys_timeo.slot ⊆ List.range MEMP_NUM_SYS_TIMEOUT := by
    intro i hi
    obtain ⟨t, ht, rfl⟩ := List.mem_map.mp hi
    rw [List.mem_range]
    cases hint : t.internal with
    | true => exact (h.slot_lt ht hint).trans (by decide)
    | false =>
      rw [slot_of_other hint]
      decide
  have hle := (List.subperm_of_subset h.nodup hsub).length_le
  rwa [List.length_map, List.length_range] at hle

/-- A timer that is set again. -/
theorem rearm (h : KeptBy (t :: l) active) (hh : u.h = t.h) (harg : u.arg = t.arg) :
    KeptBy (u :: l) active := by
  have hslot : u.slot = t.slot := by rw [sys_timeo.slot, hh, harg, ← sys_timeo.slot]
  have hmem {P : sys_timeo T → Prop} (hP : P u ↔ P t) :
      (∃ v ∈ u :: l, P v) ↔ ∃ v ∈ t :: l, P v := by
    simp only [List.mem_cons, exists_eq_or_imp, hP]
  refine ⟨?_, ?_, ?_, ?_⟩
  · rw [List.map_cons, hslot]
    exact h.nodup
  · intro v hv hcyclic
    rcases List.mem_cons.mp hv with rfl | hv
    · rw [harg]
      exact h.arg t List.mem_cons_self (hh ▸ hcyclic)
    · exact h.arg v (List.mem_cons_of_mem t hv) hcyclic
  · intro i hpos hlt
    exact (hmem (by rw [hh, harg])).mpr (h.cyclic i hpos hlt)
  · exact h.tcp.trans (hmem (by rw [hh])).symm

/-- A timeout of other code that is there no more. -/
theorem drop_other (h : KeptBy (t :: l) active) (hint : t.internal = false) : KeptBy l active := by
  refine ⟨(List.nodup_cons.mp h.nodup).2, fun v hv => h.arg v (List.mem_cons_of_mem t hv), ?_, ?_⟩
  · intro i hpos hlt
    exact (exists_cons_other hint fun ht => internal_iff.mpr (.inl ht.1)).mp (h.cyclic i hpos hlt)
  · exact h.tcp.trans (exists_cons_other hint fun ht => internal_iff.mpr (.inr ht))

/-- The timer of TCP, when it is needed no more. -/
theorem drop_tcp (h : KeptBy (t :: l) active) (htcp : t.h = some .tcpip_tcp_timer) :
    KeptBy l false := by
  obtain ⟨hnew, hnodup⟩ := List.nodup_cons.mp h.nodup
  refine ⟨hnodup, fun v hv => h.arg v (List.mem_cons_of_mem t hv), ?_, ?_⟩
  · intro i hpos hlt
    obtain ⟨v, hv, hcyclic⟩ := h.cyclic i hpos hlt
    rcases List.mem_cons.mp hv with rfl | hv
    · rw [htcp] at hcyclic
      cases hcyclic.1
    · exact ⟨v, hv, hcyclic⟩
  · refine iff_of_false Bool.false_ne_true ?_
    rintro ⟨v, hv, hv'⟩
    apply hnew
    rw [slot_of_tcp htcp, ← slot_of_tcp hv']
    exact List.mem_map_of_mem hv

/-- A timeout of other code, where there is none. -/
theorem add_other (h : KeptBy l active) (hint : u.internal = false)
    (hall : ∀ t ∈ l, t.internal = true) : KeptBy (u :: l) active := by
  refine ⟨List.nodup_cons.mpr ⟨?_, h.nodup⟩, ?_, ?_, ?_⟩
  · intro hslot
    obtain ⟨t, ht, heq⟩ := List.mem_map.mp hslot
    have hlt := h.slot_lt ht (hall t ht)
    rw [heq, slot_of_other hint] at hlt
    exact absurd hlt (Nat.lt_irrefl _)
  · intro v hv hcyclic
    rcases List.mem_cons.mp hv with rfl | hv
    · rw [internal_iff.mpr (.inl hcyclic)] at hint
      cases hint
    · exact h.arg v hv hcyclic
  · intro i hpos hlt
    exact (exists_cons_other hint fun hu => internal_iff.mpr (.inl hu.1)).mpr (h.cyclic i hpos hlt)
  · exact h.tcp.trans (exists_cons_other hint fun hu => internal_iff.mpr (.inr hu)).symm

/-- The timer of TCP, where its flag is not set. -/
theorem add_tcp (h : KeptBy l false) (htcp : u.h = some .tcpip_tcp_timer) :
    KeptBy (u :: l) true := by
  refine ⟨List.nodup_cons.mpr ⟨?_, h.nodup⟩, ?_, ?_, ?_⟩
  · intro hslot
    obtain ⟨t, ht, heq⟩ := List.mem_map.mp hslot
    rw [slot_of_tcp htcp] at heq
    cases hint : t.internal with
    | true =>
      rcases internal_iff.mp hint with hcyclic | htcp'
      · rw [slot_of_cyclic hcyclic] at heq
        exact absurd heq (h.arg t ht hcyclic).1.ne'
      · exact absurd (h.tcp.mpr ⟨t, ht, htcp'⟩) Bool.false_ne_true
    | false =>
      rw [slot_of_other hint] at heq
      cases heq
  · intro v hv hcyclic
    rcases List.mem_cons.mp hv with rfl | hv
    · rw [htcp] at hcyclic
      cases hcyclic
    · exact h.arg v hv hcyclic
  · intro i hpos hlt
    obtain ⟨v, hv, hcyclic⟩ := h.cyclic i hpos hlt
    exact ⟨v, List.mem_cons_of_mem u hv, hcyclic⟩
  · exact iff_of_true rfl ⟨u, List.mem_cons_self, htcp⟩

end KeptBy

/-- The cyclic timers, as they are set at the start. -/
theorem keptBy_cyclic (time : Nat → T) :
    KeptBy ([1, 2, 3, 4].map fun i => (⟨time i, some .lwip_cyclic_timer, i⟩ : sys_timeo T))
      false where
  nodup := by
    show [1, 2, 3, 4].Nodup
    decide
  arg t ht _ := by
    obtain ⟨i, hi, rfl⟩ := List.mem_map.mp ht
    have hall : ∀ i ∈ [1, 2, 3, 4], 0 < i ∧ i < lwip_cyclic_timers.length := by decide
    exact hall i hi
  cyclic i hpos hlt := by
    have hall : ∀ i < lwip_cyclic_timers.length, 0 < i → i ∈ [1, 2, 3, 4] := by decide
    exact ⟨_, List.mem_map_of_mem (hall i hlt hpos), rfl, rfl⟩
  tcp := by
    refine iff_of_false Bool.false_ne_true ?_
    rintro ⟨t, ht, htcp⟩
    obtain ⟨i, -, rfl⟩ := List.mem_map.mp ht
    cases htcp

end

/-! ## The calls -/

section Calls

variable {T : Type} [Clock T] {s : Timeouts T}

/-- A timeout that is set, where the pool is not empty. -/
theorem sys_timeout_abs_put (t : T) (handler : Option sys_timeout_handler) (arg : Nat)
    (h : 0 < s.MEMP_SYS_TIMEOUT) :
    (sys_timeout_abs t handler arg s).next_timeout.Perm (⟨t, handler, arg⟩ :: s.next_timeout) ∧
      (sys_timeout_abs t handler arg s).MEMP_SYS_TIMEOUT + 1 = s.MEMP_SYS_TIMEOUT ∧
      (sys_timeout_abs t handler arg s).tcpip_tcp_timer_active = s.tcpip_tcp_timer_active := by
  rw [sys_timeout_abs, if_neg h.ne']
  refine ⟨?_, Nat.sub_add_cancel h, rfl⟩
  show (insertTimeout _ _).Perm _
  rw [insertTimeout_eq]
  exact List.perm_orderedInsert _ _ _

/-- **What may be set is set**: there is room for it. -/
theorem KeptBy.set {c : List (sys_timeo T)} {active : Bool} {t : T}
    {handler : Option sys_timeout_handler} {arg : Nat}
    (h : KeptBy (⟨t, handler, arg⟩ :: (c ++ s.next_timeout)) active)
    (hpool : s.MEMP_SYS_TIMEOUT + s.next_timeout.length = MEMP_NUM_SYS_TIMEOUT) :
    KeptBy (c ++ (sys_timeout_abs t handler arg s).next_timeout) active ∧
      (sys_timeout_abs t handler arg s).MEMP_SYS_TIMEOUT +
        (sys_timeout_abs t handler arg s).next_timeout.length = MEMP_NUM_SYS_TIMEOUT ∧
      (sys_timeout_abs t handler arg s).tcpip_tcp_timer_active = s.tcpip_tcp_timer_active := by
  have hroom : 0 < s.MEMP_SYS_TIMEOUT := by
    have hle := h.length_le
    rw [List.length_cons, List.length_append] at hle
    omega
  obtain ⟨hperm, hfree, hactive⟩ := sys_timeout_abs_put t handler arg hroom
  refine ⟨h.perm ((hperm.append_left c).trans List.perm_middle), ?_, hactive⟩
  rw [hperm.length_eq, List.length_cons]
  omega

/-- What is to be called is the first, and its element is free. -/
theorem expire_some {now : T} {t : sys_timeo T} {s' : Timeouts T}
    (h : expire now s = some (t, s')) :
    s.next_timeout = t :: s'.next_timeout ∧
      s'.MEMP_SYS_TIMEOUT = s.MEMP_SYS_TIMEOUT + 1 ∧
      s'.tcpip_tcp_timer_active = s.tcpip_tcp_timer_active := by
  unfold expire at h
  rcases hlist : s.next_timeout with _ | ⟨u, next⟩
  · rw [hlist] at h
    cases h
  · rw [hlist] at h
    simp only at h
    split_ifs at h
    cases h
    exact ⟨rfl, rfl, rfl⟩

end Calls

/-! ## Steps and runs -/

section Step

variable {T : Type} [Clock T] {s s' : TimerState T} {a : TimerLabel}

/-- The timer of the stack whose handler is at its end is set again, or is needed no more. -/
theorem Kept.handled {t : sys_timeo T} (h : Kept s) (ht : s.calling = some t) (pcbs : Bool) :
    Kept { s with timeouts := t.handled s.now pcbs s.timeouts, calling := none } := by
  obtain ⟨hkept, hpool⟩ := h
  have hheld : s.held = [t].filter sys_timeo.internal ++ s.timeouts.next_timeout := by
    rw [TimerState.held, ht]
    rfl
  rw [hheld] at hkept
  have hagain {u : sys_timeo T} (hint : t.internal = true) (hh : u.h = t.h)
      (harg : u.arg = t.arg) :
      Kept { s with timeouts := sys_timeout_abs u.time u.h u.arg s.timeouts, calling := none } := by
    rw [List.filter_cons_of_pos hint] at hkept
    obtain ⟨hset, hfree, hactive⟩ := KeptBy.set (c := []) (hkept.rearm hh harg) hpool
    rw [← hactive] at hset
    exact ⟨hset, hfree⟩
  have hother (hint : t.internal = false) :
      Kept { s with timeouts := s.timeouts, calling := none } := by
    rw [List.filter_cons_of_neg (Bool.eq_false_iff.mp hint)] at hkept
    exact ⟨hkept, hpool⟩
  unfold sys_timeo.handled
  rcases hh : t.h with _ | (_ | _ | n)
  · exact hother (by rw [sys_timeo.internal, hh])
  · have hint := internal_iff.mpr (.inl hh)
    simp only [lwip_cyclic_timer]
    split_ifs
    · exact hagain (u := ⟨_, some .lwip_cyclic_timer, t.arg⟩) hint hh.symm rfl
    · exact hagain (u := ⟨_, some .lwip_cyclic_timer, t.arg⟩) hint hh.symm rfl
  · have hint := internal_iff.mpr (.inr hh)
    rw [List.filter_cons_of_pos hint] at hkept
    simp only [tcpip_tcp_timer]
    split_ifs
    · have hactive : s.timeouts.tcpip_tcp_timer_active = true :=
        hkept.tcp.mpr ⟨t, List.mem_cons_self, hh⟩
      have hagain := (hkept.drop_tcp hh).add_tcp (u := ⟨plus s.now TCP_TMR_INTERVAL, _, 0⟩) rfl
      obtain ⟨hset, hfree, hsame⟩ := KeptBy.set (c := []) hagain hpool
      rw [← hactive, ← hsame] at hset
      exact ⟨hset, hfree⟩
    · exact ⟨hkept.drop_tcp hh, hpool⟩
  · exact hother (by rw [sys_timeo.internal, hh])

/-- **Every step keeps the timers of the stack.** -/
theorem Kept.step (h : Kept s) (hone : OneOther s a) (hs : s.step a = some s') : Kept s' := by
  cases a with
  | tick ms =>
    cases hs
    exact ⟨h.kept, h.pool⟩
  | sys_check_timeouts =>
    simp only [TimerState.step] at hs
    split_ifs at hs
    cases hs
    exact ⟨h.kept, h.pool⟩
  | sys_timeout msecs handler arg =>
    cases hs
    have hother : (⟨plus s.now msecs, handler.map .other, arg⟩ : sys_timeo T).internal = false := by
      cases handler <;> rfl
    have hall : ∀ t ∈ s.held, t.internal = true := by
      intro t ht
      rcases List.mem_append.mp ht with ht | ht
      · exact (List.mem_filter.mp ht).2
      · exact hone t ht
    obtain ⟨hset, hfree, hactive⟩ := (h.kept.add_other hother hall).set h.pool
    rw [← hactive] at hset
    exact ⟨hset, hfree⟩
  | sys_untimeout handler arg =>
    cases hs
    unfold sys_untimeout
    rcases unlink_eq (handler.map .other) arg s.timeouts.next_timeout with
      ⟨hnone, -⟩ | ⟨t, rest, hsome, -, ht, hlist, -⟩
    · rw [hnone]
      exact h
    · rw [hsome]
      have hother : t.internal = false := by
        rw [sys_timeo.internal, ht]
        cases handler <;> rfl
      have hpool := h.pool
      rw [hlist.length_eq, List.length_cons] at hpool
      refine ⟨KeptBy.drop_other (t := t) ?_ hother, ?_⟩
      · exact h.kept.perm (List.perm_middle.symm.trans (hlist.symm.append_left _))
      · show s.timeouts.MEMP_SYS_TIMEOUT + 1 + rest.length = _
        omega
  | tcp_timer_needed pcbs =>
    cases hs
    unfold tcp_timer_needed
    split_ifs with hneeded
    · have hidle : s.timeouts.tcpip_tcp_timer_active = false := by
        rw [Bool.and_eq_true, Bool.not_eq_true'] at hneeded
        exact hneeded.1
      have hkept := h.kept
      rw [hidle] at hkept
      have hadd := hkept.add_tcp (u := ⟨plus s.now TCP_TMR_INTERVAL, _, 0⟩) rfl
      obtain ⟨hset, hfree, hactive⟩ :=
        hadd.set (s := { s.timeouts with tcpip_tcp_timer_active := true }) h.pool
      exact ⟨hactive ▸ hset, hfree⟩
    · exact h
  | round =>
    obtain ⟨n, -, hcalling, ⟨-, rfl⟩ | ⟨t, timeouts, hexpire, rfl⟩⟩ := TimerState.step_round hs
    · exact ⟨h.kept, h.pool⟩
    · obtain ⟨hlist, hfree, hactive⟩ := expire_some hexpire
      have hpool := h.pool
      have hkept := h.kept
      rw [TimerState.held, hcalling, hlist] at hkept
      rw [hlist, List.length_cons] at hpool
      have hcalled : (t.h.map fun _ => t).toList.filter sys_timeo.internal =
          [t].filter sys_timeo.internal := by
        rcases hh : t.h with _ | handler
        · rw [List.filter_cons_of_neg (by rw [sys_timeo.internal, hh]; exact Bool.false_ne_true)]
          rfl
        · rfl
      refine ⟨?_, ?_⟩
      · show KeptBy (List.filter _ _ ++ _) timeouts.tcpip_tcp_timer_active
        rw [hactive, hcalled]
        cases hint : t.internal with
        | true =>
          rw [List.filter_cons_of_pos hint]
          exact hkept
        | false =>
          rw [List.filter_cons_of_neg (Bool.eq_false_iff.mp hint)]
          exact KeptBy.drop_other hkept hint
      · show timeouts.MEMP_SYS_TIMEOUT + timeouts.next_timeout.length = _
        omega
  | handled pcbs =>
    obtain ⟨t, ht, rfl⟩ := Option.map_eq_some_iff.mp hs
    exact h.handled ht pcbs

end Step

section Runs

variable {T : Type} [Clock T]

/-- The timeouts `sys_timeouts_init` sets, where the pool has room for them. -/
theorem init_put (now : T) (l : List Nat) (s : Timeouts T) (h : l.length ≤ s.MEMP_SYS_TIMEOUT) :
    let s' := l.foldl
      (fun s i => sys_timeout now (interval_ms i) (some .lwip_cyclic_timer) i s) s
    s'.next_timeout.Perm
        ((l.map fun i => ⟨plus now (interval_ms i), some .lwip_cyclic_timer, i⟩) ++
          s.next_timeout) ∧
      s'.MEMP_SYS_TIMEOUT + l.length = s.MEMP_SYS_TIMEOUT ∧
      s'.tcpip_tcp_timer_active = s.tcpip_tcp_timer_active := by
  induction l generalizing s with
  | nil => exact ⟨.refl _, rfl, rfl⟩
  | cons i l ih =>
    rw [List.length_cons] at h
    obtain ⟨hput, hfree, hactive⟩ := sys_timeout_abs_put (s := s) (plus now (interval_ms i))
      (some .lwip_cyclic_timer) i (by omega)
    obtain ⟨hperm, hrest, hsame⟩ :=
      ih (sys_timeout_abs (plus now (interval_ms i)) (some .lwip_cyclic_timer) i s) (by omega)
    refine ⟨?_, ?_, hsame.trans hactive⟩
    · exact hperm.trans ((hput.append_left _).trans List.perm_middle)
    · rw [← hfree, ← hrest, List.length_cons, ← Nat.add_assoc]
      rfl

theorem kept_start (now : T) : Kept (timersStart now) := by
  obtain ⟨hperm, hfree, hactive⟩ := init_put now [1, 2, 3, 4]
    ⟨[], MEMP_NUM_SYS_TIMEOUT, now, false⟩ (Nat.le_add_left 4 2)
  rw [List.append_nil] at hperm
  refine ⟨?_, ?_⟩
  · show KeptBy _ (timersStart now).timeouts.tcpip_tcp_timer_active
    rw [show (timersStart now).timeouts.tcpip_tcp_timer_active = false from hactive]
    exact (keptBy_cyclic _).perm hperm
  · have hlen := hperm.length_eq
    exact (congrArg (_ + ·) hlen).trans hfree

/-- **The timers of the stack are kept**, in every run. -/
theorem timers_kept {now : T} {ls : List TimerLabel}
    (hone : (timers T).Guarded OneOther (timersStart now) ls) :
    (timers T).Always Kept (timersStart now) ls :=
  Machine.always_of_guarded (fun _ _ _ hI hG hs => hI.step hG hs) (kept_start now) hone

/-- A cyclic timer is called with the one timeout of other code set. -/
theorem timers_kept_across :
    (((timers UInt32).exec (timersStart 0xffffff00) acrossWrap).map
        fun s => s.timeouts.next_timeout.length) = some 5 ∧
      (timers UInt32).Always Kept (timersStart 0xffffff00) acrossWrap :=
  ⟨by decide, timers_kept (by decide)⟩

end Runs

end EthIo.LwIP
