import EthIo.LwIP.TimeoutsKept
import EthIo.LwIP.TimeoutsOrder

/-!
# Cyclic timers keep their pace

`lwip_cyclic_timer` sets its timer again for one interval after the time it was due, not after the
time it is called at, unless that has passed already. So where each is through within an interval of
when it was due (`OnTime`), the delays of the checks and the handlers do not add up:
call `k` of a timer, counted from zero, is due `k + 1` intervals behind the start, in every run
(`cyclic_pace`).

`Paced` carries this with a timer that is set, which is due one interval behind the calls so far,
and that there is no second one. That none is lost is not needed: a timer that is, is not called.
-/

namespace EthIo.LwIP

open EthIo.Base

/-- The cyclic timer at an index. -/
def sys_timeo.isCyclic {T : Type} (cyclic : Nat) (t : sys_timeo T) : Bool :=
  decide (t.h = some .lwip_cyclic_timer ∧ t.arg = cyclic)

/-- The timeouts that are set, and the one whose handler is running. -/
def TimerState.live {T : Type} (s : TimerState T) : List (sys_timeo T) :=
  s.calling.toList ++ s.timeouts.next_timeout

/-- How often a cyclic timer has been called. -/
def TimerHistory.calls (h : TimerHistory) (cyclic : Nat) : Nat :=
  h.fired.countP (sys_timeo.isCyclic cyclic)

/-- When the calls of a cyclic timer were due. -/
def TimerHistory.dues (h : TimerHistory) (cyclic : Nat) : List Nat :=
  (h.fired.filter (sys_timeo.isCyclic cyclic)).map sys_timeo.time

/-- A cyclic timer is through with its handler within an interval of when it was due. -/
def OnTime (s : TimerState Nat) : TimerLabel → Prop
  | .handled _ => ∀ t ∈ s.calling, t.h = some .lwip_cyclic_timer →
    s.now ≤ t.time + (interval_ms t.arg).toNat
  | _ => True

/-- A step that is prompt and on time. -/
def Regular (s : TimerState Nat) (a : TimerLabel) : Prop :=
  Prompt s a ∧ OnTime s a

instance : ∀ (s : TimerState Nat) (a : TimerLabel), Decidable (OnTime s a)
  | s, .handled _ =>
    inferInstanceAs (Decidable (∀ t ∈ s.calling, t.h = some .lwip_cyclic_timer →
      s.now ≤ t.time + (interval_ms t.arg).toNat))
  | _, .tick _ | _, .sys_timeout _ _ _ | _, .sys_untimeout _ _ | _, .tcp_timer_needed _
  | _, .sys_check_timeouts | _, .round => inferInstanceAs (Decidable True)

instance (s : TimerState Nat) (a : TimerLabel) : Decidable (Regular s a) :=
  inferInstanceAs (Decidable (_ ∧ _))

/-- **The pace**, from a start at `now₀`. -/
structure Paced (now₀ : Nat) (s : TimerState Nat) (h : TimerHistory) : Prop where
  window : InWindow s
  once : ∀ cyclic, s.live.countP (sys_timeo.isCyclic cyclic) ≤ 1
  pending : ∀ t ∈ s.timeouts.next_timeout, t.h = some .lwip_cyclic_timer →
    t.time = now₀ + (h.calls t.arg + 1) * (interval_ms t.arg).toNat
  calling : ∀ t ∈ s.calling, t.h = some .lwip_cyclic_timer →
    t.time = now₀ + h.calls t.arg * (interval_ms t.arg).toNat
  dues : ∀ cyclic, h.dues cyclic =
    (List.range (h.calls cyclic)).map fun k => now₀ + (k + 1) * (interval_ms cyclic).toNat

section

variable {now₀ : Nat} {s s' : TimerState Nat} {h h' : TimerHistory} {a : TimerLabel}

/-- What is in the list after a timeout is set was there, or is that timeout. -/
theorem sys_timeout_abs_subperm (t : Nat) (handler : Option sys_timeout_handler) (arg : Nat)
    (s : Timeouts Nat) :
    (sys_timeout_abs t handler arg s).next_timeout.Subperm
      (⟨t, handler, arg⟩ :: s.next_timeout) := by
  rcases sys_timeout_abs_spec t handler arg s with hsame | hput
  · rw [hsame]
    exact (List.sublist_cons_self _ _).subperm
  · rw [hput]
    exact (List.perm_orderedInsert _ _ _).subperm

theorem mem_sys_timeout_abs {t : Nat} {handler : Option sys_timeout_handler} {arg : Nat}
    {s : Timeouts Nat} {u : sys_timeo Nat}
    (hu : u ∈ (sys_timeout_abs t handler arg s).next_timeout) :
    u = ⟨t, handler, arg⟩ ∨ u ∈ s.next_timeout :=
  List.mem_cons.mp ((sys_timeout_abs_subperm t handler arg s).subset hu)

/-- What is in the list after one is cleared was there. -/
theorem sys_untimeout_sublist (handler : Option sys_timeout_handler) (arg : Nat)
    (s : Timeouts Nat) : (sys_untimeout handler arg s).next_timeout.Sublist s.next_timeout := by
  unfold sys_untimeout
  rcases unlink_eq handler arg s.next_timeout with
    ⟨hnone, -⟩ | ⟨u, rest, hsome, -, -, -, hsub⟩
  · rw [hnone]
  · rw [hsome]
    exact hsub

/-- A cyclic timer is asked for by its own handler. -/
theorem asks_cyclic {now : Nat} {t u : sys_timeo Nat} {pcbs : Bool} {s : Timeouts Nat}
    (hu : t.asks now pcbs s = some u) (hcyclic : u.h = some .lwip_cyclic_timer) :
    t.h = some .lwip_cyclic_timer ∧ u.arg = t.arg ∧
      u.time = if s.current_timeout_due_time + (interval_ms t.arg).toNat < now
        then now + (interval_ms t.arg).toNat
        else s.current_timeout_due_time + (interval_ms t.arg).toNat := by
  unfold sys_timeo.asks at hu
  rcases hh : t.h with _ | (_ | _ | n)
  · rw [hh] at hu
    cases hu
  · rw [hh] at hu
    cases hu
    exact ⟨rfl, rfl, rfl⟩
  · rw [hh] at hu
    cases pcbs with
    | false => cases hu
    | true =>
      cases hu
      cases hcyclic
  · rw [hh] at hu
    cases hu

/-- A timeout that is no cyclic timer adds none. -/
theorem countP_cyclic_cons {cyclic : Nat} {u : sys_timeo Nat} {l : List (sys_timeo Nat)}
    (hu : u.h ≠ some .lwip_cyclic_timer) :
    (u :: l).countP (sys_timeo.isCyclic cyclic) = l.countP (sys_timeo.isCyclic cyclic) :=
  List.countP_cons_of_neg (by
    rw [Bool.not_eq_true]
    exact decide_eq_false fun hcyclic => hu hcyclic.1)

/-- Setting a timeout that is no cyclic timer adds none. -/
theorem countP_cyclic_sys_timeout_abs {t : Nat} {handler : Option sys_timeout_handler} {arg : Nat}
    {s : Timeouts Nat} (hhandler : handler ≠ some .lwip_cyclic_timer) (cyclic : Nat) :
    (sys_timeout_abs t handler arg s).next_timeout.countP (sys_timeo.isCyclic cyclic) ≤
      s.next_timeout.countP (sys_timeo.isCyclic cyclic) := by
  refine ((sys_timeout_abs_subperm t handler arg s).countP_le _).trans (Nat.le_of_eq ?_)
  exact countP_cyclic_cons hhandler

/-- A step that calls nothing, and sets no cyclic timer but on pace. -/
theorem Paced.congr (hP : Paced now₀ s h) (hw : InWindow s')
    (honce : ∀ cyclic, s'.live.countP (sys_timeo.isCyclic cyclic) ≤
      s.live.countP (sys_timeo.isCyclic cyclic))
    (hfired : h'.fired = h.fired)
    (hpending : ∀ t ∈ s'.timeouts.next_timeout, t ∈ s.timeouts.next_timeout ∨
      (t.h = some .lwip_cyclic_timer →
        t.time = now₀ + (h.calls t.arg + 1) * (interval_ms t.arg).toNat))
    (hcalling : ∀ t ∈ s'.calling, t ∈ s.calling) : Paced now₀ s' h' := by
  have hcalls : h'.calls = h.calls := by
    funext cyclic
    rw [TimerHistory.calls, hfired, TimerHistory.calls]
  have hdues : h'.dues = h.dues := by
    funext cyclic
    rw [TimerHistory.dues, hfired, TimerHistory.dues]
  refine ⟨hw, fun cyclic => (honce cyclic).trans (hP.once cyclic), ?_, ?_, ?_⟩
  · intro t ht hcyclic
    rw [hcalls]
    rcases hpending t ht with hold | hnew
    · exact hP.pending t hold hcyclic
    · exact hnew hcyclic
  · intro t ht hcyclic
    rw [hcalls]
    exact hP.calling t (hcalling t ht) hcyclic
  · intro cyclic
    rw [hdues, hcalls]
    exact hP.dues cyclic

/-- **A cyclic timer that is on time** is set again one interval behind when it was due. -/
theorem Paced.handled {t : sys_timeo Nat} {pcbs : Bool} (hP : Paced now₀ s h)
    (ht : s.calling = some t) (hontime : OnTime s (.handled pcbs)) {u : sys_timeo Nat}
    (hu : u ∈ (t.handled s.now pcbs s.timeouts).next_timeout) :
    u ∈ s.timeouts.next_timeout ∨ (u.h = some .lwip_cyclic_timer →
      u.time = now₀ + (h.calls u.arg + 1) * (interval_ms u.arg).toNat) := by
  rcases handled_asks s.now t pcbs s.timeouts with ⟨-, hsame⟩ | ⟨v, hasks, -, hset⟩
  · rw [hsame] at hu
    exact .inl hu
  · rw [hset] at hu
    rcases mem_sys_timeout_abs hu with rfl | hu
    · refine .inr fun hcyclic => ?_
      obtain ⟨hh, harg, htime⟩ := asks_cyclic hasks hcyclic
      have hcurrent := (hP.window.calling t ht).1
      have hdue := hP.calling t ht hh
      show v.time = now₀ + (h.calls v.arg + 1) * (interval_ms v.arg).toNat
      rw [htime, harg, ← hcurrent, if_neg (Nat.not_lt.mpr (hontime t ht hh)), hdue, Nat.add_assoc,
        ← Nat.succ_mul]
    · exact .inl hu

/-- A cyclic timer is set again at most once. -/
theorem countP_handled (now : Nat) (t : sys_timeo Nat) (pcbs : Bool) (s : Timeouts Nat)
    (cyclic : Nat) :
    (t.handled now pcbs s).next_timeout.countP (sys_timeo.isCyclic cyclic) ≤
      (t :: s.next_timeout).countP (sys_timeo.isCyclic cyclic) := by
  have hrest : s.next_timeout.countP (sys_timeo.isCyclic cyclic) ≤
      (t :: s.next_timeout).countP (sys_timeo.isCyclic cyclic) :=
    (List.sublist_cons_self _ _).countP_le
  rcases handled_asks now t pcbs s with ⟨-, hsame⟩ | ⟨v, hasks, -, hset⟩
  · rw [hsame]
    exact hrest
  · rw [hset]
    by_cases hcyclic : v.h = some .lwip_cyclic_timer
    · obtain ⟨hh, harg, -⟩ := asks_cyclic hasks hcyclic
      refine ((sys_timeout_abs_subperm _ _ _ s).countP_le _).trans (Nat.le_of_eq ?_)
      rw [List.countP_cons, List.countP_cons, sys_timeo.isCyclic, sys_timeo.isCyclic, hh, harg,
        hcyclic]
    · exact (countP_cyclic_sys_timeout_abs hcyclic cyclic).trans hrest

/-- **A call**: the timer is off the list, and no second one is on it. -/
theorem Paced.fires {t : sys_timeo Nat} {next : List (sys_timeo Nat)} (hP : Paced now₀ s h)
    (hw : InWindow s') (hcalling : s.calling = none)
    (hlist : s.timeouts.next_timeout = t :: next) (hcalled : s'.calling = t.h.map fun _ => t)
    (hnext : s'.timeouts.next_timeout = next) :
    Paced now₀ s' { h with fired := h.fired ++ [t], returned := none } := by
  have hcalls (cyclic : Nat) :
      ({ h with fired := h.fired ++ [t], returned := none } : TimerHistory).calls cyclic =
        h.calls cyclic + if t.isCyclic cyclic then 1 else 0 := by
    rw [TimerHistory.calls, List.countP_append, List.countP_singleton]
    rfl
  have hlive : s.live = t :: next := by
    rw [TimerState.live, hcalling, hlist]
    rfl
  -- A timeout without a handler is not called.
  have hlive' : s'.live.Sublist (t :: next) := by
    rw [TimerState.live, hcalled, hnext]
    cases t.h with
    | none => exact List.sublist_cons_self t next
    | some _ => exact List.Sublist.refl _
  have honce := hP.once
  rw [hlive] at honce
  have hpending (u : sys_timeo Nat) (hu : u ∈ t :: next) := hP.pending u (hlist ▸ hu)
  refine ⟨hw, fun cyclic => hlive'.countP_le.trans (honce cyclic), ?_, ?_, ?_⟩
  · intro u hu hcyclic
    rw [hnext] at hu
    have hself : u.isCyclic u.arg = true := decide_eq_true ⟨hcyclic, rfl⟩
    have hother : t.isCyclic u.arg = false := by
      by_contra hsecond
      have hpos : 0 < next.countP (sys_timeo.isCyclic u.arg) :=
        List.countP_pos_iff.mpr ⟨u, hu, hself⟩
      have hle := honce u.arg
      rw [List.countP_cons_of_pos (Bool.not_eq_false _ ▸ hsecond)] at hle
      omega
    rw [hcalls, hother]
    exact hpending u (List.mem_cons_of_mem t hu) hcyclic
  · intro u hu hcyclic
    rw [hcalled] at hu
    obtain ⟨-, -, rfl⟩ := Option.map_eq_some_iff.mp hu
    have hself : t.isCyclic t.arg = true := decide_eq_true ⟨hcyclic, rfl⟩
    rw [hcalls, hself]
    exact hpending t List.mem_cons_self hcyclic
  · intro cyclic
    rw [hcalls, TimerHistory.dues, List.filter_append, List.map_append]
    have hdues := hP.dues cyclic
    rw [TimerHistory.dues] at hdues
    rw [hdues]
    cases hself : t.isCyclic cyclic with
    | false =>
      rw [List.filter_cons_of_neg (Bool.eq_false_iff.mp hself)]
      exact List.append_nil _
    | true =>
      obtain ⟨hcyclic, rfl⟩ := of_decide_eq_true hself
      rw [List.filter_cons_of_pos hself, if_pos rfl, List.range_succ, List.map_append,
        List.map_singleton, ← hpending t List.mem_cons_self hcyclic]
      rfl

/-- **Every step keeps the pace.** -/
theorem Paced.step (hP : Paced now₀ s h) (hregular : Regular s a) (hs : s.step a = some s') :
    Paced now₀ s' (TimerHistory.record s a h) := by
  obtain ⟨hprompt, hontime⟩ := hregular
  have hw := hP.window.step hprompt hs
  have hadds {l l' : List (sys_timeo Nat)} (c : List (sys_timeo Nat)) {cyclic : Nat}
      (h : l'.countP (sys_timeo.isCyclic cyclic) ≤ l.countP (sys_timeo.isCyclic cyclic)) :
      (c ++ l').countP (sys_timeo.isCyclic cyclic) ≤
        (c ++ l).countP (sys_timeo.isCyclic cyclic) := by
    rw [List.countP_append, List.countP_append]
    exact Nat.add_le_add_left h _
  cases a with
  | tick ms =>
    cases hs
    exact hP.congr hw (fun _ => Nat.le_refl _) rfl (fun t ht => .inl ht) fun _ ht => ht
  | sys_timeout msecs handler arg =>
    cases hs
    have hother : handler.map sys_timeout_handler.other ≠ some .lwip_cyclic_timer := by
      cases handler <;> intro hcyclic <;> cases hcyclic
    refine hP.congr hw (fun cyclic => hadds _ (countP_cyclic_sys_timeout_abs hother cyclic)) rfl
      (fun t ht => ?_) fun _ ht => ht
    rcases mem_sys_timeout_abs ht with rfl | ht
    · exact .inr fun hcyclic => absurd hcyclic hother
    · exact .inl ht
  | sys_untimeout handler arg =>
    cases hs
    have hsub := sys_untimeout_sublist (handler.map .other) arg s.timeouts
    exact hP.congr hw (fun _ => hadds _ hsub.countP_le) rfl (fun t ht => .inl (hsub.subset ht))
      fun _ ht => ht
  | tcp_timer_needed pcbs =>
    cases hs
    unfold tcp_timer_needed at hw ⊢
    split_ifs at hw ⊢
    · have hother : some sys_timeout_handler.tcpip_tcp_timer ≠ some .lwip_cyclic_timer := by
        decide
      refine hP.congr hw (fun cyclic => hadds _ (countP_cyclic_sys_timeout_abs hother cyclic)) rfl
        (fun t ht => ?_) fun _ ht => ht
      rcases mem_sys_timeout_abs ht with rfl | ht
      · exact .inr fun hcyclic => absurd hcyclic hother
      · exact .inl ht
    · exact hP.congr hw (fun _ => Nat.le_refl _) rfl (fun t ht => .inl ht) fun _ ht => ht
  | sys_check_timeouts =>
    simp only [TimerState.step] at hs
    split_ifs at hs
    cases hs
    exact hP.congr hw (fun _ => Nat.le_refl _) rfl (fun t ht => .inl ht) fun _ ht => ht
  | round =>
    obtain ⟨n, hn, hcalling, hround⟩ := TimerState.step_round hs
    rw [TimerHistory.record, hn, Option.getD_some]
    obtain ⟨hexpire, rfl⟩ | ⟨t, timeouts, hexpire, rfl⟩ := hround
    · rw [hexpire]
      exact hP.congr hw (fun _ => Nat.le_refl _) rfl (fun t ht => .inl ht) fun _ ht => ht
    · rw [hexpire]
      exact hP.fires hw hcalling (expire_some hexpire).1 rfl rfl
  | handled pcbs =>
    obtain ⟨t, ht, rfl⟩ := Option.map_eq_some_iff.mp hs
    refine hP.congr hw (fun cyclic => ?_) rfl (fun u hu => hP.handled ht hontime hu)
      fun u hu => absurd hu (Option.not_mem_none u)
    rw [TimerState.live, TimerState.live, ht]
    exact countP_handled s.now t pcbs s.timeouts cyclic

theorem paced_start (now : Nat) : Paced now (timersStart now) .start := by
  obtain ⟨hperm, -, -⟩ := init_put now [1, 2, 3, 4]
    ⟨[], MEMP_NUM_SYS_TIMEOUT, now, false⟩ (Nat.le_add_left 4 2)
  rw [List.append_nil] at hperm
  have hlive : (timersStart now).live = (timersStart now).timeouts.next_timeout :=
    List.nil_append _
  have honce (cyclic : Nat) : (timersStart now).live.countP (sys_timeo.isCyclic cyclic) ≤ 1 := by
    rw [hlive]
    have hnodup : [1, 2, 3, 4].Nodup := by decide
    refine (hperm.countP_eq (sys_timeo.isCyclic cyclic)).trans_le ?_
    rw [List.countP_map]
    refine Nat.le_trans (Nat.le_of_eq (List.countP_congr fun i _ => ?_))
      (List.nodup_iff_count_le_one.mp hnodup cyclic)
    simp [sys_timeo.isCyclic]
  refine ⟨inWindow_start now, honce, ?_, fun u hu => absurd hu (Option.not_mem_none u),
    fun _ => rfl⟩
  intro t ht _
  obtain ⟨i, -, rfl⟩ := List.mem_map.mp (hperm.mem_iff.mp ht)
  show now + (interval_ms i).toNat = now + (0 + 1) * (interval_ms i).toNat
  rw [Nat.zero_add, Nat.one_mul]

end

/-- **Cyclic timers keep their pace**, on the clock of the code. -/
theorem cyclic_pace {now : Nat} {ls : List TimerLabel}
    (hregular : (timers Nat).Guarded Regular (timersStart now) ls) {c : TimerState UInt32}
    (hc : (timers UInt32).exec (timersStart now.toUInt32) ls = some c) :
    ∃ s h, recordingTimers.exec (timersStart now, .start) ls = some (s, h) ∧ c = s.shown ∧
      ∀ cyclic, h.dues cyclic =
        (List.range (h.calls cyclic)).map fun k => now + (k + 1) * (interval_ms cyclic).toNat := by
  have hprompt := hregular.mono fun _ _ hG => hG.1
  rw [← start_shown, (inWindow_start now).exec_shown hprompt,
    ← Machine.exec_observe TimerHistory.record (timersStart now) .start ls, Option.map_map] at hc
  obtain ⟨⟨s, h⟩, hrun, rfl⟩ := Option.map_eq_some_iff.mp hc
  have hall := Machine.always_of_guarded (I := fun p => Paced now p.1 p.2)
    (Machine.observe_rule fun s h a s' hP hG hs => hP.step hG hs) (paced_start now)
    (hregular.observe .start)
  exact ⟨s, h, hrun, rfl, (hall.last hrun).dues⟩

/-- The last of the cyclic timers is called 100 ms late, and then on time, behind two others. -/
def twiceAcross : List TimerLabel :=
  [.tick 600, .sys_check_timeouts, .round, .handled false, .round, .tick 400, .sys_check_timeouts,
    .round, .handled false, .round, .handled false, .round, .handled false, .round]

theorem cyclic_pace_twice : ∃ s h,
    recordingTimers.exec (timersStart (2 ^ 32 - 300), .start) twiceAcross = some (s, h) ∧
      h.calls 4 = 2 ∧ ∀ cyclic, h.dues cyclic = (List.range (h.calls cyclic)).map
        fun k => 2 ^ 32 - 300 + (k + 1) * (interval_ms cyclic).toNat := by
  have hregular : (timers Nat).Guarded Regular (timersStart (2 ^ 32 - 300)) twiceAcross := by
    decide
  have hc : ∃ c, (timers UInt32).exec (timersStart (2 ^ 32 - 300).toUInt32) twiceAcross =
      some c := by
    rw [← start_shown, (inWindow_start _).exec_shown (hregular.mono fun _ _ hG => hG.1)]
    exact ⟨_, rfl⟩
  obtain ⟨c, hc⟩ := hc
  obtain ⟨s, h, hrun, -, hdues⟩ := cyclic_pace hregular hc
  refine ⟨s, h, hrun, ?_, hdues⟩
  cases hrun
  rfl

end EthIo.LwIP
