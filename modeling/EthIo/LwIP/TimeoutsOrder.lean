import EthIo.LwIP.TimeoutsWrap

/-!
# What becomes of every timeout

On a clock that does not wrap, in every run: timeouts are called in the order of their times, none
before it is due; when `sys_check_timeouts` returns, nothing that was due when it began is left; and
every timeout that is in the list at some time, or is asked for later, is there, or has been called,
or cleared, or found the pool empty when it was asked for, once. `timeouts_accounted` says this of
the code and its clock, by the simulation of `EthIo.LwIP.TimeoutsWrap`. What is asked for is written
down from the call and not from what the call did to the list (`TimerState.asks`). The list is
sorted because a timeout that is asked for is not due before now, and so not before anything that
has been called.
-/

namespace EthIo.LwIP

open EthIo.Base

/-- The timeout a handler asks for at its end: a cyclic timer itself again, one interval behind when
it was due or, if that has passed, behind now. -/
def sys_timeo.asks (t : sys_timeo Nat) (now : Nat) (pcbs : Bool) (s : Timeouts Nat) :
    Option (sys_timeo Nat) :=
  match t.h with
  | some .lwip_cyclic_timer =>
    let next_timeout_time := s.current_timeout_due_time + (interval_ms t.arg).toNat
    let time := if next_timeout_time < now then now + (interval_ms t.arg).toNat
      else next_timeout_time
    some ⟨time, some .lwip_cyclic_timer, t.arg⟩
  | some .tcpip_tcp_timer =>
    if pcbs then some ⟨now + TCP_TMR_INTERVAL.toNat, some .tcpip_tcp_timer, 0⟩ else none
  | _ => none

/-- The timeout a step asks for. -/
def TimerState.asks (s : TimerState Nat) : TimerLabel → Option (sys_timeo Nat)
  | .sys_timeout msecs handler arg => some ⟨s.now + msecs.toNat, handler.map .other, arg⟩
  | .tcp_timer_needed pcbs =>
    if !s.timeouts.tcpip_tcp_timer_active && pcbs then
      some ⟨s.now + TCP_TMR_INTERVAL.toNat, some .tcpip_tcp_timer, 0⟩
    else none
  | .handled pcbs => s.calling.bind fun t => t.asks s.now pcbs s.timeouts
  | _ => none

/-- What has been asked for, and what of it has found the pool empty; what has been called, what has
been cleared, and when the call of `sys_check_timeouts` began that has just returned, if the last
step was its return. -/
structure TimerHistory where
  asked : List (sys_timeo Nat)
  refused : List (sys_timeo Nat)
  fired : List (sys_timeo Nat)
  cancelled : List (sys_timeo Nat)
  returned : Option Nat

/-- Nothing has happened. -/
def TimerHistory.start : TimerHistory := ⟨[], [], [], [], none⟩

/-- A step, written down. -/
def TimerHistory.record (s : TimerState Nat) : TimerLabel → TimerHistory → TimerHistory
  | .sys_untimeout handler arg, h =>
    { h with
      cancelled := h.cancelled ++
        (s.timeouts.next_timeout.find?
          fun t => t.h = handler.map sys_timeout_handler.other ∧ t.arg = arg).toList
      returned := none }
  | .round, h =>
    match expire (s.checking.getD 0) s.timeouts with
    | none => { h with returned := s.checking }
    | some (t, _) => { h with fired := h.fired ++ [t], returned := none }
  | a, h =>
    { h with
      asked := h.asked ++ (s.asks a).toList
      refused := h.refused ++ if s.timeouts.MEMP_SYS_TIMEOUT = 0 then (s.asks a).toList else []
      returned := none }

/-- `timers`, written down. -/
def recordingTimers : Machine (TimerState Nat × TimerHistory) TimerLabel :=
  (timers Nat).observe TimerHistory.record

/-- The list is sorted, and what is compared is near. -/
structure Agenda (s : TimerState Nat) : Prop where
  window : InWindow s
  sorted : s.timeouts.next_timeout.Pairwise fun t u => t.time ≤ u.time

/-- **What holds of a run** that began in `s₀`. -/
structure Accounted (s₀ s : TimerState Nat) (h : TimerHistory) : Prop extends Agenda s where
  order : h.fired.Pairwise fun t u => t.time ≤ u.time
  ahead : ∀ f ∈ h.fired, ∀ t ∈ s.timeouts.next_timeout, f.time ≤ t.time
  due : ∀ f ∈ h.fired, f.time ≤ s.now
  returned : ∀ n ∈ h.returned, ∀ t ∈ s.timeouts.next_timeout, n < t.time
  later : s₀.now ≤ s.now
  asked : ∀ t ∈ h.asked, s₀.now ≤ t.time
  conserved : (s₀.timeouts.next_timeout ++ h.asked).Perm
    (s.timeouts.next_timeout ++ h.fired ++ h.cancelled ++ h.refused)

section

variable {s₀ s s' : TimerState Nat} {h : TimerHistory} {a : TimerLabel}

theorem Agenda.sets {timeouts : Timeouts Nat} (h : Agenda s)
    (hsets : Sets s.now s.timeouts timeouts) : Agenda { s with timeouts := timeouts } where
  window := h.window.sets hsets
  sorted := by
    rcases hsets.list with hsame | ⟨u, -, -, hput⟩
    · rw [hsame]
      exact h.sorted
    · rw [hput]
      exact pairwise_orderedInsert h.sorted u

theorem accounted_start (hs : Agenda s₀) : Accounted s₀ s₀ .start where
  toAgenda := hs
  order := .nil
  ahead := nofun
  due := nofun
  returned := nofun
  later := Nat.le_refl _
  asked := nofun
  conserved := by simp [TimerHistory.start]

/-- The list, where a timeout is set: in its place, or nowhere if the pool is empty. -/
theorem sys_timeout_abs_list (t : Nat) (handler : Option sys_timeout_handler) (arg : Nat)
    (s : Timeouts Nat) :
    (sys_timeout_abs t handler arg s).next_timeout =
      if s.MEMP_SYS_TIMEOUT = 0 then s.next_timeout
      else s.next_timeout.orderedInsert (fun a b => a.time < b.time) ⟨t, handler, arg⟩ := by
  unfold sys_timeout_abs
  split_ifs
  · rfl
  · refine (insertTimeout_eq _ _).trans ?_
    congr 1
    funext a b
    exact decide_eq_true_eq

/-- **What a handler sets** is what it asks for, and that is not due before now. -/
theorem handled_asks (now : Nat) (t : sys_timeo Nat) (pcbs : Bool) (s : Timeouts Nat) :
    t.asks now pcbs s = none ∧ (t.handled now pcbs s).next_timeout = s.next_timeout ∨
      ∃ u, t.asks now pcbs s = some u ∧ now ≤ u.time ∧
        (t.handled now pcbs s).next_timeout =
          (sys_timeout_abs u.time u.h u.arg s).next_timeout := by
  unfold sys_timeo.asks sys_timeo.handled
  rcases t.h with _ | (_ | _ | n)
  · exact .inl ⟨rfl, rfl⟩
  · refine .inr ⟨_, rfl, ?_, ?_⟩
    · show now ≤ ite _ _ _
      split_ifs with hpassed
      · exact Nat.le_add_right _ _
      · exact Nat.le_of_not_lt hpassed
    · have hless : TIME_LESS_THAN (plus s.current_timeout_due_time (interval_ms t.arg)) now =
          true ↔ s.current_timeout_due_time + (interval_ms t.arg).toNat < now := decide_eq_true_iff
      simp only [lwip_cyclic_timer, hless]
      split_ifs <;> rfl
  · cases pcbs with
    | false => exact .inl ⟨rfl, rfl⟩
    | true => exact .inr ⟨_, rfl, Nat.le_add_right _ _, rfl⟩
  · exact .inl ⟨rfl, rfl⟩

/-- **What a step sets** is what it asks for; but for a round, and where one is cleared. -/
theorem step_asks (hs : s.step a = some s') (hround : a ≠ .round)
    (hclear : ∀ handler arg, a ≠ .sys_untimeout handler arg) :
    s.asks a = none ∧ s'.timeouts.next_timeout = s.timeouts.next_timeout ∧ s.now ≤ s'.now ∨
      ∃ u, s.asks a = some u ∧ s.now ≤ u.time ∧ s'.now = s.now ∧
        s'.timeouts.next_timeout = (sys_timeout_abs u.time u.h u.arg s.timeouts).next_timeout := by
  cases a with
  | tick ms =>
    cases hs
    exact .inl ⟨rfl, rfl, Nat.le_add_right _ _⟩
  | sys_timeout msecs handler arg =>
    cases hs
    exact .inr ⟨_, rfl, Nat.le_add_right _ _, rfl, rfl⟩
  | sys_untimeout handler arg => exact absurd rfl (hclear handler arg)
  | tcp_timer_needed pcbs =>
    cases hs
    unfold tcp_timer_needed
    by_cases hneeded : (!s.timeouts.tcpip_tcp_timer_active && pcbs) = true
    · rw [if_pos hneeded]
      have hset (active : Bool) := sys_timeout_abs_list (s.now + TCP_TMR_INTERVAL.toNat)
        (some .tcpip_tcp_timer) 0 { s.timeouts with tcpip_tcp_timer_active := active }
      refine .inr ⟨_, if_pos hneeded, Nat.le_add_right _ _, rfl, ?_⟩
      exact (hset true).trans (hset s.timeouts.tcpip_tcp_timer_active).symm
    · rw [if_neg hneeded]
      exact .inl ⟨if_neg hneeded, rfl, Nat.le_refl _⟩
  | sys_check_timeouts =>
    simp only [TimerState.step] at hs
    split_ifs at hs
    cases hs
    exact .inl ⟨rfl, rfl, Nat.le_refl _⟩
  | round => exact absurd rfl hround
  | handled pcbs =>
    obtain ⟨t, ht, rfl⟩ := Option.map_eq_some_iff.mp hs
    have hasks : s.asks (.handled pcbs) = t.asks s.now pcbs s.timeouts := by
      rw [TimerState.asks, ht]
      rfl
    rw [hasks]
    rcases handled_asks s.now t pcbs s.timeouts with ⟨hnone, hsame⟩ | ⟨u, hu, hle, hset⟩
    · exact .inl ⟨hnone, hsame, Nat.le_refl _⟩
    · exact .inr ⟨u, hu, hle, rfl, hset⟩

/-- A step that asks for nothing and leaves the list alone. -/
theorem Accounted.congr (hA : Accounted s₀ s h) (hw : InWindow s')
    (hlist : s'.timeouts.next_timeout = s.timeouts.next_timeout) (hnow : s.now ≤ s'.now) :
    Accounted s₀ s' { h with returned := none } := by
  obtain ⟨⟨-, hsorted⟩, horder, hahead, hdue, -, hlater, hasked, hconserved⟩ := hA
  rw [← hlist] at hsorted hahead hconserved
  exact ⟨⟨hw, hsorted⟩, horder, hahead, fun f hf => (hdue f hf).trans hnow, nofun,
    hlater.trans hnow, hasked, hconserved⟩

/-- What is asked for is set, or refused. -/
theorem Accounted.asks {u : sys_timeo Nat} (hA : Accounted s₀ s h) (hw : InWindow s')
    (hle : s.now ≤ u.time) (hnow : s'.now = s.now)
    (hlist : s'.timeouts.next_timeout =
      (sys_timeout_abs u.time u.h u.arg s.timeouts).next_timeout) :
    Accounted s₀ s'
      { h with
        asked := h.asked ++ [u]
        refused := h.refused ++ if s.timeouts.MEMP_SYS_TIMEOUT = 0 then [u] else []
        returned := none } := by
  obtain ⟨⟨-, hsorted⟩, horder, hahead, hdue, -, hlater, hasked, hperm⟩ := hA
  have hasked' : ∀ t ∈ h.asked ++ [u], s₀.now ≤ t.time := by
    intro t ht
    rcases List.mem_append.mp ht with ht | ht
    · exact hasked t ht
    · rw [List.mem_singleton.mp ht]
      exact hlater.trans hle
  have hmore := hperm.append_right [u]
  rw [List.append_assoc] at hmore
  rw [sys_timeout_abs_list] at hlist
  split_ifs at hlist ⊢ with hpool
  · rw [← hlist] at hsorted hahead hmore
    refine ⟨⟨hw, hsorted⟩, horder, hahead, ?_, nofun, ?_, hasked', ?_⟩
    · rwa [hnow]
    · rwa [hnow]
    · rwa [List.append_assoc] at hmore
  · have hput := List.perm_orderedInsert (fun a b : sys_timeo Nat => a.time < b.time) u
      s.timeouts.next_timeout
    refine ⟨⟨hw, ?_⟩, horder, ?_, ?_, nofun, ?_, hasked', ?_⟩
    · rw [hlist]
      exact pairwise_orderedInsert hsorted u
    · intro f hf t ht
      rw [hlist, List.mem_orderedInsert] at ht
      rcases ht with rfl | ht
      · exact (hdue f hf).trans hle
      · exact hahead f hf t ht
    · rwa [hnow]
    · rwa [hnow]
    · rw [hlist, List.append_nil]
      refine hmore.trans ((List.perm_append_singleton _ _).trans ?_)
      have hfront := ((hput.symm.append_right h.fired).append_right h.cancelled).append_right
        h.refused
      exact hfront

/-- What is cleared is written down. -/
theorem Accounted.untimeout {handler : Option Nat} {arg : Nat} (hA : Accounted s₀ s h)
    (hw : InWindow
      { s with timeouts := sys_untimeout (handler.map .other) arg s.timeouts }) :
    Accounted s₀ { s with timeouts := sys_untimeout (handler.map .other) arg s.timeouts }
      (TimerHistory.record s (.sys_untimeout handler arg) h) := by
  rw [TimerHistory.record]
  unfold sys_untimeout at *
  rcases unlink_eq (handler.map .other) arg s.timeouts.next_timeout with
    ⟨hnone, hfind⟩ | ⟨t, rest, hsome, hfind, -, hlist, hsub⟩
  · rw [hnone] at hw ⊢
    rw [hfind, Option.toList_none, List.append_nil]
    exact hA.congr hw rfl (Nat.le_refl _)
  · rw [hsome] at hw ⊢
    rw [hfind]
    obtain ⟨⟨-, hsorted⟩, horder, hahead, hdue, -, hlater, hasked, hperm⟩ := hA
    refine ⟨⟨hw, hsorted.sublist hsub⟩, horder, fun f hf u hu => hahead f hf u (hsub.subset hu),
      hdue, nofun, hlater, hasked, hperm.trans ?_⟩
    have hout : (s.timeouts.next_timeout ++ h.fired ++ h.cancelled).Perm
        (t :: (rest ++ h.fired ++ h.cancelled)) :=
      (hlist.append_right h.fired).append_right h.cancelled
    have hlast := (List.perm_append_singleton t (rest ++ h.fired ++ h.cancelled)).symm
    rw [List.append_assoc (rest ++ h.fired)] at hlast
    exact (hout.trans hlast).append_right h.refused

/-- What is behind the first timeout is not sooner. -/
theorem lt_of_head {l : List (sys_timeo Nat)} {n : Nat}
    (hsorted : l.Pairwise fun t u => t.time ≤ u.time) (hhead : ∀ t ∈ l.head?, n < t.time) :
    ∀ u ∈ l, n < u.time := by
  intro u hu
  cases l with
  | nil => cases hu
  | cons t next =>
    have hfirst := hhead t rfl
    rcases List.mem_cons.mp hu with rfl | hu
    · exact hfirst
    · exact hfirst.trans_le ((List.pairwise_cons.mp hsorted).1 u hu)

/-- What is called was the first, and a check returns where nothing more is due. -/
theorem Accounted.round (hA : Accounted s₀ s h) (hw : InWindow s') (hs : s.step .round = some s') :
    Accounted s₀ s' (TimerHistory.record s .round h) := by
  obtain ⟨n, hn, hcalling, hround⟩ := TimerState.step_round hs
  have hlate := (hA.window.checking n hn).1
  obtain ⟨⟨-, hsorted⟩, horder, hahead, hdue, -, hlater, hasked, hperm⟩ := hA
  rw [TimerHistory.record, hn, Option.getD_some]
  rcases expire_eq n s.timeouts with ⟨hnone, hhead⟩ | ⟨t, next, hlist, ht, hsome⟩
  · rw [hnone] at hround ⊢
    obtain ⟨-, rfl⟩ | ⟨t, timeouts, hexpire, -⟩ := hround
    · refine ⟨⟨hw, hsorted⟩, horder, hahead, hdue, ?_, hlater, hasked, hperm⟩
      intro m hm u hu
      cases hm
      exact lt_of_head hsorted hhead u hu
    · cases hexpire
  · rw [hsome] at hround ⊢
    obtain ⟨hexpire, -⟩ | ⟨t, timeouts, hexpire, rfl⟩ := hround
    · cases hexpire
    cases hexpire
    rw [hlist] at hsorted hahead hperm
    obtain ⟨hfirst, hrest⟩ := List.pairwise_cons.mp hsorted
    refine ⟨⟨hw, hrest⟩, ?_, ?_, ?_, ?_, hlater, hasked, hperm.trans ?_⟩
    · rw [List.pairwise_append]
      refine ⟨horder, List.pairwise_singleton _ t, fun f hf u hu => ?_⟩
      obtain rfl := List.mem_singleton.mp hu
      exact hahead f hf u List.mem_cons_self
    · intro f hf u hu
      rcases List.mem_append.mp hf with hf | hf
      · exact hahead f hf u (List.mem_cons_of_mem t hu)
      · obtain rfl := List.mem_singleton.mp hf
        exact hfirst u hu
    · intro f hf
      rcases List.mem_append.mp hf with hf | hf
      · exact hdue f hf
      · obtain rfl := List.mem_singleton.mp hf
        exact ht.trans hlate
    · intro m hm
      cases hm
    · have hmiddle : ((next ++ h.fired) ++ t :: h.cancelled).Perm
          (t :: (next ++ h.fired ++ h.cancelled)) := List.perm_middle
      have hsame : next ++ (h.fired ++ [t]) ++ h.cancelled =
          (next ++ h.fired) ++ t :: h.cancelled := by
        simp only [List.append_assoc, List.singleton_append]
      rw [hsame]
      exact hmiddle.symm.append_right h.refused

/-- **Every step accounts for what it does.** -/
theorem Accounted.step (hA : Accounted s₀ s h) (hprompt : Prompt s a) (hs : s.step a = some s') :
    Accounted s₀ s' (TimerHistory.record s a h) := by
  have hw := hA.window.step hprompt hs
  have hrecord (hround : a ≠ .round) (hclear : ∀ handler arg, a ≠ .sys_untimeout handler arg) :
      TimerHistory.record s a h =
        { h with
          asked := h.asked ++ (s.asks a).toList
          refused := h.refused ++
            if s.timeouts.MEMP_SYS_TIMEOUT = 0 then (s.asks a).toList else []
          returned := none } := by
    cases a <;> first | rfl | exact absurd rfl hround | exact absurd rfl (hclear _ _)
  by_cases hround : a = .round
  · subst hround
    exact hA.round hw hs
  by_cases hclear : ∃ handler arg, a = .sys_untimeout handler arg
  · obtain ⟨handler, arg, rfl⟩ := hclear
    cases hs
    exact hA.untimeout hw
  have hclear (handler : Option Nat) (arg : Nat) : a ≠ .sys_untimeout handler arg :=
    fun ha => hclear ⟨handler, arg, ha⟩
  rw [hrecord hround hclear]
  rcases step_asks hs hround hclear with ⟨hnone, hlist, hnow⟩ | ⟨u, hu, hle, hnow, hlist⟩
  · rw [hnone, Option.toList_none, List.append_nil, ite_self, List.append_nil]
    exact hA.congr hw hlist hnow
  · rw [hu, Option.toList_some]
    exact hA.asks hw hle hnow hlist

end

theorem agenda_start (now : Nat) : Agenda (timersStart now) := by
  apply timersStart_rule
  · exact ⟨⟨nofun, nofun, nofun⟩, .nil⟩
  · intro s h i _
    exact h.sets (sets_timeout (interval_ms_lt i) _ i s.timeouts.tcpip_tcp_timer_active)

/-- **Every timeout is accounted for**, on the clock of the code. -/
theorem timeouts_accounted {s₀ : TimerState Nat} {ls : List TimerLabel} (h₀ : Agenda s₀)
    (hprompt : (timers Nat).Guarded Prompt s₀ ls) {c : TimerState UInt32}
    (hc : (timers UInt32).exec s₀.shown ls = some c) :
    ∃ s h, recordingTimers.exec (s₀, .start) ls = some (s, h) ∧ c = s.shown ∧
      Accounted s₀ s h := by
  rw [h₀.window.exec_shown hprompt, ← Machine.exec_observe TimerHistory.record s₀ .start ls,
    Option.map_map] at hc
  obtain ⟨⟨s, h⟩, hrun, rfl⟩ := Option.map_eq_some_iff.mp hc
  have hall := Machine.always_of_guarded (I := fun p => Accounted s₀ p.1 p.2)
    (Machine.observe_rule fun s h a s' hA hG hs => hA.step hG hs) (accounted_start h₀)
    (hprompt.observe .start)
  exact ⟨s, h, hrun, rfl, hall.last hrun⟩

theorem timeouts_accounted_across : ∃ s h,
    recordingTimers.exec (timersStart (2 ^ 32 - 300), .start) acrossWrap = some (s, h) ∧
      h.fired.length = 2 ∧ h.asked.length = 3 ∧
      Accounted (timersStart (2 ^ 32 - 300)) s h := by
  have hprompt : (timers Nat).Guarded Prompt (timersStart (2 ^ 32 - 300)) acrossWrap := by decide
  have hc : ∃ c, (timers UInt32).exec (timersStart (2 ^ 32 - 300)).shown acrossWrap = some c := by
    rw [(inWindow_start _).exec_shown hprompt]
    exact ⟨_, rfl⟩
  obtain ⟨c, hc⟩ := hc
  obtain ⟨s, h, hrun, -, hA⟩ := timeouts_accounted (agenda_start _) hprompt hc
  refine ⟨s, h, hrun, ?_, ?_, hA⟩
  · cases hrun
    rfl
  · cases hrun
    rfl

end EthIo.LwIP
