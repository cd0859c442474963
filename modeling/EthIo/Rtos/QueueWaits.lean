import Mathlib.Algebra.BigOperators.Group.Finset.Basic
import Mathlib.Data.Fintype.BigOperators
import EthIo.Rtos.QueueCalls

/-!
# No wakeup is lost

A task on an event list is asleep. What wakes it is the room or the item it waits for, and what must
not happen is that it sleeps on beside an item nobody else is going to take. Between the look at the
queue and the place in the list an interrupt can come; it finds the queue locked and only counts,
and the count is made good when the queue is unlocked. The count is an `int8_t`.

So the rule is about a number: while tasks wait, there are no more items (or cells) than tasks awake
that are going to look for one, wakeups still counted included (`WaitInv.wake`). It is kept by every
step but one: an interrupt that finds the count at 127 and takes it below zero.
-/

namespace EthIo.Rtos

open EthIo.Base

/-- Going to look at the queue before it can sleep again. -/
def Phase.looks : Phase → Bool
  | .testing _ | .unlockingTx false | .unlockingRx false | .resuming false => true
  | _ => false

/-- With the scheduler suspended. -/
def Phase.suspended : Phase → Bool
  | .locking | .checkingTimeOut | .testingAgain | .placing | .unlockingTx _ | .unlockingRx _
  | .resuming _ => true
  | _ => false

/-- With the lock of that side in use. -/
def Phase.locked : Phase → Side → Bool
  | .checkingTimeOut, _ | .testingAgain, _ | .placing, _ | .unlockingTx _, _ => true
  | .unlockingRx _, .send => true
  | _, _ => false

namespace Queue_t

variable {τ : Type*} (q : Queue_t τ)

/-- What a call of that kind looks for: cells, or items. -/
def avail : Side → Nat
  | .send => q.uxLength - q.uxMessagesWaiting
  | .receive => q.uxMessagesWaiting

/-- Where an interrupt counts what it has made available. -/
def lock : Side → Int8
  | .send => q.cRxLock
  | .receive => q.cTxLock

end Queue_t

theorem tail_shorter {α : Type*} (ts : List α) : ts.tail = [] ∨ ts.tail.length < ts.length := by
  cases ts with
  | nil => exact .inl rfl
  | cons t ts => exact .inr (Nat.lt_succ_self _)

/-- One more is available and one less waits, or none waited. -/
theorem tail_paid {α : Type*} {ts : List α} {m n : Nat} (h : m ≤ n + 1) :
    ts.tail = [] ∨ m + ts.tail.length ≤ n + ts.length :=
  (tail_shorter ts).imp id fun hlt => by omega

section Tasks

variable {τ : Type*} [Fintype τ]

/-- A task is in a call of that kind, and going to look. -/
def Due (task : τ → QueueTask) (r : Side) (t : τ) : Prop :=
  (task t).op.side = r ∧ (task t).phase.looks = true

instance (task : τ → QueueTask) (r : Side) (t : τ) : Decidable (Due task r t) :=
  inferInstanceAs (Decidable (_ ∧ _))

/-- How many tasks are. -/
def dueCount (task : τ → QueueTask) (r : Side) : Nat := (Finset.univ.filter (Due task r)).card

/-- The tasks awake that are going to look. -/
def QueueSys.awake [DecidableEq τ] (s : QueueSys τ) (r : Side) : Finset τ :=
  Finset.univ.filter fun t => Due s.task r t ∧ t ∉ s.q.waiting r

/-- While no task has the scheduler suspended, nobody sleeps beside more items than there are tasks
awake to take them; nor beside more cells. -/
def NoLostWakeup [DecidableEq τ] (s : QueueSys τ) : Prop :=
  s.uxSchedulerSuspended = none →
    ∀ r, s.q.waiting r = [] ∨ s.q.avail r ≤ (s.awake r).card

/-- An interrupt that has something to count does not find the count at its largest. -/
def Counted (s : QueueSys τ) : QueueLabel τ → Prop
  | .xQueueGenericSendFromISR _ xCopyPosition => s.q.Takes xCopyPosition → s.q.cTxLock ≠ 127
  | .xQueueGiveFromISR => s.q.uxMessagesWaiting < s.q.uxLength → s.q.cTxLock ≠ 127
  | .xQueueReceiveFromISR => s.q.uxMessagesWaiting > 0 → s.q.cRxLock ≠ 127
  | _ => True

instance (s : QueueSys τ) : (a : QueueLabel τ) → Decidable (Counted s a)
  | .xQueueGenericSendFromISR _ xCopyPosition =>
    inferInstanceAs (Decidable (s.q.Takes xCopyPosition → s.q.cTxLock ≠ 127))
  | .xQueueGiveFromISR =>
    inferInstanceAs (Decidable (s.q.uxMessagesWaiting < s.q.uxLength → s.q.cTxLock ≠ 127))
  | .xQueueReceiveFromISR =>
    inferInstanceAs (Decidable (s.q.uxMessagesWaiting > 0 → s.q.cRxLock ≠ 127))
  | .call _ _ _ | .run _ | .xTaskCheckForTimeOut _ _ | .vTaskPlaceOnEventList _ _
  | .xTaskIncrementTick _ | .xQueuePeekFromISR => inferInstanceAs (Decidable True)

/-- The invariant. -/
structure WaitInv (q : Queue_t τ) (task : τ → QueueTask) (uxSchedulerSuspended : Option τ) :
    Prop where
  nodup : ∀ r, (q.waiting r).Nodup
  due : ∀ r, ∀ t ∈ q.waiting r, Due task r t
  owner : ∀ t, uxSchedulerSuspended = some t ↔ (task t).phase.suspended = true
  unlocked : ∀ r, (∀ t, (task t).phase.locked r = false) → q.lock r = queueUNLOCKED
  locked : ∀ r t, (task t).phase.locked r = true → 0 ≤ (q.lock r).toInt
  wake : ∀ r, q.waiting r = [] ∨
    q.avail r + (q.waiting r).length ≤ dueCount task r + Queue_t.noted (q.lock r)
  placing : ∀ t, (task t).phase = .placing →
    q.avail (task t).op.side ≤ Queue_t.noted (q.lock (task t).op.side)

/-! ## Counting tasks -/

/-- What is counted changes with one task at most. -/
theorem dueCount_update [DecidableEq τ] (task : τ → QueueTask) (r : Side) (t : τ) (me : QueueTask) :
    dueCount (Function.update task t me) r + (if Due task r t then 1 else 0) =
      dueCount task r + (if me.op.side = r ∧ me.phase.looks = true then 1 else 0) := by
  have hsum (task : τ → QueueTask) : dueCount task r =
      (if Due task r t then 1 else 0) +
        ∑ u ∈ Finset.univ.erase t, if Due task r u then 1 else 0 := by
    rw [dueCount, Finset.card_filter]
    exact (Finset.add_sum_erase _ (fun u => if Due task r u then 1 else 0)
      (Finset.mem_univ t)).symm
  have hothers :
      (∑ u ∈ Finset.univ.erase t, if Due (Function.update task t me) r u then 1 else 0) =
      ∑ u ∈ Finset.univ.erase t, if Due task r u then 1 else 0 := by
    refine Finset.sum_congr rfl fun u hu => if_congr ?_ rfl rfl
    simp only [Due, Function.update_of_ne (Finset.ne_of_mem_erase hu)]
  have hme : Due (Function.update task t me) r t ↔ me.op.side = r ∧ me.phase.looks = true := by
    simp only [Due, Function.update_self]
  rw [hsum task, hsum (Function.update task t me), hothers, if_congr hme rfl rfl]
  omega

section Counts

variable [DecidableEq τ] {task : τ → QueueTask} {r : Side} {t : τ}

theorem dueCount_le (r : Side) (me : QueueTask)
    (h : Due task r t → me.op.side = r ∧ me.phase.looks = true) :
    dueCount task r ≤ dueCount (Function.update task t me) r := by
  have hcount := dueCount_update task r t me
  by_cases hdue : Due task r t
  · rw [if_pos hdue, if_pos (h hdue)] at hcount
    omega
  · rw [if_neg hdue] at hcount
    omega

theorem dueCount_join (me : QueueTask) (hold : ¬ Due task r t)
    (hnew : me.op.side = r ∧ me.phase.looks = true) :
    dueCount (Function.update task t me) r = dueCount task r + 1 := by
  have hcount := dueCount_update task r t me
  rwa [if_neg hold, if_pos hnew] at hcount

theorem dueCount_leave (me : QueueTask) (hold : Due task r t) (hnew : me.phase.looks = false) :
    dueCount (Function.update task t me) r + 1 = dueCount task r := by
  have hcount := dueCount_update task r t me
  have hnot : ¬ (me.op.side = r ∧ me.phase.looks = true) := by simp [hnew]
  rwa [if_pos hold, if_neg hnot] at hcount

end Counts

section Lists

variable {q : Queue_t τ} {task : τ → QueueTask} {sus : Option τ} {r : Side} {t : τ}

/-- No more tasks wait than are due. -/
theorem WaitInv.length_le [DecidableEq τ] (I : WaitInv q task sus) (r : Side) :
    (q.waiting r).length ≤ dueCount task r := by
  rw [← List.toFinset_card_of_nodup (I.nodup r)]
  refine Finset.card_le_card fun u hu => Finset.mem_filter.mpr ⟨Finset.mem_univ u, ?_⟩
  exact I.due r u (List.mem_toFinset.mp hu)

/-- And one less, if one that is due does not wait. -/
theorem WaitInv.length_lt [DecidableEq τ] (I : WaitInv q task sus) (hdue : Due task r t)
    (hout : t ∉ q.waiting r) : (q.waiting r).length < dueCount task r := by
  rw [← List.toFinset_card_of_nodup (I.nodup r)]
  refine Finset.card_lt_card (Finset.ssubset_iff_of_subset ?_ |>.mpr ⟨t, ?_, ?_⟩)
  · exact fun u hu => Finset.mem_filter.mpr
      ⟨Finset.mem_univ u, I.due r u (List.mem_toFinset.mp hu)⟩
  · exact Finset.mem_filter.mpr ⟨Finset.mem_univ t, hdue⟩
  · exact fun hmem => hout (List.mem_toFinset.mp hmem)

/-- A task that does not look does not wait. -/
theorem WaitInv.not_waiting (I : WaitInv q task sus) (ht : (task t).phase.looks = false)
    (r : Side) : t ∉ q.waiting r := by
  intro hmem
  have hlooks := (I.due r t hmem).2
  rw [ht] at hlooks
  cases hlooks

theorem Phase.suspended_of_locked {p : Phase} (h : p.locked r = true) : p.suspended = true := by
  cases p <;> first | rfl | (cases r <;> cases h)

/-- While one task runs, no other has the scheduler suspended. -/
theorem WaitInv.others (I : WaitInv q task sus) (hfree : sus = some t ∨ sus = none) {u : τ}
    (hu : u ≠ t) : (task u).phase.suspended = false := by
  by_contra hsus
  have howner := (I.owner u).mpr (Bool.eq_true_of_not_eq_false hsus)
  rcases hfree with h | h
  · rw [h] at howner
    cases howner
    exact hu rfl
  · rw [h] at howner
    cases howner

theorem WaitInv.others_locked (I : WaitInv q task sus) (hfree : sus = some t ∨ sus = none) {u : τ}
    (hu : u ≠ t) (r : Side) : (task u).phase.locked r = false := by
  by_contra hlocked
  have hsus := Phase.suspended_of_locked (Bool.eq_true_of_not_eq_false hlocked)
  rw [I.others hfree hu] at hsus
  cases hsus

/-- A lock not in use by the task that runs is not in use. -/
theorem WaitInv.lock_eq (I : WaitInv q task sus) (hfree : sus = some t ∨ sus = none)
    (ht : (task t).phase.locked r = false) : q.lock r = queueUNLOCKED := by
  refine I.unlocked r fun u => ?_
  by_cases hu : u = t
  · rw [hu, ht]
  · exact I.others_locked hfree hu r

/-- Whether the scheduler is suspended, by what the task that runs is doing. -/
theorem WaitInv.sus_eq (I : WaitInv q task sus) (hfree : sus = some t ∨ sus = none) :
    sus = if (task t).phase.suspended then some t else none := by
  rcases hfree with h | h
  · rw [if_pos ((I.owner t).mp h), h]
  · have hnot : ¬ (task t).phase.suspended = true := by
      intro hsus
      have howner := (I.owner t).mpr hsus
      rw [h] at howner
      cases howner
    rw [if_neg hnot, h]

variable [DecidableEq τ]

/-- **A task that goes on.** -/
theorem WaitInv.move {q' : Queue_t τ} {me : QueueTask} {sus' : Option τ}
    (I : WaitInv q task sus) (hfree : sus = some t ∨ sus = none)
    (hsus : sus' = if me.phase.suspended then some t else none)
    (hnodup : ∀ r, (q'.waiting r).Nodup)
    (hmem : ∀ r, ∀ u ∈ q'.waiting r,
      u ≠ t ∧ u ∈ q.waiting r ∨ u = t ∧ me.op.side = r ∧ me.phase.looks = true)
    (hlock : ∀ r, me.phase.locked r = true ∧ 0 ≤ (q'.lock r).toInt ∨
      me.phase.locked r = false ∧ q'.lock r = queueUNLOCKED)
    (hwake : ∀ r, q'.waiting r = [] ∨
      q'.avail r + (q'.waiting r).length ≤
        dueCount (Function.update task t me) r + Queue_t.noted (q'.lock r))
    (hplacing : me.phase = .placing →
      q'.avail me.op.side ≤ Queue_t.noted (q'.lock me.op.side)) :
    WaitInv q' (Function.update task t me) sus' where
  nodup := hnodup
  due r u hu := by
    rcases hmem r u hu with ⟨hne, hold⟩ | ⟨rfl, hme⟩
    · rw [Due, Function.update_of_ne hne]
      exact I.due r u hold
    · rw [Due, Function.update_self]
      exact hme
  owner u := by
    rw [hsus]
    by_cases hu : u = t
    · subst hu
      rw [Function.update_self]
      cases me.phase.suspended <;> simp
    · rw [Function.update_of_ne hu, I.others hfree hu]
      cases me.phase.suspended
      · simp
      · simpa using fun h : t = u => hu h.symm
  unlocked r hr := by
    have ht := hr t
    rw [Function.update_self] at ht
    rcases hlock r with ⟨hlocked, -⟩ | ⟨-, heq⟩
    · rw [ht] at hlocked
      cases hlocked
    · exact heq
  locked r u hu := by
    by_cases hut : u = t
    · subst hut
      rw [Function.update_self] at hu
      rcases hlock r with ⟨-, hle⟩ | ⟨hnot, -⟩
      · exact hle
      · rw [hnot] at hu
        cases hu
    · rw [Function.update_of_ne hut, I.others_locked hfree hut r] at hu
      cases hu
  wake := hwake
  placing u hu := by
    by_cases hut : u = t
    · subst hut
      rw [Function.update_self] at hu ⊢
      exact hplacing hu
    · rw [Function.update_of_ne hut] at hu
      have hsus := I.others hfree hut
      rw [hu] at hsus
      cases hsus

/-- The same, where nothing is put on a list. -/
theorem WaitInv.move_sub {q' : Queue_t τ} {me : QueueTask} {sus' : Option τ}
    (I : WaitInv q task sus) (hfree : sus = some t ∨ sus = none)
    (hsus : sus' = if me.phase.suspended then some t else none)
    (hop : me.op = (task t).op)
    (hsub : ∀ r, (q'.waiting r).Sublist (q.waiting r))
    (hstay : ∀ r, t ∈ q.waiting r → me.phase.looks = true)
    (hlock : ∀ r, me.phase.locked r = true ∧ 0 ≤ (q'.lock r).toInt ∨
      me.phase.locked r = false ∧ q'.lock r = queueUNLOCKED)
    (hwake : ∀ r, q'.waiting r = [] ∨
      q'.avail r + (q'.waiting r).length ≤
        dueCount (Function.update task t me) r + Queue_t.noted (q'.lock r))
    (hplacing : me.phase = .placing →
      q'.avail me.op.side ≤ Queue_t.noted (q'.lock me.op.side)) :
    WaitInv q' (Function.update task t me) sus' := by
  refine I.move hfree hsus (fun r => (I.nodup r).sublist (hsub r)) ?_ hlock hwake hplacing
  intro r u hu
  have hold := (hsub r).subset hu
  by_cases hut : u = t
  · subst hut
    exact .inr ⟨rfl, hop ▸ (I.due r u hold).1, hstay r hold⟩
  · exact .inl ⟨hut, hold⟩

/-! ## Interrupts -/

theorem noted_succ {c : Int8} (hc : 0 ≤ c.toInt) (hmax : c ≠ 127) :
    0 ≤ (c + 1).toInt ∧ Queue_t.noted (c + 1) = Queue_t.noted c + 1 := by
  have hlt : c.toInt < 127 := by
    have hle := Int8.toInt_lt c
    have hne : c.toInt ≠ 127 := fun h => hmax (Int8.toInt_inj.mp h)
    omega
  have hadd : (c + 1).toInt = c.toInt + 1 := by
    rw [Int8.toInt_add, show (1 : Int8).toInt = 1 from rfl, Int.bmod_eq_of_le (by omega) (by omega)]
  refine ⟨by omega, ?_⟩
  rw [Queue_t.noted, Queue_t.noted, hadd]
  omega

omit [DecidableEq τ] in
/-- A lock that is not unlocked counts from 0. -/
theorem WaitInv.lock_nonneg (I : WaitInv q task sus) (h : q.lock r ≠ queueUNLOCKED) :
    0 ≤ (q.lock r).toInt := by
  by_contra hneg
  refine h (I.unlocked r fun u => ?_)
  by_contra hlocked
  exact hneg (I.locked r u (Bool.eq_true_of_not_eq_false hlocked))

omit [DecidableEq τ] in
/-- **What an interrupt makes available** wakes a task, or is counted. -/
theorem WaitInv.post {q' : Queue_t τ} (I : WaitInv q task sus) (hmax : q.lock r ≠ 127)
    (hlists : q.lock r = queueUNLOCKED ∧ q'.waiting r = (q.waiting r).tail ∧
        q'.lock r = q.lock r ∨
      q.lock r ≠ queueUNLOCKED ∧ q'.waiting r = q.waiting r ∧ q'.lock r = q.lock r + 1)
    (hother : ∀ r', r' ≠ r →
      q'.waiting r' = q.waiting r' ∧ q'.lock r' = q.lock r' ∧ q'.avail r' ≤ q.avail r')
    (havail : q'.avail r ≤ q.avail r + 1) : WaitInv q' task sus where
  nodup r' := by
    by_cases hr : r' = r
    · subst hr
      rcases hlists with ⟨-, hw, -⟩ | ⟨-, hw, -⟩
      · rw [hw]
        exact (I.nodup r').sublist (List.tail_sublist _)
      · rw [hw]
        exact I.nodup r'
    · rw [(hother r' hr).1]
      exact I.nodup r'
  due r' u hu := by
    refine I.due r' u ?_
    by_cases hr : r' = r
    · subst hr
      rcases hlists with ⟨-, hw, -⟩ | ⟨-, hw, -⟩
      · rw [hw] at hu
        exact List.mem_of_mem_tail hu
      · rwa [hw] at hu
    · rwa [(hother r' hr).1] at hu
  owner := I.owner
  unlocked r' h := by
    have hold := I.unlocked r' h
    by_cases hr : r' = r
    · subst hr
      rcases hlists with ⟨-, -, hl⟩ | ⟨hne, -, -⟩
      · exact hl.trans hold
      · exact absurd hold hne
    · exact (hother r' hr).2.1.trans hold
  locked r' u hu := by
    have hold := I.locked r' u hu
    by_cases hr : r' = r
    · subst hr
      rcases hlists with ⟨-, -, hl⟩ | ⟨-, -, hl⟩
      · rwa [hl]
      · rw [hl]
        exact (noted_succ hold hmax).1
    · rwa [(hother r' hr).2.1]
  wake r' := by
    by_cases hr : r' = r
    · subst hr
      rcases hlists with ⟨-, hw, hl⟩ | ⟨hne, hw, hl⟩
      · rw [hw, hl, List.length_tail]
        rcases I.wake r' with hnil | hle
        · exact .inl (by rw [hnil]; rfl)
        · rcases Nat.eq_zero_or_pos (q.waiting r').length with hzero | hpos
          · exact .inl (by rw [List.eq_nil_of_length_eq_zero hzero]; rfl)
          · exact .inr (by omega)
      · rw [hw, hl, (noted_succ (I.lock_nonneg hne) hmax).2]
        exact (I.wake r').imp id fun hle => by omega
    · obtain ⟨hw, hl, ha⟩ := hother r' hr
      rw [hw, hl]
      exact (I.wake r').imp id fun hle => by omega
  placing u hu := by
    have hold := I.placing u hu
    by_cases hr : (task u).op.side = r
    · -- the task that is to be placed has the lock, so the interrupt counts
      have hlocked : (task u).phase.locked r = true := by rw [hu]; rfl
      rw [hr] at hold ⊢
      rcases hlists with ⟨heq, -, -⟩ | ⟨hne, -, hl⟩
      · have hle := I.locked r u hlocked
        rw [heq] at hle
        cases hle
      · rw [hl, (noted_succ (I.lock_nonneg hne) hmax).2]
        omega
    · obtain ⟨-, hl, ha⟩ := hother _ hr
      rw [hl]
      exact ha.trans hold

/-- **The tick** takes a task off its list. -/
theorem WaitInv.tick (I : WaitInv q task sus) (t : τ) :
    WaitInv
      { q with
        xTasksWaitingToSend := q.xTasksWaitingToSend.erase t
        xTasksWaitingToReceive := q.xTasksWaitingToReceive.erase t } task sus := by
  have hsub : ∀ r, (Queue_t.waiting { q with
      xTasksWaitingToSend := q.xTasksWaitingToSend.erase t
      xTasksWaitingToReceive := q.xTasksWaitingToReceive.erase t } r).Sublist (q.waiting r) := by
    intro r
    cases r <;> exact List.erase_sublist
  refine ⟨fun r => (I.nodup r).sublist (hsub r), fun r u hu => I.due r u ((hsub r).subset hu),
    I.owner, fun r => ?_, fun r => ?_, fun r => ?_, fun u hu => ?_⟩
  · have h := I.unlocked r
    cases r <;> exact h
  · have h := I.locked r
    cases r <;> exact h
  · have hlen := (hsub r).length_le
    rcases I.wake r with hnil | hle
    · rw [hnil] at hlen
      exact .inl (List.eq_nil_of_length_eq_zero (Nat.le_zero.mp hlen))
    · refine .inr ?_
      cases r <;> exact (Nat.add_le_add_left hlen _).trans hle
  · have h := I.placing u hu
    cases hside : (task u).op.side <;> rw [hside] at h <;> exact h

/-! ## Tasks -/

omit [Fintype τ] [DecidableEq τ] in
theorem wakeFor_eq_drop (n : Nat) (ts : List τ) : Queue_t.wakeFor n ts = ts.drop n := by
  induction n generalizing ts with
  | zero => rfl
  | succ n ih =>
    cases ts with
    | nil => rfl
    | cons t ts => exact ih ts

/-- A task that goes on and leaves the queue as it is. Where it is not going to look any more,
there is nothing to be looked for. -/
theorem WaitInv.stay {p : Phase} {sus' : Option τ} (I : WaitInv q task sus)
    (hfree : sus = some t ∨ sus = none) (hsus : sus' = if p.suspended then some t else none)
    (hleave : (task t).phase.looks = true → p.looks = false →
      q.avail (task t).op.side = 0 ∧ t ∉ q.waiting (task t).op.side)
    (hlocked : ∀ r, p.locked r = (task t).phase.locked r)
    (hplacing : p = .placing → q.avail (task t).op.side = 0) :
    WaitInv q (Function.update task t { task t with phase := p }) sus' := by
  refine I.move_sub hfree hsus rfl (fun r => List.Sublist.refl _) ?_ ?_ ?_ ?_
  · intro r hmem
    obtain ⟨rfl, hlooks⟩ := I.due r t hmem
    by_contra hnot
    exact (hleave hlooks (Bool.eq_false_of_not_eq_true hnot)).2 hmem
  · intro r
    simp only [hlocked r]
    cases ht : (task t).phase.locked r with
    | true => exact .inl ⟨rfl, I.locked r t ht⟩
    | false => exact .inr ⟨rfl, I.lock_eq hfree ht⟩
  · intro r
    by_cases hleaves : Due task r t ∧ p.looks = false
    · obtain ⟨⟨rfl, hlooks⟩, hp⟩ := hleaves
      obtain ⟨hzero, hout⟩ := hleave hlooks hp
      have hlt := I.length_lt ⟨rfl, hlooks⟩ hout
      have hcount := dueCount_leave { task t with phase := p } ⟨rfl, hlooks⟩ hp
      exact .inr (by omega)
    · have hcount := dueCount_le r { task t with phase := p } fun hdue : Due task r t =>
        ⟨hdue.1, Bool.eq_true_of_not_eq_false fun hp => hleaves ⟨hdue, hp⟩⟩
      exact (I.wake r).imp id fun hle => by omega
  · intro hp
    rw [hplacing hp]
    exact Nat.zero_le _

/-- **A call that has found what it looked for.** -/
theorem WaitInv.done {q' : Queue_t τ} (I : WaitInv q task sus) (hnone : sus = none)
    (hlooks : (task t).phase.looks = true) (hout : ∀ r, t ∉ q.waiting r)
    (hlock : ∀ r, q'.lock r = q.lock r) (hsub : ∀ r, (q'.waiting r).Sublist (q.waiting r))
    (hother : ∀ r, r ≠ (task t).op.side → q'.waiting r = [] ∨
      q'.avail r + (q'.waiting r).length ≤ q.avail r + (q.waiting r).length)
    (hside : q'.waiting (task t).op.side = [] ∨ q'.avail (task t).op.side = 0 ∨
      q'.avail (task t).op.side + (q'.waiting (task t).op.side).length <
        q.avail (task t).op.side + (q.waiting (task t).op.side).length) :
    WaitInv q' (Function.update task t { task t with phase := .idle }) sus := by
  have hlocked (r : Side) : (task t).phase.locked r = false := by
    by_contra hnot
    have howner := (I.owner t).mpr
      (Phase.suspended_of_locked (Bool.eq_true_of_not_eq_false hnot))
    rw [hnone] at howner
    cases howner
  have hnil {r : Side} (h : q.waiting r = []) : q'.waiting r = [] :=
    List.sublist_nil.mp (h ▸ hsub r)
  refine I.move_sub (.inr hnone) hnone rfl hsub (fun r hmem => absurd hmem (hout r))
    (fun r => .inr ⟨rfl, (hlock r).trans (I.lock_eq (.inr hnone) (hlocked r))⟩) ?_
    Phase.noConfusion
  intro r
  rw [hlock r]
  by_cases hr : r = (task t).op.side
  · subst hr
    have hcount := dueCount_leave { task t with phase := .idle } ⟨rfl, hlooks⟩ rfl
    rcases hside with h | h | h
    · exact .inl h
    · have hlen := (hsub (task t).op.side).length_le
      have hlt := I.length_lt ⟨rfl, hlooks⟩ (hout _)
      exact .inr (by omega)
    · exact (I.wake _).imp hnil fun hle => by omega
  · have hcount := dueCount_le r { task t with phase := .idle } fun hdue : Due task r t =>
      absurd hdue.1.symm hr
    rcases hother r hr with h | h
    · exact .inl h
    · exact (I.wake r).imp hnil fun hle => by omega

/-- **One half of the unlocking**: what was counted is made good. -/
theorem WaitInv.unlock {q' : Queue_t τ} {p : Phase} (I : WaitInv q task sus) (hsus : sus = some t)
    (hwaiting : q'.waiting r = (q.waiting r).drop (Queue_t.noted (q.lock r)))
    (hlock : q'.lock r = queueUNLOCKED)
    (hother : ∀ r', r' ≠ r → q'.waiting r' = q.waiting r' ∧ q'.lock r' = q.lock r')
    (havail : ∀ r', q'.avail r' = q.avail r') (hlooks : p.looks = (task t).phase.looks)
    (hsuspended : p.suspended = true) (hlocked : p.locked r = false)
    (hlocked' : ∀ r', r' ≠ r → p.locked r' = (task t).phase.locked r') (hp : p ≠ .placing) :
    WaitInv q' (Function.update task t { task t with phase := p }) sus := by
  have hsub (r' : Side) : (q'.waiting r').Sublist (q.waiting r') := by
    by_cases hr : r' = r
    · subst hr
      rw [hwaiting]
      exact List.drop_sublist _ _
    · rw [(hother r' hr).1]
  refine I.move_sub (.inl hsus) ?_ rfl hsub ?_ ?_ ?_ fun h => absurd h hp
  · rw [if_pos hsuspended, hsus]
  · intro r' hmem
    exact hlooks.trans (I.due r' t hmem).2
  · intro r'
    by_cases hr : r' = r
    · exact .inr (hr ▸ ⟨hlocked, hlock⟩)
    · dsimp only
      rw [hlocked' r' hr, (hother r' hr).2]
      cases ht : (task t).phase.locked r' with
      | true => exact .inl ⟨rfl, I.locked r' t ht⟩
      | false => exact .inr ⟨rfl, I.lock_eq (.inl hsus) ht⟩
  · intro r'
    have hcount := dueCount_le r' { task t with phase := p } fun hdue : Due task r' t =>
      ⟨hdue.1, hlooks.trans hdue.2⟩
    rw [havail r']
    by_cases hr : r' = r
    · subst hr
      rw [hwaiting, List.length_drop]
      rcases I.wake r' with hnil | hle
      · exact .inl (by rw [hnil, List.drop_nil])
      · rcases Nat.lt_or_ge (Queue_t.noted (q.lock r')) (q.waiting r').length with hlt | hge
        · exact .inr (by omega)
        · exact .inl (List.drop_eq_nil_of_le hge)
    · rw [(hother r' hr).1, (hother r' hr).2]
      exact (I.wake r').imp id fun hle => by omega

/-- **Placed in its list**: what is there by now has been counted. -/
theorem WaitInv.place (I : WaitInv q task sus) (hfree : sus = some t ∨ sus = none)
    (ht : (task t).phase = .placing) {index : Nat}
    (hindex : index ≤ (q.waiting (task t).op.side).length) :
    WaitInv (q.place t index (task t).op.side)
      (Function.update task t { task t with phase := .unlockingTx false }) sus := by
  have hout (r : Side) : t ∉ q.waiting r := I.not_waiting (by rw [ht]; rfl) r
  have hlist : (q.place t index (task t).op.side).waiting (task t).op.side =
      (q.waiting (task t).op.side).insertIdx index t := by
    cases (task t).op.side <;> rfl
  have hother (r : Side) (hr : r ≠ (task t).op.side) :
      (q.place t index (task t).op.side).waiting r = q.waiting r := by
    cases r <;> cases hside : (task t).op.side <;>
      first | rfl | exact absurd hside.symm hr
  have hlock (r : Side) : (q.place t index (task t).op.side).lock r = q.lock r := by
    cases (task t).op.side <;> cases r <;> rfl
  have havail (r : Side) : (q.place t index (task t).op.side).avail r = q.avail r := by
    cases (task t).op.side <;> cases r <;> rfl
  have hperm := List.perm_insertIdx t (q.waiting (task t).op.side) hindex
  refine I.move hfree ?_ ?_ ?_ ?_ ?_ Phase.noConfusion
  · rw [I.sus_eq hfree, ht]
    rfl
  · intro r
    by_cases hr : r = (task t).op.side
    · subst hr
      rw [hlist]
      exact hperm.nodup_iff.mpr (List.nodup_cons.mpr ⟨hout _, I.nodup _⟩)
    · rw [hother r hr]
      exact I.nodup r
  · intro r u hu
    by_cases hut : u = t
    · subst hut
      refine .inr ⟨rfl, ?_, rfl⟩
      by_contra hr
      rw [hother r fun h => hr h.symm] at hu
      exact hout r hu
    · refine .inl ⟨hut, ?_⟩
      by_cases hr : r = (task t).op.side
      · subst hr
        rw [hlist] at hu
        exact (List.mem_cons.mp (hperm.mem_iff.mp hu)).resolve_left hut
      · rwa [hother r hr] at hu
  · intro r
    rw [hlock r]
    exact .inl ⟨rfl, I.locked r t (by rw [ht]; rfl)⟩
  · intro r
    rw [hlock r, havail r]
    have hnot : ¬ Due task r t := by
      intro hdue
      rw [Due, ht] at hdue
      cases hdue.2
    by_cases hr : r = (task t).op.side
    · subst hr
      have hcount := dueCount_join { task t with phase := .unlockingTx false } hnot
        ⟨rfl, rfl⟩
      have hle := I.placing t ht
      have hlen := I.length_le (task t).op.side
      rw [hlist, hperm.length_eq, List.length_cons]
      exact .inr (by omega)
    · have hcount := dueCount_le r { task t with phase := .unlockingTx false }
        fun hdue => absurd hdue hnot
      rw [hother r hr]
      exact (I.wake r).imp id fun hle => by omega

end Lists

/-! ## The run -/

section Run

variable {s s' : QueueSys τ} {t : τ} {a : QueueLabel τ}

/-- The invariant, of the system. -/
def QueueSys.Waits (s : QueueSys τ) : Prop := WaitInv s.q s.task s.uxSchedulerSuspended

/-- A task that runs without having suspended the scheduler is on no list. -/
theorem QueueSys.Waits.runs (I : s.Waits) (hrunning : s.Running t)
    (ht : (s.task t).phase.suspended = false) :
    s.uxSchedulerSuspended = none ∧ ∀ r, t ∉ s.q.waiting r := by
  rcases hrunning with hsus | ⟨hnone, hsend, hreceive⟩
  · have howner := (I.owner t).mp hsus
    rw [ht] at howner
    cases howner
  · refine ⟨hnone, fun r => ?_⟩
    cases r with
    | send => exact hsend
    | receive => exact hreceive

variable [DecidableEq τ]

/-- The first critical section of a call. -/
theorem QueueSys.Waits.testing {w : Bool} (I : s.Waits) (hrunning : s.Running t)
    (hasserted : (s.task t).op.Asserted s.q) (hphase : (s.task t).phase = .testing w)
    (hrun : s.run t = some s') : s'.Waits := by
  have hlooks : (s.task t).phase.looks = true := by rw [hphase]; rfl
  obtain ⟨hnone, hout⟩ := I.runs hrunning (by rw [hphase]; rfl)
  have hstay {p : Phase} (hp : p = .suspending ∨ p = .idle)
      (hzero : s.q.avail (s.task t).op.side = 0) :
      WaitInv s.q (Function.update s.task t { s.task t with phase := p })
        s.uxSchedulerSuspended := by
    refine WaitInv.stay I (.inr hnone) ?_ (fun _ _ => ⟨hzero, hout _⟩) ?_ ?_
    · rw [hnone]
      rcases hp with rfl | rfl <;> rfl
    · intro r
      rw [hphase]
      rcases hp with rfl | rfl <;> rfl
    · rintro rfl
      rcases hp with h | h <;> cases h
  simp only [QueueSys.run, hphase] at hrun
  cases hop : (s.task t).op with
  | xQueueGenericSend item pos =>
    by_cases htakes : s.q.Takes pos
    · simp only [hop, Queue_t.xQueueGenericSend, if_pos htakes] at hrun
      cases hrun
      obtain ⟨w, r, n, hcopy, hn⟩ := s.q.prvCopyDataToQueue_spec s.m item pos
      change WaitInv (s.q.prvCopyDataToQueue s.m item pos).1.wakeReceiver _ _
      rw [hcopy]
      rw [hop] at hasserted
      refine WaitInv.done I hnone hlooks hout (fun r => by cases r <;> rfl) ?_ ?_ ?_
      · intro r
        cases r with
        | send => exact List.Sublist.refl _
        | receive => exact List.tail_sublist _
      · intro r hr
        rw [hop] at hr
        cases r with
        | send => exact absurd rfl hr
        | receive =>
          have hle : n ≤ s.q.uxMessagesWaiting + 1 := by omega
          exact tail_paid hle
      · rw [hop]
        -- there is one cell less, and there was one, or the only one has been overwritten
        have hcells : s.q.uxLength - n = 0 ∨
            s.q.uxLength - n < s.q.uxLength - s.q.uxMessagesWaiting := by
          rcases hn with hn | ⟨hover, hpos, hn⟩
          · omega
          · have hone := (hasserted.2 hover).1
            omega
        exact .inr (hcells.imp id fun hlt => Nat.add_lt_add_right hlt _)
    · simp only [hop, Queue_t.xQueueGenericSend, if_neg htakes] at hrun
      have hzero : s.q.avail (s.task t).op.side = 0 := by
        rw [hop]
        exact Nat.sub_eq_zero_of_le (Nat.le_of_not_lt fun hlt => htakes (.inl hlt))
      cases w with
      | true =>
        cases hrun
        exact hstay (.inl rfl) hzero
      | false =>
        cases hrun
        exact hstay (.inr rfl) hzero
  | xQueueGenericReceive peek =>
    by_cases hpos : s.q.uxMessagesWaiting > 0
    · simp only [hop, Queue_t.xQueueGenericReceive, if_pos hpos] at hrun
      obtain ⟨r, hcopy⟩ := s.q.prvCopyDataFromQueue_spec s.m
      cases peek with
      | true =>
        cases hrun
        change WaitInv { (s.q.prvCopyDataFromQueue s.m).1 with
          pcReadFrom := s.q.pcReadFrom }.wakeReceiver _ _
        rw [hcopy]
        refine WaitInv.done I hnone hlooks hout (fun r => by cases r <;> rfl) ?_ ?_ ?_
        · intro r
          cases r with
          | send => exact List.Sublist.refl _
          | receive => exact List.tail_sublist _
        · intro r hr
          rw [hop] at hr
          cases r with
          | send => exact .inr (Nat.le_refl _)
          | receive => exact absurd rfl hr
        · rw [hop]
          -- the item is left, for the next one that waits
          exact (tail_shorter s.q.xTasksWaitingToReceive).imp id fun hlt =>
            .inr (Nat.add_lt_add_left hlt _)
      | false =>
        cases hrun
        change WaitInv { (s.q.prvCopyDataFromQueue s.m).1 with
          uxMessagesWaiting := s.q.uxMessagesWaiting - 1 }.wakeSender _ _
        rw [hcopy]
        refine WaitInv.done I hnone hlooks hout (fun r => by cases r <;> rfl) ?_ ?_ ?_
        · intro r
          cases r with
          | send => exact List.tail_sublist _
          | receive => exact List.Sublist.refl _
        · intro r hr
          rw [hop] at hr
          cases r with
          | send =>
            have hle : s.q.uxLength - (s.q.uxMessagesWaiting - 1) ≤
                s.q.uxLength - s.q.uxMessagesWaiting + 1 := by omega
            exact tail_paid hle
          | receive => exact absurd rfl hr
        · rw [hop]
          exact .inr (.inr (Nat.add_lt_add_right (Nat.sub_lt hpos Nat.one_pos) _))
    · simp only [hop, Queue_t.xQueueGenericReceive, if_neg hpos] at hrun
      have hzero : s.q.avail (s.task t).op.side = 0 := by
        rw [hop]
        exact Nat.eq_zero_of_not_pos hpos
      cases w with
      | true =>
        cases hrun
        exact hstay (.inl rfl) hzero
      | false =>
        cases hrun
        exact hstay (.inr rfl) hzero

/-- A step of a task. -/
theorem QueueSys.Waits.run (I : s.Waits) (hrunning : s.Running t)
    (hasserted : (s.task t).phase ≠ .idle → (s.task t).op.Asserted s.q)
    (hrun : s.run t = some s') : s'.Waits := by
  have hfree : s.uxSchedulerSuspended = some t ∨ s.uxSchedulerSuspended = none :=
    hrunning.imp id And.left
  have hsus := WaitInv.sus_eq I hfree
  cases hphase : (s.task t).phase with
  | testing w =>
    exact I.testing hrunning (hasserted (by rw [hphase]; exact Phase.noConfusion)) hphase hrun
  | idle | checkingTimeOut | placing =>
    simp only [QueueSys.run, hphase] at hrun
    cases hrun
  | suspending =>
    simp only [QueueSys.run, hphase] at hrun
    cases hrun
    refine WaitInv.stay I hfree rfl ?_ ?_ Phase.noConfusion
    · rw [hphase]
      exact Bool.noConfusion
    · rw [hphase]
      exact fun r => rfl
  | locking =>
    simp only [QueueSys.run, hphase] at hrun
    cases hrun
    have hunlocked (r : Side) : s.q.lock r = queueUNLOCKED :=
      WaitInv.lock_eq I hfree (by rw [hphase]; rfl)
    have hlock (r : Side) : s.q.prvLockQueue.lock r = queueLOCKED_UNMODIFIED := by
      have h := hunlocked r
      cases r <;> exact if_pos h
    refine WaitInv.move_sub I hfree (hsus.trans (by rw [hphase]; rfl)) rfl
      (fun r => by cases r <;> exact List.Sublist.refl _) ?_ ?_ ?_ Phase.noConfusion
    · intro r hmem
      exact absurd hmem (WaitInv.not_waiting I (by rw [hphase]; rfl) r)
    · intro r
      rw [hlock r]
      exact .inl ⟨rfl, Int.le_refl 0⟩
    · intro r
      have hcount := dueCount_le r { s.task t with phase := .checkingTimeOut }
        fun hdue : Due s.task r t => by
          rw [Due, hphase] at hdue
          cases hdue.2
      have hwake := I.wake r
      rw [hunlocked r] at hwake
      rw [hlock r]
      cases r <;> exact hwake.imp id fun hle => hle.trans (Nat.add_le_add_right hcount _)
  | testingAgain =>
    simp only [QueueSys.run, hphase] at hrun
    cases hrun
    refine WaitInv.stay I hfree ?_ ?_ ?_ ?_
    · refine hsus.trans ?_
      rw [hphase]
      cases s.q.blocks (s.task t).op.side <;> rfl
    · rw [hphase]
      exact Bool.noConfusion
    · intro r
      rw [hphase]
      split <;> rfl
    · intro hp
      cases hblocks : s.q.blocks (s.task t).op.side with
      | false =>
        rw [hblocks] at hp
        cases hp
      | true =>
        cases hside : (s.task t).op.side with
        | send =>
          rw [hside] at hblocks
          exact Nat.sub_eq_zero_of_le (Nat.le_of_eq (beq_iff_eq.mp hblocks).symm)
        | receive =>
          rw [hside] at hblocks
          exact beq_iff_eq.mp hblocks
  | unlockingTx e =>
    simp only [QueueSys.run, hphase] at hrun
    cases hrun
    refine WaitInv.unlock (r := .receive) I (hsus.trans (by rw [hphase]; rfl))
      (wakeFor_eq_drop _ _) rfl ?_ (fun r => by cases r <;> rfl) ?_ rfl rfl ?_ Phase.noConfusion
    · intro r hr
      cases r with
      | send => exact ⟨rfl, rfl⟩
      | receive => exact absurd rfl hr
    · rw [hphase]
      cases e <;> rfl
    · intro r hr
      rw [hphase]
      cases r with
      | send => rfl
      | receive => exact absurd rfl hr
  | unlockingRx e =>
    simp only [QueueSys.run, hphase] at hrun
    cases hrun
    refine WaitInv.unlock (r := .send) I (hsus.trans (by rw [hphase]; rfl))
      (wakeFor_eq_drop _ _) rfl ?_ (fun r => by cases r <;> rfl) ?_ rfl rfl ?_ Phase.noConfusion
    · intro r hr
      cases r with
      | send => exact absurd rfl hr
      | receive => exact ⟨rfl, rfl⟩
    · rw [hphase]
      cases e <;> rfl
    · intro r hr
      rw [hphase]
      cases r with
      | send => exact absurd rfl hr
      | receive => rfl
  | resuming e =>
    simp only [QueueSys.run, hphase] at hrun
    cases hrun
    cases e with
    | false =>
      refine WaitInv.stay I hfree rfl (fun _ => Bool.noConfusion) ?_ Phase.noConfusion
      rw [hphase]
      exact fun r => rfl
    | true =>
      -- a call whose time is over does not look any more, and was not going to
      have hlooks : (s.task t).phase.looks = false := by rw [hphase]; rfl
      cases hop : (s.task t).op with
      | xQueueGenericSend item pos =>
        refine WaitInv.stay I hfree rfl ?_ ?_ Phase.noConfusion
        · rw [hlooks]
          exact Bool.noConfusion
        · rw [hphase]
          exact fun r => rfl
      | xQueueGenericReceive peek =>
        refine WaitInv.stay I hfree rfl ?_ ?_ Phase.noConfusion
        · rw [hlooks]
          exact Bool.noConfusion
        · rw [hphase]
          exact fun r => rfl
  | givingUp =>
    have hstay {p : Phase} (hp : p = .idle ∨ p = .testing true) :
        WaitInv s.q (Function.update s.task t { s.task t with phase := p })
          s.uxSchedulerSuspended := by
      refine WaitInv.stay I hfree ?_ ?_ ?_ ?_
      · rw [hsus, hphase]
        rcases hp with rfl | rfl <;> rfl
      · rw [hphase]
        exact Bool.noConfusion
      · intro r
        rw [hphase]
        rcases hp with rfl | rfl <;> rfl
      · rintro rfl
        rcases hp with h | h <;> cases h
    simp only [QueueSys.run, hphase] at hrun
    split at hrun
    · cases hrun
      exact hstay (.inl rfl)
    · cases hrun
      exact hstay (.inr rfl)

omit [DecidableEq τ] in
/-- An interrupt that has sent. -/
theorem WaitInv.noteSent {q : Queue_t τ} {task : τ → QueueTask} {sus : Option τ} {n w r : Nat}
    (I : WaitInv q task sus) (hmax : q.cTxLock ≠ 127)
    (hn : n = q.uxMessagesWaiting + 1 ∨ n = q.uxMessagesWaiting) :
    WaitInv { q with pcWriteTo := w, pcReadFrom := r, uxMessagesWaiting := n }.noteSent task
      sus := by
  have hitems : n ≤ q.uxMessagesWaiting + 1 := by omega
  have hcells : q.uxLength - n ≤ q.uxLength - q.uxMessagesWaiting :=
    Nat.sub_le_sub_left (by omega) _
  unfold Queue_t.noteSent
  by_cases hlock : q.cTxLock = queueUNLOCKED
  · rw [if_pos hlock]
    refine WaitInv.post (r := .receive) I hmax (.inl ⟨hlock, rfl, rfl⟩) ?_ hitems
    intro r' hr'
    cases r' with
    | send => exact ⟨rfl, rfl, hcells⟩
    | receive => exact absurd rfl hr'
  · rw [if_neg hlock]
    refine WaitInv.post (r := .receive) I hmax (.inr ⟨hlock, rfl, rfl⟩) ?_ hitems
    intro r' hr'
    cases r' with
    | send => exact ⟨rfl, rfl, hcells⟩
    | receive => exact absurd rfl hr'

omit [DecidableEq τ] in
/-- An interrupt that has received. -/
theorem WaitInv.noteReceived {q : Queue_t τ} {task : τ → QueueTask} {sus : Option τ} {r : Nat}
    (I : WaitInv q task sus) (hmax : q.cRxLock ≠ 127) :
    WaitInv { q with
      pcReadFrom := r, uxMessagesWaiting := q.uxMessagesWaiting - 1 }.noteReceived task sus := by
  have hcells : q.uxLength - (q.uxMessagesWaiting - 1) ≤ q.uxLength - q.uxMessagesWaiting + 1 := by
    omega
  unfold Queue_t.noteReceived
  by_cases hlock : q.cRxLock = queueUNLOCKED
  · rw [if_pos hlock]
    refine WaitInv.post (r := .send) I hmax (.inl ⟨hlock, rfl, rfl⟩) ?_ hcells
    intro r' hr'
    cases r' with
    | send => exact absurd rfl hr'
    | receive => exact ⟨rfl, rfl, Nat.sub_le _ _⟩
  · rw [if_neg hlock]
    refine WaitInv.post (r := .send) I hmax (.inr ⟨hlock, rfl, rfl⟩) ?_ hcells
    intro r' hr'
    cases r' with
    | send => exact absurd rfl hr'
    | receive => exact ⟨rfl, rfl, Nat.sub_le _ _⟩

/-- **The step lemma.** -/
theorem QueueSys.Waits.step (I : s.Waits) (D : DequeInv s) (hcounted : Counted s a)
    (hstep : s.step a = some s') : s'.Waits := by
  cases a with
  | call t op w =>
    simp only [QueueSys.step] at hstep
    split at hstep
    next hcond =>
      cases hstep
      obtain ⟨hrunning, hidle, -⟩ := hcond
      obtain ⟨hnone, hout⟩ := I.runs hrunning (by rw [hidle]; rfl)
      refine WaitInv.move I (.inr hnone) hnone I.nodup ?_ ?_ ?_ Phase.noConfusion
      · exact fun r u hu => .inl ⟨fun h => hout r (h ▸ hu), hu⟩
      · exact fun r => .inr ⟨rfl, WaitInv.lock_eq I (.inr hnone) (by rw [hidle]; rfl)⟩
      · intro r
        have hcount := dueCount_le r ⟨.testing w, op⟩ fun hdue : Due s.task r t => by
            rw [Due, hidle] at hdue
            cases hdue.2
        exact (I.wake r).imp id fun hle => hle.trans (Nat.add_le_add_right hcount _)
    next => cases hstep
  | run t =>
    simp only [QueueSys.step] at hstep
    split at hstep
    next hrunning => exact I.run hrunning (D.asserted t) hstep
    next => cases hstep
  | xTaskCheckForTimeOut t xReturn =>
    simp only [QueueSys.step] at hstep
    split at hstep
    next hcond =>
      cases hstep
      obtain ⟨hrunning, hphase⟩ := hcond
      have hfree := hrunning.imp id And.left
      refine WaitInv.stay I hfree ((WaitInv.sus_eq I hfree).trans ?_) ?_ ?_ ?_
      · rw [hphase]
        cases xReturn <;> rfl
      · rw [hphase]
        exact Bool.noConfusion
      · rw [hphase]
        cases xReturn <;> exact fun r => rfl
      · cases xReturn <;> exact Phase.noConfusion
    next => cases hstep
  | vTaskPlaceOnEventList t index =>
    simp only [QueueSys.step] at hstep
    split at hstep
    next hcond =>
      cases hstep
      exact WaitInv.place I (hcond.1.imp id And.left) hcond.2.1 hcond.2.2
    next => cases hstep
  | xTaskIncrementTick t =>
    simp only [QueueSys.step] at hstep
    split at hstep
    next =>
      cases hstep
      exact WaitInv.tick I t
    next => cases hstep
  | xQueueGenericSendFromISR item pos =>
    simp only [QueueSys.step] at hstep
    split at hstep
    next =>
      by_cases htakes : s.q.Takes pos
      · simp only [Queue_t.xQueueGenericSendFromISR, if_pos htakes] at hstep
        cases hstep
        obtain ⟨w, r, n, hcopy, hn⟩ := s.q.prvCopyDataToQueue_spec s.m item pos
        change WaitInv (s.q.prvCopyDataToQueue s.m item pos).1.noteSent _ _
        rw [hcopy]
        exact WaitInv.noteSent I (hcounted htakes) (hn.imp id fun h => h.2.2)
      · simp only [Queue_t.xQueueGenericSendFromISR, if_neg htakes] at hstep
        cases hstep
        exact I
    next => cases hstep
  | xQueueGiveFromISR =>
    simp only [QueueSys.step] at hstep
    split at hstep
    next =>
      by_cases hroom : s.q.uxMessagesWaiting < s.q.uxLength
      · simp only [Queue_t.xQueueGiveFromISR, if_pos hroom] at hstep
        cases hstep
        exact WaitInv.noteSent I (hcounted hroom) (.inl rfl)
      · simp only [Queue_t.xQueueGiveFromISR, if_neg hroom] at hstep
        cases hstep
        exact I
    next => cases hstep
  | xQueueReceiveFromISR =>
    by_cases hpos : s.q.uxMessagesWaiting > 0
    · simp only [QueueSys.step, Queue_t.xQueueReceiveFromISR, if_pos hpos] at hstep
      cases hstep
      obtain ⟨r, hcopy⟩ := s.q.prvCopyDataFromQueue_spec s.m
      change WaitInv { (s.q.prvCopyDataFromQueue s.m).1 with
        uxMessagesWaiting := s.q.uxMessagesWaiting - 1 }.noteReceived _ _
      rw [hcopy]
      exact WaitInv.noteReceived (q := s.q) I (hcounted hpos)
    · simp only [QueueSys.step, Queue_t.xQueueReceiveFromISR, if_neg hpos] at hstep
      cases hstep
      exact I
  | xQueuePeekFromISR =>
    by_cases hpos : s.q.uxMessagesWaiting > 0
    · simp only [QueueSys.step, Queue_t.xQueuePeekFromISR, if_pos hpos] at hstep
      cases hstep
      obtain ⟨r, hcopy⟩ := s.q.prvCopyDataFromQueue_spec s.m
      change WaitInv { (s.q.prvCopyDataFromQueue s.m).1 with pcReadFrom := s.q.pcReadFrom } _ _
      rw [hcopy]
      exact I
    · simp only [QueueSys.step, Queue_t.xQueuePeekFromISR, if_neg hpos] at hstep
      cases hstep
      exact I

/-- Those who wait and those awake are all that are due. -/
theorem QueueSys.Waits.awake_card (I : s.Waits) (r : Side) :
    (s.awake r).card + (s.q.waiting r).length = dueCount s.task r := by
  have hasleep : (Finset.univ.filter fun t => Due s.task r t ∧ ¬ t ∉ s.q.waiting r) =
      (s.q.waiting r).toFinset := by
    ext t
    simp only [Finset.mem_filter, Finset.mem_univ, true_and, not_not, List.mem_toFinset]
    exact ⟨And.right, fun hmem => ⟨I.due r t hmem, hmem⟩⟩
  have hsplit := Finset.card_filter_add_card_filter_not (s := Finset.univ.filter (Due s.task r))
    (p := fun t => t ∉ s.q.waiting r)
  rwa [Finset.filter_filter, Finset.filter_filter, hasleep,
    List.toFinset_card_of_nodup (I.nodup r)] at hsplit

theorem QueueSys.Waits.noLostWakeup (I : s.Waits) : NoLostWakeup s := by
  intro hnone r
  have hlock : s.q.lock r = queueUNLOCKED := by
    refine I.unlocked r fun t => ?_
    by_contra hlocked
    have howner := (I.owner t).mpr
      (Phase.suspended_of_locked (Bool.eq_true_of_not_eq_false hlocked))
    rw [hnone] at howner
    cases howner
  refine (I.wake r).imp id fun hle => ?_
  have hcard := I.awake_card r
  rw [hlock] at hle
  have hzero : Queue_t.noted queueUNLOCKED = 0 := rfl
  omega

omit [DecidableEq τ] in
theorem waits_start (q : Queue_t τ) (m : Mem) : (QueueSys.start q m).Waits where
  nodup r := by cases r <;> exact List.nodup_nil
  due r t ht := by cases r <;> cases ht
  owner t := by constructor <;> intro h <;> cases h
  unlocked r _ := by cases r <;> rfl
  locked r t h := by cases r <;> cases h
  wake r := by cases r <;> exact .inl rfl
  placing t h := Phase.noConfusion h

/-- **No wakeup is lost**, in any run in which no interrupt finds a lock count at its largest. -/
theorem no_lost_wakeup (q : Queue_t τ) (m : Mem) (hlength : 0 < q.uxLength)
    (below : q.uxItemSize ≤ q.pcHead) (fits : q.pcHead + q.uxLength * q.uxItemSize ≤ 2 ^ 32)
    {as : List (QueueLabel τ)} (hcounted : (queueSys τ).Guarded Counted (.start q m) as) :
    (queueSys τ).Always NoLostWakeup (.start q m) as := by
  have hinv := Machine.always_of_guarded (m := queueSys τ) (I := fun s => s.Waits ∧ DequeInv s)
    (fun s a s' I hcounted hstep => ⟨I.1.step I.2 hcounted hstep, I.2.step hstep⟩)
    ⟨waits_start q m, dequeInv_start hlength below fits m⟩ hcounted
  exact hinv.mono fun s I => I.1.noLostWakeup

/-- A task has found the queue empty, and before it is on the list an interrupt sends. -/
def someLockedCalls : List (QueueLabel Bool) :=
  [.call true (.xQueueGenericReceive false) true, .run true, .run true, .run true,
    .xTaskCheckForTimeOut true false, .run true,
    .xQueueGenericSendFromISR [1, 2] .queueSEND_TO_BACK, .vTaskPlaceOnEventList true 0,
    .run true, .run true, .run true]

theorem no_lost_wakeup_some_calls :
    ((queueSys Bool).exec (.start someQueue fun _ => 0) someLockedCalls).map
        (fun s => (s.q.xTasksWaitingToReceive, s.q.uxMessagesWaiting)) = some ([], 1) ∧
      (queueSys Bool).Always NoLostWakeup (.start someQueue fun _ => 0) someLockedCalls :=
  ⟨rfl, no_lost_wakeup someQueue _ (by decide) (by decide) (by decide) (by decide)⟩

/-! ## Interrupts of one kind -/

/-- No interrupt makes available anything but what calls of kind `r` look for, and none overwrites
an item. -/
def QueueLabel.OneSided (r : Side) : QueueLabel τ → Prop
  | .xQueueGenericSendFromISR _ xCopyPosition => r = .receive ∧ xCopyPosition ≠ .queueOVERWRITE
  | .xQueueGiveFromISR => r = .receive
  | .xQueueReceiveFromISR => r = .send
  | _ => True

/-- What has been counted is there: while the queue is locked, nobody takes it. -/
structure CountInv (r : Side) (s : QueueSys τ) : Prop where
  length : s.q.uxLength ≤ 127
  count : s.q.lock r ≠ queueUNLOCKED → (s.q.lock r).toInt ≤ s.q.avail r

omit [Fintype τ] [DecidableEq τ] in
theorem copyIn_lock (q : Queue_t τ) (m : Mem) (item : List UInt8) (pos : CopyPosition)
    (r : Side) : (q.prvCopyDataToQueue m item pos).1.lock r = q.lock r := by
  obtain ⟨w, e, n, hcopy, -⟩ := q.prvCopyDataToQueue_spec m item pos
  rw [hcopy]
  cases r <;> rfl

omit [Fintype τ] [DecidableEq τ] in
theorem copyOut_lock (q : Queue_t τ) (m : Mem) (r : Side) :
    (q.prvCopyDataFromQueue m).1.lock r = q.lock r := by
  obtain ⟨e, hcopy⟩ := q.prvCopyDataFromQueue_spec m
  rw [hcopy]
  cases r <;> rfl

/-- A step of a task counts nothing: it leaves a count as it is, or starts or ends it. -/
theorem QueueSys.Waits.run_lock (I : s.Waits) (hrunning : s.Running t) (hrun : s.run t = some s')
    (r : Side) : s'.q.uxLength = s.q.uxLength ∧
      (s'.q.lock r = queueUNLOCKED ∨ s'.q.lock r = queueLOCKED_UNMODIFIED ∨
        s'.q.lock r = s.q.lock r ∧ s'.q.avail r = s.q.avail r) := by
  cases hphase : (s.task t).phase with
  | testing w =>
    obtain ⟨hnone, -⟩ := I.runs hrunning (by rw [hphase]; rfl)
    have hunlocked : s.q.lock r = queueUNLOCKED :=
      WaitInv.lock_eq I (.inr hnone) (by rw [hphase]; rfl)
    simp only [QueueSys.run, hphase] at hrun
    cases hop : (s.task t).op with
    | xQueueGenericSend item pos =>
      by_cases htakes : s.q.Takes pos
      · simp only [hop, Queue_t.xQueueGenericSend, if_pos htakes] at hrun
        cases hrun
        refine ⟨Queue_t.prvCopyDataToQueue_uxLength s.q s.m item pos, .inl ?_⟩
        have hlock := copyIn_lock s.q s.m item pos r
        cases r <;> exact hlock.trans hunlocked
      · simp only [hop, Queue_t.xQueueGenericSend, if_neg htakes] at hrun
        cases w <;> cases hrun <;> exact ⟨rfl, .inl hunlocked⟩
    | xQueueGenericReceive peek =>
      by_cases hpos : s.q.uxMessagesWaiting > 0
      · simp only [hop, Queue_t.xQueueGenericReceive, if_pos hpos] at hrun
        have hlock := copyOut_lock s.q s.m r
        cases peek <;> cases hrun <;>
          refine ⟨Queue_t.prvCopyDataFromQueue_uxLength s.q s.m, .inl ?_⟩ <;>
          cases r <;> exact hlock.trans hunlocked
      · simp only [hop, Queue_t.xQueueGenericReceive, if_neg hpos] at hrun
        cases w <;> cases hrun <;> exact ⟨rfl, .inl hunlocked⟩
  | idle | checkingTimeOut | placing =>
    simp only [QueueSys.run, hphase] at hrun
    cases hrun
  | suspending | testingAgain | resuming e =>
    simp only [QueueSys.run, hphase] at hrun
    cases hrun
    exact ⟨rfl, .inr (.inr ⟨rfl, rfl⟩)⟩
  | locking =>
    simp only [QueueSys.run, hphase] at hrun
    cases hrun
    have hunlocked : s.q.lock r = queueUNLOCKED :=
      WaitInv.lock_eq I (hrunning.imp id And.left) (by rw [hphase]; rfl)
    refine ⟨rfl, .inr (.inl ?_)⟩
    cases r <;> exact if_pos hunlocked
  | unlockingTx e =>
    simp only [QueueSys.run, hphase] at hrun
    cases hrun
    cases r with
    | send => exact ⟨rfl, .inr (.inr ⟨rfl, rfl⟩)⟩
    | receive => exact ⟨rfl, .inl rfl⟩
  | unlockingRx e =>
    simp only [QueueSys.run, hphase] at hrun
    cases hrun
    cases r with
    | send => exact ⟨rfl, .inl rfl⟩
    | receive => exact ⟨rfl, .inr (.inr ⟨rfl, rfl⟩)⟩
  | givingUp =>
    simp only [QueueSys.run, hphase] at hrun
    split at hrun <;> cases hrun <;> exact ⟨rfl, .inr (.inr ⟨rfl, rfl⟩)⟩

omit [Fintype τ] [DecidableEq τ] in
theorem CountInv.ne_max {r : Side} (C : CountInv r s) (h : s.q.avail r < s.q.uxLength) :
    s.q.lock r ≠ 127 := by
  intro hmax
  have hle := C.count (by rw [hmax]; decide)
  have hlength := C.length
  rw [hmax, show (127 : Int8).toInt = 127 from rfl] at hle
  omega

omit [DecidableEq τ] in
/-- An interrupt that counts has made one more available. -/
theorem CountInv.post {r : Side} (C : CountInv r s) (I : s.Waits)
    (hlength : s'.q.uxLength = s.q.uxLength) (hmax : s.q.lock r ≠ 127)
    (havail : s'.q.avail r = s.q.avail r + 1)
    (hlock : s'.q.lock r = if s.q.lock r = queueUNLOCKED then s.q.lock r else s.q.lock r + 1) :
    CountInv r s' where
  length := hlength ▸ C.length
  count hne := by
    by_cases hunlocked : s.q.lock r = queueUNLOCKED
    · rw [hlock, if_pos hunlocked] at hne
      exact absurd hunlocked hne
    · have hold := C.count hunlocked
      have hnonneg := WaitInv.lock_nonneg I hunlocked
      obtain ⟨hnonneg', hsucc⟩ := noted_succ hnonneg hmax
      rw [Queue_t.noted, Queue_t.noted] at hsucc
      rw [hlock, if_neg hunlocked, havail]
      omega

omit [Fintype τ] [DecidableEq τ] in
theorem noteSent_lock (q : Queue_t τ) : q.noteSent.cTxLock =
    if q.cTxLock = queueUNLOCKED then q.cTxLock else q.cTxLock + 1 := by
  unfold Queue_t.noteSent
  split <;> rfl

omit [Fintype τ] [DecidableEq τ] in
theorem noteReceived_lock (q : Queue_t τ) : q.noteReceived.cRxLock =
    if q.cRxLock = queueUNLOCKED then q.cRxLock else q.cRxLock + 1 := by
  unfold Queue_t.noteReceived
  split <;> rfl

omit [Fintype τ] [DecidableEq τ] in
/-- Nothing is counted beyond the largest count. -/
theorem CountInv.counted {r : Side} (C : CountInv r s) (D : DequeInv s) (hone : a.OneSided r) :
    Counted s a := by
  cases a with
  | xQueueGenericSendFromISR item pos =>
    obtain ⟨rfl, hpos⟩ := hone
    exact fun htakes => C.ne_max (htakes.resolve_right hpos)
  | xQueueGiveFromISR =>
    obtain rfl : r = .receive := hone
    exact C.ne_max
  | xQueueReceiveFromISR =>
    obtain rfl : r = .send := hone
    obtain ⟨xs, hxs, -⟩ := D.holds
    exact fun hpos => C.ne_max (Nat.sub_lt hxs.placed.length hpos)
  | _ => trivial

/-- The step lemma: what has been counted is there behind the step as well. -/
theorem CountInv.step {r : Side} (C : CountInv r s) (I : s.Waits) (D : DequeInv s)
    (hone : a.OneSided r) (hstep : s.step a = some s') : CountInv r s' := by
  have hcounted := C.counted D hone
  have hsame (hlength : s'.q.uxLength = s.q.uxLength)
      (h : s'.q.lock r = queueUNLOCKED ∨ s'.q.lock r = queueLOCKED_UNMODIFIED ∨
        s'.q.lock r = s.q.lock r ∧ s'.q.avail r = s.q.avail r) : CountInv r s' := by
    refine ⟨hlength ▸ C.length, fun hne => ?_⟩
    rcases h with h | h | ⟨hl, ha⟩
    · exact absurd h hne
    · rw [h]
      exact Int.natCast_nonneg _
    · rw [hl] at hne ⊢
      rw [ha]
      exact C.count hne
  cases a with
  | call t op w =>
    simp only [QueueSys.step] at hstep
    split at hstep <;> cases hstep
    exact hsame rfl (.inr (.inr ⟨rfl, rfl⟩))
  | run t =>
    simp only [QueueSys.step] at hstep
    split at hstep
    next hrunning =>
      obtain ⟨hlength, hlock⟩ := I.run_lock hrunning hstep r
      exact hsame hlength hlock
    next => cases hstep
  | xTaskCheckForTimeOut t xReturn =>
    simp only [QueueSys.step] at hstep
    split at hstep <;> cases hstep
    exact hsame rfl (.inr (.inr ⟨rfl, rfl⟩))
  | vTaskPlaceOnEventList t index =>
    simp only [QueueSys.step] at hstep
    split at hstep <;> cases hstep
    refine hsame ?_ (.inr (.inr ?_))
    · cases (s.task t).op.side <;> rfl
    · cases (s.task t).op.side <;> cases r <;> exact ⟨rfl, rfl⟩
  | xTaskIncrementTick t =>
    simp only [QueueSys.step] at hstep
    split at hstep <;> cases hstep
    refine hsame rfl (.inr (.inr ?_))
    cases r <;> exact ⟨rfl, rfl⟩
  | xQueueGenericSendFromISR item pos =>
    obtain ⟨rfl, hpos⟩ := hone
    have hmax : s.q.Takes pos → s.q.cTxLock ≠ 127 := hcounted
    simp only [QueueSys.step] at hstep
    split at hstep
    next =>
      by_cases htakes : s.q.Takes pos
      · simp only [Queue_t.xQueueGenericSendFromISR, if_pos htakes] at hstep
        cases hstep
        obtain ⟨w, e, n, hcopy, hn⟩ := s.q.prvCopyDataToQueue_spec s.m item pos
        have hnote := noteSent_sameRing (s.q.prvCopyDataToQueue s.m item pos).1
        have hitems : n = s.q.uxMessagesWaiting + 1 := hn.resolve_right fun h => hpos h.1
        refine C.post I ?_ (hmax htakes) ?_ ?_
        · exact hnote.uxLength.trans (Queue_t.prvCopyDataToQueue_uxLength s.q s.m item pos)
        · refine hnote.uxMessagesWaiting.trans ?_
          rw [hcopy]
          exact hitems
        · refine (noteSent_lock _).trans ?_
          rw [hcopy]
          rfl
      · simp only [Queue_t.xQueueGenericSendFromISR, if_neg htakes] at hstep
        cases hstep
        exact hsame rfl (.inr (.inr ⟨rfl, rfl⟩))
    next => cases hstep
  | xQueueGiveFromISR =>
    obtain rfl : r = .receive := hone
    have hmax : s.q.uxMessagesWaiting < s.q.uxLength → s.q.cTxLock ≠ 127 := hcounted
    simp only [QueueSys.step] at hstep
    split at hstep
    next =>
      by_cases hroom : s.q.uxMessagesWaiting < s.q.uxLength
      · simp only [Queue_t.xQueueGiveFromISR, if_pos hroom] at hstep
        cases hstep
        have hnote := noteSent_sameRing
          { s.q with uxMessagesWaiting := s.q.uxMessagesWaiting + 1 }
        exact C.post I hnote.uxLength (hmax hroom) hnote.uxMessagesWaiting (noteSent_lock _)
      · simp only [Queue_t.xQueueGiveFromISR, if_neg hroom] at hstep
        cases hstep
        exact hsame rfl (.inr (.inr ⟨rfl, rfl⟩))
    next => cases hstep
  | xQueueReceiveFromISR =>
    obtain rfl : r = .send := hone
    obtain ⟨xs, hxs, -⟩ := D.holds
    have hplaced := hxs.placed.length
    have hroom := hxs.room
    have hcount := hxs.count
    have hmax : s.q.uxMessagesWaiting > 0 → s.q.cRxLock ≠ 127 := hcounted
    by_cases hpos : s.q.uxMessagesWaiting > 0
    · simp only [QueueSys.step, Queue_t.xQueueReceiveFromISR, if_pos hpos] at hstep
      cases hstep
      have hnote := noteReceived_sameRing
        { (s.q.prvCopyDataFromQueue s.m).1 with uxMessagesWaiting := s.q.uxMessagesWaiting - 1 }
      have hlength := hnote.uxLength.trans (Queue_t.prvCopyDataFromQueue_uxLength s.q s.m)
      refine C.post I hlength (hmax hpos) ?_ ?_
      · change Queue_t.uxLength _ - Queue_t.uxMessagesWaiting _ = _
        rw [hlength, hnote.uxMessagesWaiting]
        change s.q.uxLength - (s.q.uxMessagesWaiting - 1) =
          s.q.uxLength - s.q.uxMessagesWaiting + 1
        omega
      · refine (noteReceived_lock _).trans ?_
        have hlock := copyOut_lock s.q s.m .send
        change (s.q.prvCopyDataFromQueue s.m).1.cRxLock = s.q.cRxLock at hlock
        change (if (s.q.prvCopyDataFromQueue s.m).1.cRxLock = _ then _ else _) = _
        rw [hlock]
        rfl
    · simp only [QueueSys.step, Queue_t.xQueueReceiveFromISR, if_neg hpos] at hstep
      cases hstep
      exact hsame rfl (.inr (.inr ⟨rfl, rfl⟩))
  | xQueuePeekFromISR =>
    by_cases hpos : s.q.uxMessagesWaiting > 0
    · simp only [QueueSys.step, Queue_t.xQueuePeekFromISR, if_pos hpos] at hstep
      cases hstep
      obtain ⟨e, hcopy⟩ := s.q.prvCopyDataFromQueue_spec s.m
      refine hsame (Queue_t.prvCopyDataFromQueue_uxLength s.q s.m) (.inr (.inr ?_))
      change Queue_t.lock { (s.q.prvCopyDataFromQueue s.m).1 with pcReadFrom := s.q.pcReadFrom } r =
          _ ∧ Queue_t.avail { (s.q.prvCopyDataFromQueue s.m).1 with
            pcReadFrom := s.q.pcReadFrom } r = _
      rw [hcopy]
      exact ⟨rfl, rfl⟩
    · simp only [QueueSys.step, Queue_t.xQueuePeekFromISR, if_neg hpos] at hstep
      cases hstep
      exact hsame rfl (.inr (.inr ⟨rfl, rfl⟩))

/-- **Where the interrupts only send, or only receive, the lock counts never overflow and no wakeup
is lost**, if the queue is not longer than the lock counts can say. -/
theorem no_lost_wakeup_of_oneSided (r : Side) (q : Queue_t τ) (m : Mem) (hlength : 0 < q.uxLength)
    (hshort : q.uxLength ≤ 127) (below : q.uxItemSize ≤ q.pcHead)
    (fits : q.pcHead + q.uxLength * q.uxItemSize ≤ 2 ^ 32) {as : List (QueueLabel τ)}
    (hone : ∀ a ∈ as, a.OneSided r) :
    (queueSys τ).Guarded Counted (.start q m) as ∧
      (queueSys τ).Always NoLostWakeup (.start q m) as := by
  have hkeep (s : QueueSys τ) (a : QueueLabel τ) (s' : QueueSys τ)
      (I : s.Waits ∧ DequeInv s ∧ CountInv r s) (hone : a.OneSided r) (hstep : s.step a = some s') :
      s'.Waits ∧ DequeInv s' ∧ CountInv r s' :=
    ⟨I.1.step I.2.1 (I.2.2.counted I.2.1 hone) hstep, I.2.1.step hstep,
      I.2.2.step I.1 I.2.1 hone hstep⟩
  have hstart : QueueSys.Waits (.start q m) ∧ DequeInv (.start q m) ∧ CountInv r (.start q m) := by
    refine ⟨waits_start q m, dequeInv_start hlength below fits m, hshort, fun h => ?_⟩
    cases r <;> exact absurd rfl h
  have hguarded : (queueSys τ).Guarded (fun _ a => a.OneSided r) (.start q m) as :=
    Machine.guarded_of_forall hone
  constructor
  · exact hguarded.of_invariant hkeep (fun _ _ I hone => I.2.2.counted I.2.1 hone) hstart
  · have halways : (queueSys τ).Always (fun s => s.Waits ∧ DequeInv s ∧ CountInv r s)
        (.start q m) as :=
      Machine.always_of_guarded hkeep hstart hguarded
    exact halways.mono fun _ I => I.1.noLostWakeup

theorem no_lost_wakeup_of_senders_some_calls :
    ((queueSys Bool).exec (.start someQueue fun _ => 0) someLockedCalls).map
        (fun s => (s.awake .receive, s.uxSchedulerSuspended)) = some ({true}, none) ∧
      (queueSys Bool).Guarded Counted (.start someQueue fun _ => 0) someLockedCalls ∧
      (queueSys Bool).Always NoLostWakeup (.start someQueue fun _ => 0) someLockedCalls :=
  ⟨rfl, no_lost_wakeup_of_oneSided .receive someQueue _ (by decide) (by decide) (by decide)
    (by decide) (by simp [someLockedCalls, QueueLabel.OneSided])⟩

end Run

end Tasks

end EthIo.Rtos
