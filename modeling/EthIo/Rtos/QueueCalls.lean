import EthIo.Base.Deque
import EthIo.Rtos.QueueRing

/-!
# Queues and their callers

Any number of tasks send to a queue and receive from it, and interrupts do as well. A task finds
room or an item in its first critical section, or else it suspends the scheduler, locks the queue,
looks again and goes on the event list of its kind; each of these is a step, and between any two of
them an interrupt may be served. While a task has the scheduler suspended no other task runs.

How long a task is to wait is left open: `xTaskCheckForTimeOut` may find the time over whenever it
is called, and a task that is blocked may be woken by the tick at any time. So is the priority of a
task, by which its place in an event list is found.

What the calls did and returned is kept in a log. `queue_refines` is the run lemma: the log is one
of a bounded deque, whatever is interleaved with what.
-/

namespace EthIo.Rtos

open EthIo.Base

/-- The two kinds of calls. -/
inductive Side
  | send
  | receive
  deriving DecidableEq

inductive Op
  | xQueueGenericSend (pvItemToQueue : List UInt8) (xCopyPosition : CopyPosition)
  | xQueueGenericReceive (xJustPeeking : Bool)

def Op.side : Op → Side
  | .xQueueGenericSend _ _ => .send
  | .xQueueGenericReceive _ => .receive

/-- What the `configASSERT`s of a call ask for; and, which none of them does, that an item is as
long as the queue has it and that one that is to be overwritten has a size. -/
def Op.Asserted {τ : Type*} (q : Queue_t τ) : Op → Prop
  | .xQueueGenericSend pvItemToQueue xCopyPosition =>
    pvItemToQueue.length = q.uxItemSize ∧
      (xCopyPosition = .queueOVERWRITE → q.uxLength = 1 ∧ q.uxItemSize ≠ 0)
  | .xQueueGenericReceive _ => True

instance {τ : Type*} (q : Queue_t τ) : (op : Op) → Decidable (op.Asserted q)
  | .xQueueGenericSend pvItemToQueue xCopyPosition =>
    inferInstanceAs (Decidable (pvItemToQueue.length = q.uxItemSize ∧
      (xCopyPosition = .queueOVERWRITE → q.uxLength = 1 ∧ q.uxItemSize ≠ 0)))
  | .xQueueGenericReceive _ => inferInstanceAs (Decidable True)

/-- What a task does next in its call. -/
inductive Phase
  | idle
  /-- The first critical section; `xTicksToWait` says whether that is other than 0. -/
  | testing (xTicksToWait : Bool)
  /-- `vTaskSuspendAll`. -/
  | suspending
  /-- `prvLockQueue`. -/
  | locking
  /-- `xTaskCheckForTimeOut`. -/
  | checkingTimeOut
  /-- `prvIsQueueFull` or `prvIsQueueEmpty`. -/
  | testingAgain
  /-- `vTaskPlaceOnEventList`. -/
  | placing
  /-- The two halves of `prvUnlockQueue`, with what `xTaskCheckForTimeOut` has returned. -/
  | unlockingTx (expired : Bool)
  | unlockingRx (expired : Bool)
  /-- `xTaskResumeAll`. -/
  | resuming (expired : Bool)
  /-- `prvIsQueueEmpty` once the time is over. -/
  | givingUp
  deriving DecidableEq

structure QueueTask where
  phase : Phase
  op : Op

structure QueueSys (τ : Type*) where
  q : Queue_t τ
  m : Mem
  task : τ → QueueTask
  /-- The task that has suspended the scheduler. -/
  uxSchedulerSuspended : Option τ
  /-- What the calls have done and returned so far. A send that times out says `errQUEUE_FULL`
  without another look at the queue, and is not in the log. -/
  log : List (DequeEvent (List UInt8))

inductive QueueLabel (τ : Type*)
  | call (t : τ) (op : Op) (xTicksToWait : Bool)
  | run (t : τ)
  | xTaskCheckForTimeOut (t : τ) (xReturn : Bool)
  | vTaskPlaceOnEventList (t : τ) (index : Nat)
  /-- The tick finds the block time of a task over. -/
  | xTaskIncrementTick (t : τ)
  | xQueueGenericSendFromISR (pvItemToQueue : List UInt8) (xCopyPosition : CopyPosition)
  | xQueueGiveFromISR
  | xQueueReceiveFromISR
  | xQueuePeekFromISR

/-- What an item copied in is in the log. -/
def CopyPosition.event (item : List UInt8) : CopyPosition → DequeEvent (List UInt8)
  | .queueSEND_TO_BACK => .pushedBack item
  | .queueSEND_TO_FRONT => .pushedFront item
  | .queueOVERWRITE => .replaced item

/-- What an item copied out is. -/
def outEvent (xJustPeeking : Bool) (item : List UInt8) : DequeEvent (List UInt8) :=
  if xJustPeeking then .looked item else .popped item

/-- The event list of a kind of calls. -/
def Queue_t.waiting {τ : Type*} (q : Queue_t τ) : Side → List τ
  | .send => q.xTasksWaitingToSend
  | .receive => q.xTasksWaitingToReceive

/-- Whether a call of that kind has to wait. -/
def Queue_t.blocks {τ : Type*} (q : Queue_t τ) : Side → Bool
  | .send => q.prvIsQueueFull
  | .receive => q.prvIsQueueEmpty

/-- The task put in its event list. -/
def Queue_t.place {τ : Type*} (q : Queue_t τ) (t : τ) (index : Nat) : Side → Queue_t τ
  | .send => { q with xTasksWaitingToSend := q.xTasksWaitingToSend.insertIdx index t }
  | .receive => { q with xTasksWaitingToReceive := q.xTasksWaitingToReceive.insertIdx index t }

/-! ## Copying, as a deque sees it -/

namespace Queue_t

variable {τ : Type*} {q : Queue_t τ} {m : Mem} {xs : List (List UInt8)} {item : List UInt8}
  {pos : CopyPosition}

/-- An item copied in is one pushed. -/
theorem Holds.copyIn (h : q.Holds m xs) (hop : (Op.xQueueGenericSend item pos).Asserted q)
    (htakes : q.Takes pos) :
    ∃ ys, (q.prvCopyDataToQueue m item pos).1.Holds (q.prvCopyDataToQueue m item pos).2 ys ∧
      (deque q.uxLength).step xs (pos.event item) = some ys := by
  obtain ⟨hitem, hover⟩ := hop
  have hroom (hpos : pos ≠ .queueOVERWRITE) : xs.length < q.uxLength := by
    rw [← h.count]
    exact htakes.resolve_right hpos
  cases pos with
  | queueSEND_TO_BACK =>
    have hlt := hroom CopyPosition.noConfusion
    exact ⟨_, h.back hlt hitem, if_pos hlt⟩
  | queueSEND_TO_FRONT =>
    have hlt := hroom CopyPosition.noConfusion
    exact ⟨_, h.front hlt hitem, if_pos hlt⟩
  | queueOVERWRITE =>
    obtain ⟨hone, hsize⟩ := hover rfl
    exact ⟨_, h.overwrite hone hitem hsize, if_pos hone⟩

/-- Where there is no room, the deque is full. -/
theorem Holds.full (h : q.Holds m xs) (hfull : ¬ q.uxMessagesWaiting < q.uxLength) :
    (deque q.uxLength).step xs .full = some xs := by
  have hroom := h.room
  rw [h.count] at hfull
  exact if_pos (Nat.le_antisymm hroom (Nat.le_of_not_lt hfull))

/-- Where there is no item, it is empty. -/
theorem Holds.empty (h : q.Holds m xs) (hempty : ¬ 0 < q.uxMessagesWaiting) :
    (deque q.uxLength).step xs .empty = some xs := by
  rw [h.count] at hempty
  exact if_pos (Nat.eq_zero_of_not_pos hempty)

/-- Where there is an item, there is one in front. -/
theorem Holds.exists_cons (h : q.Holds m xs) (hpos : 0 < q.uxMessagesWaiting) :
    ∃ x ys, xs = x :: ys := by
  rw [h.count] at hpos
  exact List.exists_cons_of_length_pos hpos

/-- An item copied out is the one popped. -/
theorem Holds.copyOut (h : q.Holds m xs) (hpos : 0 < q.uxMessagesWaiting) :
    ∃ ys, { (q.prvCopyDataFromQueue m).1 with
        uxMessagesWaiting := q.uxMessagesWaiting - 1 }.Holds m ys ∧
      (deque q.uxLength).step xs (.popped (q.prvCopyDataFromQueue m).2) = some ys := by
  obtain ⟨x, ys, rfl⟩ := h.exists_cons hpos
  obtain ⟨hx, hys⟩ := h.receive
  exact ⟨ys, hys, by rw [hx]; exact if_pos rfl⟩

/-- An item copied out, with the pointer put back, is the one in front. -/
theorem Holds.copyLook (h : q.Holds m xs) (hpos : 0 < q.uxMessagesWaiting) :
    { (q.prvCopyDataFromQueue m).1 with pcReadFrom := q.pcReadFrom }.Holds m xs ∧
      (deque q.uxLength).step xs (.looked (q.prvCopyDataFromQueue m).2) = some xs := by
  obtain ⟨x, ys, rfl⟩ := h.exists_cons hpos
  obtain ⟨hx, hys⟩ := h.peek
  exact ⟨hys, by rw [hx]; exact if_pos rfl⟩

end Queue_t

/-- A new queue, and nobody in a call. -/
def QueueSys.start {τ : Type*} (q : Queue_t τ) (m : Mem) : QueueSys τ where
  q := q.xQueueGenericReset true
  m := m
  task _ := ⟨.idle, .xQueueGenericReceive false⟩
  uxSchedulerSuspended := none
  log := []

/-! ## The invariant -/

/-- Every task's call is one the `configASSERT`s let pass, and the queue has the items the log
leaves in a deque. -/
structure DequeInv {τ : Type*} (s : QueueSys τ) : Prop where
  asserted : ∀ t, (s.task t).phase ≠ .idle → (s.task t).op.Asserted s.q
  holds : ∃ xs, s.q.Holds s.m xs ∧ (deque s.q.uxLength).exec [] s.log = some xs

section

variable {τ : Type*} {s s' : QueueSys τ}

theorem Op.Asserted.congr {q q' : Queue_t τ} {op : Op} (h : op.Asserted q)
    (hlength : q'.uxLength = q.uxLength) (hsize : q'.uxItemSize = q.uxItemSize) :
    op.Asserted q' := by
  cases op with
  | xQueueGenericSend item pos =>
    obtain ⟨hitem, hover⟩ := h
    exact ⟨hitem.trans hsize.symm, fun hpos => ⟨hlength.trans (hover hpos).1,
      hsize.trans_ne (hover hpos).2⟩⟩
  | xQueueGenericReceive peek => trivial

/-- A step that leaves the ring and the log. -/
theorem DequeInv.same (I : DequeInv s) (hq : s.q.SameRing s'.q) (hm : s'.m = s.m)
    (hlog : s'.log = s.log)
    (hops : ∀ u, (s'.task u).phase ≠ .idle → (s'.task u).op.Asserted s.q) : DequeInv s' where
  asserted u hu := (hops u hu).congr hq.uxLength hq.uxItemSize
  holds := by
    obtain ⟨xs, hxs, hexec⟩ := I.holds
    rw [hm, hlog, hq.uxLength]
    exact ⟨xs, hxs.congr hq, hexec⟩

/-- A step that is one event of the deque. -/
theorem DequeInv.event {e : DequeEvent (List UInt8)} (I : DequeInv s)
    (hlength : s'.q.uxLength = s.q.uxLength) (hsize : s'.q.uxItemSize = s.q.uxItemSize)
    (hlog : s'.log = s.log ++ [e])
    (hops : ∀ u, (s'.task u).phase ≠ .idle → (s'.task u).op.Asserted s.q)
    (hev : ∀ xs, s.q.Holds s.m xs →
      ∃ ys, s'.q.Holds s'.m ys ∧ (deque s.q.uxLength).step xs e = some ys) : DequeInv s' where
  asserted u hu := (hops u hu).congr hlength hsize
  holds := by
    obtain ⟨xs, hxs, hexec⟩ := I.holds
    obtain ⟨ys, hys, hstep⟩ := hev xs hxs
    rw [hlog, hlength]
    exact ⟨ys, hys, deque_snoc hexec hstep⟩

theorem noteSent_sameRing (q : Queue_t τ) : q.SameRing q.noteSent := by
  unfold Queue_t.noteSent
  split <;> exact ⟨rfl, rfl, rfl, rfl, rfl, rfl, rfl⟩

theorem noteReceived_sameRing (q : Queue_t τ) : q.SameRing q.noteReceived := by
  unfold Queue_t.noteReceived
  split <;> exact ⟨rfl, rfl, rfl, rfl, rfl, rfl, rfl⟩

/-- A new queue holds what no event leaves in a deque. -/
theorem dequeInv_start {q : Queue_t τ} (hlength : 0 < q.uxLength)
    (below : q.uxItemSize ≤ q.pcHead) (fits : q.pcHead + q.uxLength * q.uxItemSize ≤ 2 ^ 32)
    (m : Mem) : DequeInv (QueueSys.start q m) where
  asserted _ h := absurd rfl h
  holds := ⟨[], Queue_t.holds_reset hlength below fits m, rfl⟩

end

/-! ## The calls -/

section

variable {τ : Type*} [DecidableEq τ]

namespace QueueSys

variable (s : QueueSys τ)

/-- Whether a task can be the one that runs. -/
def Running (t : τ) : Prop :=
  s.uxSchedulerSuspended = some t ∨ s.uxSchedulerSuspended = none ∧
    t ∉ s.q.xTasksWaitingToSend ∧ t ∉ s.q.xTasksWaitingToReceive

instance (t : τ) : Decidable (s.Running t) := inferInstanceAs (Decidable (_ ∨ _ ∧ _))

/-- A task goes on to a phase of its call. -/
def goes (t : τ) (phase : Phase) : QueueSys τ :=
  { s with task := Function.update s.task t { s.task t with phase := phase } }

/-- The next step of a task, where there is one that nothing but the queue decides. -/
def run (t : τ) : Option (QueueSys τ) :=
  match (s.task t).phase with
  | .idle | .checkingTimeOut | .placing => none
  | .testing xTicksToWait =>
    match (s.task t).op with
    | .xQueueGenericSend pvItemToQueue xCopyPosition =>
      match s.q.xQueueGenericSend s.m pvItemToQueue xCopyPosition with
      | some (q, m) =>
        some
          { s.goes t .idle with
            q := q
            m := m
            log := s.log ++ [xCopyPosition.event pvItemToQueue] }
      | none =>
        if xTicksToWait then some (s.goes t .suspending)
        else some { s.goes t .idle with log := s.log ++ [.full] }
    | .xQueueGenericReceive xJustPeeking =>
      match s.q.xQueueGenericReceive s.m xJustPeeking with
      | some (q, item) =>
        some { s.goes t .idle with q := q, log := s.log ++ [outEvent xJustPeeking item] }
      | none =>
        if xTicksToWait then some (s.goes t .suspending)
        else some { s.goes t .idle with log := s.log ++ [.empty] }
  | .suspending => some { s.goes t .locking with uxSchedulerSuspended := some t }
  | .locking => some { s.goes t .checkingTimeOut with q := s.q.prvLockQueue }
  | .testingAgain =>
    some (s.goes t (if s.q.blocks (s.task t).op.side then .placing else .unlockingTx false))
  | .unlockingTx expired => some { s.goes t (.unlockingRx expired) with q := s.q.unlockTx }
  | .unlockingRx expired => some { s.goes t (.resuming expired) with q := s.q.unlockRx }
  | .resuming expired =>
    let phase :=
      match expired, (s.task t).op with
      | false, _ => .testing true
      | true, .xQueueGenericSend _ _ => .idle
      | true, .xQueueGenericReceive _ => .givingUp
    some { s.goes t phase with uxSchedulerSuspended := none }
  | .givingUp =>
    if s.q.prvIsQueueEmpty then some { s.goes t .idle with log := s.log ++ [.empty] }
    else some (s.goes t (.testing true))

def step : QueueLabel τ → Option (QueueSys τ)
  | .call t op xTicksToWait =>
    if s.Running t ∧ (s.task t).phase = .idle ∧ op.Asserted s.q then
      some { s with task := Function.update s.task t ⟨.testing xTicksToWait, op⟩ }
    else none
  | .run t => if s.Running t then s.run t else none
  | .xTaskCheckForTimeOut t xReturn =>
    if s.Running t ∧ (s.task t).phase = .checkingTimeOut then
      some (s.goes t (if xReturn then .unlockingTx true else .testingAgain))
    else none
  | .vTaskPlaceOnEventList t index =>
    if s.Running t ∧ (s.task t).phase = .placing ∧
        index ≤ (s.q.waiting (s.task t).op.side).length then
      some { s.goes t (.unlockingTx false) with q := s.q.place t index (s.task t).op.side }
    else none
  | .xTaskIncrementTick t =>
    if s.uxSchedulerSuspended = none then
      some
        { s with
          q :=
            { s.q with
              xTasksWaitingToSend := s.q.xTasksWaitingToSend.erase t
              xTasksWaitingToReceive := s.q.xTasksWaitingToReceive.erase t } }
    else none
  | .xQueueGenericSendFromISR pvItemToQueue xCopyPosition =>
    if (Op.xQueueGenericSend pvItemToQueue xCopyPosition).Asserted s.q then
      match s.q.xQueueGenericSendFromISR s.m pvItemToQueue xCopyPosition with
      | some (q, m) =>
        some { s with q := q, m := m, log := s.log ++ [xCopyPosition.event pvItemToQueue] }
      | none => some { s with log := s.log ++ [.full] }
    else none
  | .xQueueGiveFromISR =>
    if s.q.uxItemSize = 0 then
      match s.q.xQueueGiveFromISR with
      | some q => some { s with q := q, log := s.log ++ [.pushedBack []] }
      | none => some { s with log := s.log ++ [.full] }
    else none
  | .xQueueReceiveFromISR =>
    match s.q.xQueueReceiveFromISR s.m with
    | some (q, item) => some { s with q := q, log := s.log ++ [.popped item] }
    | none => some { s with log := s.log ++ [.empty] }
  | .xQueuePeekFromISR =>
    match s.q.xQueuePeekFromISR s.m with
    | some (q, item) => some { s with q := q, log := s.log ++ [.looked item] }
    | none => some { s with log := s.log ++ [.empty] }

end QueueSys

/-- A queue with its callers. -/
def queueSys (τ : Type*) [DecidableEq τ] : Machine (QueueSys τ) (QueueLabel τ) := ⟨QueueSys.step⟩

/-! ## The run -/

section Inv

variable {s s' : QueueSys τ} {t : τ} {a : QueueLabel τ}

/-- A task that goes on in its call. -/
theorem DequeInv.goes_asserted (I : DequeInv s) (ht : (s.task t).phase ≠ .idle) (phase : Phase) :
    ∀ u, ((s.goes t phase).task u).phase ≠ .idle →
      ((s.goes t phase).task u).op.Asserted s.q := by
  intro u hu
  simp only [QueueSys.goes] at hu ⊢
  by_cases hut : u = t
  · subst hut
    rw [Function.update_self]
    exact I.asserted u ht
  · rw [Function.update_of_ne hut] at hu ⊢
    exact I.asserted u hu

/-- The first critical section of a call. -/
theorem DequeInv.testing {w : Bool} (I : DequeInv s) (hphase : (s.task t).phase = .testing w)
    (hrun : s.run t = some s') : DequeInv s' := by
  have ht : (s.task t).phase ≠ .idle := by
    rw [hphase]
    exact Phase.noConfusion
  simp only [QueueSys.run, hphase] at hrun
  cases hop : (s.task t).op with
  | xQueueGenericSend item pos =>
    have hasserted := I.asserted t ht
    rw [hop] at hasserted
    by_cases htakes : s.q.Takes pos
    · simp only [hop, Queue_t.xQueueGenericSend, if_pos htakes] at hrun
      cases hrun
      refine I.event ?_ ?_ rfl (I.goes_asserted ht _) fun xs hxs => ?_
      · exact Queue_t.prvCopyDataToQueue_uxLength s.q s.m item pos
      · exact Queue_t.prvCopyDataToQueue_uxItemSize s.q s.m item pos
      · obtain ⟨ys, hys, hstep⟩ := hxs.copyIn hasserted htakes
        exact ⟨ys, hys.congr ⟨rfl, rfl, rfl, rfl, rfl, rfl, rfl⟩, hstep⟩
    · simp only [hop, Queue_t.xQueueGenericSend, if_neg htakes] at hrun
      cases w with
      | true =>
        cases hrun
        exact I.same ⟨rfl, rfl, rfl, rfl, rfl, rfl, rfl⟩ rfl rfl (I.goes_asserted ht _)
      | false =>
        cases hrun
        exact I.event rfl rfl rfl (I.goes_asserted ht _) fun xs hxs =>
          ⟨xs, hxs, hxs.full fun hlt => htakes (.inl hlt)⟩
  | xQueueGenericReceive peek =>
    by_cases hpos : s.q.uxMessagesWaiting > 0
    · simp only [hop, Queue_t.xQueueGenericReceive, if_pos hpos] at hrun
      cases peek with
      | true =>
        cases hrun
        refine I.event ?_ ?_ rfl (I.goes_asserted ht _) fun xs hxs => ?_
        · exact Queue_t.prvCopyDataFromQueue_uxLength s.q s.m
        · exact Queue_t.prvCopyDataFromQueue_uxItemSize s.q s.m
        · obtain ⟨hys, hstep⟩ := hxs.copyLook hpos
          exact ⟨xs, hys.congr ⟨rfl, rfl, rfl, rfl, rfl, rfl, rfl⟩, hstep⟩
      | false =>
        cases hrun
        refine I.event ?_ ?_ rfl (I.goes_asserted ht _) fun xs hxs => ?_
        · exact Queue_t.prvCopyDataFromQueue_uxLength s.q s.m
        · exact Queue_t.prvCopyDataFromQueue_uxItemSize s.q s.m
        · obtain ⟨ys, hys, hstep⟩ := hxs.copyOut hpos
          exact ⟨ys, hys.congr ⟨rfl, rfl, rfl, rfl, rfl, rfl, rfl⟩, hstep⟩
    · simp only [hop, Queue_t.xQueueGenericReceive, if_neg hpos] at hrun
      cases w with
      | true =>
        cases hrun
        exact I.same ⟨rfl, rfl, rfl, rfl, rfl, rfl, rfl⟩ rfl rfl (I.goes_asserted ht _)
      | false =>
        cases hrun
        exact I.event rfl rfl rfl (I.goes_asserted ht _) fun xs hxs => ⟨xs, hxs, hxs.empty hpos⟩

theorem DequeInv.run (I : DequeInv s) (hrun : s.run t = some s') : DequeInv s' := by
  have hring (q : Queue_t τ) : q.SameRing q := ⟨rfl, rfl, rfl, rfl, rfl, rfl, rfl⟩
  cases hphase : (s.task t).phase with
  | testing w => exact I.testing hphase hrun
  | idle | checkingTimeOut | placing =>
    simp only [QueueSys.run, hphase] at hrun
    cases hrun
  | suspending | testingAgain | resuming e =>
    have ht : (s.task t).phase ≠ .idle := by
      rw [hphase]
      exact Phase.noConfusion
    simp only [QueueSys.run, hphase] at hrun
    cases hrun
    exact I.same (hring _) rfl rfl (I.goes_asserted ht _)
  | locking | unlockingTx e | unlockingRx e =>
    have ht : (s.task t).phase ≠ .idle := by
      rw [hphase]
      exact Phase.noConfusion
    simp only [QueueSys.run, hphase] at hrun
    cases hrun
    exact I.same ⟨rfl, rfl, rfl, rfl, rfl, rfl, rfl⟩ rfl rfl (I.goes_asserted ht _)
  | givingUp =>
    have ht : (s.task t).phase ≠ .idle := by
      rw [hphase]
      exact Phase.noConfusion
    simp only [QueueSys.run, hphase, Queue_t.prvIsQueueEmpty, beq_iff_eq] at hrun
    split at hrun
    next hempty =>
      cases hrun
      exact I.event rfl rfl rfl (I.goes_asserted ht _) fun xs hxs =>
        ⟨xs, hxs, hxs.empty (Nat.not_lt.mpr hempty.le)⟩
    next =>
      cases hrun
      exact I.same (hring _) rfl rfl (I.goes_asserted ht _)

/-- **The step lemma.** -/
theorem DequeInv.step (I : DequeInv s) (hstep : s.step a = some s') : DequeInv s' := by
  have hring (q : Queue_t τ) : q.SameRing q := ⟨rfl, rfl, rfl, rfl, rfl, rfl, rfl⟩
  cases a with
  | call t op w =>
    simp only [QueueSys.step] at hstep
    split at hstep
    next hcond =>
      cases hstep
      refine I.same (hring _) rfl rfl fun u hu => ?_
      by_cases hut : u = t
      · subst hut
        dsimp only
        rw [Function.update_self]
        exact hcond.2.2
      · dsimp only at hu ⊢
        rw [Function.update_of_ne hut] at hu ⊢
        exact I.asserted u hu
    next => cases hstep
  | run t =>
    simp only [QueueSys.step] at hstep
    split at hstep
    next => exact I.run hstep
    next => cases hstep
  | xTaskCheckForTimeOut t xReturn =>
    simp only [QueueSys.step] at hstep
    split at hstep
    next hcond =>
      cases hstep
      have ht : (s.task t).phase ≠ .idle := hcond.2.trans_ne Phase.noConfusion
      exact I.same (hring _) rfl rfl (I.goes_asserted ht _)
    next => cases hstep
  | vTaskPlaceOnEventList t index =>
    simp only [QueueSys.step] at hstep
    split at hstep
    next hcond =>
      cases hstep
      have ht : (s.task t).phase ≠ .idle := hcond.2.1.trans_ne Phase.noConfusion
      refine I.same ?_ rfl rfl (I.goes_asserted ht _)
      cases (s.task t).op.side <;> exact ⟨rfl, rfl, rfl, rfl, rfl, rfl, rfl⟩
    next => cases hstep
  | xTaskIncrementTick t =>
    simp only [QueueSys.step] at hstep
    split at hstep
    next =>
      cases hstep
      exact I.same ⟨rfl, rfl, rfl, rfl, rfl, rfl, rfl⟩ rfl rfl I.asserted
    next => cases hstep
  | xQueueGenericSendFromISR item pos =>
    simp only [QueueSys.step] at hstep
    split at hstep
    next hop =>
      by_cases htakes : s.q.Takes pos
      · simp only [Queue_t.xQueueGenericSendFromISR, if_pos htakes] at hstep
        cases hstep
        have hnote := noteSent_sameRing (s.q.prvCopyDataToQueue s.m item pos).1
        refine I.event (hnote.uxLength.trans ?_) (hnote.uxItemSize.trans ?_) rfl I.asserted
          fun xs hxs => ?_
        · exact Queue_t.prvCopyDataToQueue_uxLength s.q s.m item pos
        · exact Queue_t.prvCopyDataToQueue_uxItemSize s.q s.m item pos
        · obtain ⟨ys, hys, hev⟩ := hxs.copyIn hop htakes
          exact ⟨ys, hys.congr hnote, hev⟩
      · simp only [Queue_t.xQueueGenericSendFromISR, if_neg htakes] at hstep
        cases hstep
        exact I.event rfl rfl rfl I.asserted fun xs hxs =>
          ⟨xs, hxs, hxs.full fun hlt => htakes (.inl hlt)⟩
    next => cases hstep
  | xQueueGiveFromISR =>
    simp only [QueueSys.step] at hstep
    split at hstep
    next hsize =>
      by_cases hroom : s.q.uxMessagesWaiting < s.q.uxLength
      · simp only [Queue_t.xQueueGiveFromISR, if_pos hroom] at hstep
        cases hstep
        have hnote := noteSent_sameRing
          { s.q with uxMessagesWaiting := s.q.uxMessagesWaiting + 1 }
        refine I.event hnote.uxLength hnote.uxItemSize rfl I.asserted fun xs hxs => ?_
        -- a give is a send of no bytes to the back
        have hgive : (Op.xQueueGenericSend [] .queueSEND_TO_BACK).Asserted s.q :=
          ⟨hsize.symm, fun h => CopyPosition.noConfusion h⟩
        obtain ⟨ys, hys, hev⟩ := hxs.copyIn hgive (.inl hroom)
        rw [Queue_t.prvCopyDataToQueue, if_pos hsize] at hys
        exact ⟨ys, hys.congr hnote, hev⟩
      · simp only [Queue_t.xQueueGiveFromISR, if_neg hroom] at hstep
        cases hstep
        exact I.event rfl rfl rfl I.asserted fun xs hxs => ⟨xs, hxs, hxs.full hroom⟩
    next => cases hstep
  | xQueueReceiveFromISR =>
    by_cases hpos : s.q.uxMessagesWaiting > 0
    · simp only [QueueSys.step, Queue_t.xQueueReceiveFromISR, if_pos hpos] at hstep
      cases hstep
      have hnote := noteReceived_sameRing
        { (s.q.prvCopyDataFromQueue s.m).1 with uxMessagesWaiting := s.q.uxMessagesWaiting - 1 }
      refine I.event (hnote.uxLength.trans ?_) (hnote.uxItemSize.trans ?_) rfl I.asserted
        fun xs hxs => ?_
      · exact Queue_t.prvCopyDataFromQueue_uxLength s.q s.m
      · exact Queue_t.prvCopyDataFromQueue_uxItemSize s.q s.m
      · obtain ⟨ys, hys, hev⟩ := hxs.copyOut hpos
        exact ⟨ys, hys.congr hnote, hev⟩
    · simp only [QueueSys.step, Queue_t.xQueueReceiveFromISR, if_neg hpos] at hstep
      cases hstep
      exact I.event rfl rfl rfl I.asserted fun xs hxs => ⟨xs, hxs, hxs.empty hpos⟩
  | xQueuePeekFromISR =>
    by_cases hpos : s.q.uxMessagesWaiting > 0
    · simp only [QueueSys.step, Queue_t.xQueuePeekFromISR, if_pos hpos] at hstep
      cases hstep
      refine I.event ?_ ?_ rfl I.asserted fun xs hxs => ⟨xs, hxs.copyLook hpos⟩
      · exact Queue_t.prvCopyDataFromQueue_uxLength s.q s.m
      · exact Queue_t.prvCopyDataFromQueue_uxItemSize s.q s.m
    · simp only [QueueSys.step, Queue_t.xQueuePeekFromISR, if_neg hpos] at hstep
      cases hstep
      exact I.event rfl rfl rfl I.asserted fun xs hxs => ⟨xs, hxs, hxs.empty hpos⟩

end Inv

/-- **A queue is a bounded deque, over every interleaving.** Wherever a run has got to, the ring
holds what the log leaves in a deque of `uxLength` items. So what came out is, with what is still
there, what went in, each item once and byte for byte; and in the order it went in, if all of it was
sent to the back. -/
theorem queue_refines (q : Queue_t τ) (m : Mem) (hlength : 0 < q.uxLength)
    (below : q.uxItemSize ≤ q.pcHead) (fits : q.pcHead + q.uxLength * q.uxItemSize ≤ 2 ^ 32)
    (as : List (QueueLabel τ)) :
    (queueSys τ).Always (fun s => ∃ xs, s.q.Holds s.m xs ∧
      (deque s.q.uxLength).exec [] s.log = some xs ∧
      ((∀ e ∈ s.log, e.backed = true) → pushes s.log = pops s.log ++ xs) ∧
      ((∀ e ∈ s.log, e.keeping = true) → (pushes s.log).Perm (pops s.log ++ xs)))
      (QueueSys.start q m) as := by
  refine (Machine.always_iff_visited.mpr fun pre _ s' hs' => ?_)
  have I : DequeInv s' := Machine.invariant (m := queueSys τ) (fun s a s' I hstep => I.step hstep)
    (dequeInv_start hlength below fits m) ⟨pre, hs'⟩
  obtain ⟨xs, hxs, hexec⟩ := I.holds
  exact ⟨xs, hxs, hexec, deque_fifo hexec, deque_perm hexec⟩

/-- A task waits for an item, another sends one, and the tick interrupt sends one as the first is
on its way. -/
def someQueueCalls : List (QueueLabel (Fin 2)) :=
  [.call 0 (.xQueueGenericReceive false) true, .run 0, .run 0, .run 0,
    .xTaskCheckForTimeOut 0 false, .run 0, .vTaskPlaceOnEventList 0 0, .run 0, .run 0, .run 0,
    .call 1 (.xQueueGenericSend [1, 2] .queueSEND_TO_BACK) true, .run 1,
    .xQueueGenericSendFromISR [3, 4] .queueSEND_TO_BACK, .run 0, .xQueueReceiveFromISR]

/-- A queue for three items of two bytes. -/
def someQueue {τ : Type*} : Queue_t τ :=
  ⟨0x20000100, 0, 0, 0, [], [], 0, 3, 2, 0, 0⟩

theorem queue_refines_some_calls :
    ((queueSys (Fin 2)).exec (.start someQueue fun _ => 0) someQueueCalls).map (·.log) =
        some [.pushedBack [1, 2], .pushedBack [3, 4], .popped [1, 2], .popped [3, 4]] ∧
      (queueSys (Fin 2)).Always (fun s => ∃ xs, s.q.Holds s.m xs ∧
        (deque s.q.uxLength).exec [] s.log = some xs ∧
        ((∀ e ∈ s.log, e.backed = true) → pushes s.log = pops s.log ++ xs) ∧
        ((∀ e ∈ s.log, e.keeping = true) → (pushes s.log).Perm (pops s.log ++ xs)))
        (.start someQueue fun _ => 0) someQueueCalls :=
  ⟨rfl, queue_refines someQueue _ (by decide) (by decide) (by decide) someQueueCalls⟩

end

end EthIo.Rtos
