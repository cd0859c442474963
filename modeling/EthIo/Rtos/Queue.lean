import EthIo.Base.Memory
import EthIo.Base.Ring

/-!
# The queues of `queue.c`

A queue has its items in a ring of `uxLength` cells of `uxItemSize` bytes. `pcWriteTo` is the cell
the next item sent to the back goes to; `pcReadFrom` is the cell of the item that was read last, so
the item to be read next stands in the cell behind it, and an item sent to the front goes to
`pcReadFrom` itself. A queue with items of no bytes is a semaphore and only counts.

Tasks that wait stand in the two event lists, the one to be woken first in front. While a task has
the queue locked, interrupts leave the lists alone and count in `cTxLock` and `cRxLock` instead; the
counts are `int8_t`.

Here are the functions and the critical sections of which the calls are made. In
`EthIo.Rtos.QueueCalls` they are put together, for any number of tasks and the interrupts.
-/

namespace EthIo.Rtos

open EthIo.Base

def queueUNLOCKED : Int8 := -1

def queueLOCKED_UNMODIFIED : Int8 := 0

/-- Where an item goes. -/
inductive CopyPosition
  | queueSEND_TO_BACK
  | queueSEND_TO_FRONT
  | queueOVERWRITE
  deriving DecidableEq

structure Queue_t (τ : Type*) where
  pcHead : Nat
  pcTail : Nat
  pcWriteTo : Nat
  pcReadFrom : Nat
  xTasksWaitingToSend : List τ
  xTasksWaitingToReceive : List τ
  uxMessagesWaiting : Nat
  uxLength : Nat
  uxItemSize : Nat
  cRxLock : Int8
  cTxLock : Int8

variable {τ : Type*}

/-- A 32-bit pointer moved back by `n` bytes. -/
def movedBack (p n : Nat) : Nat := (p + (2 ^ 32 - n)) % 2 ^ 32

namespace Queue_t

variable (q : Queue_t τ) (m : Mem)

/-- `xQueueGenericReset`. Of the tasks that wait to send to a queue in use, one is woken. -/
def xQueueGenericReset (xNewQueue : Bool) : Queue_t τ :=
  { q with
    pcTail := q.pcHead + q.uxLength * q.uxItemSize
    uxMessagesWaiting := 0
    pcWriteTo := q.pcHead
    pcReadFrom := q.pcHead + (q.uxLength - 1) * q.uxItemSize
    cRxLock := queueUNLOCKED
    cTxLock := queueUNLOCKED
    xTasksWaitingToSend := if xNewQueue then [] else q.xTasksWaitingToSend.tail
    xTasksWaitingToReceive := if xNewQueue then [] else q.xTasksWaitingToReceive }

/-- An item copied in, and the pointer moved on. -/
def prvCopyDataToQueue (pvItemToQueue : List UInt8) (xPosition : CopyPosition) :
    Queue_t τ × Mem :=
  if q.uxItemSize = 0 then ({ q with uxMessagesWaiting := q.uxMessagesWaiting + 1 }, m)
  else if xPosition = .queueSEND_TO_BACK then
    let pcWriteTo := q.pcWriteTo + q.uxItemSize
    ({ q with
        pcWriteTo := if pcWriteTo ≥ q.pcTail then q.pcHead else pcWriteTo
        uxMessagesWaiting := q.uxMessagesWaiting + 1 },
      m.write q.pcWriteTo (pvItemToQueue.take q.uxItemSize))
  else
    let pcReadFrom := movedBack q.pcReadFrom q.uxItemSize
    ({ q with
        pcReadFrom := if pcReadFrom < q.pcHead then q.pcTail - q.uxItemSize else pcReadFrom
        uxMessagesWaiting :=
          if xPosition = .queueOVERWRITE ∧ q.uxMessagesWaiting > 0 then
            q.uxMessagesWaiting - 1 + 1
          else q.uxMessagesWaiting + 1 },
      m.write q.pcReadFrom (pvItemToQueue.take q.uxItemSize))

/-- The pointer moved on, and the bytes copied out. -/
def prvCopyDataFromQueue : Queue_t τ × List UInt8 :=
  if q.uxItemSize ≠ 0 then
    let pcReadFrom := q.pcReadFrom + q.uxItemSize
    let pcReadFrom := if pcReadFrom ≥ q.pcTail then q.pcHead else pcReadFrom
    ({ q with pcReadFrom := pcReadFrom }, m.read pcReadFrom q.uxItemSize)
  else (q, [])

/-- What copying in changes: one item more, unless one is overwritten. -/
theorem prvCopyDataToQueue_spec (item : List UInt8) (xPosition : CopyPosition) :
    ∃ w r n, (q.prvCopyDataToQueue m item xPosition).1 =
        { q with pcWriteTo := w, pcReadFrom := r, uxMessagesWaiting := n } ∧
      (n = q.uxMessagesWaiting + 1 ∨
        xPosition = .queueOVERWRITE ∧ 0 < q.uxMessagesWaiting ∧ n = q.uxMessagesWaiting) := by
  unfold prvCopyDataToQueue
  by_cases hsize : q.uxItemSize = 0
  · rw [if_pos hsize]
    exact ⟨q.pcWriteTo, q.pcReadFrom, _, rfl, .inl rfl⟩
  · rw [if_neg hsize]
    by_cases hback : xPosition = .queueSEND_TO_BACK
    · rw [if_pos hback]
      exact ⟨_, q.pcReadFrom, _, rfl, .inl rfl⟩
    · rw [if_neg hback]
      by_cases hover : xPosition = .queueOVERWRITE ∧ q.uxMessagesWaiting > 0
      · rw [if_pos hover]
        exact ⟨q.pcWriteTo, _, _, rfl, .inr ⟨hover.1, hover.2, Nat.sub_add_cancel hover.2⟩⟩
      · rw [if_neg hover]
        exact ⟨q.pcWriteTo, _, _, rfl, .inl rfl⟩

/-- What copying out changes. -/
theorem prvCopyDataFromQueue_spec :
    ∃ r, (q.prvCopyDataFromQueue m).1 = { q with pcReadFrom := r } := by
  unfold prvCopyDataFromQueue
  by_cases hsize : q.uxItemSize ≠ 0
  · exact ⟨_, by rw [if_pos hsize]⟩
  · exact ⟨q.pcReadFrom, by rw [if_neg hsize]⟩

@[simp] theorem prvCopyDataToQueue_uxLength (item : List UInt8) (xPosition : CopyPosition) :
    (q.prvCopyDataToQueue m item xPosition).1.uxLength = q.uxLength := by
  obtain ⟨w, r, n, hcopy, -⟩ := q.prvCopyDataToQueue_spec m item xPosition
  rw [hcopy]

@[simp] theorem prvCopyDataToQueue_uxItemSize (item : List UInt8) (xPosition : CopyPosition) :
    (q.prvCopyDataToQueue m item xPosition).1.uxItemSize = q.uxItemSize := by
  obtain ⟨w, r, n, hcopy, -⟩ := q.prvCopyDataToQueue_spec m item xPosition
  rw [hcopy]

@[simp] theorem prvCopyDataFromQueue_uxLength :
    (q.prvCopyDataFromQueue m).1.uxLength = q.uxLength := by
  obtain ⟨r, hcopy⟩ := q.prvCopyDataFromQueue_spec m
  rw [hcopy]

@[simp] theorem prvCopyDataFromQueue_uxItemSize :
    (q.prvCopyDataFromQueue m).1.uxItemSize = q.uxItemSize := by
  obtain ⟨r, hcopy⟩ := q.prvCopyDataFromQueue_spec m
  rw [hcopy]

/-- The first task that waits to receive is woken, if there is one. -/
def wakeReceiver : Queue_t τ :=
  { q with xTasksWaitingToReceive := q.xTasksWaitingToReceive.tail }

/-- The first task that waits to send. -/
def wakeSender : Queue_t τ := { q with xTasksWaitingToSend := q.xTasksWaitingToSend.tail }

/-- Whether there is room, or the item is to be overwritten. -/
def Takes (xCopyPosition : CopyPosition) : Prop :=
  q.uxMessagesWaiting < q.uxLength ∨ xCopyPosition = .queueOVERWRITE

instance (xCopyPosition : CopyPosition) : Decidable (q.Takes xCopyPosition) :=
  inferInstanceAs (Decidable (_ ∨ _))

/-! ## Critical sections -/

/-- The first critical section of `xQueueGenericSend`; none where the queue is full. -/
def xQueueGenericSend (pvItemToQueue : List UInt8) (xCopyPosition : CopyPosition) :
    Option (Queue_t τ × Mem) :=
  if q.Takes xCopyPosition then
    let r := q.prvCopyDataToQueue m pvItemToQueue xCopyPosition
    some (r.1.wakeReceiver, r.2)
  else none

/-- The first critical section of `xQueueGenericReceive`; none where the queue is empty. -/
def xQueueGenericReceive (xJustPeeking : Bool) : Option (Queue_t τ × List UInt8) :=
  if q.uxMessagesWaiting > 0 then
    let r := q.prvCopyDataFromQueue m
    if xJustPeeking then some ({ r.1 with pcReadFrom := q.pcReadFrom }.wakeReceiver, r.2)
    else some ({ r.1 with uxMessagesWaiting := q.uxMessagesWaiting - 1 }.wakeSender, r.2)
  else none

/-- What an interrupt that has sent does for the tasks that wait. -/
def noteSent : Queue_t τ :=
  if q.cTxLock = queueUNLOCKED then q.wakeReceiver else { q with cTxLock := q.cTxLock + 1 }

/-- What an interrupt that has received does for them. -/
def noteReceived : Queue_t τ :=
  if q.cRxLock = queueUNLOCKED then q.wakeSender else { q with cRxLock := q.cRxLock + 1 }

def xQueueGenericSendFromISR (pvItemToQueue : List UInt8) (xCopyPosition : CopyPosition) :
    Option (Queue_t τ × Mem) :=
  if q.Takes xCopyPosition then
    let r := q.prvCopyDataToQueue m pvItemToQueue xCopyPosition
    some (r.1.noteSent, r.2)
  else none

def xQueueGiveFromISR : Option (Queue_t τ) :=
  if q.uxMessagesWaiting < q.uxLength then
    some { q with uxMessagesWaiting := q.uxMessagesWaiting + 1 }.noteSent
  else none

def xQueueReceiveFromISR : Option (Queue_t τ × List UInt8) :=
  if q.uxMessagesWaiting > 0 then
    let r := q.prvCopyDataFromQueue m
    some ({ r.1 with uxMessagesWaiting := q.uxMessagesWaiting - 1 }.noteReceived, r.2)
  else none

def xQueuePeekFromISR : Option (Queue_t τ × List UInt8) :=
  if q.uxMessagesWaiting > 0 then
    let r := q.prvCopyDataFromQueue m
    some ({ r.1 with pcReadFrom := q.pcReadFrom }, r.2)
  else none

def prvLockQueue : Queue_t τ :=
  { q with
    cRxLock := if q.cRxLock = queueUNLOCKED then queueLOCKED_UNMODIFIED else q.cRxLock
    cTxLock := if q.cTxLock = queueUNLOCKED then queueLOCKED_UNMODIFIED else q.cTxLock }

/-- The `while` loops of `prvUnlockQueue`: a task woken for each item, as long as any waits. -/
def wakeFor : Nat → List τ → List τ
  | 0, ts => ts
  | _ + 1, [] => []
  | n + 1, _ :: ts => wakeFor n ts

/-- How far a lock count is above `queueLOCKED_UNMODIFIED`. -/
def noted (cLock : Int8) : Nat := cLock.toInt.toNat

/-- The first half of `prvUnlockQueue`. -/
def unlockTx : Queue_t τ :=
  { q with
    xTasksWaitingToReceive := wakeFor (noted q.cTxLock) q.xTasksWaitingToReceive
    cTxLock := queueUNLOCKED }

/-- The second half. -/
def unlockRx : Queue_t τ :=
  { q with
    xTasksWaitingToSend := wakeFor (noted q.cRxLock) q.xTasksWaitingToSend
    cRxLock := queueUNLOCKED }

def prvIsQueueEmpty : Bool := q.uxMessagesWaiting == 0

def prvIsQueueFull : Bool := q.uxMessagesWaiting == q.uxLength

end Queue_t

end EthIo.Rtos
