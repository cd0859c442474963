import Mathlib.Logic.Function.Basic
import EthIo.Base.Machine
import EthIo.Config.Reboot

/-!
# The debug UART: printing tasks, the IDLE interrupt and the re-armed DMA

One handle, `UartHandle`, serves both directions. A task prints through `fputc`, which sends one
byte with `HAL_UART_Transmit` and holds the handle's lock until the byte is out; it can be
interrupted anywhere. The IDLE interrupt aborts the reception, and when the abort is complete the
DMA interrupt gives `I2ceeprom_Task` a notification and starts the reception again with
`HAL_UART_Receive_DMA`, which gives up with `HAL_BUSY` where the lock is held. Nothing looks at that
result, and nothing tries again before the next IDLE.

`Rearmed` is what the line after needs: whenever no abort is in progress, the DMA stream runs into
`Usart_Rx_Buf`. `rearmed_iff` says which runs keep it.

The two interrupts do not nest: the IDLE handler masks the other, and the DMA's has the higher
priority. A task's accesses to the handle are single steps. Left out are the fields and register
bits that no function here reads: `ErrorCode`, `RxXferSize`, the interrupt enables, the data
register. With the interrupt enables goes the `CLEAR_BIT` of `CR3` in a wait of `HAL_UART_Transmit`
that has timed out. `CR3` holds `DMAR` too, and an interrupt between the read and the write there
would have its change of `DMAR` undone; that one access is not followed.
-/

namespace EthIo.Uart

open EthIo.Base EthIo.Config

/-! ## The handles -/

/-- `HAL_LockTypeDef`. -/
inductive HAL_LockTypeDef
  | HAL_UNLOCKED
  | HAL_LOCKED
  deriving DecidableEq, Repr

/-- The states of `HAL_UART_StateTypeDef` that transmitting and receiving go through. -/
inductive HAL_UART_StateTypeDef
  | HAL_UART_STATE_READY
  | HAL_UART_STATE_BUSY_TX
  | HAL_UART_STATE_BUSY_RX
  deriving DecidableEq, Repr

/-- The states of `HAL_DMA_StateTypeDef` that a reception goes through. -/
inductive HAL_DMA_StateTypeDef
  | HAL_DMA_STATE_READY
  | HAL_DMA_STATE_BUSY
  | HAL_DMA_STATE_ABORT
  deriving DecidableEq, Repr

/-- What `XferAbortCallback` points to. -/
inductive XferAbortCallback
  | NULL
  | UART_DMARxOnlyAbortCallback
  deriving DecidableEq, Repr

/-- The DMA handle, with the enable bit, length and memory address of its stream. -/
structure DMA_HandleTypeDef where
  Lock : HAL_LockTypeDef
  State : HAL_DMA_StateTypeDef
  XferAbortCallback : XferAbortCallback
  EN : Bool
  NDTR : UInt32
  M0AR : UInt32
  deriving DecidableEq, Repr

/-- The UART handle, with the DMA request bit of its `CR3`. -/
structure UART_HandleTypeDef where
  Lock : HAL_LockTypeDef
  gState : HAL_UART_StateTypeDef
  RxState : HAL_UART_StateTypeDef
  TxXferCount : UInt16
  DMAR : Bool
  hdmarx : DMA_HandleTypeDef
  deriving DecidableEq, Repr

/-- The handle and the notification count of `I2ceeprom_Task`. -/
structure Port where
  huart : UART_HandleTypeDef
  ulNotifiedValue : UInt32
  deriving DecidableEq, Repr

/-- The address of `Usart_Rx_Buf` in `Listings/LwIP_F407.map`. -/
def Usart_Rx_Buf : UInt32 := 0x20000260

/-! ## Reception -/

/-- `HAL_DMA_Start_IT`. A start that succeeds leaves the DMA handle locked. -/
def HAL_DMA_Start_IT (hdma : DMA_HandleTypeDef) (DstAddress DataLength : UInt32) :
    HAL_StatusTypeDef × DMA_HandleTypeDef :=
  if hdma.Lock = .HAL_LOCKED then (.HAL_BUSY, hdma)
  else if hdma.State = .HAL_DMA_STATE_READY then
    (.HAL_OK,
      { hdma with
        Lock := .HAL_LOCKED
        State := .HAL_DMA_STATE_BUSY
        NDTR := DataLength
        M0AR := DstAddress
        EN := true })
  else (.HAL_BUSY, { hdma with Lock := .HAL_UNLOCKED })

/-- `HAL_DMA_Abort_IT`. -/
def HAL_DMA_Abort_IT (hdma : DMA_HandleTypeDef) : HAL_StatusTypeDef × DMA_HandleTypeDef :=
  if hdma.State ≠ .HAL_DMA_STATE_BUSY then (.HAL_ERROR, hdma)
  else (.HAL_OK, { hdma with State := .HAL_DMA_STATE_ABORT, EN := false })

/-- `HAL_UART_Receive_DMA`. The result of `HAL_DMA_Start_IT` is dropped. -/
def HAL_UART_Receive_DMA (huart : UART_HandleTypeDef) (pData : UInt32) (Size : UInt16) :
    HAL_StatusTypeDef × UART_HandleTypeDef :=
  if huart.RxState = .HAL_UART_STATE_READY then
    if pData = 0 ∨ Size = 0 then (.HAL_ERROR, huart)
    else if huart.Lock = .HAL_LOCKED then (.HAL_BUSY, huart)
    else
      (.HAL_OK,
        { huart with
          Lock := .HAL_UNLOCKED
          RxState := .HAL_UART_STATE_BUSY_RX
          hdmarx := (HAL_DMA_Start_IT { huart.hdmarx with XferAbortCallback := .NULL } pData
            Size.toUInt32).2
          DMAR := true })
  else (.HAL_BUSY, huart)

/-- `HAL_UART_AbortReceiveCpltCallback`: the notification, and the re-arm, its result dropped. -/
def HAL_UART_AbortReceiveCpltCallback (p : Port) : Port where
  huart := (HAL_UART_Receive_DMA p.huart Usart_Rx_Buf USART_RBUFF_SIZE.toUInt16).2
  ulNotifiedValue := p.ulNotifiedValue + 1

/-- `UART_DMARxOnlyAbortCallback`. -/
def UART_DMARxOnlyAbortCallback (p : Port) : Port :=
  HAL_UART_AbortReceiveCpltCallback
    { p with huart := { p.huart with RxState := .HAL_UART_STATE_READY } }

/-- `HAL_UART_AbortReceive_IT`, which the IDLE interrupt calls. -/
def HAL_UART_AbortReceive_IT (p : Port) : Port :=
  if p.huart.DMAR then
    let huart := { p.huart with
      DMAR := false
      hdmarx := { p.huart.hdmarx with XferAbortCallback := .UART_DMARxOnlyAbortCallback } }
    match HAL_DMA_Abort_IT huart.hdmarx with
    | (.HAL_OK, hdma) => { p with huart := { huart with hdmarx := hdma } }
    -- no transfer to abort: the callback is called at once
    | (_, hdma) => UART_DMARxOnlyAbortCallback { p with huart := { huart with hdmarx := hdma } }
  else
    HAL_UART_AbortReceiveCpltCallback
      { p with huart := { p.huart with RxState := .HAL_UART_STATE_READY } }

/-- The port when the DMA has come to rest. -/
def Port.ended (p : Port) : Port :=
  { p with huart := { p.huart with
    hdmarx := { p.huart.hdmarx with Lock := .HAL_UNLOCKED, State := .HAL_DMA_STATE_READY } } }

/-- `HAL_DMA_IRQHandler` on the transfer complete flag, which the stream also raises when it has
been disabled. In circular mode a transfer that is not being aborted just goes on. -/
def HAL_DMA_IRQHandler (p : Port) : Port :=
  if p.huart.hdmarx.State = .HAL_DMA_STATE_ABORT then
    match p.ended.huart.hdmarx.XferAbortCallback with
    | .NULL => p.ended
    | .UART_DMARxOnlyAbortCallback => UART_DMARxOnlyAbortCallback p.ended
  else p

/-- The port when `USART_Init` has initialised its handles and started the reception. -/
def USART_Init : Port :=
  ⟨(HAL_UART_Receive_DMA
    ⟨.HAL_UNLOCKED, .HAL_UART_STATE_READY, .HAL_UART_STATE_READY, 0, false,
      ⟨.HAL_UNLOCKED, .HAL_DMA_STATE_READY, .NULL, false, 0, 0⟩⟩
    Usart_Rx_Buf USART_RBUFF_SIZE.toUInt16).2, 0⟩

/-! ## Printing -/

/-- Where a task stands in `fputc`: outside of it, at the steps of `HAL_UART_Transmit`, or at the
steps that end a wait which has timed out. -/
inductive TxPc
  | fputc
  | gState
  | testLock
  | setLock
  | setBusy
  | setCount
  | loop
  | waitTXE
  | waitTC
  | setReady
  | timeoutTx
  | timeoutRx
  | unlock
  deriving DecidableEq, Repr

/-- One look of `UART_WaitOnFlagUntilTimeout` at its flag: set, not yet, or too late. -/
inductive Wait
  | SET
  | RESET
  | timeout
  deriving DecidableEq, Repr

/-- The position after a look at a flag, where `next` follows the wait. -/
def Wait.go (stay next : TxPc) : Wait → TxPc
  | .SET => next
  | .RESET => stay
  | .timeout => .timeoutTx

/-- One step of a task that sends one byte with `HAL_UART_Transmit`. `fputc` drops the result, so
the returns all lead out of it; testing the lock and setting it are two steps. -/
def HAL_UART_Transmit (w : Wait) (huart : UART_HandleTypeDef) :
    TxPc → TxPc × UART_HandleTypeDef
  | .fputc => (.gState, huart)
  | .gState => (if huart.gState = .HAL_UART_STATE_READY then .testLock else .fputc, huart)
  | .testLock => (if huart.Lock = .HAL_LOCKED then .fputc else .setLock, huart)
  | .setLock => (.setBusy, { huart with Lock := .HAL_LOCKED })
  | .setBusy => (.setCount, { huart with gState := .HAL_UART_STATE_BUSY_TX })
  | .setCount => (.loop, { huart with TxXferCount := 1 })
  | .loop =>
    if huart.TxXferCount > 0 then
      (.waitTXE, { huart with TxXferCount := huart.TxXferCount - 1 })
    else (.waitTC, huart)
  | .waitTXE => (w.go .waitTXE .loop, huart)
  | .waitTC => (w.go .waitTC .setReady, huart)
  | .setReady => (.unlock, { huart with gState := .HAL_UART_STATE_READY })
  | .timeoutTx => (.timeoutRx, { huart with gState := .HAL_UART_STATE_READY })
  | .timeoutRx => (.unlock, { huart with RxState := .HAL_UART_STATE_READY })
  | .unlock => (.fputc, { huart with Lock := .HAL_UNLOCKED })

/-! ## The machine -/

/-- The port and the tasks that print, any number of them. -/
structure System (τ : Type*) where
  port : Port
  tasks : τ → TxPc

variable {τ : Type*}

/-- No task has printed yet. -/
def System.start : System τ := ⟨USART_Init, fun _ => .fputc⟩

/-- `DEBUG_USART_IRQHandler` with the IDLE flag set, `DMA2_Stream5_IRQHandler`, or a step of a task
with what it sees of the flag it waits for. -/
inductive Event (τ : Type*)
  | idle
  | dma
  | task (t : τ) (w : Wait)

/-- A step of the system: every event can come in every state. -/
def System.next [DecidableEq τ] (s : System τ) : Event τ → System τ
  | .idle => { s with port := HAL_UART_AbortReceive_IT s.port }
  | .dma => { s with port := HAL_DMA_IRQHandler s.port }
  | .task t w =>
    { port := { s.port with huart := (HAL_UART_Transmit w s.port.huart (s.tasks t)).2 }
      tasks := Function.update s.tasks t (HAL_UART_Transmit w s.port.huart (s.tasks t)).1 }

/-- The port and its tasks as a machine. -/
def machine (τ : Type*) [DecidableEq τ] : Machine (System τ) (Event τ) :=
  ⟨fun s a => some (s.next a)⟩

/-- An abort of the reception is in progress. -/
def Port.aborting (p : Port) : Prop := p.huart.hdmarx.State = .HAL_DMA_STATE_ABORT

/-- The DMA stores what the UART receives, from the start of the buffer on. -/
structure Port.Armed (p : Port) : Prop where
  request : p.huart.DMAR = true
  busy : p.huart.hdmarx.State = .HAL_DMA_STATE_BUSY
  enabled : p.huart.hdmarx.EN = true
  into : p.huart.hdmarx.M0AR = Usart_Rx_Buf
  whole : p.huart.hdmarx.NDTR = USART_RBUFF_SIZE.toUInt32

/-- **Reception is always re-armed**: whenever no abort is in progress, the DMA is armed. -/
def Rearmed (s : System τ × Bool) : Prop := ¬ s.1.port.aborting → s.1.port.Armed

/-- Whether an IDLE has come during the abort in progress and the last to do so found the handle
unlocked. -/
def seeIdle (s : System τ) : Event τ → Bool → Bool
  | .idle, _ => s.port.huart.hdmarx.State = .HAL_DMA_STATE_ABORT ∧ s.port.huart.Lock = .HAL_UNLOCKED
  | _, h => h

/-- The machine with that record. -/
def watched (τ : Type*) [DecidableEq τ] : Machine (System τ × Bool) (Event τ) :=
  (machine τ).observe seeIdle

/-- An abort that completes finds the handle unlocked, and no IDLE has come since it began, or the
last one found the handle locked. -/
def Unlocked (s : System τ × Bool) : Event τ → Prop
  | .dma => s.1.port.aborting → s.1.port.huart.Lock = .HAL_UNLOCKED ∧ s.2 = false
  | _ => True

/-! ## The invariant -/

/-- The receiving part of the port while an abort is in progress. An IDLE that has found the handle
unlocked has set the request bit and cleared the callback of the abort. -/
structure Port.Aborting (p : Port) (reopened : Bool) : Prop where
  state : p.aborting
  locked : p.huart.hdmarx.Lock = .HAL_LOCKED
  request : p.huart.DMAR = reopened
  callback : p.huart.hdmarx.XferAbortCallback =
    bif reopened then .NULL else .UART_DMARxOnlyAbortCallback

/-- The reception runs, with the DMA handle locked, or an abort is in progress. -/
def Receiving (s : System τ × Bool) : Prop :=
  (s.1.port.Armed ∧ s.1.port.huart.hdmarx.Lock = .HAL_LOCKED) ∨ s.1.port.Aborting s.2

theorem rearmed_of_receiving (s : System τ × Bool) (h : Receiving s) : Rearmed s := by
  rcases h with ⟨harmed, -⟩ | habort
  · exact fun _ => harmed
  · exact fun hnot => absurd habort.state hnot

theorem receiving_start : Receiving ((System.start : System τ), false) :=
  .inl ⟨⟨rfl, rfl, rfl, rfl, rfl⟩, rfl⟩

/-! ## The interrupts -/

/-- A start on an idle stream runs it, and leaves its handle locked. -/
theorem HAL_DMA_Start_IT_ready {hdma : DMA_HandleTypeDef} (DstAddress DataLength : UInt32)
    (hlock : hdma.Lock = .HAL_UNLOCKED) (hstate : hdma.State = .HAL_DMA_STATE_READY) :
    (HAL_DMA_Start_IT hdma DstAddress DataLength).2 =
      { hdma with
        Lock := .HAL_LOCKED
        State := .HAL_DMA_STATE_BUSY
        NDTR := DataLength
        M0AR := DstAddress
        EN := true } := by
  simp [HAL_DMA_Start_IT, hlock, hstate]

/-- A start on a locked handle does nothing. -/
theorem HAL_DMA_Start_IT_locked {hdma : DMA_HandleTypeDef} (DstAddress DataLength : UInt32)
    (hlock : hdma.Lock = .HAL_LOCKED) :
    (HAL_DMA_Start_IT hdma DstAddress DataLength).2 = hdma := by
  simp [HAL_DMA_Start_IT, hlock]

/-- The end of an abort, with the handle unlocked: the reception is started. -/
theorem UART_DMARxOnlyAbortCallback_unlocked {p : Port} (h : p.huart.Lock = .HAL_UNLOCKED) :
    UART_DMARxOnlyAbortCallback p =
      { huart := { p.huart with
          RxState := .HAL_UART_STATE_BUSY_RX
          hdmarx := (HAL_DMA_Start_IT { p.huart.hdmarx with XferAbortCallback := .NULL }
            Usart_Rx_Buf USART_RBUFF_SIZE.toUInt32).2
          DMAR := true }
        ulNotifiedValue := p.ulNotifiedValue + 1 } := by
  obtain ⟨⟨Lock, gState, RxState, count, DMAR, hdmarx⟩, value⟩ := p
  cases h
  rfl

/-- With the handle locked, the notification is all there is. -/
theorem UART_DMARxOnlyAbortCallback_locked {p : Port} (h : p.huart.Lock = .HAL_LOCKED) :
    UART_DMARxOnlyAbortCallback p =
      { huart := { p.huart with RxState := .HAL_UART_STATE_READY }
        ulNotifiedValue := p.ulNotifiedValue + 1 } := by
  obtain ⟨⟨Lock, gState, RxState, count, DMAR, hdmarx⟩, value⟩ := p
  cases h
  rfl

/-- An IDLE with no request bit set ends the reception as the end of an abort does. -/
theorem HAL_UART_AbortReceive_IT_idle {p : Port} (h : p.huart.DMAR = false) :
    HAL_UART_AbortReceive_IT p = UART_DMARxOnlyAbortCallback p := by
  rw [HAL_UART_AbortReceive_IT, if_neg (by rw [h]; exact Bool.noConfusion)]
  rfl

/-- An IDLE during a transfer begins an abort. -/
theorem HAL_UART_AbortReceive_IT_busy {p : Port} (h : p.huart.DMAR = true)
    (hstate : p.huart.hdmarx.State = .HAL_DMA_STATE_BUSY) :
    HAL_UART_AbortReceive_IT p =
      { p with huart := { p.huart with
        DMAR := false
        hdmarx := { p.huart.hdmarx with
          XferAbortCallback := .UART_DMARxOnlyAbortCallback
          State := .HAL_DMA_STATE_ABORT
          EN := false } } } := by
  simp [HAL_UART_AbortReceive_IT, h, HAL_DMA_Abort_IT, hstate]

/-- An IDLE with the request bit set and no transfer to abort calls the callback at once. -/
theorem HAL_UART_AbortReceive_IT_stale {p : Port} (h : p.huart.DMAR = true)
    (hstate : p.huart.hdmarx.State ≠ .HAL_DMA_STATE_BUSY) :
    HAL_UART_AbortReceive_IT p =
      UART_DMARxOnlyAbortCallback { p with huart := { p.huart with
        DMAR := false
        hdmarx := { p.huart.hdmarx with
          XferAbortCallback := .UART_DMARxOnlyAbortCallback } } } := by
  simp [HAL_UART_AbortReceive_IT, h, HAL_DMA_Abort_IT, hstate]

/-- A re-arm in the middle of an abort starts nothing; with the handle unlocked it takes the
callback of the abort away. -/
theorem aborting_rearm {p : Port} (h : p.Aborting false) :
    (UART_DMARxOnlyAbortCallback p).Aborting (p.huart.Lock = .HAL_UNLOCKED) := by
  cases hlock : p.huart.Lock with
  | HAL_LOCKED =>
    rw [UART_DMARxOnlyAbortCallback_locked hlock]
    exact ⟨h.state, h.locked, h.request, h.callback⟩
  | HAL_UNLOCKED =>
    have hstart : (HAL_DMA_Start_IT { p.huart.hdmarx with XferAbortCallback := .NULL } Usart_Rx_Buf
        USART_RBUFF_SIZE.toUInt32).2 = { p.huart.hdmarx with XferAbortCallback := .NULL } :=
      HAL_DMA_Start_IT_locked _ _ h.locked
    rw [UART_DMARxOnlyAbortCallback_unlocked hlock, hstart]
    exact ⟨h.state, h.locked, rfl, rfl⟩

/-- An IDLE begins an abort, or comes during one. -/
theorem receiving_idle {s : System τ} {h : Bool} (hI : Receiving (s, h)) :
    Receiving ({ s with port := HAL_UART_AbortReceive_IT s.port }, seeIdle s .idle h) := by
  rcases hI with ⟨harmed, hlock⟩ | habort
  · have hbusy : s.port.huart.hdmarx.State = .HAL_DMA_STATE_BUSY := harmed.busy
    have hsee : seeIdle s .idle h = false := by simp [seeIdle, hbusy]
    rw [hsee, HAL_UART_AbortReceive_IT_busy harmed.request hbusy]
    exact .inr ⟨rfl, hlock, rfl, rfl⟩
  · have hstate : s.port.huart.hdmarx.State = .HAL_DMA_STATE_ABORT := habort.state
    have hsee : seeIdle s .idle h = decide (s.port.huart.Lock = .HAL_UNLOCKED) := by
      simp [seeIdle, hstate]
    have hrequest : s.port.huart.DMAR = h := habort.request
    rw [hsee]
    cases h with
    | false =>
      rw [HAL_UART_AbortReceive_IT_idle hrequest]
      exact .inr (aborting_rearm habort)
    | true =>
      have hidle : s.port.huart.hdmarx.State ≠ .HAL_DMA_STATE_BUSY := by
        rw [hstate]
        exact HAL_DMA_StateTypeDef.noConfusion
      rw [HAL_UART_AbortReceive_IT_stale hrequest hidle]
      exact .inr (aborting_rearm ⟨hstate, habort.locked, rfl, rfl⟩)

/-- The end of an abort: its callback, unless an IDLE has taken that away. -/
theorem HAL_DMA_IRQHandler_abort {p : Port} {reopened : Bool} (h : p.Aborting reopened) :
    HAL_DMA_IRQHandler p =
      if reopened then p.ended else UART_DMARxOnlyAbortCallback p.ended := by
  have hstate : p.huart.hdmarx.State = .HAL_DMA_STATE_ABORT := h.state
  have hcallback : p.ended.huart.hdmarx.XferAbortCallback = _ := h.callback
  rw [HAL_DMA_IRQHandler, if_pos hstate, hcallback]
  cases reopened <;> rfl

/-- **An abort that completes in a guarded step re-arms the reception.** -/
theorem receiving_dma {s : System τ} {h : Bool} (hI : Receiving (s, h))
    (hG : Unlocked (s, h) .dma) :
    Receiving ({ s with port := HAL_DMA_IRQHandler s.port }, h) := by
  rcases hI with ⟨harmed, hlock⟩ | habort
  · have hbusy : s.port.huart.hdmarx.State = .HAL_DMA_STATE_BUSY := harmed.busy
    have hsame : HAL_DMA_IRQHandler s.port = s.port := by simp [HAL_DMA_IRQHandler, hbusy]
    rw [hsame]
    exact .inl ⟨harmed, hlock⟩
  · obtain ⟨hunlocked, hquiet⟩ := hG habort.state
    have hunlocked : s.port.ended.huart.Lock = .HAL_UNLOCKED := hunlocked
    have hquiet : h = false := hquiet
    have hended : { s.port.ended.huart.hdmarx with
        XferAbortCallback := .NULL }.Lock = .HAL_UNLOCKED := rfl
    have hstart := HAL_DMA_Start_IT_ready Usart_Rx_Buf USART_RBUFF_SIZE.toUInt32 hended rfl
    rw [HAL_DMA_IRQHandler_abort habort, hquiet, if_neg Bool.noConfusion,
      UART_DMARxOnlyAbortCallback_unlocked hunlocked, hstart]
    exact .inl ⟨⟨rfl, rfl, rfl, rfl, rfl⟩, rfl⟩

/-- An abort that completes in any other step leaves the stream off. -/
theorem not_rearmed_dma {s : System τ} {h : Bool} (hI : Receiving (s, h))
    (hG : ¬ Unlocked (s, h) .dma) :
    ¬ Rearmed ({ s with port := HAL_DMA_IRQHandler s.port }, h) := by
  obtain ⟨hstate, hbad⟩ := Classical.not_imp.mp hG
  rcases hI with ⟨harmed, -⟩ | habort
  · exact absurd (harmed.busy.symm.trans hstate) HAL_DMA_StateTypeDef.noConfusion
  have hready : (HAL_DMA_IRQHandler s.port).huart.hdmarx.State = .HAL_DMA_STATE_READY := by
    rw [HAL_DMA_IRQHandler_abort habort]
    cases h with
    | true => rfl
    | false =>
      have hlocked : s.port.ended.huart.Lock = .HAL_LOCKED := by
        cases hlock : s.port.huart.Lock with
        | HAL_LOCKED => exact hlock
        | HAL_UNLOCKED => exact absurd ⟨hlock, rfl⟩ hbad
      rw [if_neg Bool.noConfusion, UART_DMARxOnlyAbortCallback_locked hlocked]
      rfl
  intro hP
  have hnot : ¬ (HAL_DMA_IRQHandler s.port).aborting := by
    rw [Port.aborting, hready]
    exact HAL_DMA_StateTypeDef.noConfusion
  exact absurd ((hP hnot).busy.symm.trans hready) HAL_DMA_StateTypeDef.noConfusion

/-! ## The tasks -/

/-- A task's steps leave the receiving part of the port alone. -/
theorem HAL_UART_Transmit_hdmarx (w : Wait) (huart : UART_HandleTypeDef) (pc : TxPc) :
    (HAL_UART_Transmit w huart pc).2.hdmarx = huart.hdmarx ∧
      (HAL_UART_Transmit w huart pc).2.DMAR = huart.DMAR := by
  cases pc with
  | loop =>
    rw [HAL_UART_Transmit]
    split_ifs <;> exact ⟨rfl, rfl⟩
  | _ => exact ⟨rfl, rfl⟩

section
variable [DecidableEq τ]

/-- A step of a task. -/
theorem receiving_task {s : System τ} {h : Bool} (hI : Receiving (s, h)) (t : τ) (w : Wait) :
    Receiving (s.next (.task t w), h) := by
  obtain ⟨hdma, hrequest⟩ := HAL_UART_Transmit_hdmarx w s.port.huart (s.tasks t)
  rcases hI with ⟨harmed, hlock⟩ | habort
  · refine .inl ⟨⟨hrequest.trans harmed.request, ?_, ?_, ?_, ?_⟩, ?_⟩
    all_goals simp only [System.next, hdma]
    · exact harmed.busy
    · exact harmed.enabled
    · exact harmed.into
    · exact harmed.whole
    · exact hlock
  · refine .inr ⟨?_, ?_, hrequest.trans habort.request, ?_⟩
    all_goals simp only [System.next, Port.aborting, hdma]
    · exact habort.state
    · exact habort.locked
    · exact habort.callback

/-- Every guarded step keeps the invariant. -/
theorem receiving_keep (s : System τ) (h : Bool) (a : Event τ) (s' : System τ)
    (hI : Receiving (s, h)) (hG : Unlocked (s, h) a) (hstep : (machine τ).step s a = some s') :
    Receiving (s', seeIdle s a h) := by
  cases hstep
  cases a with
  | idle => exact receiving_idle hI
  | dma => exact receiving_dma hI hG
  | task t w => exact receiving_task hI t w

/-- Every other step breaks the promise. -/
theorem receiving_breaks (s : System τ) (h : Bool) (a : Event τ) (s' : System τ)
    (hI : Receiving (s, h)) (hG : ¬ Unlocked (s, h) a)
    (hstep : (machine τ).step s a = some s') : ¬ Rearmed (s', seeIdle s a h) := by
  cases hstep
  cases a with
  | idle => exact absurd trivial hG
  | dma => exact not_rearmed_dma hI hG
  | task t w => exact absurd trivial hG

/-! ## Who holds the lock -/

/-- The positions from the lock to the unlock. -/
def TxPc.inside : TxPc → Bool
  | .fputc | .gState | .testLock | .setLock => false
  | _ => true

/-- The re-arm leaves the lock as it found it. -/
theorem UART_DMARxOnlyAbortCallback_Lock (p : Port) :
    (UART_DMARxOnlyAbortCallback p).huart.Lock = p.huart.Lock := by
  cases hlock : p.huart.Lock with
  | HAL_LOCKED => rw [UART_DMARxOnlyAbortCallback_locked hlock, hlock]
  | HAL_UNLOCKED => rw [UART_DMARxOnlyAbortCallback_unlocked hlock, hlock]

/-- So does the IDLE interrupt. -/
theorem HAL_UART_AbortReceive_IT_Lock (p : Port) :
    (HAL_UART_AbortReceive_IT p).huart.Lock = p.huart.Lock := by
  cases hrequest : p.huart.DMAR with
  | false => rw [HAL_UART_AbortReceive_IT_idle hrequest, UART_DMARxOnlyAbortCallback_Lock]
  | true =>
    by_cases hstate : p.huart.hdmarx.State = .HAL_DMA_STATE_BUSY
    · rw [HAL_UART_AbortReceive_IT_busy hrequest hstate]
    · rw [HAL_UART_AbortReceive_IT_stale hrequest hstate, UART_DMARxOnlyAbortCallback_Lock]

/-- So does the DMA interrupt. -/
theorem HAL_DMA_IRQHandler_Lock (p : Port) :
    (HAL_DMA_IRQHandler p).huart.Lock = p.huart.Lock := by
  rw [HAL_DMA_IRQHandler]
  split_ifs
  · cases p.ended.huart.hdmarx.XferAbortCallback with
    | NULL => rfl
    | UART_DMARxOnlyAbortCallback => exact UART_DMARxOnlyAbortCallback_Lock p.ended
  · rfl

/-- A task whose step leaves the handle locked is inside, or found it locked and was outside. -/
theorem HAL_UART_Transmit_Lock {w : Wait} {huart : UART_HandleTypeDef} {pc : TxPc}
    (h : (HAL_UART_Transmit w huart pc).2.Lock = .HAL_LOCKED) :
    (HAL_UART_Transmit w huart pc).1.inside = true ∨
      huart.Lock = .HAL_LOCKED ∧ pc.inside = false := by
  cases pc with
  | fputc | gState | testLock => exact .inr ⟨h, rfl⟩
  | unlock => cases h
  | loop =>
    rw [HAL_UART_Transmit]
    split_ifs <;> exact .inl rfl
  | waitTXE | waitTC => cases w <;> exact .inl rfl
  | _ => exact .inl rfl

/-- **A locked handle has a task inside `HAL_UART_Transmit`**, in every reachable state. -/
theorem locked_inside {s : System τ} (h : (machine τ).Reachable .start s)
    (hlock : s.port.huart.Lock = .HAL_LOCKED) : ∃ t, (s.tasks t).inside = true := by
  refine Machine.invariant
    (I := fun s : System τ => s.port.huart.Lock = .HAL_LOCKED → ∃ t, (s.tasks t).inside = true)
    (fun s a s' hI hstep hlock => ?_) (fun hlock => HAL_LockTypeDef.noConfusion hlock) h hlock
  cases Option.some.inj hstep
  cases a with
  | idle => exact hI ((HAL_UART_AbortReceive_IT_Lock s.port).symm.trans hlock)
  | dma => exact hI ((HAL_DMA_IRQHandler_Lock s.port).symm.trans hlock)
  | task t w =>
    rcases HAL_UART_Transmit_Lock hlock with hin | ⟨hbefore, hout⟩
    · exact ⟨t, by simpa only [System.next, Function.update_self] using hin⟩
    · obtain ⟨u, hu⟩ := hI hbefore
      have hne : u ≠ t := by
        rintro rfl
        rw [hu] at hout
        cases hout
      exact ⟨u, by simpa only [System.next, Function.update_of_ne hne] using hu⟩

/-! ## When the reception is lost -/

/-- **Reception is always re-armed exactly when each abort completes with the handle unlocked**, and
no IDLE has come during it, or the last one found the handle locked. -/
theorem rearmed_iff (es : List (Event τ)) :
    (watched τ).Always Rearmed (.start, false) es ↔
      (watched τ).Guarded Unlocked (.start, false) es := by
  obtain ⟨s, hexec⟩ := (machine τ).exec_of_enabled (fun s a => ⟨s.next a, rfl⟩) .start es
  exact Machine.observe_always_iff_guarded rearmed_of_receiving receiving_keep receiving_breaks
    receiving_start hexec

end

/-- An IDLE while a task is inside `HAL_UART_Transmit`: the re-arm finds the handle locked, and the
reception stays off. -/
theorem locked_rearm_lost :
    ∃ s, (watched Unit).exec (.start, false)
        (List.replicate 4 (.task () .SET) ++ [.idle, .dma]) = some s ∧
      ¬ Rearmed s :=
  ⟨_, rfl, fun h => Bool.noConfusion (h HAL_DMA_StateTypeDef.noConfusion).request⟩

end EthIo.Uart
