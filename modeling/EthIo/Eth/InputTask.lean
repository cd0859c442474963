import EthIo.Base.Machine
import EthIo.Client.Task
import EthIo.Eth.RxRing

/-!
# `ethernetif_input`

The receive interrupt gives `s_xSemaphore`; the task takes it and then calls `low_level_input` until
that finds nothing, jumping back to the label `TRY_GET_NEXT_FRAGMENT` behind each frame that
`netif->input` has accepted. It takes a token for each of these without waiting, since one interrupt
may stand for several frames.

`task` is the control of that function alone, with the results of its calls as labels. `reception`
is the task at work: the receive ring, which the DMA fills at any time; the interrupt, which runs
outside critical sections and whose handler gives the semaphore first and clears the flag after; and
the lock of the handle, which others take and release as they like.

The task leaves its loop on anything that is not an accepted frame, so also on one it could not
handle, with more behind it in the ring. `no_frame_stranded_iff` says when that does no harm.
-/

namespace EthIo.Eth

open EthIo.Base EthIo.Config EthIo.Uart EthIo.Client

/-! ## The control of the task -/

/-- The positions of `ethernetif_input`, by the call that is next. -/
inductive Pc
  | waiting
  | entering
  | getting
  | leaving
  | enteringInput
  | inputting
  | trying
  | leavingInput
  deriving DecidableEq, Repr

/-- The calls of the task, with what they return. `tryTake` is the one that does not wait. -/
inductive Call
  | xSemaphoreTake (taken : Bool)
  | taskENTER_CRITICAL
  | low_level_input (p : Option (List (List UInt8)))
  | taskEXIT_CRITICAL
  | input (errval : err_t)
  | tryTake (taken : Bool)
  deriving DecidableEq, Repr

/-- The task: where it is, how deep in critical sections, and its local `p`. -/
structure Task where
  pc : Pc
  nesting : Int
  p : Option (List (List UInt8))
  deriving DecidableEq, Repr

/-- One call of `ethernetif_input`. -/
def Task.step (t : Task) : Call → Option Task
  | .xSemaphoreTake taken =>
    if t.pc = .waiting then some { t with pc := if taken then .entering else .waiting } else none
  | .taskENTER_CRITICAL =>
    if t.pc = .entering then some { t with pc := .getting, nesting := t.nesting + 1 }
    else if t.pc = .enteringInput then some { t with pc := .inputting, nesting := t.nesting + 1 }
    else none
  | .low_level_input p => if t.pc = .getting then some { t with pc := .leaving, p := p } else none
  | .taskEXIT_CRITICAL =>
    if t.pc = .leaving then
      some { t with
        pc := if t.p ≠ none then .enteringInput else .waiting
        nesting := t.nesting - 1 }
    else if t.pc = .leavingInput then some { t with pc := .waiting, nesting := t.nesting - 1 }
    else none
  | .input errval =>
    if t.pc = .inputting then
      -- a frame that is not accepted is freed
      some (if errval ≠ ERR_OK then { t with pc := .leavingInput, p := none }
        else { t with pc := .trying })
    else none
  | .tryTake _ => if t.pc = .trying then some { t with pc := .getting } else none

/-- `ethernetif_input`, whatever its calls return. -/
def task : Machine Task Call := ⟨Task.step⟩

/-! ## The task at work -/

/-- The count `s_xSemaphore` is created with room for. -/
def uxMaxCount : Nat := 40

/-- The driver and the DMA: the descriptor the DMA is at and whether a frame is open there, its
receive flag, and whether the interrupt handler is between its give and the clearing of the flag. -/
structure RxState where
  task : Task
  s_xSemaphore : Nat
  heth : ETH_HandleTypeDef
  Rx_Buff : Fin ETH_RXBUFNB → Mem
  current : Fin ETH_RXBUFNB
  inFrame : Bool
  RS : Bool
  inHandler : Bool

/-- What can happen: the DMA closes a descriptor, or finds none to use; another task changes the
lock; the interrupt handler takes its two steps; the task makes a call. -/
inductive RxLabel
  | receive (Status : UInt32) (bytes : Mem)
  | unavailable
  | lock (Lock : HAL_LockTypeDef)
  | HAL_ETH_RxCpltCallback
  | clearRS
  | xSemaphoreTake
  | taskENTER_CRITICAL
  | low_level_input (pbuf_alloc : Option (List (List UInt8)))
  | taskEXIT_CRITICAL
  | input (errval : err_t)
  | tryTake

/-- A call of the task, which does not run while the handler does. -/
def RxState.call (s : RxState) (call : Call) : Option RxState :=
  if s.inHandler then none else (s.task.step call).map fun task => { s with task := task }

def RxState.step (s : RxState) : RxLabel → Option RxState
  | .receive Status bytes =>
    if s.heth.DMARxDscrTab.has s.current ETH_DMARXDESC_OWN ∧ Closes Status s.inFrame then
      some
        { s with
          heth := s.heth.close s.current Status
          Rx_Buff := Function.update s.Rx_Buff s.current bytes
          current := (s.heth.DMARxDscrTab.desc s.current).Buffer2NextDescAddr
          inFrame := opens Status
          RS := s.RS || !opens Status }
    else none
  | .unavailable =>
    if s.heth.DMARxDscrTab.has s.current ETH_DMARXDESC_OWN then none
    else some { s with heth := { s.heth with DMASR := s.heth.DMASR ||| ETH_DMASR_RBUS } }
  | .lock Lock => some { s with heth := { s.heth with Lock := Lock } }
  | .HAL_ETH_RxCpltCallback =>
    if s.RS = true ∧ s.inHandler = false ∧ s.task.nesting = 0 then
      some
        { s with
          s_xSemaphore :=
            if s.s_xSemaphore < uxMaxCount then s.s_xSemaphore + 1 else s.s_xSemaphore
          inHandler := true }
    else none
  | .clearRS =>
    if s.inHandler then
      some
        { s with RS := false, inHandler := false, heth := { s.heth with Lock := .HAL_UNLOCKED } }
    else none
  | .xSemaphoreTake =>
    if s.s_xSemaphore = 0 then none
    else (s.call (.xSemaphoreTake true)).map fun s => { s with s_xSemaphore := s.s_xSemaphore - 1 }
  | .taskENTER_CRITICAL => s.call .taskENTER_CRITICAL
  | .low_level_input pbuf_alloc =>
    let r := EthIo.Eth.low_level_input s.heth s.Rx_Buff pbuf_alloc
    (s.call (.low_level_input r.p)).map fun s => { s with heth := r.heth }
  | .taskEXIT_CRITICAL => s.call .taskEXIT_CRITICAL
  | .input errval => s.call (.input errval)
  | .tryTake =>
    (s.call (.tryTake (decide (0 < s.s_xSemaphore)))).map fun s =>
      { s with s_xSemaphore := s.s_xSemaphore - 1 }

/-- The task, the interrupt and the DMA. -/
def reception : Machine RxState RxLabel := ⟨RxState.step⟩

/-- The task has been created and the DMA started. -/
def rxStart : RxState where
  task := { pc := .waiting, nesting := 0, p := none }
  s_xSemaphore := 0
  heth := Bsp_Eth_Init 0
  Rx_Buff _ _ := 0
  current := 0
  inFrame := false
  RS := false
  inHandler := false

/-- A step of the task is one of its control, outside the handler. -/
theorem RxState.call_eq_some {s s' : RxState} {call : Call} :
    s.call call = some s' ↔ s.inHandler = false ∧
      ∃ t, s.task.step call = some t ∧ s' = { s with task := t } := by
  unfold RxState.call
  cases s.inHandler with
  | true => simp
  | false => simp [eq_comm]

/-! ## Frames left in the ring -/

/-- Whether the last `low_level_input` found nothing: the descriptor at `RxDesc` was the DMA's. -/
def drained (s : RxState) : RxLabel → Bool → Bool
  | .low_level_input _, _ =>
    decide (s.heth.Lock = .HAL_UNLOCKED ∧
      s.heth.DMARxDscrTab.has s.heth.RxDesc ETH_DMARXDESC_OWN)
  | _, h => h

/-- `reception`, with why the loop is being left. -/
def watching : Machine (RxState × Bool) RxLabel := reception.observe drained

/-- **No frame is stranded**: where the task waits with nothing that would wake it, no complete
frame is in the ring. -/
def NoneStranded (s : RxState × Bool) : Prop :=
  s.1.task.pc = .waiting → s.1.s_xSemaphore = 0 → s.1.RS = false → s.1.inHandler = false →
    ¬ CompleteFrame s.1.heth.DMARxDscrTab

/-- Something will wake the task, or there is nothing to wake it for. -/
def Noticed (s : RxState) : Prop := 0 < s.s_xSemaphore ∨ s.RS = true ∨ ¬ FrameAhead s.heth

instance (s : RxState) : Decidable (Noticed s) := inferInstanceAs (Decidable (_ ∨ _ ∨ _))

/-- The loop is left for another reason than that nothing was found. -/
def GivesUp (s : RxState × Bool) : Prop :=
  (s.1.task.pc = .leaving ∧ s.1.task.p = none ∧ s.2 = false) ∨ s.1.task.pc = .leavingInput

instance (s : RxState × Bool) : Decidable (GivesUp s) := inferInstanceAs (Decidable (_ ∨ _))

/-- The loop is given up only with a token or an interrupt left, or no complete frame ahead. -/
def LeavesNothing (s : RxState × Bool) : RxLabel → Prop
  | .taskEXIT_CRITICAL => GivesUp s → Noticed s.1
  | _ => True

instance : ∀ (s : RxState × Bool) (a : RxLabel), Decidable (LeavesNothing s a)
  | s, .taskEXIT_CRITICAL => inferInstanceAs (Decidable (GivesUp s → Noticed s.1))
  | _, .receive _ _ | _, .unavailable | _, .lock _ | _, .HAL_ETH_RxCpltCallback | _, .clearRS
  | _, .xSemaphoreTake | _, .taskENTER_CRITICAL | _, .low_level_input _ | _, .input _
  | _, .tryTake => inferInstanceAs (Decidable True)

/-- The task waits, or is about to because nothing was found. -/
def Settled (s : RxState × Bool) : Prop :=
  s.1.task.pc = .waiting ∨ s.1.task.pc = .leaving ∧ s.1.task.p = none ∧ s.2 = true

/-- Where the task has settled, whatever is in the ring will be noticed. -/
structure RxInv (s : RxState × Bool) : Prop where
  ring : RingInv s.1.heth s.1.current s.1.inFrame
  handler : s.1.inHandler = true → 0 < s.1.s_xSemaphore
  noticed : Settled s → Noticed s.1

theorem not_ahead_of_own {heth : ETH_HandleTypeDef}
    (h : heth.DMARxDscrTab.has heth.RxDesc ETH_DMARXDESC_OWN) : ¬ FrameAhead heth := by
  rintro ⟨k, -, hfree, -⟩
  have hfirst := hfree 0 (Nat.zero_le k)
  rw [onward_zero] at hfirst
  exact hfirst h

theorem rxInv_start : RxInv (rxStart, false) where
  ring := ringInv_init 0
  handler h := Bool.noConfusion h
  noticed _ := .inr (.inr (not_ahead_of_own (by decide)))

theorem noneStranded_of_rxInv {s : RxState × Bool} (h : RxInv s) : NoneStranded s := by
  intro hpc hcount hflag _ hframe
  rw [completeFrame_iff_ahead h.ring] at hframe
  rcases h.noticed (.inl hpc) with hpos | hset | hnone
  · exact absurd hcount (Nat.pos_iff_ne_zero.mp hpos)
  · rw [hflag] at hset
    exact Bool.noConfusion hset
  · exact hnone hframe

/-- Where the task has not settled there is nothing to notice. -/
theorem rxInv_busy {s : RxState} {h : Bool} (hring : RingInv s.heth s.current s.inFrame)
    (hhandler : s.inHandler = false) (hwait : s.task.pc ≠ .waiting)
    (hleave : s.task.pc ≠ .leaving) : RxInv (s, h) where
  ring := hring
  handler hin := by
    rw [hhandler] at hin
    exact Bool.noConfusion hin
  noticed hsettled := by
    rcases hsettled with hpc | ⟨hpc, -⟩
    · exact absurd hpc hwait
    · exact absurd hpc hleave

/-- What `low_level_input` leaves of a ring it has found nothing in. -/
theorem not_ahead_of_drained {heth : ETH_HandleTypeDef} (Rx_Buff : Fin ETH_RXBUFNB → Mem)
    (pbuf_alloc : Option (List (List UInt8)))
    (h : heth.DMARxDscrTab.has heth.RxDesc ETH_DMARXDESC_OWN) :
    ¬ FrameAhead (low_level_input heth Rx_Buff pbuf_alloc).heth := by
  have hbusy : HAL_StatusTypeDef.HAL_BUSY ≠ .HAL_OK := nofun
  have herror : HAL_StatusTypeDef.HAL_ERROR ≠ .HAL_OK := nofun
  rw [low_level_input_heth]
  rcases HAL_ETH_GetReceivedFrame_cases heth with hgot | ⟨-, hgot⟩ | ⟨got, hseg, -⟩
  · rw [hgot, if_neg hbusy]
    exact not_ahead_of_own h
  · rw [hgot, if_neg herror]
    exact not_ahead_of_own h
  · exact absurd h hseg.own

/-- The calls behind which the loop goes on, whatever has been found. -/
def Call.goesOn : Call → Bool
  | .xSemaphoreTake taken => taken
  | .taskENTER_CRITICAL | .input _ | .tryTake _ => true
  | .low_level_input _ | .taskEXIT_CRITICAL => false

theorem Task.step_goesOn {t t' : Task} {call : Call} (hgoes : call.goesOn = true)
    (hs : t.step call = some t') : t'.pc ≠ .waiting ∧ t'.pc ≠ .leaving := by
  cases call with
  | xSemaphoreTake taken =>
    have htaken : taken = true := hgoes
    simp only [step, if_pos htaken] at hs
    split_ifs at hs
    cases hs
    exact ⟨Pc.noConfusion, Pc.noConfusion⟩
  | taskENTER_CRITICAL | input errval | tryTake taken =>
    simp only [step] at hs
    split_ifs at hs
    all_goals
      cases hs
      exact ⟨Pc.noConfusion, Pc.noConfusion⟩
  | low_level_input p | taskEXIT_CRITICAL => cases hgoes

/-- Such a call keeps the invariant, whatever becomes of the tokens. -/
theorem rxInv_goesOn {s s₁ : RxState} {h : Bool} {call : Call} (hI : RxInv (s, h))
    (hgoes : call.goesOn = true) (hcall : s.call call = some s₁) (n : Nat) :
    RxInv ({ s₁ with s_xSemaphore := n }, h) := by
  obtain ⟨hin, t, ht, rfl⟩ := RxState.call_eq_some.mp hcall
  obtain ⟨hwait, hleave⟩ := Task.step_goesOn hgoes ht
  exact rxInv_busy hI.ring hin hwait hleave

/-- What the DMA closes is noticed: a last segment raises the flag, and no other completes a
frame. -/
theorem rxInv_receive {s s' : RxState} {h : Bool} {Status : UInt32} {bytes : Mem}
    (hI : RxInv (s, h)) (hs : s.step (.receive Status bytes) = some s') : RxInv (s', h) := by
  simp only [RxState.step] at hs
  split_ifs at hs with hclose
  cases hs
  obtain ⟨hown, hcloses⟩ := hclose
  refine ⟨?_, hI.handler, fun hsettled => ?_⟩
  · have hring := hI.ring.close hown hcloses
    rwa [← s.heth.DMARxDscrTab.chained] at hring
  · rcases hI.noticed hsettled with hpos | hset | hnone
    · exact .inl hpos
    · exact .inr (.inl (Bool.or_eq_true_iff.mpr (.inl hset)))
    · cases hopens : opens Status with
      | false => exact .inr (.inl (Bool.or_eq_true_iff.mpr (.inr rfl)))
      | true =>
        have hlast : Status &&& ETH_DMARXDESC_LS = 0 := of_decide_eq_true hopens
        exact .inr (.inr fun hahead =>
          hnone (hI.ring.ahead_of_close hown hcloses hlast hahead))

/-- **Every step that leaves nothing behind keeps the invariant.** -/
theorem rxInv_keep (s : RxState) (h : Bool) (a : RxLabel) (s' : RxState) (hI : RxInv (s, h))
    (hG : LeavesNothing (s, h) a) (hs : s.step a = some s') : RxInv (s', drained s a h) := by
  cases a with
  | receive Status bytes => exact rxInv_receive hI hs
  | unavailable =>
    simp only [RxState.step] at hs
    split_ifs at hs
    cases hs
    exact ⟨hI.ring.congr rfl rfl rfl, hI.handler, hI.noticed⟩
  | lock Lock =>
    cases hs
    exact ⟨hI.ring.congr rfl rfl rfl, hI.handler, hI.noticed⟩
  | HAL_ETH_RxCpltCallback =>
    simp only [RxState.step] at hs
    split_ifs at hs with hruns hroom
    · cases hs
      exact ⟨hI.ring, fun _ => Nat.succ_pos _, fun _ => .inl (Nat.succ_pos _)⟩
    · cases hs
      have hfull : 0 < s.s_xSemaphore := Nat.lt_of_lt_of_le (by decide) (Nat.le_of_not_lt hroom)
      exact ⟨hI.ring, fun _ => hfull, fun _ => .inl hfull⟩
  | clearRS =>
    simp only [RxState.step] at hs
    split_ifs at hs with hin
    cases hs
    exact ⟨hI.ring.congr rfl rfl rfl, fun h => Bool.noConfusion h, fun _ => .inl (hI.handler hin)⟩
  | xSemaphoreTake =>
    simp only [RxState.step] at hs
    split_ifs at hs
    obtain ⟨s₁, hcall, rfl⟩ := Option.map_eq_some_iff.mp hs
    exact rxInv_goesOn hI rfl hcall _
  | taskENTER_CRITICAL => exact rxInv_goesOn hI rfl hs _
  | low_level_input pbuf_alloc =>
    obtain ⟨s₁, hcall, rfl⟩ := Option.map_eq_some_iff.mp hs
    obtain ⟨hin, t, ht, rfl⟩ := RxState.call_eq_some.mp hcall
    simp only [Task.step] at ht
    split_ifs at ht
    cases ht
    refine ⟨hI.ring.input _ _, hI.handler, fun hsettled => ?_⟩
    rcases hsettled with hpc | ⟨-, -, hdrained⟩
    · exact Pc.noConfusion hpc
    · exact .inr (.inr (not_ahead_of_drained _ _ (of_decide_eq_true hdrained).2))
  | taskEXIT_CRITICAL =>
    obtain ⟨hin, t, ht, rfl⟩ := RxState.call_eq_some.mp hs
    simp only [Task.step] at ht
    split_ifs at ht with hpc hp hpc'
    · cases ht
      exact rxInv_busy hI.ring hin Pc.noConfusion Pc.noConfusion
    · cases ht
      refine ⟨hI.ring, hI.handler, fun _ => ?_⟩
      have hnull : s.task.p = none := not_not.mp hp
      cases h with
      | true => exact hI.noticed (.inr ⟨hpc, hnull, rfl⟩)
      | false => exact hG (.inl ⟨hpc, hnull, rfl⟩)
    · cases ht
      exact ⟨hI.ring, hI.handler, fun _ => hG (.inr hpc')⟩
  | input errval => exact rxInv_goesOn hI rfl hs _
  | tryTake =>
    obtain ⟨s₁, hcall, rfl⟩ := Option.map_eq_some_iff.mp hs
    exact rxInv_goesOn hI rfl hcall _

/-- Giving up on a ring with a complete frame, with nothing left to wake the task, strands it. -/
theorem noneStranded_breaks (s : RxState) (h : Bool) (a : RxLabel) (s' : RxState)
    (hI : RxInv (s, h)) (hG : ¬ LeavesNothing (s, h) a) (hs : s.step a = some s') :
    ¬ NoneStranded (s', drained s a h) := by
  cases a with
  | taskEXIT_CRITICAL =>
    obtain ⟨hgives, hnot⟩ := Classical.not_imp.mp hG
    obtain ⟨hcount, hflag, hahead⟩ : s.s_xSemaphore = 0 ∧ s.RS = false ∧ FrameAhead s.heth := by
      rw [Noticed, not_or, not_or, not_not] at hnot
      exact ⟨Nat.eq_zero_of_not_pos hnot.1, Bool.eq_false_of_not_eq_true hnot.2.1, hnot.2.2⟩
    obtain ⟨hin, t, ht, rfl⟩ := RxState.call_eq_some.mp hs
    have hframe := (completeFrame_iff_ahead hI.ring).mpr hahead
    have hwait : t.pc = .waiting := by
      simp only [Task.step] at ht
      rcases hgives with ⟨hpc, hnull, -⟩ | hpc
      · have hnull : s.task.p = none := hnull
        rw [if_pos hpc, hnull] at ht
        cases ht
        rfl
      · have hpc : s.task.pc = .leavingInput := hpc
        rw [hpc] at ht
        cases ht
        rfl
    exact fun hnone => hnone hwait hcount hflag hin hframe
  | _ => exact absurd trivial hG

/-- **No received frame is stranded** if and only if the task gives its loop up only where something
will wake it again or no complete frame is ahead. -/
theorem no_frame_stranded_iff {s : RxState} {ls : List RxLabel}
    (hrun : reception.exec rxStart ls = some s) :
    watching.Always NoneStranded (rxStart, false) ls ↔
      watching.Guarded LeavesNothing (rxStart, false) ls :=
  Machine.observe_always_iff_guarded (fun _ => noneStranded_of_rxInv) rxInv_keep
    noneStranded_breaks rxInv_start hrun

/-- A status that closes a frame of one descriptor, of 60 bytes and its CRC. -/
def oneSegment : UInt32 :=
  ETH_DMARXDESC_FS ||| ETH_DMARXDESC_LS ||| (64 : UInt32) <<< ETH_DMARXDESC_FRAMELENGTHSHIFT

/-- The interrupt for what has been received, and the task as far as `low_level_input`. -/
def wakeUp : List RxLabel :=
  [.HAL_ETH_RxCpltCallback, .clearRS, .xSemaphoreTake, .taskENTER_CRITICAL]

/-- One frame, which is accepted, and an empty ring behind it. -/
def oneFrame : List RxLabel :=
  .receive oneSegment (fun _ => 0) :: wakeUp ++
    [.low_level_input (some [List.replicate 60 0]), .taskEXIT_CRITICAL, .taskENTER_CRITICAL,
      .input ERR_OK, .tryTake, .low_level_input none, .taskEXIT_CRITICAL]

theorem no_frame_stranded_one_frame :
    watching.Always NoneStranded (rxStart, false) oneFrame ↔
      watching.Guarded LeavesNothing (rxStart, false) oneFrame :=
  no_frame_stranded_iff (s := _) rfl

/-- Two frames for one interrupt, and no pbuf for the first: the second stays. -/
theorem second_frame_stranded :
    ∃ s, watching.exec (rxStart, false)
        (.receive oneSegment (fun _ => 0) :: .receive oneSegment (fun _ => 0) :: wakeUp ++
          [.low_level_input none, .taskEXIT_CRITICAL]) = some s ∧
      ¬ NoneStranded s :=
  ⟨_, rfl, fun h => h rfl rfl rfl rfl ⟨1, 0, by decide⟩⟩

end EthIo.Eth
