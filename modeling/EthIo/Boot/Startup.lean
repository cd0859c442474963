import EthIo.Base.Machine

/-!
# Start-up

`main` up to the scheduler, then `AppTaskCreate`, one call at a time, with what each leaves to be
used: the interrupts `BSP_Init` enables, the handles the task creations set, the timer. A creation
may fail, and the wait for DHCP in `TCPIP_Init` is a position the start-up may stand at for any
time.

An interrupt can come once its line is enabled and while interrupts are not masked. FreeRTOS masks
them from the first call of its API in `main` until the scheduler starts, and in the critical
section of `AppTaskCreate`; no task runs in either. `client` has a higher priority than
`AppTaskCreate`, so it runs before `client_init` has set the handle that `sys_thread_new` returns.

Each give reads its handle when it is made. `no_null_give_iff` says which of them may come
when: the three of `Ethsend_Task_Handle` after `client_init`, and that of the UART after the task
it notifies exists.
-/

namespace EthIo.Boot

open EthIo.Base

/-- The tasks that are notified. -/
inductive Task
  | client
  | I2ceeprom_Task
  deriving DecidableEq, Repr

/-- Where the start-up stands: before the call of this name. -/
inductive Pos
  | INPUT_EXTI_Init
  | INPUT2_INT_EXTI
  | USART_Init
  | I2C_Read_EE_IP
  | xTaskCreate
  | vTaskStartScheduler
  | TCPIP_Init
  | client_init
  | sys_thread_new_return
  | clientrecv_init
  | taskENTER_CRITICAL
  | I2ceeprom_Task_create
  | xTimerCreate
  | taskEXIT_CRITICAL
  | running
  | stopped
  deriving DecidableEq, Repr

/-- What the start-up has left so far. -/
structure Startup where
  pos : Pos
  masked : Bool
  EXTI0_enabled : Bool
  EXTI15_10_enabled : Bool
  USART1_enabled : Bool
  tasks : List Task
  Ethsend_Task_Handle : Option Task
  I2ceeprom_Task_Handle : Option Task
  clientrecv : Bool
  Swtmr1 : Bool
  deriving DecidableEq, Repr

/-- Reset, `HAL_Init` and the GPIO configuration behind it. -/
def Startup.reset : Startup :=
  ⟨.INPUT_EXTI_Init, false, false, false, false, [], none, none, false, false⟩

/-- The next call of the start-up, with its success where it can fail, and the gives: the two pins,
the completion of a receive abort, the timer, and a `query` command. -/
inductive Event
  | call (ok : Bool)
  | EXTI0
  | EXTI15_10
  | AbortReceiveCplt
  | Swtmr1_Callback
  | query
  deriving DecidableEq, Repr

/-- One call of the start-up. -/
def Startup.call (b : Startup) (ok : Bool) : Option Startup :=
  match b.pos with
  | .INPUT_EXTI_Init => some { b with pos := .INPUT2_INT_EXTI, EXTI0_enabled := true }
  | .INPUT2_INT_EXTI => some { b with pos := .USART_Init, EXTI15_10_enabled := true }
  | .USART_Init => some { b with pos := .I2C_Read_EE_IP, USART1_enabled := true }
  | .I2C_Read_EE_IP => some { b with pos := .xTaskCreate }
  | .xTaskCreate =>
    -- leaving a critical section before the scheduler runs does not unmask
    some { b with masked := true, pos := if ok then .vTaskStartScheduler else .stopped }
  | .vTaskStartScheduler =>
    if ok then some { b with masked := false, pos := .TCPIP_Init }
    else some { b with pos := .stopped }
  | .TCPIP_Init => some { b with pos := .client_init }
  | .client_init =>
    if ok then some { b with tasks := .client :: b.tasks, pos := .sys_thread_new_return }
    else some { b with Ethsend_Task_Handle := none, pos := .clientrecv_init }
  | .sys_thread_new_return =>
    some { b with Ethsend_Task_Handle := some .client, pos := .clientrecv_init }
  | .clientrecv_init => some { b with clientrecv := ok, pos := .taskENTER_CRITICAL }
  | .taskENTER_CRITICAL => some { b with masked := true, pos := .I2ceeprom_Task_create }
  | .I2ceeprom_Task_create =>
    if ok then
      some { b with
        tasks := .I2ceeprom_Task :: b.tasks
        I2ceeprom_Task_Handle := some .I2ceeprom_Task
        pos := .xTimerCreate }
    else some { b with pos := .taskEXIT_CRITICAL }
  | .xTimerCreate => some { b with Swtmr1 := ok, pos := .taskEXIT_CRITICAL }
  | .taskEXIT_CRITICAL => some { b with masked := false, pos := .running }
  | .running => none
  | .stopped => none

/-- Whether an event can come. -/
def Startup.can (b : Startup) : Event → Bool
  | .call _ => true
  | .EXTI0 => b.EXTI0_enabled && !b.masked
  | .EXTI15_10 => b.EXTI15_10_enabled && !b.masked
  | .AbortReceiveCplt => b.USART1_enabled && !b.masked
  | .Swtmr1_Callback => b.Swtmr1 && !b.masked
  | .query => b.clientrecv && !b.masked

/-- The handle an event gives to, as it stands. -/
def Startup.target (b : Startup) : Event → Option (Option Task)
  | .call _ => none
  | .AbortReceiveCplt => some b.I2ceeprom_Task_Handle
  | .EXTI0 | .EXTI15_10 | .Swtmr1_Callback | .query => some b.Ethsend_Task_Handle

/-- A call moves the start-up; a give leaves it where it stands. -/
def Startup.step (b : Startup) : Event → Option Startup
  | .call ok => b.call ok
  | e => if b.can e then some b else none

/-- The start-up as a machine. -/
def machine : Machine Startup Event := ⟨Startup.step⟩

/-- Whether a give has been made with a handle that is `NULL`. -/
def Startup.gaveNull (b : Startup) (e : Event) (given : Bool) : Bool :=
  given || decide (b.target e = some none)

/-- The start-up with that record. -/
def watched : Machine (Startup × Bool) Event := machine.observe Startup.gaveNull

/-- **No give has been made with a `NULL` handle.** -/
def NoNullGive (s : Startup × Bool) : Prop := s.2 = false

/-- The start-up is past `client_init`. -/
def Pos.pastClientInit : Pos → Bool
  | .clientrecv_init | .taskENTER_CRITICAL | .I2ceeprom_Task_create | .xTimerCreate
  | .taskEXIT_CRITICAL | .running => true
  | _ => false

/-- A give that finds its task: for `client` once `client_init` has returned from a creation that
succeeded, for `I2ceeprom_Task` once it has been created. -/
def Ready (s : Startup × Bool) : Event → Prop
  | .call _ => True
  | .AbortReceiveCplt => .I2ceeprom_Task ∈ s.1.tasks
  | .EXTI0 | .EXTI15_10 | .Swtmr1_Callback | .query =>
    s.1.pos.pastClientInit = true ∧ .client ∈ s.1.tasks

/-- The handles are set exactly as the tasks come to exist, but for the time between the creation of
`client` and the return of `sys_thread_new`. -/
structure HandlesInv (b : Startup) : Prop where
  ethsend : b.Ethsend_Task_Handle = none ↔ ¬(b.pos.pastClientInit = true ∧ .client ∈ b.tasks)
  i2ceeprom : b.I2ceeprom_Task_Handle = none ↔ .I2ceeprom_Task ∉ b.tasks
  returning : b.pos = .sys_thread_new_return → .client ∈ b.tasks
  created : .client ∈ b.tasks → b.pos = .sys_thread_new_return ∨ b.pos.pastClientInit = true

theorem handlesInv_reset : HandlesInv .reset where
  ethsend := by decide
  i2ceeprom := by decide
  returning h := Pos.noConfusion h
  created h := by cases h

/-- A call that creates no task and sets no handle keeps the two together. -/
theorem handlesInv_move {b b' : Startup} (hI : HandlesInv b) (htasks : b'.tasks = b.tasks)
    (he : b'.Ethsend_Task_Handle = b.Ethsend_Task_Handle)
    (hi : b'.I2ceeprom_Task_Handle = b.I2ceeprom_Task_Handle)
    (hpast : b'.pos.pastClientInit = b.pos.pastClientInit)
    (hret : b.pos ≠ .sys_thread_new_return) (hret' : b'.pos ≠ .sys_thread_new_return) :
    HandlesInv b' where
  ethsend := by rw [he, hpast, htasks]; exact hI.ethsend
  i2ceeprom := by rw [hi, htasks]; exact hI.i2ceeprom
  returning h := absurd h hret'
  created h := .inr (hpast.trans ((hI.created (htasks ▸ h)).resolve_left hret))

/-- `client_init` creates the task, or leaves the handle `NULL` for good. -/
theorem handlesInv_client_init {b b' : Startup} {ok : Bool} (hI : HandlesInv b)
    (hpos : b.pos = .client_init) (hcall : b.call ok = some b') : HandlesInv b' := by
  have hnone : Task.client ∉ b.tasks := by
    intro hmem
    rcases hI.created hmem with h | h <;> rw [hpos] at h <;> cases h
  have hnull : b.Ethsend_Task_Handle = none := hI.ethsend.mpr fun h => hnone h.2
  simp only [Startup.call, hpos] at hcall
  split_ifs at hcall
  · cases hcall
    exact
      { ethsend := iff_of_true hnull fun h => Bool.noConfusion h.1
        i2ceeprom := by simpa using hI.i2ceeprom
        returning := fun _ => List.mem_cons_self
        created := fun _ => .inl rfl }
  · cases hcall
    exact
      { ethsend := iff_of_true rfl fun h => hnone h.2
        i2ceeprom := hI.i2ceeprom
        returning := fun h => Pos.noConfusion h
        created := fun h => absurd h hnone }

/-- The return of `sys_thread_new` sets the handle of a task that exists. -/
theorem handlesInv_return {b b' : Startup} {ok : Bool} (hI : HandlesInv b)
    (hpos : b.pos = .sys_thread_new_return) (hcall : b.call ok = some b') : HandlesInv b' := by
  simp only [Startup.call, hpos, Option.some.injEq] at hcall
  subst hcall
  exact
    { ethsend := iff_of_false (fun h => Option.noConfusion rfl (heq_of_eq h))
        fun h => h ⟨rfl, hI.returning hpos⟩
      i2ceeprom := hI.i2ceeprom
      returning := fun h => Pos.noConfusion h
      created := fun _ => .inr rfl }

/-- The creation of `I2ceeprom_Task` sets its handle with it. -/
theorem handlesInv_I2ceeprom {b b' : Startup} {ok : Bool} (hI : HandlesInv b)
    (hpos : b.pos = .I2ceeprom_Task_create) (hcall : b.call ok = some b') : HandlesInv b' := by
  have hpast : b.pos.pastClientInit = true := by rw [hpos]; rfl
  simp only [Startup.call, hpos] at hcall
  split_ifs at hcall
  · cases hcall
    exact
      { ethsend := by
          have := hI.ethsend
          rw [hpast] at this
          simpa [Pos.pastClientInit] using this
        i2ceeprom := iff_of_false (fun h => Option.noConfusion rfl (heq_of_eq h))
          fun h => h List.mem_cons_self
        returning := fun h => Pos.noConfusion h
        created := fun _ => .inr rfl }
  · cases hcall
    exact handlesInv_move hI rfl rfl rfl (by rw [hpos]; rfl) (by rw [hpos]; decide)
      fun h => Pos.noConfusion h

/-- Each call keeps the handles and the tasks together. -/
theorem handlesInv_call {b b' : Startup} {ok : Bool} (hI : HandlesInv b)
    (hcall : b.call ok = some b') : HandlesInv b' := by
  cases hpos : b.pos with
  | client_init => exact handlesInv_client_init hI hpos hcall
  | sys_thread_new_return => exact handlesInv_return hI hpos hcall
  | I2ceeprom_Task_create => exact handlesInv_I2ceeprom hI hpos hcall
  | xTaskCreate =>
    simp only [Startup.call, hpos, Option.some.injEq] at hcall
    subst hcall
    refine handlesInv_move hI rfl rfl rfl ?_ (by rw [hpos]; decide) ?_
    · rw [hpos]
      cases ok <;> rfl
    · cases ok <;> exact fun h => Pos.noConfusion h
  | vTaskStartScheduler =>
    simp only [Startup.call, hpos] at hcall
    split_ifs at hcall <;> cases hcall <;>
      exact handlesInv_move hI rfl rfl rfl (by rw [hpos]; rfl) (by rw [hpos]; decide)
      fun h => Pos.noConfusion h
  | running => simp [Startup.call, hpos] at hcall
  | stopped => simp [Startup.call, hpos] at hcall
  | _ =>
    simp only [Startup.call, hpos, Option.some.injEq] at hcall
    subst hcall
    exact handlesInv_move hI rfl rfl rfl (by rw [hpos]; rfl) (by rw [hpos]; decide)
      fun h => Pos.noConfusion h

/-- A give leaves the start-up where it stands, and the handle it reads decides. -/
theorem step_give {b b' : Startup} {e : Event} (he : ∀ ok, e ≠ .call ok)
    (hstep : b.step e = some b') : b' = b := by
  cases e with
  | call ok => exact absurd rfl (he ok)
  | _ =>
    simp only [Startup.step] at hstep
    split_ifs at hstep
    exact (Option.some.inj hstep).symm

/-- A give finds its handle set exactly when it is ready. -/
theorem target_ne_null_iff {b : Startup} (hI : HandlesInv b) {g : Bool} (e : Event) :
    b.target e ≠ some none ↔ Ready (b, g) e := by
  have hclient : b.Ethsend_Task_Handle ≠ none ↔
      b.pos.pastClientInit = true ∧ .client ∈ b.tasks := by
    rw [ne_eq, hI.ethsend, not_not]
  cases e with
  | call ok => exact iff_of_true (fun h => Option.noConfusion rfl (heq_of_eq h)) trivial
  | AbortReceiveCplt =>
    have : b.I2ceeprom_Task_Handle ≠ none ↔ .I2ceeprom_Task ∈ b.tasks := by
      rw [ne_eq, hI.i2ceeprom, not_not]
    simpa [Startup.target, Ready] using this
  | _ => simpa [Startup.target, Ready] using hclient

/-- The handles and the tasks agree, and no give has been made with a `NULL` handle. -/
def SafeInv (s : Startup × Bool) : Prop := HandlesInv s.1 ∧ NoNullGive s

theorem handlesInv_step {b b' : Startup} {e : Event} (hI : HandlesInv b)
    (hstep : b.step e = some b') : HandlesInv b' := by
  by_cases he : ∃ ok, e = .call ok
  · obtain ⟨ok, rfl⟩ := he
    exact handlesInv_call hI hstep
  · rw [step_give (fun ok h => he ⟨ok, h⟩) hstep]
    exact hI

theorem safeInv_keep (b : Startup) (given : Bool) (e : Event) (b' : Startup)
    (hI : SafeInv (b, given)) (hG : Ready (b, given) e) (hs : b.step e = some b') :
    SafeInv (b', b.gaveNull e given) := by
  obtain ⟨hhandles, hsafe⟩ := hI
  refine ⟨handlesInv_step hhandles hs, ?_⟩
  have hset := (target_ne_null_iff hhandles e).mpr hG
  have hsafe : given = false := hsafe
  simp [NoNullGive, Startup.gaveNull, hsafe, hset]

theorem noNullGive_breaks (b : Startup) (given : Bool) (e : Event) (b' : Startup)
    (hI : SafeInv (b, given)) (hG : ¬ Ready (b, given) e) (_ : b.step e = some b') :
    ¬ NoNullGive (b', b.gaveNull e given) := by
  have hnull : b.target e = some none :=
    not_not.mp fun h => hG ((target_ne_null_iff hI.1 e).mp h)
  simp [NoNullGive, Startup.gaveNull, hnull]

/-- **When no give is made with a `NULL` handle**: exactly on the runs where the gives to `client`
come after a `client_init` that has created it, and those to `I2ceeprom_Task` after its creation. -/
theorem no_null_give_iff {es : List Event} {s : Startup} (hrun : machine.exec .reset es = some s) :
    watched.Always NoNullGive (.reset, false) es ↔ watched.Guarded Ready (.reset, false) es :=
  Machine.observe_always_iff_guarded (fun _ hI => hI.2) safeInv_keep noNullGive_breaks
    ⟨handlesInv_reset, rfl⟩ hrun

/-- The whole start-up, and the timer and an input after it. -/
theorem no_null_give_quiet_boot :
    watched.Always NoNullGive (.reset, false)
        (List.replicate 14 (.call true) ++ [.Swtmr1_Callback, .EXTI0, .AbortReceiveCplt]) ↔
      watched.Guarded Ready (.reset, false)
        (List.replicate 14 (.call true) ++ [.Swtmr1_Callback, .EXTI0, .AbortReceiveCplt]) :=
  no_null_give_iff rfl

/-- An edge on the first input as soon as its line is enabled, with nothing created yet. -/
theorem early_edge_gives_null :
    (watched.exec (.reset, false) [.call true, .EXTI0]).isSome = true ∧
      ¬ watched.Always NoNullGive (.reset, false) [.call true, .EXTI0] :=
  ⟨rfl, fun h => Bool.noConfusion (h.last rfl)⟩

end EthIo.Boot
