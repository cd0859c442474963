import EthIo.Eth.InputTask

/-!
# `ethernetif_input`, call by call

`task` is the control of `ethernetif_input` as far as the receive ring depends on it. Here the same
loop is followed through each call it makes, `pbuf_free` among them, with the arguments of the call
and the depth of critical sections it is made at. What the calls return is an endless sequence of
outcomes, so a run never ends and nothing is assumed of it.

`goto TRY_GET_NEXT_FRAGMENT` leaves the second critical section of the body for the middle of the
first, so the pairing of `taskENTER_CRITICAL` and `taskEXIT_CRITICAL` is not that of the text: it is
`InputPos.depth`, a depth for each position. The sections counted are those of this function; what
it calls leaves what it enters.

A pbuf is the task's from its return by `low_level_input` until `netif->input` accepts it or
`pbuf_free` is called on it. `netif->input` is `tcpip_input`, and `tcpip_inpkt` behind it has the
pbuf exactly if it returns `ERR_OK`. Pbufs are told apart by the order of their return, whatever
memory they are in. `ethernetif_input_balanced` says both halves for every run; `exec_taskCalls`
that these are the runs of `task`.
-/

namespace EthIo.Eth

open EthIo.Base EthIo.Client

/-! ## The loop -/

/-- A pbuf `low_level_input` has returned, the `number`-th from zero, with its segments. -/
structure RxPbuf where
  number : Nat
  payload : List (List UInt8)
  deriving DecidableEq, Repr

/-- The positions of `ethernetif_input`, by the call that is next. -/
inductive InputPos
  | waiting
  | entering
  | getting
  | leaving
  | enteringInput
  | inputting
  | freeing
  | trying
  | leavingInput
  deriving DecidableEq, Repr

/-- `portMAX_DELAY`. -/
def portMAX_DELAY : UInt32 := 0xffffffff

/-- A call that was made: its arguments, and what it returned. -/
inductive InputCall
  | xSemaphoreTake (xTicksToWait : UInt32) (taken : Bool)
  | taskENTER_CRITICAL
  | taskEXIT_CRITICAL
  | low_level_input (p : Option RxPbuf)
  | input (p : Option RxPbuf) (errval : err_t)
  | pbuf_free (p : Option RxPbuf)
  deriving DecidableEq, Repr

/-- What the next call returns, whichever it is. -/
structure Outcome where
  taken : Bool
  p : Option (List (List UInt8))
  errval : err_t
  deriving DecidableEq, Repr

/-- Where the task is, how deep in critical sections, its local `p`, and how many pbufs it has been
returned. -/
structure InputState where
  pos : InputPos
  nesting : Int
  p : Option RxPbuf
  returned : Nat
  deriving DecidableEq, Repr

namespace InputState

/-- What `low_level_input` returns here. -/
def fragment (s : InputState) (o : Outcome) : Option RxPbuf := o.p.map (RxPbuf.mk s.returned)

/-- The call the task makes. -/
def call (s : InputState) (o : Outcome) : InputCall :=
  match s.pos with
  | .waiting => .xSemaphoreTake portMAX_DELAY o.taken
  | .entering => .taskENTER_CRITICAL
  | .getting => .low_level_input (s.fragment o)
  | .leaving => .taskEXIT_CRITICAL
  | .enteringInput => .taskENTER_CRITICAL
  | .inputting => .input s.p o.errval
  | .freeing => .pbuf_free s.p
  | .trying => .xSemaphoreTake 0 o.taken
  | .leavingInput => .taskEXIT_CRITICAL

/-- The state after it. -/
def next (s : InputState) (o : Outcome) : InputState :=
  match s.pos with
  | .waiting => { s with pos := if o.taken then .entering else .waiting }
  | .entering => { s with pos := .getting, nesting := s.nesting + 1 }
  | .getting =>
    { s with
      pos := .leaving
      p := s.fragment o
      returned := s.returned + (s.fragment o).toList.length }
  | .leaving =>
    { s with
      pos := if s.p ≠ none then .enteringInput else .waiting
      nesting := s.nesting - 1 }
  | .enteringInput => { s with pos := .inputting, nesting := s.nesting + 1 }
  | .inputting => { s with pos := if o.errval ≠ ERR_OK then .freeing else .trying }
  | .freeing => { s with pos := .leavingInput, p := none }
  -- `goto TRY_GET_NEXT_FRAGMENT`, with or without a token
  | .trying => { s with pos := .getting }
  | .leavingInput => { s with pos := .waiting, nesting := s.nesting - 1 }

/-- The task has been created. -/
def start : InputState := { pos := .waiting, nesting := 0, p := none, returned := 0 }

end InputState

/-- The task after its first `n` calls. -/
def stateAt (o : Nat → Outcome) : Nat → InputState := endless InputState.next .start o

/-- The call it makes next. -/
def callAt (o : Nat → Outcome) (n : Nat) : InputCall := (stateAt o n).call (o n)

/-! ## Critical sections -/

/-- How deep in critical sections a position is. -/
def InputPos.depth : InputPos → Int
  | .waiting | .entering | .enteringInput => 0
  | .getting | .leaving | .inputting | .freeing | .trying | .leavingInput => 1

theorem InputPos.depth_bounds (pos : InputPos) : 0 ≤ pos.depth ∧ pos.depth ≤ 1 := by
  cases pos <;> simp [depth]

namespace InputState

variable {s : InputState} {o : Outcome} {q : RxPbuf}

/-- The task is as deep in critical sections as its position says. -/
def AtDepth (s : InputState) : Prop := s.nesting = s.pos.depth

theorem atDepth_start : AtDepth start := rfl

/-- A step moves the depth as it moves the position. -/
theorem AtDepth.next (h : AtDepth s) (o : Outcome) : AtDepth (s.next o) := by
  unfold AtDepth InputState.next at *
  cases hpos : s.pos <;> simp only [hpos, InputPos.depth] at h ⊢
  case waiting => split_ifs <;> exact h
  case inputting => split_ifs <;> exact h
  case leaving => split_ifs <;> simp only [h, Int.sub_self]
  all_goals omega

/-- `low_level_input` and `netif->input` are called in positions inside a critical section. -/
theorem depth_of_handling {p : Option RxPbuf} {errval : err_t}
    (h : s.call o = .low_level_input p ∨ s.call o = .input p errval) : s.pos.depth = 1 := by
  unfold call at h
  cases hpos : s.pos <;> simp [hpos] at h <;> rfl

/-- The call that waits is made outside. -/
theorem depth_of_blocking {xTicksToWait : UInt32} {taken : Bool}
    (h : s.call o = .xSemaphoreTake xTicksToWait taken) (hwait : 0 < xTicksToWait) :
    s.pos.depth = 0 := by
  unfold call at h
  cases hpos : s.pos <;> simp only [hpos, InputCall.xSemaphoreTake.injEq, reduceCtorEq] at h
  case waiting => rfl
  case trying =>
    rw [← h.1] at hwait
    exact absurd hwait (by decide)

/-! ## Whose the pbuf is -/

theorem fragment_eq_some :
    s.fragment o = some q ↔ o.p = some q.payload ∧ q.number = s.returned := by
  obtain ⟨number, payload⟩ := q
  simp only [fragment, Option.map_eq_some_iff, RxPbuf.mk.injEq]
  constructor
  · rintro ⟨x, hx, rfl, rfl⟩
    exact ⟨hx, rfl⟩
  · rintro ⟨hx, rfl⟩
    exact ⟨payload, hx, rfl, rfl⟩

theorem call_eq_low_level_input {p : Option RxPbuf} (h : s.call o = .low_level_input p) :
    s.pos = .getting ∧ s.fragment o = p := by
  unfold call at h
  cases hpos : s.pos <;> simp [hpos] at h
  exact ⟨rfl, h⟩

/-- What stands in `p` after a step has just been returned, or stood there before. -/
theorem next_p (hq : (s.next o).p = some q) :
    if s.pos = .getting then s.fragment o = some q else s.p = some q := by
  unfold next at hq
  cases hpos : s.pos <;> simp only [hpos] at hq
  case freeing => cases hq
  all_goals exact hq

theorem returned_le_next (s : InputState) (o : Outcome) : s.returned ≤ (s.next o).returned := by
  unfold next
  cases s.pos <;> simp

theorem returned_next (hpos : s.pos = .getting) (hq : s.fragment o = some q) :
    (s.next o).returned = s.returned + 1 := by
  simp [next, hpos, hq]

theorem number_of_returned (h : s.call o = .low_level_input (some q)) : q.number = s.returned :=
  (fragment_eq_some.mp (call_eq_low_level_input h).2).2

theorem number_lt_of_returned (h : s.call o = .low_level_input (some q)) :
    q.number < (s.next o).returned := by
  obtain ⟨hpos, hq⟩ := call_eq_low_level_input h
  rw [returned_next hpos hq, number_of_returned h]
  exact Nat.lt_succ_self _

/-- `p` is one of the pbufs returned. -/
def Numbered (s : InputState) : Prop := ∀ q, s.p = some q → q.number < s.returned

theorem numbered_start : Numbered start := fun _ h => by cases h

theorem Numbered.next (h : Numbered s) (o : Outcome) : Numbered (s.next o) := by
  intro q hq
  have hp := next_p hq
  split_ifs at hp with hpos
  · rw [returned_next hpos hp, (fragment_eq_some.mp hp).2]
    exact Nat.lt_succ_self _
  · exact (h q hp).trans_le (returned_le_next s o)

end InputState

/-- Whether a pbuf in `p` is the task's. -/
def InputPos.holding : InputPos → Bool
  | .leaving | .enteringInput | .inputting | .freeing => true
  | .waiting | .entering | .getting | .trying | .leavingInput => false

namespace InputState

variable {s : InputState} {o : Outcome} {q : RxPbuf}

/-- The pbuf is the task's: it has been returned, and neither accepted nor freed. -/
def Holds (q : RxPbuf) (s : InputState) : Prop := s.pos.holding = true ∧ s.p = some q

/-- The pbuf has been returned, and is no longer the task's. -/
def Gone (q : RxPbuf) (s : InputState) : Prop := q.number < s.returned ∧ ¬ Holds q s

/-- The call that ends it: `netif->input` accepts the pbuf, or it is freed. -/
def Disposes (q : RxPbuf) (call : InputCall) : Prop :=
  call = .input (some q) ERR_OK ∨ call = .pbuf_free (some q)

theorem next_holding (h : (s.next o).pos.holding = true) :
    s.pos.holding = true ∨ s.pos = .getting := by
  unfold next at h
  cases hpos : s.pos <;> simp only [hpos] at h
  case getting => exact .inr rfl
  case waiting => split_ifs at h <;> cases h
  case entering | trying | leavingInput => cases h
  all_goals exact .inl rfl

/-- **A pbuf that is gone stays gone**: the next one returned has a number of its own. -/
theorem Gone.next (h : Gone q s) (o : Outcome) : Gone q (s.next o) := by
  obtain ⟨hnum, hnot⟩ := h
  refine ⟨hnum.trans_le (returned_le_next s o), ?_⟩
  intro hholds
  obtain ⟨hholding, hq⟩ := hholds
  have hp := next_p hq
  split_ifs at hp with hpos
  · exact absurd (fragment_eq_some.mp hp).2 (Nat.ne_of_lt hnum)
  · exact hnot ⟨(next_holding hholding).resolve_right hpos, hp⟩

theorem holds_of_disposes (h : Disposes q (s.call o)) : Holds q s := by
  unfold Disposes call at h
  cases hpos : s.pos <;> simp [hpos] at h
  case inputting => exact ⟨hpos ▸ rfl, h.1⟩
  case freeing => exact ⟨hpos ▸ rfl, h⟩

/-- Once it is accepted or freed a pbuf is gone. -/
theorem gone_of_disposes (hnum : Numbered s) (h : Disposes q (s.call o)) : Gone q (s.next o) := by
  have hnumber := hnum q (holds_of_disposes h).2
  refine ⟨hnumber.trans_le (returned_le_next s o), ?_⟩
  intro hholds
  have hholding := hholds.1
  unfold Disposes call at h
  unfold next at hholding
  cases hpos : s.pos <;> simp [hpos] at h hholding
  case inputting =>
    rw [if_pos h.2] at hholding
    cases hholding
  case freeing => cases hholding

/-- What is returned is held, and held from call to call until it is accepted or freed. -/
theorem holds_returned (h : s.call o = .low_level_input (some q)) :
    (s.next o).pos = .leaving ∧ (s.next o).p = some q := by
  obtain ⟨hpos, hq⟩ := call_eq_low_level_input h
  simp [next, hpos, hq]

theorem holds_leaving (hpos : s.pos = .leaving) (hq : s.p = some q) :
    (s.next o).pos = .enteringInput ∧ (s.next o).p = some q := by
  simp [next, hpos, hq]

theorem holds_enteringInput (hpos : s.pos = .enteringInput) (hq : s.p = some q) :
    (s.next o).pos = .inputting ∧ (s.next o).p = some q := by
  simp [next, hpos, hq]

theorem holds_inputting (hpos : s.pos = .inputting) (hq : s.p = some q) (o : Outcome) :
    Disposes q (s.call o) ∨ (s.next o).pos = .freeing ∧ (s.next o).p = some q := by
  by_cases herr : o.errval = ERR_OK
  · exact .inl (.inl (by simp [call, hpos, hq, herr]))
  · exact .inr (by simp [next, hpos, hq, herr])

theorem disposes_freeing (hpos : s.pos = .freeing) (hq : s.p = some q) (o : Outcome) :
    Disposes q (s.call o) :=
  .inr (by simp [call, hpos, hq])

end InputState

/-! ## The whole run -/

open InputState

section

variable (o : Nat → Outcome)

theorem atDepth_stateAt (n : Nat) : AtDepth (stateAt o n) :=
  endless_invariant (I := AtDepth) (fun _ o h => h.next o) atDepth_start n

theorem numbered_stateAt (n : Nat) : Numbered (stateAt o n) :=
  endless_invariant (I := Numbered) (fun _ o h => h.next o) numbered_start n

variable {o}

/-- At most one call accepts or frees a pbuf. -/
theorem disposes_unique {q : RxPbuf} {i j : Nat} (hi : Disposes q (callAt o i))
    (hj : Disposes q (callAt o j)) : i = j :=
  endless_once (P := fun s o => Disposes q (s.call o)) (I := Gone q) (fun _ o h => h.next o)
    (fun n => gone_of_disposes (numbered_stateAt o n))
    (fun _ _ hgone hdisposes => hgone.2 (holds_of_disposes hdisposes)) hi hj

/-- One of the four calls behind its return accepts or frees a pbuf. -/
theorem disposes_exists {q : RxPbuf} {n : Nat} (h : callAt o n = .low_level_input (some q)) :
    ∃ i, n < i ∧ i ≤ n + 4 ∧ Disposes q (callAt o i) := by
  obtain ⟨hpos₁, hq₁⟩ : (stateAt o (n + 1)).pos = .leaving ∧ _ := holds_returned h
  obtain ⟨hpos₂, hq₂⟩ : (stateAt o (n + 2)).pos = .enteringInput ∧ _ := holds_leaving hpos₁ hq₁
  obtain ⟨hpos₃, hq₃⟩ : (stateAt o (n + 3)).pos = .inputting ∧ _ :=
    holds_enteringInput hpos₂ hq₂
  rcases holds_inputting hpos₃ hq₃ (o (n + 3)) with hnow | ⟨hpos₄, hq₄⟩
  · exact ⟨n + 3, by omega, by omega, hnow⟩
  · exact ⟨n + 4, by omega, by omega, disposes_freeing hpos₄ hq₄ _⟩

/-- **A pbuf is accepted or freed once**, by one of the four calls behind its return. -/
theorem disposes_iff {q : RxPbuf} {n : Nat} (h : callAt o n = .low_level_input (some q)) :
    ∃ i, n < i ∧ i ≤ n + 4 ∧ ∀ j, Disposes q (callAt o j) ↔ j = i := by
  obtain ⟨i, hlt, hle, hi⟩ := disposes_exists h
  refine ⟨i, hlt, hle, fun j => ⟨fun hj => disposes_unique hj hi, ?_⟩⟩
  rintro rfl
  exact hi

/-- No pbuf is returned twice. -/
theorem returned_unique {q : RxPbuf} {i j : Nat} (hi : callAt o i = .low_level_input (some q))
    (hj : callAt o j = .low_level_input (some q)) : i = j :=
  endless_once (P := fun s o => s.call o = .low_level_input (some q))
    (I := fun s => q.number < s.returned) (fun s o h => h.trans_le (returned_le_next s o))
    (fun _ => number_lt_of_returned)
    (fun _ _ hlt hcall => absurd (number_of_returned hcall) (Nat.ne_of_lt hlt)) hi hj

end

/-- **Sections and pbufs are balanced**, over the whole run: a depth of 0 or 1, 1 where a frame is
fetched or passed on, 0 where the task may block; and each pbuf returned is accepted or freed by
exactly one call, which is one of the next four. -/
structure Balanced (o : Nat → Outcome) : Prop where
  bounds : ∀ n, 0 ≤ (stateAt o n).nesting ∧ (stateAt o n).nesting ≤ 1
  handling : ∀ n p errval, callAt o n = .low_level_input p ∨ callAt o n = .input p errval →
    (stateAt o n).nesting = 1
  blocking : ∀ n xTicksToWait taken, callAt o n = .xSemaphoreTake xTicksToWait taken →
    0 < xTicksToWait → (stateAt o n).nesting = 0
  owned : ∀ n q, callAt o n = .low_level_input (some q) →
    ∃ i, n < i ∧ i ≤ n + 4 ∧ ∀ j, Disposes q (callAt o j) ↔ j = i

/-- **`ethernetif_input` is balanced**, whatever its calls return. -/
theorem ethernetif_input_balanced (o : Nat → Outcome) : Balanced o where
  bounds n := by
    rw [atDepth_stateAt o n]
    exact InputPos.depth_bounds _
  handling n p errval h := (atDepth_stateAt o n).trans (depth_of_handling h)
  blocking n xTicksToWait taken h hwait := (atDepth_stateAt o n).trans (depth_of_blocking h hwait)
  owned n q h := disposes_iff h

/-! ## Behind `netif->input` -/

/-- The mailbox of `tcpip_thread`, and how many messages of `MEMP_TCPIP_MSG_INPKT` are taken. -/
structure Tcpip (α : Type*) where
  tcpip_mbox : List α
  messages : Nat

/-- `tcpip_inpkt`, with what `memp_malloc` and `sys_mbox_trypost` answer. -/
def tcpip_inpkt {α : Type*} (p : α) (memp_malloc : Bool) (sys_mbox_trypost : err_t)
    (t : Tcpip α) : err_t × Tcpip α :=
  if memp_malloc = false then (ERR_MEM, t)
  else
    let t := { t with messages := t.messages + 1 }
    if sys_mbox_trypost ≠ ERR_OK then
      -- `memp_free`
      (ERR_MEM, { t with messages := t.messages - 1 })
    else (ERR_OK, { t with tcpip_mbox := t.tcpip_mbox ++ [p] })

/-- **`ERR_OK` means posted**, and an error leaves mailbox and pool as they were. -/
theorem tcpip_inpkt_cases {α : Type*} (p : α) (memp_malloc : Bool) (sys_mbox_trypost : err_t)
    (t : Tcpip α) :
    tcpip_inpkt p memp_malloc sys_mbox_trypost t =
        (ERR_OK, { tcpip_mbox := t.tcpip_mbox ++ [p], messages := t.messages + 1 }) ∨
      tcpip_inpkt p memp_malloc sys_mbox_trypost t = (ERR_MEM, t) := by
  unfold tcpip_inpkt
  split_ifs
  · exact .inr rfl
  · exact .inr rfl
  · exact .inl rfl

theorem tcpip_inpkt_posts_iff {α : Type*} (p : α) (memp_malloc : Bool) (sys_mbox_trypost : err_t)
    (t : Tcpip α) :
    (tcpip_inpkt p memp_malloc sys_mbox_trypost t).2.tcpip_mbox = t.tcpip_mbox ++ [p] ↔
      (tcpip_inpkt p memp_malloc sys_mbox_trypost t).1 = ERR_OK := by
  rcases tcpip_inpkt_cases p memp_malloc sys_mbox_trypost t with h | h
  · rw [h]
    simp
  · rw [h]
    simp [ERR_MEM, ERR_OK]

/-- Where `netif->input` is `tcpip_inpkt`, each pbuf returned is posted to `tcpip_thread` or freed,
by exactly one call. The mailbox may have been fetched from in the meantime. -/
theorem posted_or_freed {o : Nat → Outcome} {memp_malloc : Nat → Bool}
    {sys_mbox_trypost : Nat → err_t} {tcpip : Nat → Tcpip RxPbuf}
    (hinput : ∀ n q errval, callAt o n = .input (some q) errval →
      errval = (tcpip_inpkt q (memp_malloc n) (sys_mbox_trypost n) (tcpip n)).1)
    {n : Nat} {q : RxPbuf} (h : callAt o n = .low_level_input (some q)) :
    ∃ i, n < i ∧ i ≤ n + 4 ∧ ∀ j,
      ((∃ errval, callAt o j = .input (some q) errval ∧
          (tcpip_inpkt q (memp_malloc j) (sys_mbox_trypost j) (tcpip j)).2.tcpip_mbox =
            (tcpip j).tcpip_mbox ++ [q]) ∨
        callAt o j = .pbuf_free (some q)) ↔ j = i := by
  obtain ⟨i, hlt, hle, hi⟩ := disposes_iff h
  refine ⟨i, hlt, hle, fun j => ?_⟩
  rw [← hi j]
  refine or_congr_left ?_
  simp only [tcpip_inpkt_posts_iff]
  constructor
  · rintro ⟨errval, hcall, hok⟩
    rwa [hinput j q errval hcall, hok] at hcall
  · intro hcall
    exact ⟨ERR_OK, hcall, (hinput j q ERR_OK hcall).symm⟩

/-! ## The control of the task -/

/-- The position in `task`, which frees a pbuf in the step that refuses it. -/
def InputPos.toPc : InputPos → Pc
  | .waiting => .waiting
  | .entering => .entering
  | .getting => .getting
  | .leaving => .leaving
  | .enteringInput => .enteringInput
  | .inputting => .inputting
  | .freeing | .leavingInput => .leavingInput
  | .trying => .trying

/-- The task as `task` sees it. -/
def InputState.toTask (s : InputState) : Task where
  pc := s.pos.toPc
  nesting := s.nesting
  p := if s.pos = .freeing then none else s.p.map RxPbuf.payload

/-- The call as `task` has it. -/
def InputState.toCall (s : InputState) (o : Outcome) : Option Call :=
  match s.pos with
  | .waiting => some (.xSemaphoreTake o.taken)
  | .entering | .enteringInput => some .taskENTER_CRITICAL
  | .getting => some (.low_level_input o.p)
  | .leaving | .leavingInput => some .taskEXIT_CRITICAL
  | .inputting => some (.input o.errval)
  | .freeing => none
  | .trying => some (.tryTake o.taken)

/-- **A call is a step of `task`**, `pbuf_free` apart, which is part of the step before it. -/
theorem exec_toCall (s : InputState) (o : Outcome) :
    task.exec s.toTask (s.toCall o).toList = some (s.next o).toTask := by
  obtain ⟨pos, nesting, p, returned⟩ := s
  obtain ⟨taken, x, errval⟩ := o
  have hpayload (pos : InputPos) :
      (InputState.fragment ⟨pos, nesting, p, returned⟩ ⟨taken, x, errval⟩).map RxPbuf.payload =
        x := by
    cases x <;> rfl
  cases pos <;> simp only [InputState.toCall, InputState.toTask, InputState.next, InputPos.toPc,
    Option.toList_some, Option.toList_none, Machine.exec_cons, Machine.exec_nil, task, Task.step,
    ↓reduceIte, reduceCtorEq, Option.bind_some]
  case waiting => cases taken <;> rfl
  case getting => rw [hpayload]
  case leaving => cases p <;> rfl
  case inputting => by_cases h : errval = ERR_OK <;> simp [h]
  case freeing => rfl

/-- The calls of the first `n`, as `task` has them. -/
def taskCalls (o : Nat → Outcome) (n : Nat) : List Call :=
  (List.range n).flatMap fun i => ((stateAt o i).toCall (o i)).toList

/-- **The run refines `task`**: without `pbuf_free` its calls are a run of `task`. -/
theorem exec_taskCalls (o : Nat → Outcome) (n : Nat) :
    task.exec InputState.start.toTask (taskCalls o n) = some (stateAt o n).toTask := by
  induction n with
  | zero => rfl
  | succ n ih =>
    rw [taskCalls, List.range_succ, List.flatMap_append, Machine.exec_append, ← taskCalls, ih,
      List.flatMap_singleton, Option.bind_some]
    exact exec_toCall _ _

end EthIo.Eth
