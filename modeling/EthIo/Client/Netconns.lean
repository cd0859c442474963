import EthIo.Client.Task

/-!
# The netconns that `client` holds

The retry loop makes a netconn for each attempt. After a failed connect it calls `netconn_close`,
which gives up the connection and the mailbox but not the `struct netconn`; only `netconn_delete`
puts that back into its pool, and `client` never calls it. Each failed attempt therefore keeps one
entry, and `netconn_new` returns `NULL` for good once the pool is empty (`retries_hold`).

`no_leak_iff` is the exact condition: no netconn is made after a connect that has returned `-1`.
-/

namespace EthIo.Client

open EthIo.Base

/-- `MEMP_NUM_NETCONN`. -/
def MEMP_NUM_NETCONN : Nat := 4

/-- The netconns `client` has made and not deleted, and whether a connect has returned `-1`. -/
structure Held where
  count : Nat
  failed : Bool
  deriving DecidableEq, Repr

/-- What the calls of `client` do to that count. It makes no call that brings it down. -/
def Held.see (_ : State) : Label → Held → Held
  | .netconn_new true, h => { h with count := h.count + 1 }
  | .netconn_connect err, h => { h with failed := h.failed || decide (err = ERR_MEM) }
  | _, h => h

/-- The task with the netconns it holds. -/
def holding : Machine (State × Held) Label := machine.observe Held.see

/-- **No netconn is leaked**: at most one is held, and the pool has entries to spare. -/
def NoLeak (s : State × Held) : Prop := s.2.count ≤ 1 ∧ s.2.count < MEMP_NUM_NETCONN

/-- A netconn is made only if no connect has failed yet. -/
def FirstAttempt (s : State × Held) : Label → Prop
  | .netconn_new made => made = true → s.2.failed = false
  | _ => True

/-- What is held at each position: nothing before the first netconn, and that one ever after. -/
structure HeldInv (s : State × Held) : Prop where
  atMostOne : s.2.count ≤ 1
  none : s.2.failed = false → s.1.pc = .netconn_new ∨ s.1.pc = .vTaskDelay → s.2.count = 0
  one : s.1.pc = .netconn_connect ∨ s.2.failed = true → s.2.count = 1
  closing : s.1.pc = .netconn_close → s.2.failed = true

theorem heldInv_start (input1 input2 : Bool) : HeldInv (start input1 input2, ⟨0, false⟩) where
  atMostOne := Nat.zero_le 1
  none _ _ := rfl
  one h := h.elim (fun h => Pc.noConfusion h) fun h => Bool.noConfusion h
  closing h := Pc.noConfusion h

/-- In the send loop the count does not matter to what follows. -/
theorem heldInv_sending {s s' : State} {h : Held} (hI : HeldInv (s, h))
    (hpc : s'.pc.sending = true) : HeldInv (s', h) where
  atMostOne := hI.atMostOne
  none _ hat := by rcases hat with hat | hat <;> rw [hat] at hpc <;> cases hpc
  one hat := by
    rcases hat with hat | hat
    · rw [hat] at hpc
      cases hpc
    · exact hI.one (.inr hat)
  closing hat := by
    rw [hat] at hpc
    cases hpc

/-- A step with no netconn made after a failed connect keeps the count. -/
theorem heldInv_keep (s : State) (h : Held) (a : Label) (s' : State) (hI : HeldInv (s, h))
    (hG : FirstAttempt (s, h) a) (hs : step s a = some s') : HeldInv (s', Held.see s a h) := by
  cases a with
  | netconn_new made =>
    simp only [step] at hs
    split_ifs at hs with hpc hmade
    · cases hs
      have hfresh : h.failed = false := hG hmade
      have hnone : h.count = 0 := hI.none hfresh (.inl hpc)
      subst hmade
      refine ⟨?_, fun _ hat => ?_, fun _ => ?_, fun hat => Pc.noConfusion hat⟩
      · simp only [Held.see, hnone, Nat.zero_add, Nat.le_refl]
      · rcases hat with hat | hat <;> cases hat
      · simp only [Held.see, hnone]
    · cases hs
      have hmade : made = false := Bool.eq_false_of_not_eq_true hmade
      subst hmade
      refine ⟨hI.atMostOne, fun hfresh _ => hI.none hfresh (.inl hpc), fun hat => ?_,
        fun hat => Pc.noConfusion hat⟩
      rcases hat with hat | hat
      · cases hat
      · exact hI.one (.inr hat)
  | vTaskDelay =>
    simp only [step] at hs
    split_ifs at hs with hpc
    cases hs
    refine ⟨hI.atMostOne, fun hfresh _ => hI.none hfresh (.inr hpc), fun hat => ?_,
      fun hat => Pc.noConfusion hat⟩
    rcases hat with hat | hat
    · cases hat
    · exact hI.one (.inr hat)
  | netconn_connect err =>
    simp only [step, toInt_eq_neg_one_iff] at hs
    split_ifs at hs with hpc hmem
    · cases hs
      have hone : h.count = 1 := hI.one (.inl hpc)
      refine ⟨hI.atMostOne, fun _ hat => ?_, fun _ => hone, fun _ => ?_⟩
      · rcases hat with hat | hat <;> cases hat
      · simp [Held.see, hmem]
    · cases hs
      have hsame : Held.see s (.netconn_connect err) h = h := by simp [Held.see, hmem]
      rw [hsame]
      exact heldInv_sending hI rfl
  | netconn_close err =>
    simp only [step] at hs
    split_ifs at hs with hpc
    cases hs
    have hfailed : h.failed = true := hI.closing hpc
    refine ⟨hI.atMostOne, fun hfresh => ?_, fun _ => hI.one (.inr hfailed),
      fun hat => Pc.noConfusion hat⟩
    exact Bool.noConfusion (hfresh.symm.trans hfailed)
  | ulTaskNotifyTake =>
    simp only [step] at hs
    split_ifs at hs with hpc hcount
    · cases hs
      exact heldInv_sending hI rfl
    · cases hs
      exact heldInv_sending hI (by rw [hpc.1]; rfl)
  | readInput1 =>
    simp only [step] at hs
    split_ifs at hs
    cases hs
    exact heldInv_sending hI rfl
  | readInput2 =>
    obtain ⟨input1, hpc, rfl⟩ := step_readInput2.mp hs
    exact heldInv_sending hI rfl
  | netconn_write err =>
    obtain ⟨buf, hpc, rfl⟩ := step_netconn_write.mp hs
    exact heldInv_sending hI rfl
  | give =>
    cases hs
    exact ⟨hI.atMostOne, hI.none, hI.one, hI.closing⟩
  | pins input1 input2 =>
    cases hs
    exact ⟨hI.atMostOne, hI.none, hI.one, hI.closing⟩

theorem noLeak_of_heldInv (s : State × Held) (hI : HeldInv s) : NoLeak s :=
  ⟨hI.atMostOne, Nat.lt_of_le_of_lt hI.atMostOne (by decide)⟩

/-- A netconn made after a failed connect is the second one held. -/
theorem noLeak_breaks (s : State) (h : Held) (a : Label) (s' : State) (hI : HeldInv (s, h))
    (hG : ¬ FirstAttempt (s, h) a) (hs : step s a = some s') :
    ¬ NoLeak (s', Held.see s a h) := by
  cases a with
  | netconn_new made =>
    obtain ⟨hmade, hfailed⟩ := Classical.not_imp.mp hG
    have hone : h.count = 1 := hI.one (.inr (Bool.eq_true_of_not_eq_false hfailed))
    subst hmade
    intro hleak
    have hle := hleak.1
    simp only [Held.see, hone] at hle
    omega
  | _ => exact absurd trivial hG

/-- **When no netconn is leaked**: exactly on the runs where `netconn_new` makes none after a
`netconn_connect` that has returned `-1`. -/
theorem no_leak_iff {input1 input2 : Bool} {as : List Label} {s : State}
    (hrun : machine.exec (start input1 input2) as = some s) :
    holding.Always NoLeak (start input1 input2, ⟨0, false⟩) as ↔
      holding.Guarded FirstAttempt (start input1 input2, ⟨0, false⟩) as :=
  Machine.observe_always_iff_guarded noLeak_of_heldInv heldInv_keep noLeak_breaks
    (heldInv_start input1 input2) hrun

/-- A first attempt that fails, and no netconn for the second. -/
theorem no_leak_one_attempt :
    holding.Always NoLeak (start true true, ⟨0, false⟩)
        [.netconn_new true, .netconn_connect ERR_MEM, .netconn_close ERR_OK, .vTaskDelay,
          .netconn_new false] ↔
      holding.Guarded FirstAttempt (start true true, ⟨0, false⟩)
        [.netconn_new true, .netconn_connect ERR_MEM, .netconn_close ERR_OK, .vTaskDelay,
          .netconn_new false] :=
  no_leak_iff (s := ⟨.vTaskDelay, none, 1, 0, true, true⟩) rfl

/-! ## What a failing peer costs -/

/-- One round of the retry loop. -/
def retry : List Label :=
  [.netconn_new true, .netconn_connect ERR_MEM, .netconn_close ERR_OK, .vTaskDelay]

/-- `n` rounds of it. -/
def retries (n : Nat) : List Label := (List.replicate n retry).flatten

/-- The task at the head of its loop, with `n` netconns made and the last of them in `conn`. -/
def afterRetries (input1 input2 : Bool) (n : Nat) : State :=
  { start input1 input2 with conn := if n = 0 then none else some (n - 1), created := n }

/-- **Every round of the retry loop keeps a netconn.** -/
theorem retries_hold (input1 input2 : Bool) (n : Nat) :
    holding.exec (start input1 input2, ⟨0, false⟩) (retries n) =
      some (afterRetries input1 input2 n, ⟨n, decide (n ≠ 0)⟩) := by
  induction n with
  | zero => rfl
  | succ n ih =>
    have hrounds : retries (n + 1) = retries n ++ retry := by
      rw [retries, List.replicate_succ', List.flatten_append, List.flatten_singleton]
      rfl
    rw [hrounds, Machine.exec_append, ih, Option.bind_some]
    simp [retry, Machine.exec, holding, Machine.observe, machine, step, afterRetries, start,
      Held.see, toInt_eq_neg_one_iff]

/-- Two rounds of the loop against a peer that cannot be reached hold two netconns. -/
theorem second_attempt_leaks :
    (holding.exec (start true true, ⟨0, false⟩) (retries 2)).isSome = true ∧
      ¬ holding.Always NoLeak (start true true, ⟨0, false⟩) (retries 2) := by
  have hrun := retries_hold true true 2
  refine ⟨by rw [hrun]; rfl, ?_⟩
  intro h
  exact absurd (h.last hrun).1 (by decide)

end EthIo.Client
