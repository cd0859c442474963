import Mathlib.Logic.Relation
import EthIo.Base.Machine
import EthIo.Eth.Output

/-!
# Callers of `low_level_output`

Any number of tasks call `low_level_output` on the one handle, each a step at a time. They share
`ousem`, the handle, the ring and its buffers; the DMA gives descriptors back at any time, and the
lock of the handle comes and goes. `HAL_ETH_TransmitFrame` is one step. `sys_sem_new` finds memory
(`run`), or writes a null handle (`noMemory`); whoever then gives `ousem` has no next step.

The steps of a caller are those of the function of one caller: if nobody else takes one, and the
semaphore is free or not yet made, they compute its result and leave behind what it leaves
(`returns_alone`), and without memory neither has a result (`stops_alone`). What becomes of them
when others step in between is in `EthIo.Eth.Exclusion`.
-/

namespace EthIo.Eth

open EthIo.Base EthIo.Config EthIo.Uart EthIo.Client

variable {τ : Type}

/-! ## The callers -/

/-- The positions in `low_level_output`, by what is next. The last two say whether the caller has
waited. -/
inductive CallerPc
  | idle
  | testing
  | creating
  | giving
  | reading
  | readingDesc
  | testingOwn
  | waiting
  | taking (sem : Nat)
  | copying (c : Copying)
  | transmitting (framelength : Nat)
  | resuming (errval : err_t) (waited : Bool)
  | signalling (errval : err_t) (waited : Bool)
  deriving DecidableEq, Repr

/-- Behind `sys_sem_wait` and before `sys_sem_signal`. -/
def CallerPc.inside : CallerPc → Bool
  | .copying _ | .transmitting _ => true
  | .resuming _ waited | .signalling _ waited => waited
  | _ => false

/-- Behind what is done where there is no `ousem`. -/
def CallerPc.tested : CallerPc → Bool
  | .idle | .testing | .creating | .giving => false
  | _ => true

/-- A caller with its frame and its locals. -/
structure Caller where
  pc : CallerPc
  p : PbufChain
  buffer : Fin ETH_TXBUFNB
  DmaTxDesc : Fin ETH_TXBUFNB

/-- The callers and what they share. Semaphores are numbered as they are made. -/
structure System (τ : Type) where
  callers : τ → Caller
  ousem : Option Nat
  free : Nat → Bool
  made : Nat
  heth : ETH_HandleTypeDef
  Tx_Buff : Fin ETH_TXBUFNB → Mem

/-- What can happen: a call, the next step of a caller, a semaphore that there is no memory for, the
DMA giving back a descriptor or setting flags, and a change of the lock. -/
inductive SysLabel (τ : Type)
  | call (t : τ) (p : PbufChain)
  | run (t : τ)
  | noMemory (t : τ)
  | release (x : Fin ETH_TXBUFNB)
  | flags (mask : UInt32)
  | lock (Lock : HAL_LockTypeDef)

namespace System

section Step

variable [DecidableEq τ]

/-- A caller replaced. -/
def set (s : System τ) (t : τ) (me : Caller) : System τ :=
  { s with callers := Function.update s.callers t me }

/-- A caller moved on. -/
def goto (s : System τ) (t : τ) (pc : CallerPc) : System τ := s.set t { s.callers t with pc := pc }

/-- The semaphores after `sys_sem_signal(&ousem)`. To give a null handle has no result. -/
def given (s : System τ) : Option (Nat → Bool) :=
  s.ousem.map fun sem => Function.update s.free sem (sys_sem_signal (s.free sem))

/-- The next step of a caller. -/
def run (s : System τ) (t : τ) : Option (System τ) :=
  let me := s.callers t
  match me.pc with
  | .idle => none
  | .testing => some (s.goto t (if s.ousem = none then .creating else .reading))
  | .creating =>
    some
      { s.goto t .giving with
        ousem := some s.made
        free := Function.update s.free s.made false
        made := s.made + 1 }
  | .giving => s.given.map fun free => { s.goto t .reading with free := free }
  | .reading =>
    some (s.set t
      { me with
        pc := .readingDesc
        buffer := (s.heth.DMATxDscrTab.desc s.heth.TxDesc).Buffer1Addr })
  | .readingDesc => some (s.set t { me with pc := .testingOwn, DmaTxDesc := s.heth.TxDesc })
  | .testingOwn =>
    some (s.goto t
      (if s.heth.DMATxDscrTab.has me.DmaTxDesc ETH_DMATXDESC_OWN then .resuming ERR_USE false
        else .waiting))
  | .waiting =>
    match s.ousem with
    -- a null handle is not waited on
    | none => some (s.goto t (.copying (Copying.start me.buffer me.DmaTxDesc me.p.payloads)))
    | some sem => some (s.goto t (.taking sem))
  | .taking sem =>
    if s.free sem then
      some
        { s.goto t (.copying (Copying.start me.buffer me.DmaTxDesc me.p.payloads)) with
          free := Function.update s.free sem false }
    else none
  | .copying c =>
    let copied := copyRound s.heth.DMATxDscrTab s.Tx_Buff c
    let pc : CallerPc :=
      match copied.2 with
      | .next c => .copying c
      | .error errval => .resuming errval true
      | .copied framelength => .transmitting framelength
    some { s.goto t pc with Tx_Buff := copied.1 }
  | .transmitting framelength =>
    some
      { s.goto t (.resuming ERR_OK true) with heth := (HAL_ETH_TransmitFrame s.heth framelength).2 }
  | .resuming errval waited =>
    some { s.goto t (.signalling errval waited) with heth := s.heth.resumeTx ETH_DMASR_TUS }
  | .signalling _ _ => s.given.map fun free => { s.goto t .idle with free := free }

def step (s : System τ) : SysLabel τ → Option (System τ)
  | .call t p =>
    if (s.callers t).pc = .idle then some (s.set t { s.callers t with pc := .testing, p := p })
    else none
  | .run t => s.run t
  | .noMemory t =>
    if (s.callers t).pc = .creating then some { s.goto t .giving with ousem := none } else none
  | .release x =>
    let d := s.heth.DMATxDscrTab.desc x
    some
      { s with
        heth :=
          { s.heth with
            DMATxDscrTab := s.heth.DMATxDscrTab.write x (d.Status &&& ~~~ETH_DMATXDESC_OWN)
              d.ControlBufferSize } }
  | .flags mask => some { s with heth := { s.heth with DMASR := s.heth.DMASR ||| mask } }
  | .lock Lock => some { s with heth := { s.heth with Lock := Lock } }

end Step

/-- Before the first call. -/
def start : System τ where
  callers _ := { pc := .idle, p := ⟨[], by decide⟩, buffer := 0, DmaTxDesc := 0 }
  ousem := none
  free _ := false
  made := 0
  heth := Bsp_Eth_Init 0
  Tx_Buff _ _ := 0

end System

/-- The callers, the DMA and the lock. -/
def callers (τ : Type) [DecidableEq τ] : Machine (System τ) (SysLabel τ) := ⟨System.step⟩

/-! ## One caller alone -/

section Alone

variable [DecidableEq τ] {s s' : System τ} {t : τ} {errval : err_t} {d : Driver}

/-- What is left when nobody else takes a step. -/
def Reaches (t : τ) : System τ → System τ → Prop :=
  Relation.ReflTransGen fun s s' => s.run t = some s'

/-- The caller comes to its signal with the result `errval`, and leaves behind what `d` says. -/
def Returns (t : τ) (s : System τ) (errval : err_t) (d : Driver) : Prop :=
  ∃ s₁ s₂ waited, Reaches t s s₁ ∧ (s₁.callers t).pc = .signalling errval waited ∧
    s₁.run t = some s₂ ∧ s₂.heth = d.heth ∧ s₂.Tx_Buff = d.Tx_Buff ∧
      s₂.ousem.map s₂.free = d.ousem

theorem Returns.of_run (h : Returns t s' errval d) (hrun : s.run t = some s') :
    Returns t s errval d := by
  obtain ⟨s₁, s₂, waited, hreach, hend⟩ := h
  exact ⟨s₁, s₂, waited, hreach.head hrun, hend⟩

theorem System.set_self (s : System τ) (t : τ) (me : Caller) : (s.set t me).callers t = me :=
  Function.update_self _ _ _

theorem System.goto_self (s : System τ) (t : τ) (pc : CallerPc) :
    (s.goto t pc).callers t = { s.callers t with pc := pc } :=
  Function.update_self _ _ _

omit [DecidableEq τ] in
theorem System.given_of_some {sem : Nat} (hsem : s.ousem = some sem) :
    s.given = some (Function.update s.free sem true) := by
  rw [System.given, hsem]
  rfl

theorem returns_signalling {waited : Bool} {sem : Nat}
    (hpc : (s.callers t).pc = .signalling errval waited) (hsem : s.ousem = some sem) :
    Returns t s errval
      ⟨s.heth, s.Tx_Buff, some (sys_sem_signal (s.free sem)), sys_sem_signal_free _⟩ := by
  have hrun : s.run t = some { s.goto t .idle with free := Function.update s.free sem true } := by
    simp only [System.run, hpc, s.given_of_some hsem, Option.map_some]
  refine ⟨s, _, waited, .refl, hpc, hrun, rfl, rfl, ?_⟩
  show Option.map (Function.update s.free sem true) s.ousem = some true
  rw [hsem]
  exact congrArg some (Function.update_self _ _ _)

/-- The label `error:` is `leave`. -/
theorem returns_resuming {waited : Bool} {sem : Nat}
    (hpc : (s.callers t).pc = .resuming errval waited) (hsem : s.ousem = some sem) :
    Returns t s errval (leave s.heth s.Tx_Buff (s.free sem)) := by
  have hrun : s.run t = some { s.goto t (.signalling errval waited) with
      heth := s.heth.resumeTx ETH_DMASR_TUS } := by
    simp only [System.run, hpc]
  refine Returns.of_run ?_ hrun
  exact returns_signalling (congrArg Caller.pc (s.goto_self t (.signalling errval waited))) hsem

theorem returns_transmitting {framelength sem : Nat}
    (hpc : (s.callers t).pc = .transmitting framelength) (hsem : s.ousem = some sem) :
    Returns t s ERR_OK
      (leave (HAL_ETH_TransmitFrame s.heth framelength).2 s.Tx_Buff (s.free sem)) := by
  have hrun : s.run t = some { s.goto t (.resuming ERR_OK true) with
      heth := (HAL_ETH_TransmitFrame s.heth framelength).2 } := by
    simp only [System.run, hpc]
  refine Returns.of_run ?_ hrun
  exact returns_resuming (congrArg Caller.pc (s.goto_self t (.resuming ERR_OK true))) hsem

/-- The rounds of the copy are `copyLoop`. -/
theorem returns_copying {heth : ETH_HandleTypeDef} {sem : Nat} {taken : Bool}
    (Tx_Buff : Fin ETH_TXBUFNB → Mem) (c : Copying) (hpc : (s.callers t).pc = .copying c)
    (hheth : s.heth = heth) (hbuf : s.Tx_Buff = Tx_Buff) (hsem : s.ousem = some sem)
    (htaken : s.free sem = taken) :
    Returns t s (afterCopy heth taken (copyLoop heth.DMATxDscrTab Tx_Buff c)).1
      (afterCopy heth taken (copyLoop heth.DMATxDscrTab Tx_Buff c)).2 := by
  induction Tx_Buff, c using copyLoop.induct heth.DMATxDscrTab generalizing s with
  | case1 Tx_Buff c c' hround ih =>
    have hrun : s.run t = some { s.goto t (.copying c') with
        Tx_Buff := (copyRound heth.DMATxDscrTab Tx_Buff c).1 } := by
      simp only [System.run, hpc, hheth, hbuf, hround]
    rw [copyLoop_eq, hround]
    refine Returns.of_run ?_ hrun
    exact ih (congrArg Caller.pc (s.goto_self t (.copying c'))) hheth rfl hsem htaken
  | case2 Tx_Buff c errval hround =>
    have hrun : s.run t = some { s.goto t (.resuming errval true) with
        Tx_Buff := (copyRound heth.DMATxDscrTab Tx_Buff c).1 } := by
      simp only [System.run, hpc, hheth, hbuf, hround]
    rw [copyLoop_eq, hround]
    subst hheth htaken
    refine Returns.of_run ?_ hrun
    exact returns_resuming (congrArg Caller.pc (s.goto_self t (.resuming errval true))) hsem
  | case3 Tx_Buff c framelength hround =>
    have hrun : s.run t = some { s.goto t (.transmitting framelength) with
        Tx_Buff := (copyRound heth.DMATxDscrTab Tx_Buff c).1 } := by
      simp only [System.run, hpc, hheth, hbuf, hround]
    rw [copyLoop_eq, hround]
    subst hheth htaken
    refine Returns.of_run ?_ hrun
    exact returns_transmitting (congrArg Caller.pc (s.goto_self t (.transmitting framelength))) hsem

/-- The caller comes to its signal with the result of `low_level_output`, and leaves behind what it
leaves. -/
def Computes (t : τ) (s : System τ) (created : Bool) (ousem : Option Bool)
    (single : ousem ≠ some false) : Prop :=
  ∃ errval d, low_level_output created (s.callers t).p ⟨s.heth, s.Tx_Buff, ousem, single⟩ =
    some (errval, d) ∧ Returns t s errval d

/-- The caller has read of the handle what is there now. -/
structure HasRead (s : System τ) (t : τ) : Prop where
  buffer : (s.callers t).buffer = (s.heth.DMATxDscrTab.desc s.heth.TxDesc).Buffer1Addr
  DmaTxDesc : (s.callers t).DmaTxDesc = s.heth.TxDesc

section Semaphore

variable {ousem : Option Bool} {single : ousem ≠ some false} {created : Bool}

theorem returns_waiting {sem : Nat} (hpc : (s.callers t).pc = .waiting) (hread : HasRead s t)
    (hsem : s.ousem = some sem) (hfree : s.free sem = true) :
    let after := afterCopy s.heth false (copyFrame s.heth s.Tx_Buff (s.callers t).p.payloads)
    Returns t s after.1 after.2 := by
  have hwait : s.run t = some (s.goto t (.taking sem)) := by
    simp only [System.run, hpc, hsem]
  have hcaller := s.goto_self t (.taking sem)
  have htake : (s.goto t (.taking sem)).run t = some
      { (s.goto t (.taking sem)).goto t (.copying (Copying.start (s.callers t).buffer
            (s.callers t).DmaTxDesc (s.callers t).p.payloads)) with
        free := Function.update s.free sem false } := by
    have hset : (s.goto t (.taking sem)).free sem = true := hfree
    simp only [System.run, hcaller, hset, if_true]
    rfl
  refine Returns.of_run (Returns.of_run ?_ htake) hwait
  rw [hread.buffer, hread.DmaTxDesc]
  exact returns_copying _ _ (congrArg Caller.pc (System.goto_self _ t _)) rfl rfl hsem
    (Function.update_self _ _ _)

theorem returns_testingOwn {sem : Nat} (hpc : (s.callers t).pc = .testingOwn)
    (hread : HasRead s t) (hsem : s.ousem = some sem) (hfree : s.free sem = true)
    (hready : ousem = none → created = true) : Computes t s created ousem single := by
  by_cases hown : s.heth.DMATxDscrTab.has s.heth.TxDesc ETH_DMATXDESC_OWN
  · have hrun : s.run t = some (s.goto t (.resuming ERR_USE false)) := by
      simp only [System.run, hpc, hread.DmaTxDesc, hown, if_true]
    refine ⟨_, _, low_level_output_owned _ hready hown, Returns.of_run ?_ hrun⟩
    have hleave :=
      returns_resuming (congrArg Caller.pc (s.goto_self t (.resuming ERR_USE false))) hsem
    rw [show (s.goto t _).free sem = true from hfree] at hleave
    exact hleave
  · have hrun : s.run t = some (s.goto t .waiting) := by
      simp only [System.run, hpc, hread.DmaTxDesc, hown, if_false]
    have hcaller := s.goto_self t .waiting
    have hread' : HasRead (s.goto t .waiting) t := by
      constructor
      · rw [hcaller]
        exact hread.buffer
      · rw [hcaller]
        exact hread.DmaTxDesc
    have hwait := returns_waiting (congrArg Caller.pc hcaller) hread' hsem hfree
    rw [hcaller] at hwait
    exact ⟨_, _, low_level_output_eq _ hready hown, hwait.of_run hrun⟩

/-- From the read of the handle on, with the semaphore there and free. -/
theorem returns_reading {sem : Nat} (hpc : (s.callers t).pc = .reading)
    (hsem : s.ousem = some sem) (hfree : s.free sem = true)
    (hready : ousem = none → created = true) : Computes t s created ousem single := by
  have hbuffer : s.run t = some (s.set t
      { s.callers t with
        pc := .readingDesc
        buffer := (s.heth.DMATxDscrTab.desc s.heth.TxDesc).Buffer1Addr }) := by
    simp only [System.run, hpc]
  have hcaller := s.set_self t
    { s.callers t with
      pc := .readingDesc
      buffer := (s.heth.DMATxDscrTab.desc s.heth.TxDesc).Buffer1Addr }
  generalize hs : s.set t _ = s₁ at hbuffer hcaller
  have hdesc : s₁.run t = some (s₁.set t
      { s₁.callers t with pc := .testingOwn, DmaTxDesc := s₁.heth.TxDesc }) := by
    simp only [System.run, hcaller]
  have hcaller₁ := s₁.set_self t
    { s₁.callers t with pc := .testingOwn, DmaTxDesc := s₁.heth.TxDesc }
  have hread : HasRead (s₁.set t
      { s₁.callers t with pc := .testingOwn, DmaTxDesc := s₁.heth.TxDesc }) t := by
    constructor
    · rw [hcaller₁, hcaller, ← hs]
      rfl
    · rw [hcaller₁]
      rfl
  subst hs
  have htests : Computes t _ created ousem single :=
    returns_testingOwn (congrArg Caller.pc hcaller₁) hread hsem hfree hready
  obtain ⟨errval, d, hcall, hreturns⟩ := htests
  rw [hcaller₁, hcaller] at hcall
  exact ⟨errval, d, hcall, (hreturns.of_run hdesc).of_run hbuffer⟩

theorem returns_giving {sem : Nat} (hpc : (s.callers t).pc = .giving) (hsem : s.ousem = some sem)
    (hready : ousem = none → created = true) : Computes t s created ousem single := by
  have hgive : s.run t =
      some { s.goto t .reading with free := Function.update s.free sem true } := by
    simp only [System.run, hpc, s.given_of_some hsem, Option.map_some]
  have hcaller := s.goto_self t .reading
  have hreads : Computes t { s.goto t .reading with free := Function.update s.free sem true }
      created ousem single :=
    returns_reading (congrArg Caller.pc hcaller) hsem (Function.update_self _ _ _) hready
  obtain ⟨errval, d, hcall, hreturns⟩ := hreads
  simp only [hcaller] at hcall
  exact ⟨errval, d, hcall, hreturns.of_run hgive⟩

/-- **A caller that is left alone computes `low_level_output`**, wherever the others are, if the
semaphore is free, or not yet made and there is memory for it. -/
theorem returns_alone (hpc : (s.callers t).pc = .testing) (hmap : s.ousem.map s.free = ousem)
    (hready : ousem = none → created = true) : Computes t s created ousem single := by
  cases hsem : s.ousem with
  | none =>
    rw [hsem] at hmap
    subst hmap
    have htest : s.run t = some (s.goto t .creating) := by
      simp only [System.run, hpc, hsem, if_true]
    have hcaller := s.goto_self t .creating
    have hcreate : (s.goto t .creating).run t = some
        { (s.goto t .creating).goto t .giving with
          ousem := some s.made
          free := Function.update s.free s.made false
          made := s.made + 1 } := by
      simp only [System.run, hcaller]
      rfl
    have hcaller₁ := (s.goto t .creating).goto_self t .giving
    rw [hcaller] at hcaller₁
    have hgives : Computes t
        { (s.goto t .creating).goto t .giving with
          ousem := some s.made
          free := Function.update s.free s.made false
          made := s.made + 1 } created none single :=
      returns_giving (congrArg Caller.pc hcaller₁) rfl hready
    obtain ⟨errval, d, hcall, hreturns⟩ := hgives
    simp only [hcaller₁] at hcall
    exact ⟨errval, d, hcall, (hreturns.of_run hcreate).of_run htest⟩
  | some sem =>
    rw [hsem, Option.map_some] at hmap
    have hfree : s.free sem = true := by
      by_contra hnot
      apply single
      rw [← hmap, Bool.eq_false_of_not_eq_true hnot]
    have htest : s.run t = some (s.goto t .reading) := by
      simp only [System.run, hpc, hsem, reduceCtorEq, if_false]
    have hcaller := s.goto_self t .reading
    have hreads : Computes t (s.goto t .reading) created ousem single :=
      returns_reading (congrArg Caller.pc hcaller) hsem hfree hready
    obtain ⟨errval, d, hcall, hreturns⟩ := hreads
    rw [hcaller] at hcall
    exact ⟨errval, d, hcall, hreturns.of_run htest⟩

/-- **Without memory for the semaphore** the function has no result, and the caller stops where it
gives the null handle. -/
theorem stops_alone {s' : System τ} (p : PbufChain)
    (hstep : s.step (.noMemory t) = some s') :
    low_level_output false p ⟨s.heth, s.Tx_Buff, none, nofun⟩ = none ∧ s'.run t = none := by
  refine ⟨low_level_output_null p fun h => Bool.noConfusion (h rfl), ?_⟩
  simp only [System.step] at hstep
  split_ifs at hstep
  cases hstep
  have hcaller := s.goto_self t .giving
  simp only [System.run, hcaller]
  rfl

end Semaphore

end Alone

end EthIo.Eth
