import Mathlib.Data.Fintype.Basic
import EthIo.Eth.Callers

/-!
# Mutual exclusion in `low_level_output`

Between its wait and its signal a caller is `inside`. The semaphore is to keep the others out, so
that the descriptors and the buffers from `heth.TxDesc` on are the caller's alone (`SysInv.working`)
and what is handed over stays as it is until the DMA has sent it (`Intact`).

It does so only where the callers are orderly. The semaphore is made by whoever finds none, and two
may find none: the second replaces that of the first, or loses it where there is no memory for
another. It is given by its maker, and by a caller whose descriptor was not free, without having
been taken. And the descriptor and the buffer are read before the wait, so that what they say may be
old behind it. `exclusive_and_intact` is the run lemma, for runs with none of these.
-/

namespace EthIo.Eth

open EthIo.Base EthIo.Config EthIo.Uart EthIo.Client

variable {τ : Type}

/-! ## What has been handed over -/

/-- A descriptor's part in a frame: whose it is, where the frame was handed over, and which of its
descriptors this is. -/
structure Origin (τ : Type) where
  caller : τ
  frame : List UInt8
  TxDesc : Fin ETH_TXBUFNB
  index : Nat

/-- The bytes of the frame in that descriptor. -/
def Origin.bytes (o : Origin τ) : List UInt8 :=
  (o.frame.drop (o.index * ETH_TX_BUF_SIZE)).take ETH_TX_BUF_SIZE

/-- The parts of a frame are the frame. -/
theorem Origin.bytes_flatten (t : τ) (f : List UInt8) (x : Fin ETH_TXBUFNB) :
    ((List.range (bufcount f.length)).map fun i => (Origin.mk t f x i).bytes).flatten = f := by
  have hparts (k : Nat) : ((List.range k).map fun i => (Origin.mk t f x i).bytes).flatten =
      f.take (k * ETH_TX_BUF_SIZE) := by
    induction k with
    | zero => rw [Nat.zero_mul, List.take_zero, List.range_zero, List.map_nil, List.flatten_nil]
    | succ k ih =>
      rw [List.range_succ, List.map_append, List.flatten_append, ih, List.map_singleton,
        List.flatten_singleton, Nat.succ_mul, List.take_add]
      rfl
  have hall : f.length ≤ bufcount f.length * ETH_TX_BUF_SIZE := by
    rcases Nat.eq_zero_or_pos f.length with hzero | hpos
    · rw [hzero]
      exact Nat.zero_le _
    · exact (bufcount_bounds hpos).2.2
  rw [hparts, List.take_of_length_le hall]

/-- Which frame each descriptor was last handed over for. -/
def handed (s : System τ) (a : SysLabel τ) (origin : Fin ETH_TXBUFNB → Option (Origin τ)) :
    Fin ETH_TXBUFNB → Option (Origin τ) :=
  match a with
  | .run t =>
    match (s.callers t).pc with
    | .transmitting framelength =>
      if (HAL_ETH_TransmitFrame s.heth framelength).1 = .HAL_OK then fun x =>
        if gap s.heth.TxDesc x < bufcount framelength then
          some ⟨t, (s.callers t).p.frame, s.heth.TxDesc, gap s.heth.TxDesc x⟩
        else origin x
      else origin
    | _ => origin
  | _ => origin

/-- `callers`, with that history. -/
def tracing (τ : Type) [DecidableEq τ] :
    Machine (System τ × (Fin ETH_TXBUFNB → Option (Origin τ))) (SysLabel τ) :=
  (callers τ).observe handed

/-- At most one caller is inside. -/
def Exclusive (s : System τ) : Prop :=
  ∀ t u, (s.callers t).pc.inside = true → (s.callers u).pc.inside = true → t = u

/-- **Every descriptor that is the DMA's holds its part of one caller's frame**, in the place behind
the `heth.TxDesc` of the hand-over that is its own. -/
def Intact (s : System τ) (origin : Fin ETH_TXBUFNB → Option (Origin τ)) : Prop :=
  ∀ x, s.heth.DMATxDscrTab.has x ETH_DMATXDESC_OWN → ∃ o, origin x = some o ∧
    x = onward o.TxDesc o.index ∧
    (s.Tx_Buff x).read 0 (s.heth.DMATxDscrTab.desc x).ControlBufferSize.toNat = o.bytes

/-! ## Orderly callers -/

/-- Nobody is inside. -/
def Empty (s : System τ) : Prop := ∀ t, (s.callers t).pc.inside = false

/-- What the caller has read of the handle is still so, and the descriptor free. -/
def Fresh (s : System τ) (t : τ) : Prop :=
  (s.callers t).buffer = s.heth.TxDesc ∧ (s.callers t).DmaTxDesc = s.heth.TxDesc ∧
    ¬ s.heth.DMATxDscrTab.has s.heth.TxDesc ETH_DMATXDESC_OWN

/-- What the next step of a caller is to find. -/
def Due (s : System τ) (t : τ) : CallerPc → Prop
  | .creating => s.ousem = none
  | .giving | .signalling _ false => Empty s
  | .taking _ => Fresh s t
  | _ => True

/-- **Orderly callers**: frames fit the ring, the semaphore is made once and given untaken only
while nobody is inside, and whoever takes it finds the handle as read. -/
def Orderly (s : System τ × (Fin ETH_TXBUFNB → Option (Origin τ))) : SysLabel τ → Prop
  | .call _ p => p.frame.length ≤ ETH_TXBUFNB * ETH_TX_BUF_SIZE
  | .run t | .noMemory t => Due s.1 t (s.1.callers t).pc
  | _ => True

instance [Fintype τ] (s : System τ) : Decidable (Empty s) :=
  inferInstanceAs (Decidable (∀ t, (s.callers t).pc.inside = false))

instance (s : System τ) (t : τ) : Decidable (Fresh s t) := inferInstanceAs (Decidable (_ ∧ _ ∧ ¬ _))

instance [Fintype τ] (s : System τ) (t : τ) : (pc : CallerPc) → Decidable (Due s t pc)
  | .creating => inferInstanceAs (Decidable (s.ousem = none))
  | .giving | .signalling _ false => inferInstanceAs (Decidable (Empty s))
  | .taking _ => inferInstanceAs (Decidable (Fresh s t))
  | .idle | .testing | .reading | .readingDesc | .testingOwn | .waiting | .copying _
  | .transmitting _ | .resuming _ _ | .signalling _ true => inferInstanceAs (Decidable True)

instance [Fintype τ] (s : System τ × (Fin ETH_TXBUFNB → Option (Origin τ))) :
    (a : SysLabel τ) → Decidable (Orderly s a)
  | .call _ p => inferInstanceAs (Decidable (p.frame.length ≤ ETH_TXBUFNB * ETH_TX_BUF_SIZE))
  | .run t | .noMemory t => inferInstanceAs (Decidable (Due s.1 t (s.1.callers t).pc))
  | .release _ | .flags _ | .lock _ => inferInstanceAs (Decidable True)

/-! ## The invariant -/

/-- What a caller that is inside has done so far: its frame is laid from `heth.TxDesc` on, in
descriptors that are free. -/
def Working (heth : ETH_HandleTypeDef) (Tx_Buff : Fin ETH_TXBUFNB → Mem) (me : Caller) : Prop :=
  match me.pc with
  | .copying c =>
    ∃ before, CopyInv heth.DMATxDscrTab before heth.TxDesc me.p.frame Tx_Buff c
  | .transmitting framelength =>
    framelength = me.p.frame.length ∧
      (∀ i, i < bufcount framelength →
        ¬ heth.DMATxDscrTab.has (onward heth.TxDesc i) ETH_DMATXDESC_OWN) ∧
      ∃ before, Tx_Buff = laid before heth.TxDesc ETH_TX_BUF_SIZE me.p.frame framelength
  | _ => True

/-- **The invariant of orderly callers.** -/
structure SysInv (s : System τ × (Fin ETH_TXBUFNB → Option (Origin τ))) : Prop where
  exclusive : Exclusive s.1
  empty : ∀ sem, s.1.ousem = some sem → s.1.free sem = true → Empty s.1
  taking : ∀ t sem, (s.1.callers t).pc = .taking sem → s.1.ousem = some sem
  made : ∀ t, (s.1.callers t).pc.tested = true → s.1.ousem ≠ none
  fits : ∀ t, (s.1.callers t).pc ≠ .idle →
    (s.1.callers t).p.frame.length ≤ ETH_TXBUFNB * ETH_TX_BUF_SIZE
  working : ∀ t, Working s.1.heth s.1.Tx_Buff (s.1.callers t)
  intact : Intact s.1 s.2

theorem sysInv_start : SysInv ((System.start : System τ), fun _ => none) where
  exclusive _ _ h := Bool.noConfusion h
  empty _ h := nomatch h
  taking _ _ h := CallerPc.noConfusion h
  made _ h := Bool.noConfusion h
  fits _ h := absurd rfl h
  working _ := trivial
  intact x h := by
    have hfree : ∀ x, ¬ (HAL_ETH_DMATxDescListInit true fun _ => 0).has x ETH_DMATXDESC_OWN := by
      decide
    exact absurd h (hfree x)

section Frame

variable {s s' : System τ} {origin : Fin ETH_TXBUFNB → Option (Origin τ)} {t : τ}

theorem working_of_outside {heth : ETH_HandleTypeDef} {Tx_Buff : Fin ETH_TXBUFNB → Mem}
    {me : Caller} (h : me.pc.inside = false) : Working heth Tx_Buff me := by
  unfold Working
  split
  · rename_i hpc
    rw [hpc] at h
    exact Bool.noConfusion h
  · rename_i hpc
    rw [hpc] at h
    exact Bool.noConfusion h
  · trivial

theorem CallerPc.tested_of_inside {pc : CallerPc} (h : pc.inside = true) : pc.tested = true := by
  cases pc <;> first | rfl | exact Bool.noConfusion h

/-- Who else is inside, where one caller is. -/
theorem SysInv.others_outside (hI : SysInv (s, origin)) (hin : (s.callers t).pc.inside = true)
    {u : τ} (hu : u ≠ t) : (s.callers u).pc.inside = false := by
  by_contra hnot
  exact hu (hI.exclusive u t (Bool.eq_true_of_not_eq_false hnot) hin)

/-- **A step of one caller that ends outside**, and touches neither the handle nor the buffers. -/
theorem SysInv.outside {me : Caller} (hI : SysInv (s, origin)) (hme : s'.callers t = me)
    (hothers : ∀ u, u ≠ t → s'.callers u = s.callers u) (hheth : s'.heth = s.heth)
    (hbuf : s'.Tx_Buff = s.Tx_Buff) (hsem : s'.ousem = s.ousem ∨ s.ousem = none)
    (hout : me.pc.inside = false) (hfits : me.p.frame.length ≤ ETH_TXBUFNB * ETH_TX_BUF_SIZE)
    (hmade : me.pc.tested = true → s'.ousem ≠ none)
    (htaking : ∀ sem, me.pc = .taking sem → s'.ousem = some sem)
    (hfree : ∀ sem, s'.ousem = some sem → s'.free sem = true →
      ∀ u, u ≠ t → (s.callers u).pc.inside = false) : SysInv (s', origin) := by
  have hinside (u : τ) (hu : (s'.callers u).pc.inside = true) :
      u ≠ t ∧ (s.callers u).pc.inside = true := by
    by_cases h : u = t
    · rw [h, hme, hout] at hu
      exact Bool.noConfusion hu
    · rw [hothers u h] at hu
      exact ⟨h, hu⟩
  refine ⟨?_, ?_, ?_, ?_, ?_, ?_, ?_⟩
  · intro u v hu hv
    exact hI.exclusive u v (hinside u hu).2 (hinside v hv).2
  · intro sem hs hset u
    by_cases h : u = t
    · rw [h, hme, hout]
    · rw [hothers u h]
      exact hfree sem hs hset u h
  · intro u sem hu
    by_cases h : u = t
    · rw [h, hme] at hu
      exact htaking sem hu
    · rw [hothers u h] at hu
      have hsome := hI.taking u sem hu
      rcases hsem with hsame | hnone
      · exact hsame.trans hsome
      · exact absurd (hnone.symm.trans hsome) (by simp)
  · intro u hu
    by_cases h : u = t
    · rw [h, hme] at hu
      exact hmade hu
    · rw [hothers u h] at hu
      have hsome := hI.made u hu
      rcases hsem with hsame | hnone
      · rwa [hsame]
      · exact absurd hnone hsome
  · intro u hu
    by_cases h : u = t
    · rw [h, hme]
      exact hfits
    · rw [hothers u h] at hu ⊢
      exact hI.fits u hu
  · intro u
    by_cases h : u = t
    · apply working_of_outside
      rw [h, hme, hout]
    · rw [hothers u h, hheth, hbuf]
      exact hI.working u
  · intro x hx
    rw [hheth] at hx ⊢
    rw [hbuf]
    exact hI.intact x hx

/-- While a caller is inside nobody can take the semaphore. -/
theorem SysInv.closed (hI : SysInv (s, origin)) (hin : (s.callers t).pc.inside = true) {sem : Nat}
    (hsem : s.ousem = some sem) : s.free sem = false := by
  by_contra hnot
  have hout := hI.empty sem hsem (Bool.eq_true_of_not_eq_false hnot) t
  rw [hin] at hout
  exact Bool.noConfusion hout

/-- **A step of one caller that ends inside**, with nobody else there, whatever it does to the
handle and the buffers. -/
theorem SysInv.inside {me : Caller} {origin' : Fin ETH_TXBUFNB → Option (Origin τ)}
    (hI : SysInv (s, origin)) (hme : s'.callers t = me)
    (hothers : ∀ u, u ≠ t → s'.callers u = s.callers u) (hsem : s'.ousem = s.ousem)
    (houtside : ∀ u, u ≠ t → (s.callers u).pc.inside = false)
    (hclosed : ∀ sem, s.ousem = some sem → s'.free sem = false)
    (htested : (s.callers t).pc.tested = true) (hin' : me.pc.inside = true)
    (hp : me.p = (s.callers t).p) (hworking : Working s'.heth s'.Tx_Buff me)
    (hintact : Intact s' origin') : SysInv (s', origin') := by
  have hout (u : τ) (hu : u ≠ t) : (s'.callers u).pc.inside = false := by
    rw [hothers u hu]
    exact houtside u hu
  have honly (u : τ) (hu : (s'.callers u).pc.inside = true) : u = t := by
    by_contra h
    rw [hout u h] at hu
    exact Bool.noConfusion hu
  refine ⟨?_, ?_, ?_, ?_, ?_, ?_, hintact⟩
  · intro u v hu hv
    rw [honly u hu, honly v hv]
  · intro sem hs hset
    rw [hsem] at hs
    rw [hclosed sem hs] at hset
    exact Bool.noConfusion hset
  · intro u sem hu
    by_cases h : u = t
    · rw [h, hme] at hu
      rw [hu] at hin'
      exact Bool.noConfusion hin'
    · rw [hothers u h] at hu
      rw [hsem]
      exact hI.taking u sem hu
  · intro _ _
    rw [hsem]
    exact hI.made t htested
  · intro u hu
    by_cases h : u = t
    · have hbusy : (s.callers t).pc ≠ .idle := by
        intro hidle
        rw [hidle] at htested
        exact Bool.noConfusion htested
      rw [h, hme, hp]
      exact hI.fits t hbusy
    · rw [hothers u h] at hu ⊢
      exact hI.fits u hu
  · intro u
    by_cases h : u = t
    · rw [h, hme]
      exact hworking
    · exact working_of_outside (hout u h)

/-- **A change of the handle** that hands nothing over and moves `TxDesc` nowhere. -/
theorem SysInv.calm {heth : ETH_HandleTypeDef} (hI : SysInv (s, origin))
    (hTxDesc : heth.TxDesc = s.heth.TxDesc)
    (hdesc : ∀ x, heth.DMATxDscrTab.has x ETH_DMATXDESC_OWN →
      heth.DMATxDscrTab.desc x = s.heth.DMATxDscrTab.desc x) :
    SysInv ({ s with heth := heth }, origin) := by
  have hown (x : Fin ETH_TXBUFNB) (hx : heth.DMATxDscrTab.has x ETH_DMATXDESC_OWN) :
      s.heth.DMATxDscrTab.has x ETH_DMATXDESC_OWN := by
    unfold DescTab.has at hx ⊢
    rwa [← hdesc x hx]
  refine ⟨hI.exclusive, hI.empty, hI.taking, hI.made, hI.fits, ?_, ?_⟩
  · intro u
    have hw := hI.working u
    unfold Working at hw ⊢
    simp only [hTxDesc]
    split
    · rename_i c hc
      simp only [hc] at hw
      obtain ⟨before, d, hat, hfree, hlaid⟩ := hw
      exact ⟨before, d, hat, fun i hi hx => hfree i hi (hown _ hx), hlaid⟩
    · rename_i framelength hc
      simp only [hc] at hw
      obtain ⟨hlen, hfree, hlaid⟩ := hw
      exact ⟨hlen, fun i hi hx => hfree i hi (hown _ hx), hlaid⟩
    · trivial
  · intro x hx
    have hsame := hdesc x hx
    obtain ⟨o, ho, hplace, hbytes⟩ := hI.intact x (hown x hx)
    refine ⟨o, ho, hplace, ?_⟩
    show (s.Tx_Buff x).read 0 (heth.DMATxDscrTab.desc x).ControlBufferSize.toNat = o.bytes
    rw [hsame]
    exact hbytes

end Frame

section Steps

variable [DecidableEq τ] {s : System τ} {origin : Fin ETH_TXBUFNB → Option (Origin τ)} {t : τ}

/-- A step that moves one caller, to a place outside, and does nothing else. -/
theorem SysInv.moved (hI : SysInv (s, origin)) {me : Caller} (hout : me.pc.inside = false)
    (hfits : me.p.frame.length ≤ ETH_TXBUFNB * ETH_TX_BUF_SIZE)
    (hmade : me.pc.tested = true → s.ousem ≠ none)
    (htaking : ∀ sem, me.pc = .taking sem → s.ousem = some sem) :
    SysInv (s.set t me, origin) :=
  hI.outside (Function.update_self _ _ _) (fun _ hu => Function.update_of_ne hu _ _) rfl rfl
    (.inl rfl) hout hfits hmade htaking fun sem hs hset u _ => hI.empty sem hs hset u

/-- **The semaphore is given**, when nobody but the giver is inside. -/
theorem SysInv.gives {s' : System τ} {pc : CallerPc} (hI : SysInv (s, origin))
    (hgive : s.given.map (fun free => { s.goto t pc with free := free }) = some s')
    (hout : pc.inside = false) (hbusy : (s.callers t).pc ≠ .idle)
    (htaking : ∀ sem, pc ≠ .taking sem)
    (hothers : ∀ u, u ≠ t → (s.callers u).pc.inside = false) : SysInv (s', origin) := by
  obtain ⟨free, hfree, rfl⟩ := Option.map_eq_some_iff.mp hgive
  -- a null handle is not given
  have hmade : s.ousem ≠ none := by
    intro hnone
    rw [System.given, hnone] at hfree
    cases hfree
  exact hI.outside (Function.update_self _ _ _) (fun _ hu => Function.update_of_ne hu _ _) rfl rfl
    (.inl rfl) hout (hI.fits t hbusy) (fun _ => hmade) (fun sem h => absurd h (htaking sem))
    fun _ _ _ => hothers

/-- **`ousem` is written**, where it is null: with a semaphore that is not free, or none. -/
theorem SysInv.creates (hI : SysInv (s, origin)) (hpc : (s.callers t).pc = .creating)
    (hnone : s.ousem = none) {ousem : Option Nat} {free : Nat → Bool} {made : Nat}
    (hclosed : ∀ sem, ousem = some sem → free sem = false) :
    SysInv ({ s.goto t .giving with ousem := ousem, free := free, made := made }, origin) := by
  have hbusy : (s.callers t).pc ≠ .idle := by
    rw [hpc]
    exact CallerPc.noConfusion
  refine hI.outside (Function.update_self _ _ _) (fun _ hu => Function.update_of_ne hu _ _) rfl rfl
    (.inr hnone) rfl (hI.fits t hbusy) (fun h => Bool.noConfusion h)
    (fun _ h => CallerPc.noConfusion h) ?_
  intro sem hs hset
  exact Bool.noConfusion ((hclosed sem hs).symm.trans hset)

/-- **The semaphore is taken**, with what has been read of the handle still so: the copy starts in
front of free descriptors. -/
theorem SysInv.enters (hI : SysInv (s, origin)) {sem : Nat} (hpc : (s.callers t).pc = .taking sem)
    (hset : s.free sem = true) (hfresh : Fresh s t) :
    SysInv
      ({ s.goto t (.copying (Copying.start (s.callers t).buffer (s.callers t).DmaTxDesc
            (s.callers t).p.payloads)) with
          free := Function.update s.free sem false }, origin) := by
  have hsem := hI.taking t sem hpc
  have hempty := hI.empty sem hsem hset
  obtain ⟨hbuffer, hdesc, hown⟩ := hfresh
  have htested : (s.callers t).pc.tested = true := by
    rw [hpc]
    rfl
  rw [hbuffer, hdesc]
  refine hI.inside (Function.update_self _ _ _) (fun _ hu => Function.update_of_ne hu _ _) rfl
    (fun u _ => hempty u) ?_ htested rfl rfl ⟨_, copyInv_start _ _ hown⟩ hI.intact
  intro sem' hs
  cases hsem.symm.trans hs
  exact Function.update_self _ _ _

/-- What the last two steps of `inside` share. -/
theorem SysInv.stays {s' : System τ} {origin' : Fin ETH_TXBUFNB → Option (Origin τ)}
    {pc : CallerPc} (hI : SysInv (s, origin)) (hin : (s.callers t).pc.inside = true)
    (hin' : pc.inside = true) (hcallers : s'.callers = (s.goto t pc).callers)
    (hsem : s'.ousem = s.ousem) (hfree : s'.free = s.free)
    (hworking : Working s'.heth s'.Tx_Buff { s.callers t with pc := pc })
    (hintact : Intact s' origin') : SysInv (s', origin') := by
  have hme : s'.callers t = { s.callers t with pc := pc } := by
    rw [hcallers]
    exact Function.update_self _ _ _
  refine hI.inside hme ?_ hsem (fun u => hI.others_outside hin) ?_
    (CallerPc.tested_of_inside hin) hin' rfl hworking hintact
  · intro u hu
    rw [hcallers]
    exact Function.update_of_ne hu _ _
  · intro sem hs
    rw [hfree]
    exact hI.closed hin hs

/-- **A round of the copy** goes into a buffer that is the firmware's, so that what the DMA has
stays as it is. -/
theorem SysInv.copies (hI : SysInv (s, origin)) {s' : System τ} {c : Copying}
    (hpc : (s.callers t).pc = .copying c) (hstep : s.run t = some s') : SysInv (s', origin) := by
  have hin : (s.callers t).pc.inside = true := by
    rw [hpc]
    rfl
  have hw := hI.working t
  simp only [Working, hpc] at hw
  obtain ⟨before, hinv⟩ := hw
  have hintact : Intact { s with Tx_Buff := (copyRound s.heth.DMATxDscrTab s.Tx_Buff c).1 }
      origin := by
    intro x hx
    obtain ⟨o, ho, hplace, hbytes⟩ := hI.intact x hx
    refine ⟨o, ho, hplace, ?_⟩
    show ((copyRound s.heth.DMATxDscrTab s.Tx_Buff c).1 x).read 0 _ = o.bytes
    rw [hinv.others hx]
    exact hbytes
  simp only [System.run, hpc] at hstep
  cases hround : (copyRound s.heth.DMATxDscrTab s.Tx_Buff c).2 with
  | next c' =>
    rw [hround] at hstep
    cases hstep
    exact hI.stays hin rfl rfl rfl rfl ⟨before, copyInv_keep _ _ _ hinv hround⟩ hintact
  | error errval =>
    rw [hround] at hstep
    cases hstep
    exact hI.stays hin rfl rfl rfl rfl trivial hintact
  | copied framelength =>
    obtain ⟨rfl, hfree, hlaid⟩ := hinv.copied hround
    have hbusy : (s.callers t).pc ≠ .idle := by
      rw [hpc]
      exact CallerPc.noConfusion
    rw [hround] at hstep
    cases hstep
    exact hI.stays hin rfl rfl rfl rfl ⟨rfl, hfree, before, hlaid (hI.fits t hbusy)⟩ hintact

/-- A descriptor of a frame that is laid sends its part of it. -/
theorem Segment.read_laid (before : Fin ETH_TXBUFNB → Mem) (x : Fin ETH_TXBUFNB) {f : List UInt8}
    {i : Nat} {d : ETH_DMADescTypeDef ETH_TXBUFNB} (h : Segment f.length (bufcount f.length) i d)
    (hi : i < bufcount f.length) (hpos : 0 < f.length)
    (hturn : f.length ≤ ETH_TXBUFNB * ETH_TX_BUF_SIZE) :
    (laid before x ETH_TX_BUF_SIZE f f.length (onward x i)).read 0 d.ControlBufferSize.toNat =
      (f.drop (i * ETH_TX_BUF_SIZE)).take ETH_TX_BUF_SIZE := by
  obtain ⟨-, hlast, hall⟩ := bufcount_bounds hpos
  have hc : 0 < ETH_TX_BUF_SIZE := by decide
  rw [h.size]
  split_ifs with hend
  · -- the last part: what is left of the frame
    have hcount : bufcount f.length = i + 1 := by omega
    rw [hcount, Nat.succ_mul] at hall
    rw [← hend] at hlast ⊢
    rw [Base.read_laid before x hc hturn (by omega) (by omega),
      List.take_of_length_le (by rw [List.length_drop]),
      List.take_of_length_le (by rw [List.length_drop]; omega)]
  · have hmul : (i + 1) * ETH_TX_BUF_SIZE ≤ (bufcount f.length - 1) * ETH_TX_BUF_SIZE :=
      Nat.mul_le_mul_right _ (by omega)
    rw [Nat.succ_mul] at hmul
    rw [Base.read_laid before x hc hturn le_rfl (by omega)]

/-- **The hand-over** gives the DMA the descriptors the frame is laid in. -/
theorem SysInv.transmits (hI : SysInv (s, origin)) {s' : System τ} {framelength : Nat}
    (hpc : (s.callers t).pc = .transmitting framelength) (hstep : s.run t = some s') :
    SysInv (s', handed s (.run t) origin) := by
  have hin : (s.callers t).pc.inside = true := by
    rw [hpc]
    rfl
  have hbusy : (s.callers t).pc ≠ .idle := by
    rw [hpc]
    exact CallerPc.noConfusion
  have hturn := hI.fits t hbusy
  have hw := hI.working t
  simp only [Working, hpc] at hw
  obtain ⟨rfl, -, before, hlaid⟩ := hw
  simp only [System.run, hpc] at hstep
  cases hstep
  refine hI.stays hin rfl rfl rfl rfl trivial ?_
  simp only [handed, hpc]
  intro x hx
  rcases HAL_ETH_TransmitFrame_cases s.heth (s.callers t).p.frame.length with
    ⟨hok, hpos, htab⟩ | ⟨hrefused, htab⟩
  · have hhanded : HandedOver s.heth (s.heth.handFrame (s.callers t).p.frame.length)
        (s.callers t).p.frame.length := handFrame_spec hpos hturn
    obtain ⟨-, hseg, hothers⟩ := hhanded
    rw [← htab] at hseg hothers
    rw [if_pos hok]
    by_cases hgap : gap s.heth.TxDesc x < bufcount (s.callers t).p.frame.length
    · refine ⟨_, if_pos hgap, (onward_gap _ _).symm, ?_⟩
      have hsent := (hseg _ hgap).read_laid before s.heth.TxDesc hgap hpos hturn
      rw [← hlaid, onward_gap] at hsent
      exact hsent
    · have hbehind : ∀ i, i < bufcount (s.callers t).p.frame.length →
          x ≠ onward s.heth.TxDesc i := by
        rintro i hi rfl
        rw [gap_onward _ (hi.trans_le (bufcount_le hturn))] at hgap
        exact hgap hi
      have hsame := hothers x hbehind
      rw [DescTab.has, hsame] at hx
      obtain ⟨o, ho, hplace, hbytes⟩ := hI.intact x hx
      refine ⟨o, (if_neg hgap).trans ho, hplace, ?_⟩
      rw [hsame]
      exact hbytes
  · rw [if_neg hrefused]
    rw [htab] at hx ⊢
    exact hI.intact x hx

/-- From the label `error:` to the signal: only the DMA is told to go on. -/
theorem SysInv.resumes (hI : SysInv (s, origin)) {s' : System τ} {errval : err_t} {waited : Bool}
    (hpc : (s.callers t).pc = .resuming errval waited) (hstep : s.run t = some s') :
    SysInv (s', origin) := by
  have hbusy : (s.callers t).pc ≠ .idle := by
    rw [hpc]
    exact CallerPc.noConfusion
  have htested : (s.callers t).pc.tested = true := by
    rw [hpc]
    rfl
  obtain ⟨htab, hdesc⟩ := s.heth.resumeTx_same ETH_DMASR_TUS
  have hcalm : SysInv ({ s with heth := s.heth.resumeTx ETH_DMASR_TUS }, origin) :=
    hI.calm hdesc fun x _ => by rw [htab]
  simp only [System.run, hpc] at hstep
  cases hstep
  cases waited with
  | false =>
    exact hcalm.moved rfl (hI.fits t hbusy) (fun _ => hI.made t htested)
      fun _ h => CallerPc.noConfusion h
  | true =>
    have hin : (s.callers t).pc.inside = true := by
      rw [hpc]
      rfl
    exact hcalm.stays hin rfl rfl rfl rfl trivial hcalm.intact

/-- **The next step of an orderly caller keeps the invariant.** -/
theorem SysInv.runs (hI : SysInv (s, origin)) {s' : System τ} (hG : Orderly (s, origin) (.run t))
    (hstep : s.run t = some s') : SysInv (s', handed s (.run t) origin) := by
  have hbusy : (s.callers t).pc ≠ .idle := by
    intro hidle
    simp only [System.run, hidle] at hstep
    cases hstep
  have hfits := hI.fits t hbusy
  have hmade := hI.made t
  cases hpc : (s.callers t).pc <;> simp only [Orderly, hpc, Due] at hG <;> rw [hpc] at hmade
  case idle => exact absurd hpc hbusy
  case testing =>
    simp only [System.run, hpc] at hstep
    simp only [handed, hpc]
    cases hstep
    split_ifs with hnone
    · exact hI.moved rfl hfits (fun h => Bool.noConfusion h) fun _ h => CallerPc.noConfusion h
    · exact hI.moved rfl hfits (fun _ => hnone) fun _ h => CallerPc.noConfusion h
  case creating =>
    simp only [System.run, hpc] at hstep
    simp only [handed, hpc]
    cases hstep
    refine hI.creates hpc hG ?_
    intro sem hs
    cases hs
    exact Function.update_self _ _ _
  case giving =>
    simp only [System.run, hpc] at hstep
    simp only [handed, hpc]
    exact hI.gives hstep rfl hbusy (fun _ h => CallerPc.noConfusion h) fun u _ => hG u
  case reading =>
    simp only [System.run, hpc] at hstep
    simp only [handed, hpc]
    cases hstep
    exact hI.moved rfl hfits (fun _ => hmade rfl) fun _ h => CallerPc.noConfusion h
  case readingDesc =>
    simp only [System.run, hpc] at hstep
    simp only [handed, hpc]
    cases hstep
    exact hI.moved rfl hfits (fun _ => hmade rfl) fun _ h => CallerPc.noConfusion h
  case testingOwn =>
    simp only [System.run, hpc] at hstep
    simp only [handed, hpc]
    cases hstep
    split_ifs
    · exact hI.moved rfl hfits (fun _ => hmade rfl) fun _ h => CallerPc.noConfusion h
    · exact hI.moved rfl hfits (fun _ => hmade rfl) fun _ h => CallerPc.noConfusion h
  case waiting =>
    simp only [System.run, hpc] at hstep
    simp only [handed, hpc]
    cases hsem : s.ousem with
    | none => exact absurd hsem (hmade rfl)
    | some sem =>
      rw [hsem] at hstep
      cases hstep
      refine hI.moved rfl hfits (fun _ => hmade rfl) ?_
      intro sem' h
      cases h
      exact hsem
  case taking sem =>
    simp only [System.run, hpc] at hstep
    simp only [handed, hpc]
    split_ifs at hstep with hset
    cases hstep
    exact hI.enters hpc hset hG
  case copying c =>
    simp only [handed, hpc]
    exact hI.copies hpc hstep
  case transmitting framelength => exact hI.transmits hpc hstep
  case resuming errval waited =>
    simp only [handed, hpc]
    exact hI.resumes hpc hstep
  case signalling errval waited =>
    simp only [System.run, hpc] at hstep
    simp only [handed, hpc]
    refine hI.gives hstep rfl hbusy (fun _ h => CallerPc.noConfusion h) ?_
    intro u hu
    cases waited with
    | false => exact hG u
    | true => exact hI.others_outside (by rw [hpc]; rfl) hu

/-- A descriptor given back holds nothing that is the DMA's. -/
theorem released_own (w : UInt32) : (w &&& ~~~ETH_DMATXDESC_OWN) &&& ETH_DMATXDESC_OWN = 0 := by
  have hmask : ~~~ETH_DMATXDESC_OWN &&& ETH_DMATXDESC_OWN = 0 := rfl
  rw [UInt32.and_assoc, hmask, UInt32.and_zero]

/-- **Every orderly step keeps the invariant.** -/
theorem sysInv_keep (s : System τ) (origin : Fin ETH_TXBUFNB → Option (Origin τ))
    (a : SysLabel τ) (s' : System τ) (hI : SysInv (s, origin)) (hG : Orderly (s, origin) a)
    (hstep : (callers τ).step s a = some s') : SysInv (s', handed s a origin) := by
  cases a with
  | call t p =>
    simp only [callers, System.step] at hstep
    split_ifs at hstep
    cases hstep
    exact hI.moved rfl hG (fun h => Bool.noConfusion h) fun _ h => CallerPc.noConfusion h
  | run t => exact hI.runs hG hstep
  | noMemory t =>
    simp only [callers, System.step] at hstep
    split_ifs at hstep with hpc
    cases hstep
    simp only [Orderly, hpc, Due] at hG
    refine hI.creates hpc hG ?_
    intro sem hs
    cases hs
  | release x =>
    cases hstep
    refine hI.calm rfl ?_
    intro y hy
    have hne : y ≠ x := by
      rintro rfl
      rw [DescTab.has, DescTab.write_self] at hy
      exact hy (released_own _)
    exact DescTab.write_of_ne _ _ _ hne
  | flags mask =>
    cases hstep
    exact hI.calm rfl fun _ _ => rfl
  | lock Lock =>
    cases hstep
    exact hI.calm rfl fun _ _ => rfl

end Steps

/-! ## The runs -/

/-- **Mutual exclusion.** As long as the callers are orderly, at most one is inside, and every
descriptor that is the DMA's holds its part of one caller's frame. -/
theorem exclusive_and_intact [DecidableEq τ] (ls : List (SysLabel τ))
    (h : (tracing τ).Guarded Orderly (System.start, fun _ => none) ls) :
    (tracing τ).Always (fun p => Exclusive p.1 ∧ Intact p.1 p.2) (System.start, fun _ => none) ls :=
  (Machine.always_of_guarded (Machine.observe_rule sysInv_keep) sysInv_start h).mono
    fun _ hI => ⟨hI.exclusive, hI.intact⟩

/-- A frame of one byte. -/
def byteFrame (b : UInt8) : PbufChain := ⟨[[b]], Nat.lt_of_sub_eq_succ rfl⟩

/-- Two callers one after the other, the first frame sent while the second is copied. -/
def inTurn : List (SysLabel Bool) :=
  .call false (byteFrame 1) :: List.replicate 13 (.run false) ++
    .call true (byteFrame 2) :: List.replicate 8 (.run true) ++ [.release 0] ++
      List.replicate 3 (.run true)

theorem exclusive_and_intact_in_turn :
    (tracing Bool).Always (fun p => Exclusive p.1 ∧ Intact p.1 p.2) (System.start, fun _ => none)
      inTurn :=
  exclusive_and_intact inTurn (by decide)

/-- Two callers find no semaphore, and each makes its own. -/
def madeTwice : List (SysLabel Bool) :=
  .call false (byteFrame 1) :: .run false :: .call true (byteFrame 2) :: .run true ::
    List.replicate 7 (.run false) ++ List.replicate 7 (.run true)

/-- The second caller has read the handle while the first has not yet waited. -/
def readBefore : List (SysLabel Bool) :=
  .call false (byteFrame 1) :: List.replicate 6 (.run false) ++
    .call true (byteFrame 2) :: List.replicate 4 (.run true) ++ List.replicate 7 (.run false) ++
      List.replicate 3 (.run true)

/-- Two are inside after `madeTwice`. After `readBefore` nothing has gone wrong with the semaphore,
and the second frame is in the buffer of the first, which the DMA is sending. -/
theorem both_inside_and_overwritten :
    (∃ s, (tracing Bool).exec (System.start, fun _ => none) madeTwice = some s ∧
        ¬ Exclusive s.1) ∧
      ∃ s, (tracing Bool).exec (System.start, fun _ => none) readBefore = some s ∧
        ¬ Intact s.1 s.2 := by
  constructor
  · refine ⟨_, rfl, ?_⟩
    intro h
    exact Bool.noConfusion (h false true rfl rfl)
  · refine ⟨_, rfl, ?_⟩
    intro h
    obtain ⟨o, ho, -, hbytes⟩ := h 0 (by decide)
    cases ho
    exact absurd hbytes (by decide)

end EthIo.Eth
