import EthIo.Client.Task
import EthIo.Eth.Hal

/-!
# `low_level_output`

A frame comes as a chain of pbufs. The copy loop spreads its bytes over the buffers of the
descriptors from `heth.TxDesc` on, 1524 bytes to each, and goes on to the next descriptor when one
more byte would not fit. Then `HAL_ETH_TransmitFrame` is told the length and computes for itself how
many descriptors that is.

`Copying.At` is where the loop is: how far in the frame, in which buffer, with what still to copy. A
round that copies keeps it (`copyRound_full`, `copyRound_rest`), and the two computations agree
because of it: the loop ends in descriptor `bufcount - 1`, with the frame laid in the ring
(`copyFrame_cases`). `scatter_agrees` is what the frame handed to the DMA is. The result of
`HAL_ETH_TransmitFrame` is not looked at; `result_faithful_iff` says when that does no harm.

One caller at a time: the state is what stands between two calls, when the semaphore is either not
created yet or free. `created` says whether `xSemaphoreCreateBinary` finds memory for it. Where it
does not, the function gives a null handle: `configASSERT` prints a line and goes on, and the read
through it that follows has no result.
-/

namespace EthIo.Eth

open EthIo.Base EthIo.Config EthIo.Uart EthIo.Client

def ERR_USE : err_t := -8

/-! ## The semaphore of `sys_arch.c` -/

/-- `sys_sem_new` with the count 0: a binary semaphore that is not free, or a null handle. -/
def sys_sem_new (created : Bool) : Option Bool := if created then some false else none

/-- `sys_sem_signal`, for a handle that is not null: given, however often. -/
def sys_sem_signal (_sem : Bool) : Bool := true

/-- `sys_sem_wait`, for a handle that is not null: `none` is a call that waits. -/
def sys_sem_wait (sem : Bool) : Option Bool := if sem then some false else none

theorem sys_sem_signal_free (sem : Bool) : some (sys_sem_signal sem) ≠ some false := by
  simp [sys_sem_signal]

/-! ## The copy loop -/

/-- A frame in the pbufs of a chain; `tot_len` has 16 bits. -/
structure PbufChain where
  payloads : List (List UInt8)
  tot_len : payloads.flatten.length < 65536

/-- The bytes of the frame. -/
def PbufChain.frame (p : PbufChain) : List UInt8 := p.payloads.flatten

/-- The locals of the copy loop; `q` is the payloads from the pbuf it is at. -/
structure Copying where
  q : List (List UInt8)
  byteslefttocopy : Nat
  payloadoffset : Nat
  bufferoffset : Nat
  framelength : Nat
  DmaTxDesc : Fin ETH_TXBUFNB
  buffer : Fin ETH_TXBUFNB
  deriving DecidableEq, Repr

/-- The head of the `for` loop, at a pbuf or behind the last. -/
def Copying.enter (c : Copying) : List (List UInt8) → Copying
  | [] => { c with q := [] }
  | payload :: rest =>
    { c with q := payload :: rest, byteslefttocopy := payload.length, payloadoffset := 0 }

/-- The locals at the first pbuf, with what has been read of the handle. -/
def Copying.start (buffer DmaTxDesc : Fin ETH_TXBUFNB) (payloads : List (List UInt8)) : Copying :=
  Copying.enter
    { q := []
      byteslefttocopy := 0
      payloadoffset := 0
      bufferoffset := 0
      framelength := 0
      DmaTxDesc := DmaTxDesc
      buffer := buffer } payloads

/-- `memcpy` into one of the buffers. -/
def memcpy {n : Nat} (bufs : Fin n → Mem) (i : Fin n) (o : Nat) (bytes : List UInt8) :
    Fin n → Mem :=
  Function.update bufs i ((bufs i).write o bytes)

/-- What a round of the copy loop comes to. -/
inductive Round where
  | next (c : Copying)
  | error (errval : err_t)
  | copied (framelength : Nat)

/-- One `memcpy` of the loop and what follows it: to fill a buffer, or what is left of a pbuf. -/
def copyRound (tab : DescTab ETH_TXBUFNB) (Tx_Buff : Fin ETH_TXBUFNB → Mem) (c : Copying) :
    (Fin ETH_TXBUFNB → Mem) × Round :=
  match c.q with
  | [] => (Tx_Buff, .copied c.framelength)
  | payload :: rest =>
    if c.byteslefttocopy + c.bufferoffset > ETH_TX_BUF_SIZE then
      let fill := ETH_TX_BUF_SIZE - c.bufferoffset
      let Tx_Buff := memcpy Tx_Buff c.buffer c.bufferoffset
        ((payload.drop c.payloadoffset).take fill)
      let DmaTxDesc := (tab.desc c.DmaTxDesc).Buffer2NextDescAddr
      if tab.has DmaTxDesc ETH_DMATXDESC_OWN then (Tx_Buff, .error ERR_USE)
      else
        (Tx_Buff, .next
          { c with
            DmaTxDesc := DmaTxDesc
            buffer := (tab.desc DmaTxDesc).Buffer1Addr
            byteslefttocopy := c.byteslefttocopy - fill
            payloadoffset := c.payloadoffset + fill
            framelength := c.framelength + fill
            bufferoffset := 0 })
    else
      let Tx_Buff := memcpy Tx_Buff c.buffer c.bufferoffset
        ((payload.drop c.payloadoffset).take c.byteslefttocopy)
      (Tx_Buff, .next
        (Copying.enter
          { c with
            bufferoffset := c.bufferoffset + c.byteslefttocopy
            framelength := c.framelength + c.byteslefttocopy } rest))

@[simp] theorem Copying.enter_q (c : Copying) (payloads : List (List UInt8)) :
    (c.enter payloads).q = payloads := by
  cases payloads <;> rfl

/-- A round that goes on has fewer pbufs before it, or less of this one. -/
theorem copyRound_shorter {tab : DescTab ETH_TXBUFNB} {Tx_Buff : Fin ETH_TXBUFNB → Mem}
    {c c' : Copying} (h : (copyRound tab Tx_Buff c).2 = .next c') :
    c'.q.length < c.q.length ∨
      c'.q.length = c.q.length ∧
        c'.byteslefttocopy + c'.bufferoffset < c.byteslefttocopy + c.bufferoffset := by
  have hsize : ETH_TX_BUF_SIZE = 1524 := rfl
  simp only [copyRound] at h
  split at h
  · exact nomatch h
  · rename_i payload rest hq
    split_ifs at h with hfull hown
    · cases h
      exact .inr ⟨rfl, by simp only; omega⟩
    · cases h
      rw [Copying.enter_q, hq]
      exact .inl (Nat.lt_succ_self _)

/-- The copy loop: the buffers, and the length of the frame or an error. -/
def copyLoop (tab : DescTab ETH_TXBUFNB) (Tx_Buff : Fin ETH_TXBUFNB → Mem) (c : Copying) :
    (Fin ETH_TXBUFNB → Mem) × Except err_t Nat :=
  match _h : (copyRound tab Tx_Buff c).2 with
  | .next c' => copyLoop tab (copyRound tab Tx_Buff c).1 c'
  | .error errval => ((copyRound tab Tx_Buff c).1, .error errval)
  | .copied framelength => ((copyRound tab Tx_Buff c).1, .ok framelength)
termination_by (c.q.length, c.byteslefttocopy + c.bufferoffset)
decreasing_by
  rcases copyRound_shorter _h with h | ⟨hq, h⟩
  · exact Prod.Lex.left _ _ h
  · rw [hq]
    exact Prod.Lex.right _ h

/-- The loop is a round, and what follows from how that ended. -/
theorem copyLoop_eq (tab : DescTab ETH_TXBUFNB) (Tx_Buff : Fin ETH_TXBUFNB → Mem) (c : Copying) :
    copyLoop tab Tx_Buff c = match (copyRound tab Tx_Buff c).2 with
      | .next c' => copyLoop tab (copyRound tab Tx_Buff c).1 c'
      | .error errval => ((copyRound tab Tx_Buff c).1, .error errval)
      | .copied framelength => ((copyRound tab Tx_Buff c).1, .ok framelength) := by
  rw [copyLoop]
  split <;> rename_i hround <;> rw [hround]

/-! ## The function -/

/-- What `low_level_output` works on, between two calls of a single caller. -/
structure Driver where
  heth : ETH_HandleTypeDef
  Tx_Buff : Fin ETH_TXBUFNB → Mem
  ousem : Option Bool
  single : ousem ≠ some false

/-- From the label `error:` on. -/
def leave (heth : ETH_HandleTypeDef) (Tx_Buff : Fin ETH_TXBUFNB → Mem) (sem : Bool) : Driver where
  heth := heth.resumeTx ETH_DMASR_TUS
  Tx_Buff := Tx_Buff
  ousem := some (sys_sem_signal sem)
  single := sys_sem_signal_free sem

/-- The copy of a frame, with the buffer and the descriptor read of the handle as they are. -/
def copyFrame (heth : ETH_HandleTypeDef) (Tx_Buff : Fin ETH_TXBUFNB → Mem)
    (payloads : List (List UInt8)) : (Fin ETH_TXBUFNB → Mem) × Except err_t Nat :=
  copyLoop heth.DMATxDscrTab Tx_Buff
    (Copying.start (heth.DMATxDscrTab.desc heth.TxDesc).Buffer1Addr heth.TxDesc payloads)

/-- The head of `low_level_output`: the semaphore there is, or a new one that is given. A null
handle has nothing to give. -/
def Driver.sem (created : Bool) (s : Driver) : Option Bool :=
  if s.ousem = none then (sys_sem_new created).map sys_sem_signal else s.ousem

/-- `low_level_output`. -/
def low_level_output (created : Bool) (p : PbufChain) (s : Driver) : Option (err_t × Driver) :=
  let heth := s.heth
  (s.sem created).bind fun sem =>
    if heth.DMATxDscrTab.has heth.TxDesc ETH_DMATXDESC_OWN then
      some (ERR_USE, leave heth s.Tx_Buff sem)
    else
      (sys_sem_wait sem).bind fun sem =>
        let copied := copyFrame heth s.Tx_Buff p.payloads
        match copied.2 with
        | .error errval => some (errval, leave heth copied.1 sem)
        | .ok framelength =>
          some (ERR_OK, leave (HAL_ETH_TransmitFrame heth framelength).2 copied.1 sem)

/-! ## Where the loop is -/

/-- The bytes the loop has still to copy. -/
def Copying.unread (c : Copying) : List UInt8 :=
  match c.q with
  | [] => []
  | payload :: rest => payload.drop c.payloadoffset ++ rest.flatten

/-- **Where the loop is** in the frame `f`: in the buffer `d` places behind `x`, with all that comes
before already copied. -/
structure Copying.At (c : Copying) (x : Fin ETH_TXBUFNB) (f : List UInt8) (d : Nat) : Prop where
  desc : c.DmaTxDesc = onward x d
  buffer : c.buffer = onward x d
  offset : c.bufferoffset ≤ ETH_TX_BUF_SIZE
  length : c.framelength = d * ETH_TX_BUF_SIZE + c.bufferoffset
  needed : 0 < d → d * ETH_TX_BUF_SIZE < f.length
  inside : ∀ payload ∈ c.q.head?, c.payloadoffset + c.byteslefttocopy = payload.length
  unread : c.unread = f.drop c.framelength
  copied : c.framelength ≤ f.length

theorem Copying.unread_enter (c : Copying) (payloads : List (List UInt8)) :
    (c.enter payloads).unread = payloads.flatten := by
  cases payloads <;> rfl

/-- At a new pbuf the place in the ring is the same. -/
theorem Copying.At.enter {c : Copying} {x : Fin ETH_TXBUFNB} {f : List UInt8} {d : Nat}
    {payloads : List (List UInt8)} (hdesc : c.DmaTxDesc = onward x d)
    (hbuffer : c.buffer = onward x d) (hoffset : c.bufferoffset ≤ ETH_TX_BUF_SIZE)
    (hlength : c.framelength = d * ETH_TX_BUF_SIZE + c.bufferoffset)
    (hneeded : 0 < d → d * ETH_TX_BUF_SIZE < f.length)
    (hunread : payloads.flatten = f.drop c.framelength) (hcopied : c.framelength ≤ f.length) :
    (c.enter payloads).At x f d := by
  have hrest := (c.unread_enter payloads).trans hunread
  cases payloads with
  | nil => exact ⟨hdesc, hbuffer, hoffset, hlength, hneeded, by simp, hrest, hcopied⟩
  | cons payload rest =>
    refine ⟨hdesc, hbuffer, hoffset, hlength, hneeded, ?_, hrest, hcopied⟩
    intro p hp
    cases hp
    exact Nat.zero_add _

theorem Copying.At.start (x : Fin ETH_TXBUFNB) (payloads : List (List UInt8)) :
    (Copying.start x x payloads).At x payloads.flatten 0 :=
  Copying.At.enter (onward_zero _).symm (onward_zero _).symm (Nat.zero_le _) (Nat.zero_mul _).symm
    (fun h => absurd h (Nat.lt_irrefl 0)) rfl (Nat.zero_le _)

/-- What a round writes: the next bytes of the frame, and no further than the end of the buffer. -/
structure Copying.Writes (c : Copying) (f bytes : List UInt8) : Prop where
  next : bytes <+: f.drop c.framelength
  fits : c.bufferoffset + bytes.length ≤ ETH_TX_BUF_SIZE

section Rounds

variable (tab : DescTab ETH_TXBUFNB) (Tx_Buff : Fin ETH_TXBUFNB → Mem) {c : Copying}
  {x : Fin ETH_TXBUFNB} {f : List UInt8} {d : Nat}

/-- Behind the last pbuf all has been copied. -/
theorem copyRound_done (h : c.At x f d) (hq : c.q = []) :
    copyRound tab Tx_Buff c = (Tx_Buff, .copied f.length) ∧ c.framelength = f.length := by
  have hunread := h.unread
  have hle := h.copied
  simp only [Copying.unread, hq] at hunread
  have hend : f.length ≤ c.framelength := List.drop_eq_nil_iff.mp hunread.symm
  have hall : c.framelength = f.length := by omega
  simp only [copyRound, hq, hall, and_self]

/-- A round that fills its buffer, and goes on in the next if that is the firmware's. -/
theorem copyRound_full (h : c.At x f d) {payload : List UInt8} {rest : List (List UInt8)}
    (hq : c.q = payload :: rest)
    (hfull : c.byteslefttocopy + c.bufferoffset > ETH_TX_BUF_SIZE) :
    ∃ bytes, c.Writes f bytes ∧ (d + 1) * ETH_TX_BUF_SIZE < f.length ∧
      (copyRound tab Tx_Buff c).1 = memcpy Tx_Buff (onward x d) c.bufferoffset bytes ∧
      if tab.has (onward x (d + 1)) ETH_DMATXDESC_OWN then
        (copyRound tab Tx_Buff c).2 = .error ERR_USE
      else ∃ c', (copyRound tab Tx_Buff c).2 = .next c' ∧ c'.At x f (d + 1) ∧
        c'.framelength = c.framelength + bytes.length := by
  obtain ⟨hdesc, hbuffer, hoffset, hlength, hneeded, hinside, hunread, hcopied⟩ := h
  have hin := hinside payload (by rw [hq]; rfl)
  simp only [Copying.unread, hq] at hunread
  have hfill : ((payload.drop c.payloadoffset).take (ETH_TX_BUF_SIZE - c.bufferoffset)).length =
      ETH_TX_BUF_SIZE - c.bufferoffset := by
    rw [List.length_take, List.length_drop]
    omega
  have hmore : (d + 1) * ETH_TX_BUF_SIZE < f.length := by
    have hlen := congrArg List.length hunread
    rw [List.length_append, List.length_drop, List.length_drop] at hlen
    rw [Nat.succ_mul]
    omega
  have hnext : (tab.desc c.DmaTxDesc).Buffer2NextDescAddr = onward x (d + 1) := by
    rw [tab.chained, hdesc, onward_onward]
  refine ⟨(payload.drop c.payloadoffset).take (ETH_TX_BUF_SIZE - c.bufferoffset),
    ⟨?_, ?_⟩, hmore, ?_, ?_⟩
  · rw [← hunread]
    exact (List.take_prefix _ _).trans (List.prefix_append _ _)
  · rw [hfill]
    omega
  · simp only [copyRound, hq, if_pos hfull, hbuffer]
    split_ifs <;> rfl
  · simp only [copyRound, hq, if_pos hfull, hnext]
    split_ifs with hown
    · rfl
    · refine ⟨_, rfl, ⟨rfl, tab.buffer _, Nat.zero_le _, ?_, fun _ => hmore, ?_, ?_, ?_⟩, ?_⟩
      · simp only [Nat.succ_mul]
        omega
      · intro p hp
        simp only [List.head?_cons, Option.mem_some_iff] at hp
        subst hp
        simp only
        omega
      · have hdrop := congrArg (List.drop (ETH_TX_BUF_SIZE - c.bufferoffset)) hunread
        rw [List.drop_drop, List.drop_append_of_le_length, List.drop_drop] at hdrop
        · exact hdrop
        · rw [List.length_drop]
          omega
      · simp only
        rw [Nat.succ_mul] at hmore
        omega
      · rw [hfill]

/-- A round that copies what is left of its pbuf. -/
theorem copyRound_rest (h : c.At x f d) {payload : List UInt8} {rest : List (List UInt8)}
    (hq : c.q = payload :: rest)
    (hfits : ¬ c.byteslefttocopy + c.bufferoffset > ETH_TX_BUF_SIZE) :
    ∃ bytes c', c.Writes f bytes ∧
      copyRound tab Tx_Buff c = (memcpy Tx_Buff (onward x d) c.bufferoffset bytes, .next c') ∧
      c'.At x f d ∧ c'.framelength = c.framelength + bytes.length := by
  obtain ⟨hdesc, hbuffer, hoffset, hlength, hneeded, hinside, hunread, hcopied⟩ := h
  have hin := hinside payload (by rw [hq]; rfl)
  simp only [Copying.unread, hq] at hunread
  have hleft : (payload.drop c.payloadoffset).take c.byteslefttocopy =
      payload.drop c.payloadoffset := by
    apply List.take_of_length_le
    rw [List.length_drop]
    omega
  have hlen : (payload.drop c.payloadoffset).length = c.byteslefttocopy := by
    rw [List.length_drop]
    omega
  refine ⟨payload.drop c.payloadoffset,
    Copying.enter
      { c with
        bufferoffset := c.bufferoffset + c.byteslefttocopy
        framelength := c.framelength + c.byteslefttocopy } rest,
    ⟨?_, ?_⟩, ?_, ?_, ?_⟩
  · rw [← hunread]
    exact List.prefix_append _ _
  · rw [hlen]
    omega
  · simp only [copyRound, hq, if_neg hfits, hbuffer, hleft]
  · refine Copying.At.enter hdesc hbuffer ?_ ?_ hneeded ?_ ?_
    · simp only
      omega
    · simp only
      omega
    · have hdrop := congrArg (List.drop c.byteslefttocopy) hunread
      rwa [List.drop_left' hlen, List.drop_drop] at hdrop
    · have htotal := congrArg List.length hunread
      rw [List.length_append, hlen, List.length_drop] at htotal
      simp only
      omega
  · rw [hlen]
    cases rest <;> rfl

end Rounds

/-! ## The whole loop -/

/-- **The invariant rule of the copy loop**: what its rounds keep holds where it ends. -/
theorem copyLoop_ends {tab : DescTab ETH_TXBUFNB} {I : (Fin ETH_TXBUFNB → Mem) → Copying → Prop}
    (keep : ∀ Tx_Buff c c', I Tx_Buff c → (copyRound tab Tx_Buff c).2 = .next c' →
      I (copyRound tab Tx_Buff c).1 c')
    (Tx_Buff : Fin ETH_TXBUFNB → Mem) (c : Copying) (h : I Tx_Buff c) :
    ∃ Tx_Buff' c', I Tx_Buff' c' ∧ match (copyRound tab Tx_Buff' c').2 with
      | .next _ => False
      | .error errval =>
        copyLoop tab Tx_Buff c = ((copyRound tab Tx_Buff' c').1, .error errval)
      | .copied framelength =>
        copyLoop tab Tx_Buff c = ((copyRound tab Tx_Buff' c').1, .ok framelength) := by
  induction Tx_Buff, c using copyLoop.induct tab with
  | case1 Tx_Buff c c' hround ih =>
    rw [copyLoop_eq, hround]
    exact ih (keep Tx_Buff c c' h hround)
  | case2 Tx_Buff c errval hround =>
    refine ⟨Tx_Buff, c, h, ?_⟩
    rw [hround]
    simp only [copyLoop_eq tab Tx_Buff c, hround]
  | case3 Tx_Buff c framelength hround =>
    refine ⟨Tx_Buff, c, h, ?_⟩
    rw [hround]
    simp only [copyLoop_eq tab Tx_Buff c, hround]

/-- What holds between the rounds: the loop is somewhere in the frame, in a descriptor that is the
firmware's as those before it, and a frame that goes round the ring at most once is laid so far. -/
def CopyInv (tab : DescTab ETH_TXBUFNB) (before : Fin ETH_TXBUFNB → Mem) (x : Fin ETH_TXBUFNB)
    (f : List UInt8) (Tx_Buff : Fin ETH_TXBUFNB → Mem) (c : Copying) : Prop :=
  ∃ d, c.At x f d ∧ (∀ i, i ≤ d → ¬ tab.has (onward x i) ETH_DMATXDESC_OWN) ∧
    (f.length ≤ ETH_TXBUFNB * ETH_TX_BUF_SIZE →
      Tx_Buff = laid before x ETH_TX_BUF_SIZE f c.framelength)

theorem copyInv_start {tab : DescTab ETH_TXBUFNB} {x : Fin ETH_TXBUFNB}
    (Tx_Buff : Fin ETH_TXBUFNB → Mem) (payloads : List (List UInt8))
    (hfirst : ¬ tab.has x ETH_DMATXDESC_OWN) :
    CopyInv tab Tx_Buff x payloads.flatten Tx_Buff (Copying.start x x payloads) := by
  refine ⟨0, Copying.At.start x payloads, ?_, ?_⟩
  · intro i hi
    rw [Nat.le_zero.mp hi, onward_zero]
    exact hfirst
  · intro _
    cases payloads <;> exact (laid_zero _ _ _ _).symm

/-- How far round the ring a frame that fits it goes. -/
theorem Copying.At.lt {c : Copying} {x : Fin ETH_TXBUFNB} {f : List UInt8} {d : Nat}
    (h : c.At x f d) (hturn : f.length ≤ ETH_TXBUFNB * ETH_TX_BUF_SIZE) : d < ETH_TXBUFNB := by
  have hsize : ETH_TX_BUF_SIZE = 1524 := rfl
  have hnb : ETH_TXBUFNB = 8 := rfl
  have hneeded := h.needed
  rw [hsize] at hturn hneeded
  omega

/-- A round that writes lays the bytes it writes. -/
theorem Copying.At.laid {before Tx_Buff : Fin ETH_TXBUFNB → Mem} {c : Copying}
    {x : Fin ETH_TXBUFNB} {f bytes : List UInt8} {d : Nat} (h : c.At x f d)
    (hw : c.Writes f bytes) (hturn : f.length ≤ ETH_TXBUFNB * ETH_TX_BUF_SIZE)
    (hlaid : Tx_Buff = laid before x ETH_TX_BUF_SIZE f c.framelength) :
    memcpy Tx_Buff (onward x d) c.bufferoffset bytes =
      Base.laid before x ETH_TX_BUF_SIZE f (c.framelength + bytes.length) := by
  have hnext := hw.next
  rw [h.length] at hlaid hnext ⊢
  rw [hlaid, memcpy]
  exact write_laid before x (h.lt hturn) hw.fits hnext

theorem copyInv_keep {tab : DescTab ETH_TXBUFNB} {before : Fin ETH_TXBUFNB → Mem}
    {x : Fin ETH_TXBUFNB} {f : List UInt8} (Tx_Buff : Fin ETH_TXBUFNB → Mem) (c c' : Copying)
    (h : CopyInv tab before x f Tx_Buff c) (hround : (copyRound tab Tx_Buff c).2 = .next c') :
    CopyInv tab before x f (copyRound tab Tx_Buff c).1 c' := by
  obtain ⟨d, hat, hfree, hlaid⟩ := h
  match hq : c.q with
  | [] =>
    rw [(copyRound_done tab Tx_Buff hat hq).1] at hround
    exact nomatch hround
  | payload :: rest =>
    by_cases hfull : c.byteslefttocopy + c.bufferoffset > ETH_TX_BUF_SIZE
    · obtain ⟨bytes, hw, -, hbuf, hend⟩ :=
        copyRound_full tab Tx_Buff hat hq hfull
      split_ifs at hend with hown
      · rw [hend] at hround
        exact nomatch hround
      · obtain ⟨c₁, hnext, hat', hlen⟩ := hend
        rw [hnext] at hround
        cases hround
        refine ⟨d + 1, hat', ?_, ?_⟩
        · intro i hi
          rcases Nat.lt_or_ge d i with hlt | hle
          · obtain rfl : i = d + 1 := by omega
            exact hown
          · exact hfree i hle
        · intro hturn
          rw [hbuf, hlen]
          exact hat.laid hw hturn (hlaid hturn)
    · obtain ⟨bytes, c₁, hw, heq, hat', hlen⟩ :=
        copyRound_rest tab Tx_Buff hat hq hfull
      rw [heq] at hround ⊢
      cases hround
      refine ⟨d, hat', hfree, ?_⟩
      intro hturn
      rw [hlen]
      exact hat.laid hw hturn (hlaid hturn)

/-- The descriptors behind the first that a frame needs. -/
theorem lt_bufcount_iff {FrameLength d : Nat} (hd : 0 < d) :
    d < bufcount FrameLength ↔ d * ETH_TX_BUF_SIZE < FrameLength := by
  have hsize : ETH_TX_BUF_SIZE = 1524 := rfl
  rcases Nat.eq_zero_or_pos FrameLength with rfl | h
  · rw [bufcount_zero]
    omega
  · rw [bufcount_eq h, hsize]
    omega

/-- A round writes into a buffer that is the firmware's. -/
theorem CopyInv.others {tab : DescTab ETH_TXBUFNB} {before Tx_Buff : Fin ETH_TXBUFNB → Mem}
    {x y : Fin ETH_TXBUFNB} {f : List UInt8} {c : Copying} (h : CopyInv tab before x f Tx_Buff c)
    (hown : tab.has y ETH_DMATXDESC_OWN) : (copyRound tab Tx_Buff c).1 y = Tx_Buff y := by
  obtain ⟨d, hat, hfree, -⟩ := h
  have hkept (bytes : List UInt8) :
      memcpy Tx_Buff (onward x d) c.bufferoffset bytes y = Tx_Buff y := by
    have hne : y ≠ onward x d := by
      rintro rfl
      exact hfree d le_rfl hown
    exact Function.update_of_ne hne _ _
  match hq : c.q with
  | [] => rw [(copyRound_done tab Tx_Buff hat hq).1]
  | payload :: rest =>
    by_cases hfull : c.byteslefttocopy + c.bufferoffset > ETH_TX_BUF_SIZE
    · obtain ⟨bytes, -, -, hbuf, -⟩ := copyRound_full tab Tx_Buff hat hq hfull
      rw [hbuf]
      exact hkept bytes
    · obtain ⟨bytes, c', -, hround, -⟩ := copyRound_rest tab Tx_Buff hat hq hfull
      rw [hround]
      exact hkept bytes

/-- **Where the loop has copied the frame**: every descriptor it needs is the firmware's. -/
theorem CopyInv.copied {tab : DescTab ETH_TXBUFNB} {before Tx_Buff : Fin ETH_TXBUFNB → Mem}
    {x : Fin ETH_TXBUFNB} {f : List UInt8} {c : Copying} {framelength : Nat}
    (h : CopyInv tab before x f Tx_Buff c)
    (hround : (copyRound tab Tx_Buff c).2 = .copied framelength) :
    framelength = f.length ∧ (∀ i, i < bufcount f.length →
        ¬ tab.has (onward x i) ETH_DMATXDESC_OWN) ∧
      (f.length ≤ ETH_TXBUFNB * ETH_TX_BUF_SIZE →
        (copyRound tab Tx_Buff c).1 = laid before x ETH_TX_BUF_SIZE f f.length) := by
  obtain ⟨d, hat, hfree, hlaid⟩ := h
  match hq : c.q with
  | [] =>
    obtain ⟨hdone, hall⟩ := copyRound_done tab Tx_Buff hat hq
    rw [hdone] at hround ⊢
    cases hround
    refine ⟨rfl, ?_, fun hturn => by rw [hlaid hturn, hall]⟩
    intro i hi
    apply hfree i
    have hlen := hat.length
    have hoffset := hat.offset
    rcases Nat.eq_zero_or_pos i with rfl | hpos
    · exact Nat.zero_le d
    · -- the loop has not passed the descriptor, so all that comes before it is full
      have hneeds := (lt_bufcount_iff hpos).mp hi
      by_contra hlt
      have hmul : (d + 1) * ETH_TX_BUF_SIZE ≤ i * ETH_TX_BUF_SIZE :=
        Nat.mul_le_mul_right _ (by omega)
      rw [Nat.succ_mul] at hmul
      omega
  | payload :: rest =>
    by_cases hfull : c.byteslefttocopy + c.bufferoffset > ETH_TX_BUF_SIZE
    · obtain ⟨bytes, -, -, -, hstop⟩ := copyRound_full tab Tx_Buff hat hq hfull
      split_ifs at hstop
      · rw [hstop] at hround
        exact nomatch hround
      · obtain ⟨c', hnext, -⟩ := hstop
        rw [hnext] at hround
        exact nomatch hround
    · obtain ⟨bytes, c', -, hnext, -⟩ := copyRound_rest tab Tx_Buff hat hq hfull
      rw [hnext] at hround
      exact nomatch hround

/-- **Where the loop gives up**: a descriptor that the frame needs is the DMA's. -/
theorem CopyInv.error {tab : DescTab ETH_TXBUFNB} {before Tx_Buff : Fin ETH_TXBUFNB → Mem}
    {x : Fin ETH_TXBUFNB} {f : List UInt8} {c : Copying} {errval : err_t}
    (h : CopyInv tab before x f Tx_Buff c)
    (hround : (copyRound tab Tx_Buff c).2 = .error errval) :
    errval = ERR_USE ∧
      ∃ i, i < bufcount f.length ∧ tab.has (onward x i) ETH_DMATXDESC_OWN := by
  obtain ⟨d, hat, -, -⟩ := h
  match hq : c.q with
  | [] =>
    rw [(copyRound_done tab Tx_Buff hat hq).1] at hround
    exact nomatch hround
  | payload :: rest =>
    by_cases hfull : c.byteslefttocopy + c.bufferoffset > ETH_TX_BUF_SIZE
    · obtain ⟨bytes, -, hmore, -, hstop⟩ := copyRound_full tab Tx_Buff hat hq hfull
      split_ifs at hstop with hown
      · rw [hstop] at hround
        cases hround
        exact ⟨rfl, d + 1, (lt_bufcount_iff (Nat.succ_pos d)).mpr hmore, hown⟩
      · obtain ⟨c', hnext, -⟩ := hstop
        rw [hnext] at hround
        exact nomatch hround
    · obtain ⟨bytes, c', -, hnext, -⟩ := copyRound_rest tab Tx_Buff hat hq hfull
      rw [hnext] at hround
      exact nomatch hround

section Loop

variable {heth : ETH_HandleTypeDef} (payloads : List (List UInt8))

/-- **Where the loop ends**: behind the frame, every descriptor it needs the firmware's, or at the
first that is not. -/
theorem copyFrame_cases (Tx_Buff : Fin ETH_TXBUFNB → Mem)
    (hfirst : ¬ heth.DMATxDscrTab.has heth.TxDesc ETH_DMATXDESC_OWN) :
    ((∀ i, i < bufcount payloads.flatten.length →
        ¬ heth.DMATxDscrTab.has (onward heth.TxDesc i) ETH_DMATXDESC_OWN) ∧
      (copyFrame heth Tx_Buff payloads).2 =
        .ok payloads.flatten.length ∧
      (payloads.flatten.length ≤ ETH_TXBUFNB * ETH_TX_BUF_SIZE →
        (copyFrame heth Tx_Buff payloads).1 =
          laid Tx_Buff heth.TxDesc ETH_TX_BUF_SIZE payloads.flatten payloads.flatten.length)) ∨
    (∃ i, i < bufcount payloads.flatten.length ∧
        heth.DMATxDscrTab.has (onward heth.TxDesc i) ETH_DMATXDESC_OWN) ∧
      (copyFrame heth Tx_Buff payloads).2 = .error ERR_USE := by
  have hstart := copyInv_start Tx_Buff payloads hfirst
  rw [copyFrame, heth.DMATxDscrTab.buffer]
  obtain ⟨Tx_Buff', c, hinv, hend⟩ := copyLoop_ends copyInv_keep Tx_Buff _ hstart
  match hround : (copyRound heth.DMATxDscrTab Tx_Buff' c).2 with
  | .next c' =>
    rw [hround] at hend
    exact hend.elim
  | .error errval =>
    rw [hround] at hend
    obtain ⟨rfl, hown⟩ := hinv.error hround
    rw [hend]
    exact .inr ⟨hown, rfl⟩
  | .copied framelength =>
    rw [hround] at hend
    obtain ⟨rfl, hfree, hlaid⟩ := hinv.copied hround
    rw [hend]
    exact .inl ⟨hfree, rfl, hlaid⟩

end Loop

/-! ## The whole function -/

/-- There is a semaphore, or memory for one. -/
def Driver.Semaphore (created : Bool) (s : Driver) : Prop := s.ousem = none → created = true

instance (created : Bool) (s : Driver) : Decidable (s.Semaphore created) :=
  inferInstanceAs (Decidable (_ → _))

/-- Behind its head a single caller has a semaphore that is free, if there is one at all. -/
theorem Driver.sem_eq (created : Bool) (s : Driver) :
    s.sem created = if s.Semaphore created then some true else none := by
  unfold Driver.sem
  split_ifs with hnone hsem hsem
  · rw [hsem hnone]
    rfl
  · have hnull : created = false := Bool.eq_false_of_not_eq_true fun h => hsem fun _ => h
    rw [hnull]
    rfl
  · rcases h : s.ousem with _ | _ | _
    · exact absurd h hnone
    · exact absurd h s.single
    · rfl
  · exact absurd (fun h => absurd h hnone) hsem

section Function

variable (p : PbufChain) {s : Driver} {created : Bool}

/-- What follows the copy: the hand-over if it came to the end, and `error:` either way. -/
def afterCopy (heth : ETH_HandleTypeDef) (sem : Bool)
    (copied : (Fin ETH_TXBUFNB → Mem) × Except err_t Nat) : err_t × Driver :=
  match copied.2 with
  | .error errval => (errval, leave heth copied.1 sem)
  | .ok framelength => (ERR_OK, leave (HAL_ETH_TransmitFrame heth framelength).2 copied.1 sem)

/-- Without memory for the semaphore there is no result. -/
theorem low_level_output_null (hsem : ¬ s.Semaphore created) :
    low_level_output created p s = none := by
  simp only [low_level_output, s.sem_eq, if_neg hsem, Option.bind_none]

/-- At a first descriptor that is the DMA's. -/
theorem low_level_output_owned (hsem : s.Semaphore created)
    (hfirst : s.heth.DMATxDscrTab.has s.heth.TxDesc ETH_DMATXDESC_OWN) :
    low_level_output created p s = some (ERR_USE, leave s.heth s.Tx_Buff true) := by
  simp only [low_level_output, s.sem_eq, if_pos hsem, Option.bind_some, if_pos hfirst]

/-- Behind the test of the first descriptor. -/
theorem low_level_output_eq (hsem : s.Semaphore created)
    (hfirst : ¬ s.heth.DMATxDscrTab.has s.heth.TxDesc ETH_DMATXDESC_OWN) :
    low_level_output created p s =
      some (afterCopy s.heth false (copyFrame s.heth s.Tx_Buff p.payloads)) := by
  simp only [low_level_output, s.sem_eq, if_pos hsem, Option.bind_some, if_neg hfirst,
    sys_sem_wait, if_true, afterCopy]
  split
  all_goals rfl

/-- **The two ways through the function.** The descriptors the frame needs are the firmware's, and
it is passed on with its length; or one is the DMA's, and it is not. -/
theorem low_level_output_cases (hsem : s.Semaphore created) :
    ((∀ i, i < bufcount p.frame.length →
        ¬ s.heth.DMATxDscrTab.has (onward s.heth.TxDesc i) ETH_DMATXDESC_OWN) ∧
      ∃ Tx_Buff, (p.frame.length ≤ ETH_TXBUFNB * ETH_TX_BUF_SIZE →
          Tx_Buff = laid s.Tx_Buff s.heth.TxDesc ETH_TX_BUF_SIZE p.frame p.frame.length) ∧
        (copyFrame s.heth s.Tx_Buff p.payloads).2 =
          .ok p.frame.length ∧
        low_level_output created p s = some (ERR_OK,
          leave (HAL_ETH_TransmitFrame s.heth p.frame.length).2 Tx_Buff false)) ∨
    (∃ i, i < bufcount p.frame.length ∧
        s.heth.DMATxDscrTab.has (onward s.heth.TxDesc i) ETH_DMATXDESC_OWN) ∧
      ∃ Tx_Buff sem, low_level_output created p s = some (ERR_USE, leave s.heth Tx_Buff sem) := by
  by_cases hfirst : s.heth.DMATxDscrTab.has s.heth.TxDesc ETH_DMATXDESC_OWN
  · refine .inr ⟨⟨0, bufcount_pos _, ?_⟩, _, _, low_level_output_owned p hsem hfirst⟩
    rwa [onward_zero]
  · have hcall := low_level_output_eq p hsem hfirst
    rcases copyFrame_cases p.payloads s.Tx_Buff hfirst with
      ⟨hfree, hcopied, hlaid⟩ | ⟨hown, herror⟩
    · simp only [afterCopy, hcopied] at hcall
      exact .inl ⟨hfree, _, hlaid, hcopied, hcall⟩
    · simp only [afterCopy, herror] at hcall
      exact .inr ⟨hown, _, _, hcall⟩

end Function

/-! ### The frame that is sent -/

/-- `⌈length / 1524⌉`. -/
def buffersOf (length : Nat) : Nat := (length + (ETH_TX_BUF_SIZE - 1)) / ETH_TX_BUF_SIZE

/-- What the DMA sends of `k` descriptors from `x` on: as much of each buffer as its size word
says. -/
def transmitted (s : Driver) (x : Fin ETH_TXBUFNB) (k : Nat) : List UInt8 :=
  ((List.range k).map fun i =>
    (s.Tx_Buff (s.heth.DMATxDscrTab.desc (onward x i)).Buffer1Addr).read 0
      (s.heth.DMATxDscrTab.desc (onward x i)).ControlBufferSize.toNat).flatten

/-- **The copy loop and the HAL agree**: the descriptors handed over are the ones the loop filled,
and hold the frame. -/
structure Scattered (p : PbufChain) (s s' : Driver) : Prop where
  passed : (copyFrame s.heth s.Tx_Buff p.payloads).2 =
    .ok p.frame.length
  accepted : (HAL_ETH_TransmitFrame s.heth p.frame.length).1 = .HAL_OK
  advance : s'.heth.TxDesc = onward s.heth.TxDesc (buffersOf p.frame.length)
  segments : ∀ i, i < buffersOf p.frame.length → Segment p.frame.length (buffersOf p.frame.length) i
    (s'.heth.DMATxDscrTab.desc (onward s.heth.TxDesc i))
  total : ((List.range (buffersOf p.frame.length)).map fun i =>
    (s'.heth.DMATxDscrTab.desc (onward s.heth.TxDesc i)).ControlBufferSize.toNat).sum =
      p.frame.length
  contents : transmitted s' s.heth.TxDesc (buffersOf p.frame.length) = p.frame
  others : ∀ x, (∀ i, i < buffersOf p.frame.length → x ≠ onward s.heth.TxDesc i) →
    s'.heth.DMATxDscrTab.desc x = s.heth.DMATxDscrTab.desc x ∧ s'.Tx_Buff x = s.Tx_Buff x

/-- The sizes of the descriptors of a frame are whole buffers, and a last one in part. -/
theorem Segment.size_lt {L k i : Nat} {d : ETH_DMADescTypeDef ETH_TXBUFNB}
    (h : Segment L (k + 1) i d) (hi : i < k) : d.ControlBufferSize.toNat = ETH_TX_BUF_SIZE := by
  rw [h.size, if_neg (by omega)]

theorem Segment.size_last {L k : Nat} {d : ETH_DMADescTypeDef ETH_TXBUFNB}
    (h : Segment L (k + 1) k d) : d.ControlBufferSize.toNat = L - k * ETH_TX_BUF_SIZE := by
  rw [h.size, Nat.add_sub_cancel, if_pos rfl]

/-- What such descriptors send is a stretch of the ring. -/
theorem transmitted_eq_flow {s : Driver} {x : Fin ETH_TXBUFNB} {L k : Nat}
    (hseg : ∀ i, i < k + 1 → Segment L (k + 1) i (s.heth.DMATxDscrTab.desc (onward x i)))
    (hlt : k * ETH_TX_BUF_SIZE ≤ L) (hle : L ≤ (k + 1) * ETH_TX_BUF_SIZE) :
    transmitted s x (k + 1) = flow s.Tx_Buff x ETH_TX_BUF_SIZE 0 L := by
  rw [Nat.succ_mul] at hle
  have hcells := flow_cells s.Tx_Buff x (k := k) (m := L - k * ETH_TX_BUF_SIZE)
    (show L - k * ETH_TX_BUF_SIZE ≤ ETH_TX_BUF_SIZE by omega)
  rw [Nat.add_sub_cancel' hlt] at hcells
  have hwhole : (List.range k).map (fun i =>
      (s.Tx_Buff (s.heth.DMATxDscrTab.desc (onward x i)).Buffer1Addr).read 0
        (s.heth.DMATxDscrTab.desc (onward x i)).ControlBufferSize.toNat) =
      (List.range k).map fun i => (s.Tx_Buff (onward x i)).read 0 ETH_TX_BUF_SIZE := by
    apply List.map_congr_left
    intro i hi
    have hi := List.mem_range.mp hi
    rw [s.heth.DMATxDscrTab.buffer, (hseg i (by omega)).size_lt hi]
  rw [← hcells, transmitted, List.range_succ, List.map_append, List.flatten_append, hwhole,
    List.map_singleton, List.flatten_singleton, s.heth.DMATxDscrTab.buffer,
    (hseg k (Nat.lt_succ_self k)).size_last]

theorem sizes_sum {tab : DescTab ETH_TXBUFNB} {x : Fin ETH_TXBUFNB} {L k : Nat}
    (hseg : ∀ i, i < k + 1 → Segment L (k + 1) i (tab.desc (onward x i)))
    (hlt : k * ETH_TX_BUF_SIZE ≤ L) :
    ((List.range (k + 1)).map fun i => (tab.desc (onward x i)).ControlBufferSize.toNat).sum =
      L := by
  have hwhole : ((List.range k).map fun i => (tab.desc (onward x i)).ControlBufferSize.toNat) =
      List.replicate k ETH_TX_BUF_SIZE := by
    refine List.eq_replicate_iff.mpr ⟨by simp, ?_⟩
    intro z hz
    obtain ⟨i, hi, rfl⟩ := List.mem_map.mp hz
    have hi := List.mem_range.mp hi
    exact (hseg i (by omega)).size_lt hi
  rw [List.range_succ, List.map_append, List.sum_append, hwhole, List.sum_replicate_nat,
    List.map_singleton, List.sum_singleton, (hseg k (Nat.lt_succ_self k)).size_last]
  omega

/-- A frame the HAL takes, once the function has returned. -/
theorem leave_handedOver {heth : ETH_HandleTypeDef} {FrameLength : Nat}
    (hlock : heth.Lock ≠ .HAL_LOCKED) (hpos : 0 < FrameLength)
    (hturn : FrameLength ≤ ETH_TXBUFNB * ETH_TX_BUF_SIZE)
    (hfirst : ¬ heth.DMATxDscrTab.has heth.TxDesc ETH_DMATXDESC_OWN)
    (Tx_Buff : Fin ETH_TXBUFNB → Mem) (sem : Bool) :
    (HAL_ETH_TransmitFrame heth FrameLength).1 = .HAL_OK ∧
      HandedOver heth (leave (HAL_ETH_TransmitFrame heth FrameLength).2 Tx_Buff sem).heth
        FrameLength := by
  obtain ⟨haccepted, htab, hdesc⟩ := HAL_ETH_TransmitFrame_ok hlock hpos hfirst
  obtain ⟨htab', hdesc'⟩ :=
    (HAL_ETH_TransmitFrame heth FrameLength).2.resumeTx_same ETH_DMASR_TUS
  have hhanded : HandedOver heth (heth.handFrame FrameLength) FrameLength :=
    handFrame_spec hpos hturn
  obtain ⟨hadvance, hseg, hothers⟩ := hhanded
  rw [← htab, ← htab'] at hseg hothers
  rw [← hdesc, ← hdesc'] at hadvance
  exact ⟨haccepted, hadvance, hseg, hothers⟩

/-- What the descriptors of a frame that is laid send is the frame. -/
theorem transmitted_laid {s : Driver} {before : Fin ETH_TXBUFNB → Mem} {x : Fin ETH_TXBUFNB}
    {f : List UInt8} (hpos : 0 < f.length) (hturn : f.length ≤ ETH_TXBUFNB * ETH_TX_BUF_SIZE)
    (hseg : ∀ i, i < bufcount f.length →
      Segment f.length (bufcount f.length) i (s.heth.DMATxDscrTab.desc (onward x i)))
    (hlaid : s.Tx_Buff = laid before x ETH_TX_BUF_SIZE f f.length) :
    ((List.range (bufcount f.length)).map fun i =>
        (s.heth.DMATxDscrTab.desc (onward x i)).ControlBufferSize.toNat).sum = f.length ∧
      transmitted s x (bufcount f.length) = f := by
  obtain ⟨hk, hlt, hle⟩ := bufcount_bounds hpos
  obtain ⟨k, hk⟩ := Nat.exists_eq_add_of_lt hk
  rw [Nat.zero_add] at hk
  rw [hk] at hseg hlt hle ⊢
  rw [Nat.add_sub_cancel] at hlt
  have hc : 0 < ETH_TX_BUF_SIZE := Nat.zero_lt_succ _
  refine ⟨sizes_sum hseg hlt.le, ?_⟩
  rw [transmitted_eq_flow hseg hlt.le hle, hlaid, flow_laid _ _ hc hturn le_rfl, List.take_length]

/-- A buffer the frame does not reach is as it was. -/
theorem laid_behind {before : Fin ETH_TXBUFNB → Mem} {x y : Fin ETH_TXBUFNB} {f : List UInt8}
    (hpos : 0 < f.length) (hy : ∀ i, i < bufcount f.length → y ≠ onward x i) :
    laid before x ETH_TX_BUF_SIZE f f.length y = before y := by
  obtain ⟨-, -, hle⟩ := bufcount_bounds hpos
  apply laid_of_le
  -- it is at least `bufcount` places behind
  have hgap : bufcount f.length ≤ gap x y := by
    by_contra hlt
    exact hy _ (Nat.lt_of_not_le hlt) (onward_gap _ _).symm
  exact hle.trans (Nat.mul_le_mul_right _ hgap)

/-- **TX scatter.** A frame of up to eight buffers whose descriptors are the firmware's is sent as
it is. -/
theorem scatter_agrees (p : PbufChain) (s : Driver) {created : Bool} (hsem : s.Semaphore created)
    (hpos : 0 < p.frame.length)
    (hturn : p.frame.length ≤ ETH_TXBUFNB * ETH_TX_BUF_SIZE)
    (hfree : ∀ i, i < buffersOf p.frame.length →
      ¬ s.heth.DMATxDscrTab.has (onward s.heth.TxDesc i) ETH_DMATXDESC_OWN)
    (hlock : s.heth.Lock = .HAL_UNLOCKED) :
    ∃ s', low_level_output created p s = some (ERR_OK, s') ∧ Scattered p s s' := by
  have hcount : buffersOf p.frame.length = bufcount p.frame.length := (bufcount_eq hpos).symm
  have hunlocked : s.heth.Lock ≠ .HAL_LOCKED := by
    rw [hlock]
    nofun
  rw [hcount] at hfree
  have hfirst := hfree 0 (bufcount_pos _)
  rw [onward_zero] at hfirst
  rcases low_level_output_cases p hsem with
    ⟨-, Tx_Buff, hlaid, hpassed, hcall⟩ | ⟨⟨i, hi, hown⟩, -⟩
  · have hlaid := hlaid hturn
    obtain ⟨haccepted, hadvance, hseg, hothers⟩ :=
      leave_handedOver hunlocked hpos hturn hfirst Tx_Buff false
    obtain ⟨htotal, hcontents⟩ := transmitted_laid hpos hturn hseg hlaid
    refine ⟨_, hcall, hpassed, haccepted, ?_, ?_, ?_, ?_, ?_⟩
    · rw [hcount]
      exact hadvance
    · rw [hcount]
      exact hseg
    · rw [hcount]
      exact htotal
    · rw [hcount]
      exact hcontents
    · intro x hx
      rw [hcount] at hx
      refine ⟨hothers x hx, ?_⟩
      show Tx_Buff x = _
      rw [hlaid]
      exact laid_behind hpos hx
  · exact absurd hown (hfree i hi)

/-- The driver before its first call, but for where `TxDesc` has come to. -/
def firstCall (TxDesc : Fin ETH_TXBUFNB) : Driver where
  heth := Bsp_Eth_Init TxDesc
  Tx_Buff _ _ := 0
  ousem := none
  single := by decide

/-- One byte more than a buffer, and an empty pbuf between the others. -/
def overOneBuffer : List (List UInt8) := [List.replicate 1500 1, [], List.replicate 25 2]

theorem overOneBuffer_length : overOneBuffer.flatten.length = 1525 := by
  simp only [overOneBuffer, List.flatten_cons, List.length_append, List.length_replicate,
    List.flatten_nil, List.length_nil]

/-- Two descriptors, the last of the table and the first. -/
theorem scatter_agrees_round_the_end :
    ∃ s', low_level_output true ⟨overOneBuffer, by rw [overOneBuffer_length]; decide⟩
          (firstCall 7) = some (ERR_OK, s') ∧
      Scattered ⟨overOneBuffer, by rw [overOneBuffer_length]; decide⟩ (firstCall 7) s' := by
  have hlen : (PbufChain.frame
      ⟨overOneBuffer, by rw [overOneBuffer_length]; decide⟩).length = 1525 := overOneBuffer_length
  refine scatter_agrees _ (firstCall 7) (fun _ => rfl) ?_ ?_ ?_ rfl
  · rw [hlen]
    decide
  · rw [hlen]
    decide
  · rw [hlen]
    decide

/-! ### The result -/

/-- The descriptors of a frame have gone to the DMA. -/
def Handed (p : PbufChain) (s s' : Driver) : Prop :=
  0 < p.frame.length ∧ ∀ i, i < bufcount p.frame.length →
    ¬ s.heth.DMATxDscrTab.has (onward s.heth.TxDesc i) ETH_DMATXDESC_OWN ∧
      s'.heth.DMATxDscrTab.has (onward s.heth.TxDesc i) ETH_DMATXDESC_OWN

/-- The ring is as it was. -/
structure Untouched (s s' : Driver) : Prop where
  TxDesc : s'.heth.TxDesc = s.heth.TxDesc
  Status : ∀ x, (s'.heth.DMATxDscrTab.desc x).Status = (s.heth.DMATxDscrTab.desc x).Status
  ControlBufferSize : ∀ x, (s'.heth.DMATxDscrTab.desc x).ControlBufferSize =
    (s.heth.DMATxDscrTab.desc x).ControlBufferSize

/-- **The result is faithful**: `ERR_OK` for a frame handed over and for no other, and a frame that
is not leaves the ring alone. -/
def Faithful (created : Bool) (p : PbufChain) (s : Driver) : Prop :=
  ∃ errval s', low_level_output created p s = some (errval, s') ∧
    (errval = ERR_OK ↔ Handed p s s') ∧ (¬ Handed p s s' → errval ≠ ERR_OK ∧ Untouched s s')

theorem untouched_leave (s : Driver) (Tx_Buff : Fin ETH_TXBUFNB → Mem) (sem : Bool) :
    Untouched s (leave s.heth Tx_Buff sem) := by
  obtain ⟨htab, hdesc⟩ := s.heth.resumeTx_same ETH_DMASR_TUS
  have htab : (leave s.heth Tx_Buff sem).heth.DMATxDscrTab = s.heth.DMATxDscrTab := htab
  exact ⟨hdesc, fun x => by rw [htab], fun x => by rw [htab]⟩

section Result

variable {p : PbufChain} {s : Driver} {created : Bool}

/-- An error before the hand-over is reported, and leaves the ring alone. -/
theorem faithful_of_owned (hsem : s.Semaphore created) (h : ∃ i, i < bufcount p.frame.length ∧
    s.heth.DMATxDscrTab.has (onward s.heth.TxDesc i) ETH_DMATXDESC_OWN) :
    Faithful created p s := by
  obtain ⟨i, hi, hown⟩ := h
  rcases low_level_output_cases p hsem with ⟨hfree, -⟩ | ⟨-, Tx_Buff, sem, hcall⟩
  · exact absurd hown (hfree i hi)
  · have hnot : ¬ Handed p s (leave s.heth Tx_Buff sem) := fun h => (h.2 i hi).1 hown
    exact ⟨_, _, hcall, iff_of_false (by decide) hnot,
      fun _ => ⟨by decide, untouched_leave s Tx_Buff sem⟩⟩

/-- A frame the HAL takes is handed over. -/
theorem faithful_of_accepted (hsem : s.Semaphore created) (hpos : 0 < p.frame.length)
    (hlock : s.heth.Lock = .HAL_UNLOCKED)
    (hfree : ∀ i, i < bufcount p.frame.length →
      ¬ s.heth.DMATxDscrTab.has (onward s.heth.TxDesc i) ETH_DMATXDESC_OWN) :
    Faithful created p s := by
  rcases low_level_output_cases p hsem with ⟨-, Tx_Buff, -, -, hcall⟩ | ⟨⟨i, hi, hown⟩, -⟩
  · have hunlocked : s.heth.Lock ≠ .HAL_LOCKED := by
      rw [hlock]
      nofun
    have hfirst := hfree 0 (bufcount_pos _)
    rw [onward_zero] at hfirst
    obtain ⟨-, htab, -⟩ := HAL_ETH_TransmitFrame_ok hunlocked hpos hfirst
    obtain ⟨htab', -⟩ :=
      (HAL_ETH_TransmitFrame s.heth p.frame.length).2.resumeTx_same ETH_DMASR_TUS
    have hhanded : Handed p s
        (leave (HAL_ETH_TransmitFrame s.heth p.frame.length).2 Tx_Buff false) := by
      refine ⟨hpos, fun i hi => ⟨hfree i hi, ?_⟩⟩
      show DescTab.has ((HAL_ETH_TransmitFrame s.heth p.frame.length).2.resumeTx _).DMATxDscrTab _ _
      rw [htab', htab]
      exact handFrame_owned hi
    exact ⟨_, _, hcall, iff_of_true rfl hhanded, fun h => absurd hhanded h⟩
  · exact absurd hown (hfree i hi)

/-- What the HAL refuses is reported as sent. -/
theorem not_faithful_of_refused (hsem : s.Semaphore created)
    (h : p.frame.length = 0 ∨ s.heth.Lock = .HAL_LOCKED)
    (hfree : ∀ i, i < bufcount p.frame.length →
      ¬ s.heth.DMATxDscrTab.has (onward s.heth.TxDesc i) ETH_DMATXDESC_OWN) :
    ¬ Faithful created p s := by
  rintro ⟨errval, s', hcall, hiff, -⟩
  rcases low_level_output_cases p hsem with ⟨-, Tx_Buff, -, -, hcall'⟩ | ⟨⟨i, hi, hown⟩, -⟩
  · rw [hcall'] at hcall
    cases hcall
    obtain ⟨hpos, hall⟩ := hiff.mp rfl
    have hlock : s.heth.Lock = .HAL_LOCKED := h.resolve_left (by omega)
    obtain ⟨hfirst, hgone⟩ := hall 0 (bufcount_pos _)
    rw [HAL_ETH_TransmitFrame_locked hlock] at hgone
    obtain ⟨htab, -⟩ := s.heth.resumeTx_same ETH_DMASR_TUS
    have hsame : ¬ (s.heth.resumeTx ETH_DMASR_TUS).DMATxDscrTab.has
        (onward s.heth.TxDesc 0) ETH_DMATXDESC_OWN := by
      rwa [htab]
    exact hsame hgone
  · exact absurd hown (hfree i hi)

/-- Without memory for the semaphore nothing is reported at all. -/
theorem Faithful.semaphore (h : Faithful created p s) : s.Semaphore created := by
  obtain ⟨errval, s', hcall, -⟩ := h
  by_contra hnot
  rw [low_level_output_null p hnot] at hcall
  cases hcall

end Result

/-- **When the result is faithful**: where there is a semaphore, and the copy loop gives up or the
HAL takes the frame. -/
theorem result_faithful_iff (created : Bool) (p : PbufChain) (s : Driver) :
    Faithful created p s ↔ s.Semaphore created ∧
      ((∃ i, i < bufcount p.frame.length ∧
        s.heth.DMATxDscrTab.has (onward s.heth.TxDesc i) ETH_DMATXDESC_OWN) ∨
      0 < p.frame.length ∧ s.heth.Lock = .HAL_UNLOCKED) := by
  constructor
  · intro h
    refine ⟨h.semaphore, ?_⟩
    by_contra hnot
    rw [not_or] at hnot
    obtain ⟨hnone, hnot⟩ := hnot
    refine not_faithful_of_refused h.semaphore ?_ (fun i hi hown => hnone ⟨i, hi, hown⟩) h
    rcases Nat.eq_zero_or_pos p.frame.length with hzero | hpos
    · exact .inl hzero
    · cases hlock : s.heth.Lock with
      | HAL_UNLOCKED => exact absurd ⟨hpos, hlock⟩ hnot
      | HAL_LOCKED => exact .inr rfl
  · rintro ⟨hsem, hown | ⟨hpos, hlock⟩⟩
    · exact faithful_of_owned hsem hown
    · by_cases hown : ∃ i, i < bufcount p.frame.length ∧
          s.heth.DMATxDscrTab.has (onward s.heth.TxDesc i) ETH_DMATXDESC_OWN
      · exact faithful_of_owned hsem hown
      · exact faithful_of_accepted hsem hpos hlock fun i hi h => hown ⟨i, hi, h⟩

/-- An empty frame is `HAL_ERROR` and a frame while the handle is locked is `HAL_BUSY`: `ERR_OK`,
and nothing sent. -/
theorem refused_frames_reported_sent :
    ¬ Faithful true ⟨[], by decide⟩ (firstCall 0) ∧
      ¬ Faithful true ⟨[[1]], by decide⟩
        { firstCall 0 with heth := { (firstCall 0).heth with Lock := .HAL_LOCKED } } :=
  ⟨not_faithful_of_refused (fun _ => rfl) (.inl rfl) (by decide),
    not_faithful_of_refused (fun _ => rfl) (.inr rfl) (by decide)⟩

end EthIo.Eth
