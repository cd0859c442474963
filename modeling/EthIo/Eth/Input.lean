import EthIo.Eth.Hal

/-!
# `low_level_input`

A received frame lies in the buffers of consecutive descriptors, 1524 bytes in each but the last.
`low_level_input` copies it into a chain of pbufs from the pool, cut at other places, and gives the
descriptors back, whether there was a chain or not.

`Gathering.At` is where the copy stands in the ring, `gather_spec` what it has copied there, and
`release_desc` what giving back does. `gather_exact` joins them. A pbuf from the pool holds whatever
it held before; `pbuf_alloc` is the chain it returns, or `none`.
-/

namespace EthIo.Eth

open EthIo.Base EthIo.Config EthIo.Uart

/-! ## The copy -/

/-- One `memcpy` out of a buffer: which, and which of its bytes. -/
structure BufferRead where
  buffer : Fin ETH_RXBUFNB
  offset : Nat
  count : Nat
  deriving DecidableEq, Repr

/-- The locals of the copy that one pbuf hands on to the next, with the reads made so far. -/
structure Gathering where
  bufferoffset : Nat
  dmarxdesc : Fin ETH_RXBUFNB
  buffer : Fin ETH_RXBUFNB
  reads : List BufferRead
  deriving DecidableEq, Repr

/-- `memcpy` to the offset `o` of a payload. -/
def overwrite (payload : List UInt8) (o : Nat) (bytes : List UInt8) : List UInt8 :=
  payload.take o ++ bytes ++ payload.drop (o + bytes.length)

/-- The copy into one pbuf, from the head of the `while` loop on. -/
def gatherPbuf (tab : DescTab ETH_RXBUFNB) (Rx_Buff : Fin ETH_RXBUFNB → Mem)
    (payload : List UInt8) (byteslefttocopy payloadoffset : Nat) (g : Gathering) :
    List UInt8 × Gathering :=
  if _h : byteslefttocopy + g.bufferoffset > ETH_RX_BUF_SIZE then
    let count := ETH_RX_BUF_SIZE - g.bufferoffset
    let dmarxdesc := (tab.desc g.dmarxdesc).Buffer2NextDescAddr
    gatherPbuf tab Rx_Buff
      (overwrite payload payloadoffset ((Rx_Buff g.buffer).read g.bufferoffset count))
      (byteslefttocopy - count) (payloadoffset + count)
      { bufferoffset := 0
        dmarxdesc := dmarxdesc
        buffer := (tab.desc dmarxdesc).Buffer1Addr
        reads := g.reads ++ [⟨g.buffer, g.bufferoffset, count⟩] }
  else
    (overwrite payload payloadoffset ((Rx_Buff g.buffer).read g.bufferoffset byteslefttocopy),
      { g with
        bufferoffset := g.bufferoffset + byteslefttocopy
        reads := g.reads ++ [⟨g.buffer, g.bufferoffset, byteslefttocopy⟩] })
termination_by byteslefttocopy + g.bufferoffset
decreasing_by
  have hsize : ETH_RX_BUF_SIZE = 1524 := rfl
  omega

/-- `for(q = p; q != NULL; q = q->next)`, over the payloads of a chain. -/
def gather (tab : DescTab ETH_RXBUFNB) (Rx_Buff : Fin ETH_RXBUFNB → Mem) :
    List (List UInt8) → Gathering → List (List UInt8) × Gathering
  | [], g => ([], g)
  | payload :: rest, g =>
    let filled := gatherPbuf tab Rx_Buff payload payload.length 0 g
    let others := gather tab Rx_Buff rest filled.2
    (filled.1 :: others.1, others.2)

/-- The locals before the first pbuf. -/
def Gathering.start (heth : ETH_HandleTypeDef) : Gathering where
  bufferoffset := 0
  dmarxdesc := heth.RxFrameInfos.FSRxDesc
  buffer := heth.RxFrameInfos.buffer
  reads := []

/-- The loop that sets `OWN`, with the rounds that are left. -/
def release : Nat → Fin ETH_RXBUFNB → DescTab ETH_RXBUFNB → DescTab ETH_RXBUFNB
  | 0, _, tab => tab
  | left + 1, dmarxdesc, tab =>
    let d := tab.desc dmarxdesc
    release left d.Buffer2NextDescAddr
      (tab.write dmarxdesc (d.Status ||| ETH_DMARXDESC_OWN) d.ControlBufferSize)

/-- `RBUS` cleared by writing it, if it is set, and reception resumed. -/
def ETH_HandleTypeDef.resumeRx (heth : ETH_HandleTypeDef) : ETH_HandleTypeDef :=
  if heth.DMASR &&& ETH_DMASR_RBUS ≠ 0 then
    { heth with DMASR := heth.DMASR &&& ~~~ETH_DMASR_RBUS, DMARPDR := heth.DMARPDR + 1 }
  else heth

/-- What follows the copy: the descriptors of the frame back to the DMA, the segments counted from
0 again. -/
def ETH_HandleTypeDef.releaseFrame (heth : ETH_HandleTypeDef) : ETH_HandleTypeDef :=
  ETH_HandleTypeDef.resumeRx
    { heth with
      DMARxDscrTab :=
        release heth.RxFrameInfos.SegCount heth.RxFrameInfos.FSRxDesc heth.DMARxDscrTab
      RxFrameInfos := { heth.RxFrameInfos with SegCount := 0 } }

/-- What `low_level_input` returns and leaves, with the reads it made. -/
structure Received where
  p : Option (List (List UInt8))
  heth : ETH_HandleTypeDef
  reads : List BufferRead

/-- `low_level_input`. -/
def low_level_input (heth : ETH_HandleTypeDef) (Rx_Buff : Fin ETH_RXBUFNB → Mem)
    (pbuf_alloc : Option (List (List UInt8))) : Received :=
  let got := HAL_ETH_GetReceivedFrame heth
  let heth := got.2
  if got.1 ≠ .HAL_OK then { p := none, heth := heth, reads := [] }
  else
    let len := heth.RxFrameInfos.length.toUInt16
    let p := if len > 0 then pbuf_alloc else none
    let copied := p.map fun chain => gather heth.DMARxDscrTab Rx_Buff chain (Gathering.start heth)
    { p := copied.map Prod.fst
      heth := heth.releaseFrame
      reads := (copied.map fun c => c.2.reads).getD [] }

/-! ## Where the copy stands -/

section Copy

variable (tab : DescTab ETH_RXBUFNB) (Rx_Buff : Fin ETH_RXBUFNB → Mem) {x : Fin ETH_RXBUFNB}
  {L : Nat}

/-- A read that stays inside its buffer, which is one of those `L` bytes need. -/
def BufferRead.Inside (x : Fin ETH_RXBUFNB) (L : Nat) (r : BufferRead) : Prop :=
  ∃ d, (0 < d → d * ETH_RX_BUF_SIZE < L) ∧ r.buffer = onward x d ∧
    r.offset + r.count ≤ ETH_RX_BUF_SIZE

/-- **Where the copy stands**: `t` bytes of the frame read, from the buffers from `x` on, and no
further than a frame of `L` bytes needs. -/
structure Gathering.At (g : Gathering) (x : Fin ETH_RXBUFNB) (L t : Nat) : Prop where
  place : ∃ d, g.dmarxdesc = onward x d ∧ g.buffer = onward x d ∧
    t = d * ETH_RX_BUF_SIZE + g.bufferoffset ∧ (0 < d → d * ETH_RX_BUF_SIZE < L)
  offset : g.bufferoffset ≤ ETH_RX_BUF_SIZE
  reads : ∀ r ∈ g.reads, r.Inside x L

namespace Gathering.At

variable {Rx_Buff} {g : Gathering} {t : Nat}

/-- What is read from where the copy stands is the next of the frame. -/
theorem read (hat : g.At x L t) {count : Nat} (h : g.bufferoffset + count ≤ ETH_RX_BUF_SIZE) :
    (Rx_Buff g.buffer).read g.bufferoffset count = flow Rx_Buff x ETH_RX_BUF_SIZE t count := by
  obtain ⟨⟨d, -, hbuffer, rfl, -⟩, -, -⟩ := hat
  rw [hbuffer, flow_cell Rx_Buff x h]

/-- One more read, inside the buffer the copy stands in. -/
theorem reads_concat (hat : g.At x L t) (count : Nat)
    (h : g.bufferoffset + count ≤ ETH_RX_BUF_SIZE) :
    ∀ r ∈ g.reads ++ [⟨g.buffer, g.bufferoffset, count⟩], r.Inside x L := by
  obtain ⟨⟨d, -, hbuffer, -, hneeded⟩, -, hreads⟩ := hat
  intro r hr
  rcases List.mem_append.mp hr with hr | hr
  · exact hreads r hr
  · obtain rfl := List.mem_singleton.mp hr
    exact ⟨d, hneeded, hbuffer, h⟩

/-- A read up to the end of the buffer, of a frame that goes on behind it. -/
theorem fill (hat : g.At x L t) (hmore : t + (ETH_RX_BUF_SIZE - g.bufferoffset) < L) :
    Gathering.At
      { bufferoffset := 0
        dmarxdesc := (tab.desc g.dmarxdesc).Buffer2NextDescAddr
        buffer := (tab.desc (tab.desc g.dmarxdesc).Buffer2NextDescAddr).Buffer1Addr
        reads := g.reads ++ [⟨g.buffer, g.bufferoffset, ETH_RX_BUF_SIZE - g.bufferoffset⟩] }
      x L (t + (ETH_RX_BUF_SIZE - g.bufferoffset)) := by
  have hoffset := hat.offset
  have hreads := hat.reads_concat (ETH_RX_BUF_SIZE - g.bufferoffset) (by omega)
  obtain ⟨⟨d, hdesc, hbuffer, rfl, hneeded⟩, -, -⟩ := hat
  have hnext : (tab.desc g.dmarxdesc).Buffer2NextDescAddr = onward x (d + 1) := by
    rw [tab.chained, hdesc, onward_onward]
  have hwhole : d * ETH_RX_BUF_SIZE + g.bufferoffset + (ETH_RX_BUF_SIZE - g.bufferoffset) =
      (d + 1) * ETH_RX_BUF_SIZE := by
    rw [Nat.succ_mul]
    omega
  refine ⟨⟨d + 1, hnext, ?_, ?_, fun _ => ?_⟩, Nat.zero_le _, hreads⟩
  · rw [tab.buffer, hnext]
  · exact hwhole.trans (Nat.add_zero _).symm
  · rw [← hwhole]
    exact hmore

/-- A read that leaves the copy in its buffer. -/
theorem rest (hat : g.At x L t) {count : Nat} (h : g.bufferoffset + count ≤ ETH_RX_BUF_SIZE) :
    Gathering.At
      { g with
        bufferoffset := g.bufferoffset + count
        reads := g.reads ++ [⟨g.buffer, g.bufferoffset, count⟩] } x L (t + count) := by
  have hreads := hat.reads_concat count h
  obtain ⟨⟨d, hdesc, hbuffer, rfl, hneeded⟩, -, -⟩ := hat
  exact ⟨⟨d, hdesc, hbuffer, Nat.add_assoc _ _ _, hneeded⟩, h, hreads⟩

end Gathering.At

theorem overwrite_take {payload bytes : List UInt8} {o k : Nat} (hk : bytes.length = k)
    (h : o + k ≤ payload.length) :
    (overwrite payload o bytes).take (o + k) = payload.take o ++ bytes := by
  have hlen : (payload.take o ++ bytes).length = o + k := by
    rw [List.length_append, List.length_take]
    omega
  rw [overwrite, List.take_left' hlen]

theorem overwrite_length {payload bytes : List UInt8} {o k : Nat} (hk : bytes.length = k)
    (h : o + k ≤ payload.length) : (overwrite payload o bytes).length = payload.length := by
  simp only [overwrite, List.length_append, List.length_take, List.length_drop]
  omega

/-- **One pbuf is filled** from where it stands to its end, with the next bytes of the frame. -/
theorem gatherPbuf_spec (payload : List UInt8) (byteslefttocopy payloadoffset : Nat)
    (g : Gathering) :
    ∀ t, g.At x L t → payloadoffset + byteslefttocopy = payload.length → t + byteslefttocopy ≤ L →
      (gatherPbuf tab Rx_Buff payload byteslefttocopy payloadoffset g).1 =
        payload.take payloadoffset ++ flow Rx_Buff x ETH_RX_BUF_SIZE t byteslefttocopy ∧
      (gatherPbuf tab Rx_Buff payload byteslefttocopy payloadoffset g).2.At x L
        (t + byteslefttocopy) := by
  induction payload, byteslefttocopy, payloadoffset, g using gatherPbuf.induct tab Rx_Buff with
  | case1 payload byteslefttocopy payloadoffset g hfull count dmarxdesc ih =>
    intro t hat hpayload hmore
    have hoffset := hat.offset
    have hcount : count = ETH_RX_BUF_SIZE - g.bufferoffset := rfl
    have hsplit : count + (byteslefttocopy - count) = byteslefttocopy := by omega
    have hlen : ((Rx_Buff g.buffer).read g.bufferoffset count).length = count :=
      Mem.read_length _ _ _
    have hfits : payloadoffset + count ≤ payload.length := by omega
    obtain ⟨hfilled, hend⟩ := ih (t + count) (hat.fill tab (by omega))
      (by rw [overwrite_length hlen hfits]; omega) (by omega)
    rw [Nat.add_assoc, hsplit] at hend
    rw [gatherPbuf, dif_pos hfull]
    refine ⟨hfilled.trans ?_, hend⟩
    rw [overwrite_take hlen hfits, hat.read (by omega), List.append_assoc, ← flow_append, hsplit]
  | case2 payload byteslefttocopy payloadoffset g hfits =>
    intro t hat hpayload hmore
    have hinside : g.bufferoffset + byteslefttocopy ≤ ETH_RX_BUF_SIZE := by omega
    rw [gatherPbuf, dif_neg hfits]
    refine ⟨?_, hat.rest hinside⟩
    simp only [overwrite, hat.read hinside, flow_length, hpayload, List.drop_length,
      List.append_nil]

/-- **The chain is filled**, each pbuf whole, with the frame from where the copy stands. -/
theorem gather_spec (chain : List (List UInt8)) (g : Gathering) {t : Nat} (hat : g.At x L t)
    (hmore : t + chain.flatten.length ≤ L) :
    (gather tab Rx_Buff chain g).1.flatten =
        flow Rx_Buff x ETH_RX_BUF_SIZE t chain.flatten.length ∧
      (gather tab Rx_Buff chain g).1.map List.length = chain.map List.length ∧
      ∀ r ∈ (gather tab Rx_Buff chain g).2.reads, r.Inside x L := by
  induction chain generalizing g t with
  | nil => exact ⟨rfl, rfl, hat.reads⟩
  | cons payload rest ih =>
    rw [List.flatten_cons, List.length_append] at hmore
    obtain ⟨hfilled, hat'⟩ := gatherPbuf_spec tab Rx_Buff payload payload.length 0 g t hat
      (Nat.zero_add _) (by omega)
    rw [List.take_zero, List.nil_append] at hfilled
    obtain ⟨hothers, hlengths, hreads⟩ := ih _ hat' (by omega)
    refine ⟨?_, ?_, hreads⟩
    · rw [gather, List.flatten_cons, hfilled, hothers, List.flatten_cons, List.length_append,
        flow_append]
    · rw [gather, List.map_cons, hfilled, flow_length, hlengths, List.map_cons]

end Copy

/-! ## Giving back -/

/-- The descriptors the loop meets are the DMA's, their other bits as they were. -/
theorem release_desc (k : Nat) (x y : Fin ETH_RXBUFNB) (tab : DescTab ETH_RXBUFNB) :
    (release k x tab).desc y = if ∃ i, i < k ∧ y = onward x i then
      { tab.desc y with Status := (tab.desc y).Status ||| ETH_DMARXDESC_OWN }
      else tab.desc y := by
  induction k generalizing x tab with
  | zero =>
    rw [release, if_neg]
    rintro ⟨i, hi, -⟩
    exact absurd hi (Nat.not_lt_zero i)
  | succ k ih =>
    have hor (w : UInt32) : (w ||| ETH_DMARXDESC_OWN) ||| ETH_DMARXDESC_OWN =
        w ||| ETH_DMARXDESC_OWN := by rw [UInt32.or_assoc, UInt32.or_self]
    have hrest : (∃ i, i < k ∧ y = onward (onward x 1) i) →
        ∃ i, i < k + 1 ∧ y = onward x i := by
      rintro ⟨i, hi, rfl⟩
      exact ⟨1 + i, by omega, onward_onward x 1 i⟩
    rw [release, tab.chained, ih]
    by_cases hy : y = x
    · -- met in the first round, and perhaps again
      subst hy
      rw [if_pos (⟨0, Nat.succ_pos k, (onward_zero y).symm⟩ : ∃ i, i < k + 1 ∧ y = onward y i),
        DescTab.write_self]
      split_ifs
      · rw [hor]
      · rfl
    · rw [DescTab.write_of_ne _ _ _ hy]
      split_ifs with h h' h'
      · rfl
      · exact absurd (hrest h) h'
      · obtain ⟨i, hi, hyi⟩ := h'
        cases i with
        | zero => exact absurd (hyi.trans (onward_zero x)) hy
        | succ i =>
          refine absurd ⟨i, by omega, ?_⟩ h
          rw [hyi, onward_onward, Nat.add_comm]
      · rfl

theorem ETH_HandleTypeDef.resumeRx_same (heth : ETH_HandleTypeDef) :
    heth.resumeRx.DMARxDscrTab = heth.DMARxDscrTab ∧ heth.resumeRx.RxDesc = heth.RxDesc ∧
      heth.resumeRx.RxFrameInfos = heth.RxFrameInfos ∧ heth.resumeRx.Lock = heth.Lock := by
  unfold ETH_HandleTypeDef.resumeRx
  split_ifs
  all_goals exact ⟨rfl, rfl, rfl, rfl⟩

/-! ## The whole function -/

/-- A frame that is there: the table is as it was, and the frame begins in the buffer of its first
descriptor. -/
theorem HAL_ETH_GetReceivedFrame_ok {heth got : ETH_HandleTypeDef}
    (h : HAL_ETH_GetReceivedFrame heth = (.HAL_OK, got)) :
    got.DMARxDscrTab = heth.DMARxDscrTab ∧ 1 ≤ got.RxFrameInfos.SegCount ∧
      got.RxFrameInfos.buffer = got.RxFrameInfos.FSRxDesc := by
  unfold HAL_ETH_GetReceivedFrame at h
  simp only at h
  split_ifs at h <;> cases h
  all_goals exact ⟨rfl, Nat.succ_pos _, heth.DMARxDscrTab.buffer _⟩

/-- **What `low_level_input` does with a frame** of `SegCount` descriptors from `FSRxDesc` on. -/
structure Gathered (heth got : ETH_HandleTypeDef) (Rx_Buff : Fin ETH_RXBUFNB → Mem)
    (pbuf_alloc : Option (List (List UInt8))) (r : Received) : Prop where
  null : got.RxFrameInfos.length = 0 ∨ pbuf_alloc = none → r.p = none
  payload : got.RxFrameInfos.length ≠ 0 → ∀ chain, pbuf_alloc = some chain →
    ∃ p, r.p = some p ∧ p.map List.length = chain.map List.length ∧
      p.flatten = ((List.range got.RxFrameInfos.SegCount).map fun i =>
        (Rx_Buff (onward got.RxFrameInfos.FSRxDesc i)).read 0 ETH_RX_BUF_SIZE).flatten.take
          got.RxFrameInfos.length.toNat
  reads : ∀ read ∈ r.reads, ∃ i, i < got.RxFrameInfos.SegCount ∧
    read.buffer = onward got.RxFrameInfos.FSRxDesc i ∧ read.offset + read.count ≤ ETH_RX_BUF_SIZE
  released : ∀ i, i < got.RxFrameInfos.SegCount →
    r.heth.DMARxDscrTab.desc (onward got.RxFrameInfos.FSRxDesc i) =
      { heth.DMARxDscrTab.desc (onward got.RxFrameInfos.FSRxDesc i) with
        Status := (heth.DMARxDscrTab.desc (onward got.RxFrameInfos.FSRxDesc i)).Status |||
          ETH_DMARXDESC_OWN }
  others : ∀ x, (∀ i, i < got.RxFrameInfos.SegCount → x ≠ onward got.RxFrameInfos.FSRxDesc i) →
    r.heth.DMARxDscrTab.desc x = heth.DMARxDscrTab.desc x
  SegCount : r.heth.RxFrameInfos.SegCount = 0

/-- The copy of a frame into a chain that is as long as it. -/
theorem gather_frame (heth : ETH_HandleTypeDef) (Rx_Buff : Fin ETH_RXBUFNB → Mem)
    (chain : List (List UInt8))
    (hbuffer : heth.RxFrameInfos.buffer = heth.RxFrameInfos.FSRxDesc)
    (hfits : chain.flatten.length ≤ heth.RxFrameInfos.SegCount * ETH_RX_BUF_SIZE)
    (hone : 1 ≤ heth.RxFrameInfos.SegCount) :
    let copied := gather heth.DMARxDscrTab Rx_Buff chain (Gathering.start heth)
    copied.1.flatten = ((List.range heth.RxFrameInfos.SegCount).map fun i =>
        (Rx_Buff (onward heth.RxFrameInfos.FSRxDesc i)).read 0 ETH_RX_BUF_SIZE).flatten.take
          chain.flatten.length ∧
      copied.1.map List.length = chain.map List.length ∧
      ∀ read ∈ copied.2.reads, ∃ i, i < heth.RxFrameInfos.SegCount ∧
        read.buffer = onward heth.RxFrameInfos.FSRxDesc i ∧
          read.offset + read.count ≤ ETH_RX_BUF_SIZE := by
  have hstart : (Gathering.start heth).At heth.RxFrameInfos.FSRxDesc chain.flatten.length 0 := by
    refine ⟨⟨0, (onward_zero _).symm, ?_, (Nat.zero_mul _).symm,
      fun h => absurd h (Nat.lt_irrefl 0)⟩, Nat.zero_le _, fun _ h => absurd h List.not_mem_nil⟩
    rw [onward_zero]
    exact hbuffer
  obtain ⟨hcontents, hlengths, hreads⟩ :=
    gather_spec heth.DMARxDscrTab Rx_Buff chain _ hstart (Nat.le_of_eq (Nat.zero_add _))
  have hcells := flow_cells Rx_Buff heth.RxFrameInfos.FSRxDesc (k := heth.RxFrameInfos.SegCount)
    (Nat.zero_le ETH_RX_BUF_SIZE)
  have hnone (m : Mem) : m.read 0 0 = [] := rfl
  rw [hnone, List.append_nil, Nat.add_zero] at hcells
  refine ⟨?_, hlengths, ?_⟩
  · rw [hcontents, hcells, flow_take _ _ _ _ hfits]
  · intro read hread
    obtain ⟨d, hneeded, hbuf, hin⟩ := hreads read hread
    refine ⟨d, ?_, hbuf, hin⟩
    rcases Nat.eq_zero_or_pos d with rfl | hd
    · exact hone
    · exact Nat.lt_of_mul_lt_mul_right ((hneeded hd).trans_le hfits)

/-- Giving a frame back: its descriptors are the DMA's, the others as they were, and none is
counted any more. -/
theorem ETH_HandleTypeDef.releaseFrame_spec (heth : ETH_HandleTypeDef) :
    heth.releaseFrame.DMARxDscrTab =
        release heth.RxFrameInfos.SegCount heth.RxFrameInfos.FSRxDesc heth.DMARxDscrTab ∧
      heth.releaseFrame.RxDesc = heth.RxDesc ∧ heth.releaseFrame.RxFrameInfos.SegCount = 0 := by
  obtain ⟨htab, hrx, hinfos, -⟩ := ETH_HandleTypeDef.resumeRx_same
    { heth with
      DMARxDscrTab :=
        release heth.RxFrameInfos.SegCount heth.RxFrameInfos.FSRxDesc heth.DMARxDscrTab
      RxFrameInfos := { heth.RxFrameInfos with SegCount := 0 } }
  unfold ETH_HandleTypeDef.releaseFrame
  rw [htab, hrx, hinfos]
  exact ⟨rfl, rfl, rfl⟩

/-- The test of the length, which is cut to 16 bits, where 16 bits are enough. -/
theorem toUInt16_pos_iff {length : UInt32} (hlt : length.toNat < 65536) :
    0 < length.toUInt16 ↔ length ≠ 0 := by
  have hnat : length.toUInt16.toNat = length.toNat := by
    rw [UInt32.toNat_toUInt16]
    exact Nat.mod_eq_of_lt hlt
  rw [UInt16.lt_iff_toNat_lt, hnat, Ne, ← UInt32.toNat_inj]
  exact Nat.pos_iff_ne_zero

/-- A frame that is there is copied if it is not empty and there is a chain, and given back. -/
theorem low_level_input_ok {heth got : ETH_HandleTypeDef} (Rx_Buff : Fin ETH_RXBUFNB → Mem)
    (pbuf_alloc : Option (List (List UInt8)))
    (hgot : HAL_ETH_GetReceivedFrame heth = (.HAL_OK, got))
    (hlt : got.RxFrameInfos.length.toNat < 65536) :
    low_level_input heth Rx_Buff pbuf_alloc =
      let copied := (if got.RxFrameInfos.length ≠ 0 then pbuf_alloc else none).map fun chain =>
        gather got.DMARxDscrTab Rx_Buff chain (Gathering.start got)
      { p := copied.map Prod.fst
        heth := got.releaseFrame
        reads := (copied.map fun c => c.2.reads).getD [] } := by
  simp only [low_level_input, hgot, ne_eq, not_true_eq_false, if_false, gt_iff_lt,
    toUInt16_pos_iff hlt]

/-- **RX gather.** For every chain of the pool, and for none. -/
theorem gather_exact {heth got : ETH_HandleTypeDef} (Rx_Buff : Fin ETH_RXBUFNB → Mem)
    (pbuf_alloc : Option (List (List UInt8)))
    (hgot : HAL_ETH_GetReceivedFrame heth = (.HAL_OK, got))
    (hfits : got.RxFrameInfos.length.toNat ≤ got.RxFrameInfos.SegCount * ETH_RX_BUF_SIZE)
    (hlt : got.RxFrameInfos.length.toNat < 65536)
    (halloc : ∀ chain, pbuf_alloc = some chain →
      chain.flatten.length = got.RxFrameInfos.length.toNat) :
    Gathered heth got Rx_Buff pbuf_alloc (low_level_input heth Rx_Buff pbuf_alloc) := by
  obtain ⟨htab, hone, hbuffer⟩ := HAL_ETH_GetReceivedFrame_ok hgot
  obtain ⟨hreleased, -, hcount⟩ := got.releaseFrame_spec
  have hframe (chain : List (List UInt8)) (hchain : pbuf_alloc = some chain) :=
    gather_frame got Rx_Buff chain hbuffer (by rwa [halloc chain hchain]) hone
  rw [low_level_input_ok Rx_Buff pbuf_alloc hgot hlt]
  refine ⟨?_, ?_, ?_, ?_, ?_, hcount⟩
  · rintro (hzero | hnone)
    · rw [if_neg (not_not.mpr hzero)]
      rfl
    · simp only [hnone, ite_self, Option.map_none]
  · intro hne chain hchain
    obtain ⟨hcontents, hlengths, -⟩ := hframe chain hchain
    refine ⟨_, ?_, hlengths, ?_⟩
    · simp only [if_pos hne, hchain, Option.map_some]
    · rw [hcontents, halloc chain hchain]
  · intro read hread
    rcases hchain : pbuf_alloc with _ | chain
    · simp only [hchain, ite_self, Option.map_none, Option.getD_none] at hread
      exact absurd hread List.not_mem_nil
    · by_cases hne : got.RxFrameInfos.length ≠ 0
      · simp only [if_pos hne, hchain, Option.map_some, Option.getD_some] at hread
        exact (hframe chain hchain).2.2 read hread
      · simp only [if_neg hne, Option.map_none, Option.getD_none] at hread
        exact absurd hread List.not_mem_nil
  · intro i hi
    show got.releaseFrame.DMARxDscrTab.desc _ = _
    rw [hreleased, release_desc, if_pos ⟨i, hi, rfl⟩, htab]
  · intro x hx
    show got.releaseFrame.DMARxDscrTab.desc _ = _
    rw [hreleased, release_desc, if_neg, htab]
    rintro ⟨i, hi, h⟩
    exact hx i hi h

/-- A frame of two descriptors has been received, in the last of the table and the first, and the
task is at the second of them. -/
def twoSegments : ETH_HandleTypeDef :=
  { Bsp_Eth_Init 0 with
    RxFrameInfos := { FSRxDesc := 7, LSRxDesc := none, SegCount := 1, length := 0, buffer := 7 }
    DMARxDscrTab :=
      ((HAL_ETH_DMARxDescListInit true).write 7 ETH_DMARXDESC_FS 0).write 0
        (ETH_DMARXDESC_LS ||| (1530 : UInt32) <<< ETH_DMARXDESC_FRAMELENGTHSHIFT) 0 }

/-- A chain of the pool for it, of one pbuf of 1516 bytes and one of 10. -/
theorem gather_exact_two_segments :
    Gathered twoSegments (HAL_ETH_GetReceivedFrame twoSegments).2 (fun _ _ => 0)
      (some [List.replicate 1516 0, List.replicate 10 0])
      (low_level_input twoSegments (fun _ _ => 0)
        (some [List.replicate 1516 0, List.replicate 10 0])) := by
  refine gather_exact (fun _ _ => 0) _ (by rfl) (by decide) (by decide) ?_
  rintro chain h
  cases h
  simp only [List.flatten_cons, List.length_append, List.length_replicate, List.flatten_nil,
    List.length_nil]
  rfl

end EthIo.Eth
