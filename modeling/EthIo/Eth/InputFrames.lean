import Mathlib.Data.List.Forall2
import EthIo.Base.Framing
import EthIo.Eth.InputTask

/-!
# Frames from the wire to `netif->input`

`reception` again, with what goes in and what comes out of it written down: each segment the DMA
closes, what each call of `low_level_input` makes of the frame it takes, and each frame
`netif->input` is called with. `frames` cuts the segments into frames, with what the DMA said of
them alone.

`reception_in_order` holds of every interleaving of the DMA, the interrupt and the task. The frames
taken are the first of those the DMA has completed, in their order, each with its own bytes; the
segments of the others are in the ring as the DMA wrote them; and a frame that was copied is handed
on, once. So a frame is dropped only where there was no pbuf for it, or where it was empty.

What is assumed of the DMA is that a frame fits the ring and that its length fits its segments
(`Admits`), and of `pbuf_alloc` that a chain it returns has the length asked for. A frame that does
not fit the ring is never complete (`Stuck`).
-/

namespace EthIo.Eth

open EthIo.Base EthIo.Config EthIo.Uart EthIo.Client

/-! ## What the DMA has written -/

/-- A descriptor the DMA has closed, with its buffer. -/
structure RxSegment where
  Status : UInt32
  bytes : Mem

/-- The last of its frame. -/
def RxSegment.last (g : RxSegment) : Bool := !opens g.Status

/-- The frames in a list of segments, and the segments of the one that is open. -/
def frames (wire : List RxSegment) : List (List RxSegment) × List RxSegment :=
  cut RxSegment.last wire

theorem frames_open {g : RxSegment} (h : opens g.Status = true) (wire : List RxSegment) :
    frames (wire ++ [g]) = ((frames wire).1, (frames wire).2 ++ [g]) :=
  cut_snoc_open (congrArg Bool.not h)

theorem frames_last {g : RxSegment} (h : opens g.Status = false) (wire : List RxSegment) :
    frames (wire ++ [g]) = ((frames wire).1 ++ [(frames wire).2 ++ [g]], []) :=
  cut_snoc_last (congrArg Bool.not h)

/-- The length of a frame that its last status gives, without the checksum. -/
def framelength (f : List RxSegment) : UInt32 :=
  (((f.getLast?.map RxSegment.Status).getD 0 &&& ETH_DMARXDESC_FL) >>>
    ETH_DMARXDESC_FRAMELENGTHSHIFT) - 4

/-- The bytes of a frame. -/
def contents (f : List RxSegment) : List UInt8 :=
  (f.map fun g => g.bytes.read 0 ETH_RX_BUF_SIZE).flatten.take (framelength f).toNat

/-- The segments of a frame are as long as it. -/
def Fits (f : List RxSegment) : Prop := (framelength f).toNat ≤ f.length * ETH_RX_BUF_SIZE

instance (f : List RxSegment) : Decidable (Fits f) := inferInstanceAs (Decidable (_ ≤ _))

/-- What stands at a descriptor of the ring. -/
def RxState.segment (s : RxState) (y : Fin ETH_RXBUFNB) : RxSegment :=
  ⟨(s.heth.DMARxDscrTab.desc y).Status, s.Rx_Buff y⟩

/-! ## What is written down -/

/-- The segments the DMA has closed; for each frame taken out of the ring, whether there was a chain
for it and what was copied; and the calls of `netif->input`. -/
structure RxHistory where
  wire : List RxSegment
  taken : List (Bool × Option (List UInt8))
  offered : List (List UInt8 × err_t)

/-- Nothing has happened. -/
def RxHistory.start : RxHistory := ⟨[], [], []⟩

/-- A step, written down. -/
def RxHistory.record (s : RxState) : RxLabel → RxHistory → RxHistory
  | .receive Status bytes, h => { h with wire := h.wire ++ [⟨Status, bytes⟩] }
  | .low_level_input pbuf_alloc, h =>
    if (HAL_ETH_GetReceivedFrame s.heth).1 = .HAL_OK then
      { h with
        taken := h.taken ++ [(pbuf_alloc.isSome,
          (EthIo.Eth.low_level_input s.heth s.Rx_Buff pbuf_alloc).p.map List.flatten)] }
    else h
  | .input errval, h =>
    { h with
      offered := h.offered ++ (s.task.p.map fun p => (p.flatten, errval)).toList }
  | _, h => h

/-- `reception`, written down. -/
def recording : Machine (RxState × RxHistory) RxLabel := reception.observe RxHistory.record

/-- What the DMA closes is part of a frame that fits the ring, and what `pbuf_alloc` returns is as
long as it was told. -/
def Admits (s : RxState × RxHistory) : RxLabel → Prop
  | .receive Status bytes =>
    (opens Status = true → (frames s.2.wire).2.length + 1 < ETH_RXBUFNB) ∧
      (opens Status = false → Fits ((frames s.2.wire).2 ++ [RxSegment.mk Status bytes]))
  | .low_level_input pbuf_alloc =>
    ∀ chain ∈ pbuf_alloc, (HAL_ETH_GetReceivedFrame s.1.heth).1 = .HAL_OK →
      chain.flatten.length =
        (HAL_ETH_GetReceivedFrame s.1.heth).2.RxFrameInfos.length.toUInt16.toNat
  | _ => True

instance : ∀ (s : RxState × RxHistory) (a : RxLabel), Decidable (Admits s a)
  | s, .receive Status bytes =>
    inferInstanceAs (Decidable
      ((opens Status = true → (frames s.2.wire).2.length + 1 < ETH_RXBUFNB) ∧
        (opens Status = false → Fits ((frames s.2.wire).2 ++ [RxSegment.mk Status bytes]))))
  | s, .low_level_input pbuf_alloc =>
    inferInstanceAs (Decidable (∀ chain ∈ pbuf_alloc,
      (HAL_ETH_GetReceivedFrame s.1.heth).1 = .HAL_OK → chain.flatten.length =
        (HAL_ETH_GetReceivedFrame s.1.heth).2.RxFrameInfos.length.toUInt16.toNat))
  | _, .unavailable | _, .lock _ | _, .HAL_ETH_RxCpltCallback | _, .clearRS | _, .xSemaphoreTake
  | _, .taskENTER_CRITICAL | _, .taskEXIT_CRITICAL | _, .input _ | _, .tryTake =>
    inferInstanceAs (Decidable True)

/-! ## What is to be shown -/

/-- What becomes of a frame: it is copied, unless it is empty or there is no chain. -/
def Handled (f : List RxSegment) (t : Bool × Option (List UInt8)) : Prop :=
  t.2 = if t.1 ∧ framelength f ≠ 0 then some (contents f) else none

/-- **The ring holds these segments** and no others, from `x` on. -/
structure InRing (s : RxState) (x : Fin ETH_RXBUFNB) (l : List RxSegment) : Prop where
  le : l.length ≤ ETH_RXBUFNB
  own : ∀ i, i < ETH_RXBUFNB →
    (s.heth.DMARxDscrTab.has (onward x i) ETH_DMARXDESC_OWN ↔ l.length ≤ i)
  cells : ∀ i, i < l.length → l[i]? = some (s.segment (onward x i))

/-- A frame that has been copied and not yet been handed on. -/
def Task.pending (t : Task) : List (List UInt8) :=
  if t.pc = .leaving ∨ t.pc = .enteringInput ∨ t.pc = .inputting then
    (t.p.map List.flatten).toList
  else []

/-- **Frames go through in order**: those taken are the first; the others are in the ring, from the
first of the `SegCount` descriptors that `HAL_ETH_GetReceivedFrame` has passed; and what is copied
is handed on. -/
structure InOrder (s : RxState × RxHistory) : Prop where
  taken : List.Forall₂ Handled ((frames s.2.wire).1.take s.2.taken.length) s.2.taken
  ring : ∃ x, s.1.heth.RxDesc = onward x s.1.heth.RxFrameInfos.SegCount ∧ InRing s.1 x
    (((frames s.2.wire).1.drop s.2.taken.length).flatten ++ (frames s.2.wire).2)
  drained : ¬ CompleteFrame s.1.heth.DMARxDscrTab →
    s.2.taken.length = (frames s.2.wire).1.length
  offered : s.2.offered.map Prod.fst ++ s.1.task.pending = s.2.taken.filterMap Prod.snd

/-! ## The invariant -/

/-- What holds at any time: the ring holds the last `m` segments of the wire, of which those before
are whole frames, which have been taken. -/
structure Carried (s : RxState) (h : RxHistory) (x : Fin ETH_RXBUFNB) (n m : Nat) : Prop where
  filled : Filled s.heth s.current s.inFrame x m
  length : h.wire.length = n + m
  cells : ∀ i, i < m → h.wire[n + i]? = some (s.segment (onward x i))
  whole : (frames (h.wire.take n)).2 = []
  taken : List.Forall₂ Handled (frames (h.wire.take n)).1 h.taken
  fits : ∀ f ∈ (frames h.wire).1, Fits f
  room : (frames h.wire).2.length < ETH_RXBUFNB
  offered : h.offered.map Prod.fst ++ s.task.pending = h.taken.filterMap Prod.snd

/-- `Carried`, for some stretch of the ring. -/
def RxCarried (s : RxState × RxHistory) : Prop := ∃ x n m, Carried s.1 s.2 x n m

theorem rxCarried_start : RxCarried (rxStart, .start) := by
  rcases ringInv_init 0 with ⟨x, m, hfilled⟩ | hstuck
  · have hm : m = 0 := by
      by_contra hpos
      have hown := hfilled.own 0 (by decide)
      have hall : ∀ y, (Bsp_Eth_Init 0).DMARxDscrTab.has y ETH_DMARXDESC_OWN := by decide
      have := hown.mp (hall _)
      omega
    subst hm
    exact ⟨x, 0, 0, hfilled, rfl, fun i hi => absurd hi (Nat.not_lt_zero i), rfl, .nil,
      fun f hf => absurd hf List.not_mem_nil, by decide, rfl⟩
  · exact absurd (by decide) (hstuck 0).1

section Carried

variable {s : RxState} {h : RxHistory} {x : Fin ETH_RXBUFNB} {n m : Nat}

/-- The wire behind what has been taken. -/
theorem Carried.frames_eq (hc : Carried s h x n m) : frames h.wire =
    ((frames (h.wire.take n)).1 ++ (frames (h.wire.drop n)).1, (frames (h.wire.drop n)).2) := by
  have h := cut_append hc.whole (h.wire.drop n)
  rwa [List.take_append_drop] at h

theorem Carried.drop_length (hc : Carried s h x n m) : (h.wire.drop n).length = m := by
  rw [List.length_drop, hc.length, Nat.add_sub_cancel_left]

theorem RxSegment.last_eq {y : Fin ETH_RXBUFNB} :
    (s.segment y).last = true ↔ s.heth.DMARxDscrTab.has y ETH_DMARXDESC_LS := by
  rw [RxSegment.last, opens, Bool.not_eq_true', decide_eq_false_iff_not]
  rfl

/-- The segments behind what has been taken are those in the ring. -/
theorem Carried.drop_eq (hc : Carried s h x n m) :
    h.wire.drop n = (List.range m).map fun i => s.segment (onward x i) := by
  apply List.ext_getElem?
  intro i
  rcases Nat.lt_or_ge i m with hi | hi
  · rw [List.getElem?_drop, hc.cells i hi, List.getElem?_map, List.getElem?_range hi]
    rfl
  · rw [List.getElem?_eq_none (hc.drop_length.trans_le hi),
      List.getElem?_eq_none (by rwa [List.length_map, List.length_range])]

/-- **The invariant gives the order.** -/
theorem Carried.inOrder (hc : Carried s h x n m) : InOrder (s, h) := by
  have hframes := hc.frames_eq
  have hcount : h.taken.length = (frames (h.wire.take n)).1.length := hc.taken.length_eq.symm
  have hall : (frames (h.wire.drop n)).1.flatten ++ (frames (h.wire.drop n)).2 = h.wire.drop n :=
    cut_flatten _
  refine ⟨?_, ⟨x, hc.filled.RxDesc, ?_⟩, ?_, hc.offered⟩
  · rw [hframes, hcount, List.take_left]
    exact hc.taken
  · rw [hframes, hcount, List.drop_left, hall]
    have hlen := hc.drop_length
    refine ⟨hlen.trans_le hc.filled.le, ?_, ?_⟩
    · rw [hlen]
      exact hc.filled.own
    · intro i hi
      rw [hlen] at hi
      rw [List.getElem?_drop]
      exact hc.cells i hi
  · intro hnone
    rw [hframes, hcount, List.length_append]
    suffices (frames (h.wire.drop n)).1 = [] by rw [this]; rfl
    have hopen : ∀ g ∈ h.wire.drop n, g.last = false := by
      intro g hg
      rw [hc.drop_eq] at hg
      obtain ⟨i, hi, rfl⟩ := List.mem_map.mp hg
      have hi := List.mem_range.mp hi
      rw [← Bool.not_eq_true, RxSegment.last_eq]
      intro hlast
      apply hnone
      rw [hc.filled.complete_iff]
      refine ⟨i, ?_, hi, hlast⟩
      by_contra hpassed
      exact hc.filled.passed i (Nat.lt_of_not_le hpassed) hlast
    rw [frames, cut_of_open hopen]

end Carried

/-! ## What the DMA does -/

section Steps

variable {s s' : RxState} {h : RxHistory} {x : Fin ETH_RXBUFNB} {n m : Nat}

/-- The stretch does not depend on the rest of the handle. -/
theorem Filled.congr {heth heth' : ETH_HandleTypeDef} {current : Fin ETH_RXBUFNB}
    {inFrame : Bool} (h : Filled heth current inFrame x m)
    (htab : heth'.DMARxDscrTab = heth.DMARxDscrTab) (hrx : heth'.RxDesc = heth.RxDesc)
    (hinfos : heth'.RxFrameInfos = heth.RxFrameInfos) : Filled heth' current inFrame x m := by
  obtain ⟨hle, hsegs, hRxDesc, hcurrent, hown, hfs, hpassed, hfirst, hopen⟩ := h
  rw [← htab] at hown hfs hpassed hopen
  rw [← hinfos] at hsegs hRxDesc hpassed hfirst
  rw [← hrx] at hRxDesc
  exact ⟨hle, hsegs, hRxDesc, hcurrent, hown, hfs, hpassed, hfirst, hopen⟩

/-- A step that leaves the ring and the wire alone, and hands on what it takes out of `pending`. -/
theorem Carried.congr (hc : Carried s h x n m) (s' : RxState)
    (hfilled : Filled s'.heth s'.current s'.inFrame x m)
    (hcells : ∀ y, s'.segment y = s.segment y) (offered : List (List UInt8 × err_t))
    (hoffered : offered.map Prod.fst ++ s'.task.pending =
      h.offered.map Prod.fst ++ s.task.pending) :
    Carried s' { h with offered := offered } x n m where
  filled := hfilled
  length := hc.length
  cells i hi := by
    rw [hcells]
    exact hc.cells i hi
  whole := hc.whole
  taken := hc.taken
  fits := hc.fits
  room := hc.room
  offered := hoffered.trans hc.offered

/-- **The DMA closes a descriptor**, and the ring holds one segment more. -/
theorem Carried.receive {Status : UInt32} {bytes : Mem} (hc : Carried s h x n m)
    (hadmits : Admits (s, h) (.receive Status bytes))
    (hs : s.step (.receive Status bytes) = some s') :
    Carried s' { h with wire := h.wire ++ [⟨Status, bytes⟩] } x n (m + 1) := by
  simp only [RxState.step] at hs
  split_ifs at hs with hclose
  cases hs
  obtain ⟨hown, hcloses⟩ := hclose
  have hfilled := hc.filled.close hown hcloses
  have hlen := hc.length
  have hcurrent := hc.filled.current
  have htake (g : RxSegment) : (h.wire ++ [g]).take n = h.wire.take n :=
    List.take_append_of_le_length (by omega)
  refine ⟨?_, ?_, ?_, ?_, ?_, ?_, ?_, hc.offered⟩
  · rwa [← s.heth.DMARxDscrTab.chained] at hfilled
  · rw [List.length_append, List.length_singleton]
    omega
  · intro i hi
    rcases Nat.eq_or_lt_of_le (Nat.le_of_lt_succ hi) with rfl | hi'
    · rw [← hlen, List.getElem?_concat_length, ← hcurrent]
      simp only [RxState.segment, ETH_HandleTypeDef.close, DescTab.close, DescTab.write_self,
        Function.update_self]
    · have hne : onward x i ≠ s.current := by
        rw [hcurrent]
        intro heq
        have hle := hfilled.le
        exact absurd (onward_inj (by omega) (by omega) heq) hi'.ne
      rw [List.getElem?_append_left (by omega), hc.cells i hi']
      simp only [RxState.segment, ETH_HandleTypeDef.close, DescTab.close,
        DescTab.write_of_ne _ _ _ hne, Function.update_of_ne hne]
  · rw [htake]
    exact hc.whole
  · rw [htake]
    exact hc.taken
  · intro f hf
    cases hopens : opens Status with
    | true =>
      rw [frames_open hopens] at hf
      exact hc.fits f hf
    | false =>
      rw [frames_last hopens] at hf
      rcases List.mem_append.mp hf with hf | hf
      · exact hc.fits f hf
      · obtain rfl := List.mem_singleton.mp hf
        exact hadmits.2 hopens
  · cases hopens : opens Status with
    | true =>
      rw [frames_open hopens, List.length_append]
      exact hadmits.1 hopens
    | false =>
      rw [frames_last hopens]
      exact NeZero.pos ETH_RXBUFNB

/-! ## What the task does -/

/-- What `HAL_ETH_GetReceivedFrame` leaves with a last segment. -/
structure FrameEnd (heth got : ETH_HandleTypeDef) : Prop extends Segmented heth got where
  ok : HAL_ETH_GetReceivedFrame heth = (.HAL_OK, got)
  last : heth.DMARxDscrTab.has heth.RxDesc ETH_DMARXDESC_LS
  SegCount : got.RxFrameInfos.SegCount = heth.RxFrameInfos.SegCount + 1
  new : heth.RxFrameInfos.SegCount = 0 → got.RxFrameInfos.FSRxDesc = heth.RxDesc
  old : 0 < heth.RxFrameInfos.SegCount →
    got.RxFrameInfos.FSRxDesc = heth.RxFrameInfos.FSRxDesc

theorem FrameEnd.length {heth got : ETH_HandleTypeDef} (hend : FrameEnd heth got) :
    got.RxFrameInfos.length = (((heth.DMARxDscrTab.desc heth.RxDesc).Status &&& ETH_DMARXDESC_FL)
      >>> ETH_DMARXDESC_FRAMELENGTHSHIFT) - 4 := by
  have h := hend.ok
  unfold HAL_ETH_GetReceivedFrame at h
  simp only at h
  split_ifs at h <;> cases h
  all_goals rfl

/-- The segments of the frame the task is in, as far as it has come. -/
def RxState.upTo (s : RxState) (x : Fin ETH_RXBUFNB) : List RxSegment :=
  (List.range (s.heth.RxFrameInfos.SegCount + 1)).map fun i => s.segment (onward x i)

theorem RxState.upTo_length (s : RxState) (x : Fin ETH_RXBUFNB) :
    (s.upTo x).length = s.heth.RxFrameInfos.SegCount + 1 := by
  rw [upTo, List.length_map, List.length_range]

theorem RxState.upTo_eq (s : RxState) (x : Fin ETH_RXBUFNB) : s.upTo x =
    (List.range s.heth.RxFrameInfos.SegCount).map (fun i => s.segment (onward x i)) ++
      [s.segment (onward x s.heth.RxFrameInfos.SegCount)] := by
  rw [upTo, List.range_succ, List.map_append, List.map_singleton]

/-- The frame that ends where the task is, and the wire behind it. -/
theorem Carried.split (hc : Carried s h x n m) (hlt : s.heth.RxFrameInfos.SegCount < m)
    (hlast : s.heth.DMARxDscrTab.has s.heth.RxDesc ETH_DMARXDESC_LS) :
    frames (h.wire.take (n + (s.heth.RxFrameInfos.SegCount + 1))) =
      ((frames (h.wire.take n)).1 ++ [s.upTo x], []) ∧ Fits (s.upTo x) := by
  rw [hc.filled.RxDesc, ← RxSegment.last_eq] at hlast
  have hinit : ∀ g ∈ (List.range s.heth.RxFrameInfos.SegCount).map
      fun i => s.segment (onward x i), g.last = false := by
    intro g hg
    obtain ⟨i, hi, rfl⟩ := List.mem_map.mp hg
    rw [← Bool.not_eq_true, RxSegment.last_eq]
    exact hc.filled.passed i (List.mem_range.mp hi)
  have htake : (h.wire.drop n).take (s.heth.RxFrameInfos.SegCount + 1) = s.upTo x := by
    rw [hc.drop_eq, ← List.map_take, List.take_range, Nat.min_eq_left hlt, RxState.upTo]
  have hframe (k : List RxSegment) :
      frames (s.upTo x ++ k) = (s.upTo x :: (frames k).1, (frames k).2) := by
    rw [s.upTo_eq]
    exact cut_frame hinit hlast k
  constructor
  · have hone := hframe []
    rw [List.append_nil] at hone
    rw [List.take_add, htake]
    show cut _ _ = _
    rw [cut_append hc.whole]
    show ((frames _).1 ++ (frames (s.upTo x)).1, (frames (s.upTo x)).2) = _
    rw [hone]
    rfl
  · apply hc.fits
    have hdrop : h.wire.drop n =
        s.upTo x ++ (h.wire.drop n).drop (s.heth.RxFrameInfos.SegCount + 1) := by
      rw [← htake, List.take_append_drop]
    rw [hc.frames_eq, hdrop, hframe]
    exact List.mem_append_right _ List.mem_cons_self

/-- What is reported of the frame that ends where the task is. -/
theorem Carried.reported {got : ETH_HandleTypeDef} (hc : Carried s h x n m)
    (hlt : s.heth.RxFrameInfos.SegCount < m) (hend : FrameEnd s.heth got) :
    got.RxFrameInfos.FSRxDesc = x ∧ got.RxFrameInfos.length = framelength (s.upTo x) ∧
      got.RxFrameInfos.length.toNat ≤ got.RxFrameInfos.SegCount * ETH_RX_BUF_SIZE ∧
      got.RxFrameInfos.length.toNat < 65536 := by
  have hfits := (hc.split hlt hend.last).2
  have hlen : got.RxFrameInfos.length = framelength (s.upTo x) := by
    rw [hend.length, framelength, s.upTo_eq, List.getLast?_concat, hc.filled.RxDesc]
    rfl
  refine ⟨?_, hlen, ?_, ?_⟩
  · rcases Nat.eq_zero_or_pos s.heth.RxFrameInfos.SegCount with hzero | hpos
    · rw [hend.new hzero, hc.filled.RxDesc, hzero, onward_zero]
    · rw [hend.old hpos, hc.filled.FSRxDesc hpos]
  · rw [hlen, hend.SegCount, ← s.upTo_length x]
    exact hfits
  · have hle := hc.filled.le
    have hnb : ETH_RXBUFNB = 8 := rfl
    have hsize : ETH_RX_BUF_SIZE = 1524 := rfl
    rw [Fits, s.upTo_length, ← hlen, hsize] at hfits
    omega

/-- What is copied is what was on the wire. -/
theorem Carried.handled {got : ETH_HandleTypeDef} {pbuf_alloc : Option (List (List UInt8))}
    {r : Received} (hc : Carried s h x n m) (hlt : s.heth.RxFrameInfos.SegCount < m)
    (hend : FrameEnd s.heth got) (hgat : Gathered s.heth got s.Rx_Buff pbuf_alloc r) :
    Handled (s.upTo x) (pbuf_alloc.isSome, r.p.map List.flatten) := by
  obtain ⟨hstart, hlen, -, -⟩ := hc.reported hlt hend
  unfold Handled
  rcases hpbuf : pbuf_alloc with _ | chain
  · rw [hgat.null (.inr hpbuf)]
    rfl
  · rw [← hlen]
    by_cases hempty : got.RxFrameInfos.length = 0
    · rw [hgat.null (.inl hempty), if_neg fun h => h.2 hempty]
      rfl
    · obtain ⟨p, hp, -, hbytes⟩ := hgat.payload hempty chain hpbuf
      rw [hp, if_pos ⟨rfl, hempty⟩, contents, ← hlen, Option.map_some, hbytes, hstart,
        hend.SegCount, RxState.upTo, List.map_map]
      simp only [Function.comp_def, RxState.segment]

/-- **A frame is taken**: the next of the wire. -/
theorem Carried.takes {got : ETH_HandleTypeDef} {pbuf_alloc : Option (List (List UInt8))}
    {t : Task} (hc : Carried s h x n m) (hlt : s.heth.RxFrameInfos.SegCount < m)
    (hend : FrameEnd s.heth got)
    (hchain : ∀ chain, pbuf_alloc = some chain →
      chain.flatten.length = got.RxFrameInfos.length.toUInt16.toNat)
    (hidle : s.task.pending = [])
    (hbusy : t.pending =
      ((low_level_input s.heth s.Rx_Buff pbuf_alloc).p.map List.flatten).toList) :
    Carried { s with task := t, heth := (low_level_input s.heth s.Rx_Buff pbuf_alloc).heth }
      { h with
        taken := h.taken ++ [(pbuf_alloc.isSome,
          (low_level_input s.heth s.Rx_Buff pbuf_alloc).p.map List.flatten)] }
      (onward x (s.heth.RxFrameInfos.SegCount + 1))
      (n + (s.heth.RxFrameInfos.SegCount + 1)) (m - (s.heth.RxFrameInfos.SegCount + 1)) := by
  have hframes := (hc.split hlt hend.last).1
  obtain ⟨hstart, -, hsegs, hshort⟩ := hc.reported hlt hend
  have hle := hc.filled.le
  have hgat := gather_exact s.Rx_Buff pbuf_alloc hend.ok hsegs hshort fun chain h => by
    rw [hchain chain h, UInt32.toNat_toUInt16]
    exact Nat.mod_eq_of_lt hshort
  refine ⟨?_, ?_, ?_, ?_, ?_, hc.fits, hc.room, ?_⟩
  · obtain ⟨hreleased, hRxDesc, hzero⟩ := got.releaseFrame_spec
    rw [hend.SegCount, hstart, hend.table] at hreleased
    show Filled (low_level_input s.heth s.Rx_Buff pbuf_alloc).heth _ _ _ _
    rw [low_level_input_heth, hend.ok, if_pos rfl]
    exact hc.filled.give hreleased (hRxDesc.trans hend.RxDesc) hzero hlt hend.last
  · have hlength := hc.length
    show h.wire.length = _
    omega
  · intro i hi
    have hother := hgat.others (onward x (s.heth.RxFrameInfos.SegCount + 1 + i)) fun j hj heq => by
      rw [hend.SegCount] at hj
      rw [hstart] at heq
      have := onward_inj (by omega) (by omega) heq
      omega
    rw [Nat.add_assoc, hc.cells _ (by omega), onward_onward]
    simp only [RxState.segment, hother]
  · show (frames _).2 = []
    rw [hframes]
  · show List.Forall₂ Handled (frames _).1 _
    rw [hframes]
    exact List.rel_append hc.taken (.cons (hc.handled hlt hend hgat) .nil)
  · show h.offered.map Prod.fst ++ t.pending = _
    rw [List.filterMap_append, ← hc.offered, hidle, List.append_nil, hbusy]
    rfl

/-- In the stretch, `FS` stands at `RxDesc` just where no segment has been passed. -/
theorem Filled.first_iff {heth : ETH_HandleTypeDef} {current : Fin ETH_RXBUFNB} {inFrame : Bool}
    (h : Filled heth current inFrame x m) (hlt : heth.RxFrameInfos.SegCount < m) :
    heth.DMARxDscrTab.has heth.RxDesc ETH_DMARXDESC_FS ↔ heth.RxFrameInfos.SegCount = 0 := by
  constructor
  · intro hfs
    by_contra hne
    exact h.not_first hlt (Nat.pos_of_ne_zero hne) hfs
  · intro hzero
    rw [h.RxDesc, h.first _ hlt]
    exact .inl hzero

/-- A frame that fits the ring does not fill it before its last segment. -/
theorem Carried.lt_of_own (hc : Carried s h x n m)
    (hown : ¬ s.heth.DMARxDscrTab.has s.heth.RxDesc ETH_DMARXDESC_OWN) :
    s.heth.RxFrameInfos.SegCount < m := by
  rcases hc.filled.lt_or_stuck hown with hlt | hstuck
  · exact hlt
  · have hfull : ETH_RXBUFNB ≤ m := by
      by_contra hm
      have hm := Nat.lt_of_not_le hm
      exact (hstuck _).1 ((hc.filled.own m hm).mpr (Nat.le_refl m))
    have hopen : ∀ g ∈ h.wire.drop n, g.last = false := by
      intro g hg
      rw [hc.drop_eq] at hg
      obtain ⟨i, -, rfl⟩ := List.mem_map.mp hg
      rw [← Bool.not_eq_true, RxSegment.last_eq]
      exact (hstuck _).2
    have hroom := hc.room
    rw [hc.frames_eq, frames, frames, cut_of_open hopen, hc.drop_length] at hroom
    exact absurd hroom (Nat.not_lt_of_le hfull)

/-- A segment that is not the last is passed. -/
theorem Carried.passes {got : ETH_HandleTypeDef} (hc : Carried s h x n m)
    (hseg : Segmented s.heth got)
    (hmore : ¬ s.heth.DMARxDscrTab.has s.heth.RxDesc ETH_DMARXDESC_LS)
    (hcases : s.heth.DMARxDscrTab.has s.heth.RxDesc ETH_DMARXDESC_FS ∧
        got.RxFrameInfos.SegCount = 1 ∧ got.RxFrameInfos.FSRxDesc = s.heth.RxDesc ∨
      ¬ s.heth.DMARxDscrTab.has s.heth.RxDesc ETH_DMARXDESC_FS ∧
        got.RxFrameInfos.SegCount = s.heth.RxFrameInfos.SegCount + 1 ∧
        got.RxFrameInfos.FSRxDesc = s.heth.RxFrameInfos.FSRxDesc) :
    Filled got s.current s.inFrame x m := by
  have hlt := hc.lt_of_own hseg.own
  rw [hc.filled.first_iff hlt] at hcases
  rcases hcases with ⟨hzero, hone, hstart⟩ | ⟨hne, hcount, hstart⟩
  · apply hc.filled.pass hseg.table hseg.RxDesc ?_ ?_ hlt hmore
    · rw [hone, hzero]
    · rw [hstart, hc.filled.RxDesc, hzero, onward_zero]
  · apply hc.filled.pass hseg.table hseg.RxDesc hcount ?_ hlt hmore
    rw [hstart, hc.filled.FSRxDesc (Nat.pos_of_ne_zero hne)]

/-- What a call of the task does to the frame it holds. -/
theorem Task.step_pending {t t' : Task} {call : Call} (hs : t.step call = some t') :
    match call with
    | .low_level_input p => t.pending = [] ∧ t'.pending = (p.map List.flatten).toList
    | .input _ => t.pending = (t.p.map List.flatten).toList ∧ t'.pending = []
    | _ => t'.pending = t.pending := by
  cases call with
  | taskEXIT_CRITICAL =>
    simp only [step] at hs
    split_ifs at hs with hleaving hp hinput
    all_goals
      cases hs
      simp_all [pending]
  | xSemaphoreTake taken | tryTake taken | taskENTER_CRITICAL | low_level_input p | input errval =>
    simp only [step] at hs
    split_ifs at hs
    all_goals
      cases hs
      simp_all [pending]

theorem low_level_input_p {heth : ETH_HandleTypeDef} (Rx_Buff : Fin ETH_RXBUFNB → Mem)
    (pbuf_alloc : Option (List (List UInt8)))
    (h : (HAL_ETH_GetReceivedFrame heth).1 ≠ .HAL_OK) :
    (low_level_input heth Rx_Buff pbuf_alloc).p = none := by
  rw [low_level_input, if_pos h]

/-- **A call of `low_level_input`** takes the next frame of the wire, or none. -/
theorem Carried.input {pbuf_alloc : Option (List (List UInt8))} (hc : Carried s h x n m)
    (hadmits : Admits (s, h) (.low_level_input pbuf_alloc))
    (hs : s.step (.low_level_input pbuf_alloc) = some s') :
    RxCarried (s', RxHistory.record s (.low_level_input pbuf_alloc) h) := by
  obtain ⟨s₁, hcall, rfl⟩ := Option.map_eq_some_iff.mp hs
  obtain ⟨-, t, ht, rfl⟩ := RxState.call_eq_some.mp hcall
  obtain ⟨hidle, hbusy⟩ := Task.step_pending ht
  have hnothing {st : HAL_StatusTypeDef} {got : ETH_HandleTypeDef} (hst : st ≠ .HAL_OK)
      (hgot : HAL_ETH_GetReceivedFrame s.heth = (st, got))
      (hfilled : Filled got s.current s.inFrame x m)
      (htab : got.DMARxDscrTab = s.heth.DMARxDscrTab) :
      RxCarried
        ({ s with task := t, heth := (low_level_input s.heth s.Rx_Buff pbuf_alloc).heth },
          RxHistory.record s (.low_level_input pbuf_alloc) h) := by
    have hne : (HAL_ETH_GetReceivedFrame s.heth).1 ≠ .HAL_OK := by rwa [hgot]
    have hheth : (low_level_input s.heth s.Rx_Buff pbuf_alloc).heth = got := by
      rw [low_level_input_heth, if_neg hne, hgot]
    rw [low_level_input_p s.Rx_Buff pbuf_alloc hne] at hbusy
    rw [RxHistory.record, if_neg hne, hheth]
    refine ⟨x, n, m, hc.congr _ hfilled (fun y => ?_) h.offered ?_⟩
    · simp only [RxState.segment, htab]
    · rw [hidle, hbusy]
      rfl
  have hbusy_ne : HAL_StatusTypeDef.HAL_BUSY ≠ .HAL_OK := nofun
  have herror_ne : HAL_StatusTypeDef.HAL_ERROR ≠ .HAL_OK := nofun
  rcases HAL_ETH_GetReceivedFrame_cases s.heth with hgot | ⟨-, hgot⟩ | ⟨got, hseg, hgot⟩
  · exact hnothing hbusy_ne hgot hc.filled rfl
  · exact hnothing herror_ne hgot (hc.filled.congr rfl rfl rfl) rfl
  · rcases hgot with ⟨hlast, hgot, hcount, hnew, hold⟩ | ⟨hmore, hgot, hcases⟩
    · have hend : FrameEnd s.heth got := ⟨hseg, hgot, hlast, hcount, hnew, hold⟩
      rw [RxHistory.record, hgot, if_pos rfl]
      refine ⟨_, _, _, hc.takes (hc.lt_of_own hseg.own) hend (fun chain hchain => ?_) hidle hbusy⟩
      have hlen := hadmits chain hchain
      rw [hgot] at hlen
      exact hlen rfl
    · exact hnothing herror_ne hgot (hc.passes hseg hmore hcases) hseg.table

/-! ## Every interleaving -/

/-- **Every step keeps the invariant.** -/
theorem rxCarried_keep (s : RxState) (h : RxHistory) (a : RxLabel) (s' : RxState)
    (hI : RxCarried (s, h)) (hG : Admits (s, h) a) (hs : s.step a = some s') :
    RxCarried (s', RxHistory.record s a h) := by
  obtain ⟨x, n, m, hc⟩ := hI
  have hc : Carried s h x n m := hc
  have hcall {call : Call} {s₁ : RxState} (hs : s.call call = some s₁) :
      ∃ t, s.task.step call = some t ∧ s₁ = { s with task := t } :=
    (RxState.call_eq_some.mp hs).2
  have hsame (s' : RxState) (hfilled : Filled s'.heth s'.current s'.inFrame x m)
      (hcells : ∀ y, s'.segment y = s.segment y) (hpending : s'.task.pending = s.task.pending) :
      RxCarried (s', h) :=
    ⟨x, n, m, hc.congr s' hfilled hcells h.offered (congrArg _ hpending)⟩
  cases a with
  | receive Status bytes => exact ⟨x, n, m + 1, hc.receive hG hs⟩
  | low_level_input pbuf_alloc => exact hc.input hG hs
  | unavailable | clearRS =>
    simp only [RxState.step] at hs
    split_ifs at hs
    cases hs
    exact hsame _ (hc.filled.congr rfl rfl rfl) (fun _ => rfl) rfl
  | lock Lock =>
    cases hs
    exact hsame _ (hc.filled.congr rfl rfl rfl) (fun _ => rfl) rfl
  | HAL_ETH_RxCpltCallback =>
    simp only [RxState.step] at hs
    split_ifs at hs
    all_goals
      cases hs
      exact hsame _ hc.filled (fun _ => rfl) rfl
  | xSemaphoreTake =>
    simp only [RxState.step] at hs
    split_ifs at hs
    obtain ⟨s₁, hs₁, rfl⟩ := Option.map_eq_some_iff.mp hs
    obtain ⟨t, ht, rfl⟩ := hcall hs₁
    exact hsame _ hc.filled (fun _ => rfl) (Task.step_pending ht)
  | taskENTER_CRITICAL | taskEXIT_CRITICAL =>
    obtain ⟨t, ht, rfl⟩ := hcall hs
    exact hsame _ hc.filled (fun _ => rfl) (Task.step_pending ht)
  | tryTake =>
    obtain ⟨s₁, hs₁, rfl⟩ := Option.map_eq_some_iff.mp hs
    obtain ⟨t, ht, rfl⟩ := hcall hs₁
    exact hsame _ hc.filled (fun _ => rfl) (Task.step_pending ht)
  | input errval =>
    obtain ⟨t, ht, rfl⟩ := hcall hs
    obtain ⟨hbefore, hafter⟩ := Task.step_pending ht
    refine ⟨x, n, m, ?_⟩
    apply hc.congr { s with task := t } hc.filled fun _ => rfl
    rw [hafter, hbefore, List.append_nil, List.map_append]
    cases s.task.p <;> rfl

end Steps

/-- **Reception is in order**, in every interleaving. -/
theorem reception_in_order {ls : List RxLabel}
    (hadmits : recording.Guarded Admits (rxStart, .start) ls) :
    recording.Always InOrder (rxStart, .start) ls := by
  have hall := Machine.always_of_guarded (Machine.observe_rule rxCarried_keep) rxCarried_start
    hadmits
  apply hall.mono
  intro p hp
  obtain ⟨x, n, m, hc⟩ := hp
  exact hc.inOrder

/-- A frame in one segment and one in two, whose first is found before the second has come. -/
def twoFrames : List RxLabel :=
  .receive oneSegment (fun _ => 1) :: wakeUp ++
    [.receive ETH_DMARXDESC_FS (fun _ => 2), .low_level_input (some [List.replicate 60 0]),
      .taskEXIT_CRITICAL, .taskENTER_CRITICAL, .input ERR_OK, .tryTake, .low_level_input none,
      .taskEXIT_CRITICAL,
      .receive (ETH_DMARXDESC_LS ||| (1530 : UInt32) <<< ETH_DMARXDESC_FRAMELENGTHSHIFT)
        (fun _ => 3)] ++ wakeUp ++
    [.low_level_input (some [List.replicate 1516 0, List.replicate 10 0]), .taskEXIT_CRITICAL,
      .taskENTER_CRITICAL, .input ERR_OK]

theorem reception_in_order_two_frames :
    ((recording.exec (rxStart, .start) twoFrames).map fun p => p.2.offered.length) = some 2 ∧
      recording.Always InOrder (rxStart, .start) twoFrames :=
  ⟨rfl, reception_in_order (by decide +kernel)⟩

end EthIo.Eth
