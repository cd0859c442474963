import EthIo.Eth.Input

/-!
# The receive ring while frames arrive

The DMA closes the descriptors of the ring one after the other: it writes the status, which gives
the descriptor to the firmware, marks the first segment of a frame with `FS` and the last with `LS`,
and waits at a descriptor that is not its own. The task follows behind it with
`HAL_ETH_GetReceivedFrame`, and gives a frame back whole.

So the firmware's descriptors are a stretch of the ring: the segments the task has passed, which are
the beginning of one frame, then those it has not, up to where the DMA is (`Filled`). A frame longer
than the ring has no place in it: then all eight descriptors are the firmware's and the DMA never
comes to the last segment (`Stuck`). Every step of both sides keeps one or the other, and either way
a complete frame in the ring is one that lies ahead of `RxDesc` (`completeFrame_iff_ahead`).
-/

namespace EthIo.Eth

open EthIo.Base EthIo.Config EthIo.Uart

/-! ## The DMA -/

/-- The DMA closes a descriptor with this status. -/
def DescTab.close (tab : DescTab ETH_RXBUFNB) (current : Fin ETH_RXBUFNB) (Status : UInt32) :
    DescTab ETH_RXBUFNB :=
  tab.write current Status (tab.desc current).ControlBufferSize

/-- A status the DMA may close with: not its own any more, and `FS` just where no frame is open. -/
structure Closes (Status : UInt32) (inFrame : Bool) : Prop where
  own : Status &&& ETH_DMARXDESC_OWN = 0
  first : Status &&& ETH_DMARXDESC_FS ≠ 0 ↔ inFrame = false

instance (Status : UInt32) (inFrame : Bool) : Decidable (Closes Status inFrame) :=
  decidable_of_iff (Status &&& ETH_DMARXDESC_OWN = 0 ∧
    (Status &&& ETH_DMARXDESC_FS ≠ 0 ↔ inFrame = false))
    ⟨fun h => ⟨h.1, h.2⟩, fun h => ⟨h.own, h.first⟩⟩

/-- A frame is open behind this status. -/
def opens (Status : UInt32) : Bool := decide (Status &&& ETH_DMARXDESC_LS = 0)

/-! ## Frames in the ring -/

/-- **A complete frame**, the firmware's from its first segment to its last. -/
def CompleteFrame (tab : DescTab ETH_RXBUFNB) : Prop :=
  ∃ x k, k < ETH_RXBUFNB ∧ (∀ i, i ≤ k → ¬ tab.has (onward x i) ETH_DMARXDESC_OWN) ∧
    tab.has x ETH_DMARXDESC_FS ∧ tab.has (onward x k) ETH_DMARXDESC_LS

/-- A last segment that calls of `HAL_ETH_GetReceivedFrame` would come to. -/
def FrameAhead (heth : ETH_HandleTypeDef) : Prop :=
  ∃ k, k < ETH_RXBUFNB ∧
    (∀ i, i ≤ k → ¬ heth.DMARxDscrTab.has (onward heth.RxDesc i) ETH_DMARXDESC_OWN) ∧
    heth.DMARxDscrTab.has (onward heth.RxDesc k) ETH_DMARXDESC_LS

instance (heth : ETH_HandleTypeDef) : Decidable (FrameAhead heth) :=
  inferInstanceAs (Decidable (∃ k, k < ETH_RXBUFNB ∧ _))

/-- **The stretch of the ring that is the firmware's**: `m` descriptors from `x` on. -/
structure Filled (heth : ETH_HandleTypeDef) (current : Fin ETH_RXBUFNB) (inFrame : Bool)
    (x : Fin ETH_RXBUFNB) (m : Nat) : Prop where
  le : m ≤ ETH_RXBUFNB
  segs : heth.RxFrameInfos.SegCount ≤ m
  RxDesc : heth.RxDesc = onward x heth.RxFrameInfos.SegCount
  current : current = onward x m
  own : ∀ i, i < ETH_RXBUFNB →
    (heth.DMARxDscrTab.has (onward x i) ETH_DMARXDESC_OWN ↔ m ≤ i)
  first : ∀ i, i < m → (heth.DMARxDscrTab.has (onward x i) ETH_DMARXDESC_FS ↔
    i = 0 ∨ heth.DMARxDscrTab.has (onward x (i - 1)) ETH_DMARXDESC_LS)
  passed : ∀ i, i < heth.RxFrameInfos.SegCount →
    ¬ heth.DMARxDscrTab.has (onward x i) ETH_DMARXDESC_LS
  FSRxDesc : 0 < heth.RxFrameInfos.SegCount → heth.RxFrameInfos.FSRxDesc = x
  inFrame : inFrame = true ↔ 0 < m ∧ ¬ heth.DMARxDscrTab.has (onward x (m - 1)) ETH_DMARXDESC_LS

/-- The ring holds nothing but a part of one frame. -/
def Stuck (tab : DescTab ETH_RXBUFNB) : Prop :=
  ∀ x, ¬ tab.has x ETH_DMARXDESC_OWN ∧ ¬ tab.has x ETH_DMARXDESC_LS

/-- **What holds of the ring at any time.** -/
def RingInv (heth : ETH_HandleTypeDef) (current : Fin ETH_RXBUFNB) (inFrame : Bool) : Prop :=
  (∃ x m, Filled heth current inFrame x m) ∨ Stuck heth.DMARxDscrTab

/-- The ring as the list initialisation leaves it. -/
theorem ringInv_init (TxDesc : Fin ETH_TXBUFNB) : RingInv (Bsp_Eth_Init TxDesc) 0 false := by
  refine .inl ⟨0, 0, Nat.zero_le _, Nat.le_refl 0, rfl, rfl, fun i _ => ?_, ?_, ?_, ?_, ?_⟩
  · have hown : ETH_DMARXDESC_OWN &&& ETH_DMARXDESC_OWN ≠ 0 := by decide
    exact iff_of_true hown (Nat.zero_le i)
  · intro i hi
    exact absurd hi (Nat.not_lt_zero i)
  · intro i hi
    exact absurd hi (Nat.not_lt_zero i)
  · intro h
    exact absurd h (Nat.lt_irrefl 0)
  · exact iff_of_false (by decide) fun h => Nat.lt_irrefl 0 h.1

section Ring

variable {heth : ETH_HandleTypeDef} {current : Fin ETH_RXBUFNB} {inFrame : Bool}
  {x : Fin ETH_RXBUFNB} {m : Nat}

/-- A last segment among the descriptors the task has not passed. -/
theorem Filled.ahead_iff (h : Filled heth current inFrame x m) :
    FrameAhead heth ↔ ∃ j, heth.RxFrameInfos.SegCount ≤ j ∧ j < m ∧
      heth.DMARxDscrTab.has (onward x j) ETH_DMARXDESC_LS := by
  have hle := h.le
  constructor
  · rintro ⟨k, hk, hfree, hlast⟩
    rw [h.RxDesc, onward_onward] at hlast
    rcases Nat.lt_or_ge (heth.RxFrameInfos.SegCount + k) m with hlt | hge
    · exact ⟨_, Nat.le_add_right _ _, hlt, hlast⟩
    · -- the way there leads past the DMA, or round to what the task has passed
      have hsegs := h.segs
      rcases Nat.lt_or_ge m ETH_RXBUFNB with hm | hm
      · have hat := hfree (m - heth.RxFrameInfos.SegCount) (by omega)
        rw [h.RxDesc, onward_onward, Nat.add_sub_cancel' hsegs] at hat
        exact absurd ((h.own m hm).mpr (Nat.le_refl m)) hat
      · have hround : ETH_RXBUFNB ≤ heth.RxFrameInfos.SegCount + k := by omega
        rw [onward_turn x hround] at hlast
        exact absurd hlast (h.passed _ (by omega))
  · rintro ⟨j, hsegs, hj, hlast⟩
    refine ⟨j - heth.RxFrameInfos.SegCount, by omega, ?_, ?_⟩
    · intro i hi
      rw [h.RxDesc, onward_onward, h.own _ (by omega)]
      omega
    · rwa [h.RxDesc, onward_onward, Nat.add_sub_cancel' hsegs]

/-- The same of a frame anywhere in the ring. -/
theorem Filled.complete_iff (h : Filled heth current inFrame x m) :
    CompleteFrame heth.DMARxDscrTab ↔ ∃ j, heth.RxFrameInfos.SegCount ≤ j ∧ j < m ∧
      heth.DMARxDscrTab.has (onward x j) ETH_DMARXDESC_LS := by
  have hle := h.le
  constructor
  · rintro ⟨y, k, -, hfree, -, hlast⟩
    have hown := hfree k (Nat.le_refl k)
    have hgap := onward_gap x (onward y k)
    have hlt := gap_lt x (onward y k)
    rw [← hgap] at hown hlast
    rw [h.own _ hlt, Nat.not_le] at hown
    refine ⟨_, ?_, hown, hlast⟩
    by_contra hpassed
    exact h.passed _ (Nat.lt_of_not_le hpassed) hlast
  · rintro ⟨j, -, hj, hlast⟩
    refine ⟨x, j, by omega, ?_, ?_, hlast⟩
    · intro i hi
      rw [h.own i (by omega)]
      omega
    · have hfirst := (h.first 0 (by omega)).mpr (.inl rfl)
      rwa [onward_zero] at hfirst

/-- **A complete frame lies ahead of `RxDesc`.** -/
theorem completeFrame_iff_ahead (h : RingInv heth current inFrame) :
    CompleteFrame heth.DMARxDscrTab ↔ FrameAhead heth := by
  rcases h with ⟨x, m, h⟩ | h
  · rw [h.complete_iff, h.ahead_iff]
  · refine iff_of_false ?_ ?_
    · rintro ⟨y, k, -, -, -, hlast⟩
      exact (h _).2 hlast
    · rintro ⟨k, -, -, hlast⟩
      exact (h _).2 hlast

end Ring

/-! ## What the DMA does -/

section Closing

variable {heth : ETH_HandleTypeDef} {current : Fin ETH_RXBUFNB} {inFrame : Bool}
  {x : Fin ETH_RXBUFNB} {m : Nat} {Status : UInt32}

/-- The handle with a descriptor closed. -/
def ETH_HandleTypeDef.close (heth : ETH_HandleTypeDef) (current : Fin ETH_RXBUFNB)
    (Status : UInt32) : ETH_HandleTypeDef :=
  { heth with DMARxDscrTab := heth.DMARxDscrTab.close current Status }

theorem close_self (mask : UInt32) :
    (heth.close current Status).DMARxDscrTab.has current mask ↔ Status &&& mask ≠ 0 := by
  unfold ETH_HandleTypeDef.close DescTab.close DescTab.has
  rw [DescTab.write_self]

theorem close_of_ne {y : Fin ETH_RXBUFNB} (mask : UInt32) (h : y ≠ current) :
    (heth.close current Status).DMARxDscrTab.has y mask ↔ heth.DMARxDscrTab.has y mask := by
  unfold ETH_HandleTypeDef.close DescTab.close DescTab.has
  rw [DescTab.write_of_ne _ _ _ h]

/-- **The DMA closes its descriptor**, and the stretch is one longer. -/
theorem Filled.close (h : Filled heth current inFrame x m)
    (hown : heth.DMARxDscrTab.has current ETH_DMARXDESC_OWN) (hcloses : Closes Status inFrame) :
    Filled (heth.close current Status) (onward current 1) (opens Status) x (m + 1) := by
  have hle := h.le
  have hsegs := h.segs
  have hm : m < ETH_RXBUFNB := by
    apply Nat.lt_of_le_of_ne hle
    rintro rfl
    rw [h.current, onward_turn x (Nat.le_refl _), Nat.sub_self, h.own 0 (by decide)] at hown
    exact absurd hown (by decide)
  have hself (mask : UInt32) :
      (heth.close current Status).DMARxDscrTab.has (onward x m) mask ↔ Status &&& mask ≠ 0 := by
    rw [← h.current]
    exact close_self mask
  have hother {i : Nat} (hi : i < ETH_RXBUFNB) (hne : i ≠ m) (mask : UInt32) :
      (heth.close current Status).DMARxDscrTab.has (onward x i) mask ↔
        heth.DMARxDscrTab.has (onward x i) mask := by
    apply close_of_ne mask
    rw [h.current]
    exact fun heq => hne (onward_inj hi hm heq)
  refine ⟨hm, Nat.le_succ_of_le hsegs, h.RxDesc, ?_, ?_, ?_, ?_, h.FSRxDesc, ?_⟩
  · rw [h.current, onward_onward]
  · intro i hi
    by_cases hi' : i = m
    · rw [hi', hself]
      exact iff_of_false (not_not.mpr hcloses.own) (by omega)
    · rw [hother hi hi', h.own i hi]
      omega
  · intro i hi
    by_cases hi' : i = m
    · subst hi'
      rw [hself, hcloses.first]
      have hopen := h.inFrame
      rcases Nat.eq_zero_or_pos i with rfl | hpos
      · refine iff_of_true ?_ (.inl rfl)
        rw [← Bool.not_eq_true, hopen]
        exact fun h => Nat.lt_irrefl 0 h.1
      · rw [hother (by omega) (by omega), ← Bool.not_eq_true, hopen, not_and, not_not]
        exact ⟨fun h => .inr (h hpos), fun h _ => h.resolve_left hpos.ne'⟩
    · rw [hother (by omega) hi', hother (by omega) (by omega)]
      exact h.first i (by omega)
  · intro i hi
    have hi : i < heth.RxFrameInfos.SegCount := hi
    rw [hother (by omega) (by omega)]
    exact h.passed i hi
  · rw [Nat.add_sub_cancel, hself, opens, decide_eq_true_eq, not_not]
    exact ⟨fun h => ⟨Nat.succ_pos m, h⟩, fun h => h.2⟩

/-- A descriptor that the DMA closes is part of the stretch, or the ring is not its to fill. -/
theorem RingInv.close (h : RingInv heth current inFrame)
    (hown : heth.DMARxDscrTab.has current ETH_DMARXDESC_OWN) (hcloses : Closes Status inFrame) :
    RingInv (heth.close current Status) (onward current 1) (opens Status) := by
  rcases h with ⟨x, m, h⟩ | h
  · exact .inl ⟨x, m + 1, h.close hown hcloses⟩
  · exact absurd hown (h current).1

/-- Only a last segment makes a frame complete. -/
theorem RingInv.ahead_of_close (h : RingInv heth current inFrame)
    (hown : heth.DMARxDscrTab.has current ETH_DMARXDESC_OWN) (hcloses : Closes Status inFrame)
    (hlast : Status &&& ETH_DMARXDESC_LS = 0) (hahead : FrameAhead (heth.close current Status)) :
    FrameAhead heth := by
  rcases h with ⟨x, m, h⟩ | h
  · obtain ⟨j, hj, hlt, hls⟩ := (h.close hown hcloses).ahead_iff.mp hahead
    have hclosed := (h.close hown hcloses).le
    have hne : j ≠ m := by
      rintro rfl
      rw [← h.current, close_self] at hls
      exact hls hlast
    refine h.ahead_iff.mpr ⟨j, hj, by omega, ?_⟩
    rwa [close_of_ne] at hls
    rw [h.current]
    exact fun heq => hne (onward_inj (by omega) (by omega) heq)
  · exact absurd hown (h current).1

end Closing

/-! ## What the task does -/

/-- Giving back sets `OWN` and no other bit. -/
theorem release_has (k : Nat) (x y : Fin ETH_RXBUFNB) (tab : DescTab ETH_RXBUFNB) (mask : UInt32) :
    (release k x tab).has y mask ↔ tab.has y mask ∨
      (∃ i, i < k ∧ y = onward x i) ∧ ETH_DMARXDESC_OWN &&& mask ≠ 0 := by
  unfold DescTab.has
  rw [release_desc]
  split_ifs with h
  · rw [and_or_ne_zero_iff, and_iff_right h]
  · simp only [h, false_and, or_false]

/-- What `low_level_input` leaves of the handle. -/
theorem low_level_input_heth (heth : ETH_HandleTypeDef) (Rx_Buff : Fin ETH_RXBUFNB → Mem)
    (pbuf_alloc : Option (List (List UInt8))) :
    (low_level_input heth Rx_Buff pbuf_alloc).heth =
      if (HAL_ETH_GetReceivedFrame heth).1 = .HAL_OK then
        (HAL_ETH_GetReceivedFrame heth).2.releaseFrame
      else (HAL_ETH_GetReceivedFrame heth).2 := by
  unfold low_level_input
  simp only [ne_eq, ite_not]
  split_ifs <;> rfl

section Taking

variable {heth heth' : ETH_HandleTypeDef} {current : Fin ETH_RXBUFNB} {inFrame : Bool}
  {x : Fin ETH_RXBUFNB} {m : Nat}

/-- The task passes a segment that is not the last of its frame. -/
theorem Filled.pass (h : Filled heth current inFrame x m)
    (htab : heth'.DMARxDscrTab = heth.DMARxDscrTab) (hrx : heth'.RxDesc = onward heth.RxDesc 1)
    (hseg : heth'.RxFrameInfos.SegCount = heth.RxFrameInfos.SegCount + 1)
    (hfirst : heth'.RxFrameInfos.FSRxDesc = x) (hlt : heth.RxFrameInfos.SegCount < m)
    (hmore : ¬ heth.DMARxDscrTab.has heth.RxDesc ETH_DMARXDESC_LS) :
    Filled heth' current inFrame x m := by
  obtain ⟨hle, hsegs, hRxDesc, hcurrent, hown, hfs, hpassed, -, hopen⟩ := h
  rw [← htab] at hown hfs hpassed hopen hmore
  refine ⟨hle, by omega, ?_, hcurrent, hown, hfs, ?_, fun _ => hfirst, hopen⟩
  · rw [hrx, hRxDesc, onward_onward, hseg]
  · intro i hi
    rcases Nat.lt_or_ge i heth.RxFrameInfos.SegCount with hi' | hi'
    · exact hpassed i hi'
    · obtain rfl : i = heth.RxFrameInfos.SegCount := by omega
      rwa [← hRxDesc]

/-- The task gives back a frame whose last segment it has come to, with all it has passed. -/
theorem Filled.give (h : Filled heth current inFrame x m)
    (htab : heth'.DMARxDscrTab = release (heth.RxFrameInfos.SegCount + 1) x heth.DMARxDscrTab)
    (hrx : heth'.RxDesc = onward heth.RxDesc 1) (hseg : heth'.RxFrameInfos.SegCount = 0)
    (hlt : heth.RxFrameInfos.SegCount < m)
    (hlast : heth.DMARxDscrTab.has heth.RxDesc ETH_DMARXDESC_LS) :
    Filled heth' current inFrame (onward x (heth.RxFrameInfos.SegCount + 1))
      (m - (heth.RxFrameInfos.SegCount + 1)) := by
  obtain ⟨hle, hsegs, hRxDesc, hcurrent, hown, hfs, hpassed, -, hopen⟩ := h
  rw [hRxDesc] at hlast
  generalize heth.RxFrameInfos.SegCount = s at *
  have hsame (y : Fin ETH_RXBUFNB) {mask : UInt32} (hmask : ETH_DMARXDESC_OWN &&& mask = 0) :
      heth'.DMARxDscrTab.has y mask ↔ heth.DMARxDscrTab.has y mask := by
    rw [htab, release_has]
    exact or_iff_left fun h => h.2 hmask
  have hls (y : Fin ETH_RXBUFNB) :=
    hsame y (show ETH_DMARXDESC_OWN &&& ETH_DMARXDESC_LS = 0 from rfl)
  have hfs' (y : Fin ETH_RXBUFNB) :=
    hsame y (show ETH_DMARXDESC_OWN &&& ETH_DMARXDESC_FS = 0 from rfl)
  refine ⟨by omega, by omega, ?_, ?_, ?_, ?_, ?_, ?_, ?_⟩
  · rw [hrx, hRxDesc, onward_onward, hseg, onward_zero]
  · rw [onward_onward, Nat.add_sub_cancel' (by omega), hcurrent]
  · intro i hi
    rw [onward_onward, htab, release_has]
    rcases Nat.lt_or_ge (s + 1 + i) ETH_RXBUFNB with hi' | hi'
    · -- behind the frame: as before
      rw [hown _ hi', or_iff_left]
      · omega
      · rintro ⟨⟨j, hj, heq⟩, -⟩
        have := onward_inj hi' (by omega) heq
        omega
    · -- round the ring: one of those given back
      refine iff_of_true (.inr ⟨⟨s + 1 + i - ETH_RXBUFNB, by omega, ?_⟩, by decide⟩) (by omega)
      exact onward_turn x hi'
  · intro i hi
    rw [hfs', hls, onward_onward, hfs _ (by omega)]
    cases i with
    | zero => exact iff_of_true (.inr hlast) (.inl rfl)
    | succ i =>
      have hback : s + 1 + (i + 1) - 1 = s + 1 + i := by omega
      rw [hback, Nat.add_sub_cancel, onward_onward]
      exact or_congr_left (iff_of_false (by omega) (by omega))
  · intro i hi
    rw [hseg] at hi
    exact absurd hi (Nat.not_lt_zero i)
  · intro hpos
    rw [hseg] at hpos
    exact absurd hpos (Nat.lt_irrefl 0)
  · rw [hopen, hls]
    rcases Nat.eq_or_lt_of_le hlt with heq | hmore
    · -- the frame was the last, so none is open
      obtain rfl : m = s + 1 := heq.symm
      refine iff_of_false (fun h => h.2 ?_) (fun h => by omega)
      rwa [Nat.add_sub_cancel]
    · have hback : s + 1 + (m - (s + 1) - 1) = m - 1 := by omega
      rw [onward_onward, hback]
      exact and_congr_left fun _ => ⟨fun _ => by omega, fun _ => by omega⟩

end Taking

/-! ### A call of `low_level_input` -/

/-- A call of `HAL_ETH_GetReceivedFrame` that comes to a segment: what it is for is left to the
caller, but `RxDesc` moves on. -/
structure Segmented (heth got : ETH_HandleTypeDef) : Prop where
  own : ¬ heth.DMARxDscrTab.has heth.RxDesc ETH_DMARXDESC_OWN
  table : got.DMARxDscrTab = heth.DMARxDscrTab
  RxDesc : got.RxDesc = onward heth.RxDesc 1

/-- **The outcomes of `HAL_ETH_GetReceivedFrame`**: busy, nothing there, a last segment, a first one
that is not, and one in between. -/
theorem HAL_ETH_GetReceivedFrame_cases (heth : ETH_HandleTypeDef) :
    HAL_ETH_GetReceivedFrame heth = (.HAL_BUSY, heth) ∨
    heth.DMARxDscrTab.has heth.RxDesc ETH_DMARXDESC_OWN ∧
      HAL_ETH_GetReceivedFrame heth = (.HAL_ERROR, { heth with Lock := .HAL_UNLOCKED }) ∨
    ∃ got, Segmented heth got ∧
      (heth.DMARxDscrTab.has heth.RxDesc ETH_DMARXDESC_LS ∧
          HAL_ETH_GetReceivedFrame heth = (.HAL_OK, got) ∧
          got.RxFrameInfos.SegCount = heth.RxFrameInfos.SegCount + 1 ∧
          (heth.RxFrameInfos.SegCount = 0 → got.RxFrameInfos.FSRxDesc = heth.RxDesc) ∧
          (0 < heth.RxFrameInfos.SegCount →
            got.RxFrameInfos.FSRxDesc = heth.RxFrameInfos.FSRxDesc) ∨
        ¬ heth.DMARxDscrTab.has heth.RxDesc ETH_DMARXDESC_LS ∧
          HAL_ETH_GetReceivedFrame heth = (.HAL_ERROR, got) ∧
          (heth.DMARxDscrTab.has heth.RxDesc ETH_DMARXDESC_FS ∧
              got.RxFrameInfos.SegCount = 1 ∧ got.RxFrameInfos.FSRxDesc = heth.RxDesc ∨
            ¬ heth.DMARxDscrTab.has heth.RxDesc ETH_DMARXDESC_FS ∧
              got.RxFrameInfos.SegCount = heth.RxFrameInfos.SegCount + 1 ∧
              got.RxFrameInfos.FSRxDesc = heth.RxFrameInfos.FSRxDesc)) := by
  have hnext := heth.DMARxDscrTab.chained heth.RxDesc
  unfold HAL_ETH_GetReceivedFrame
  simp only
  split_ifs with hlock hown hlast hone hfirst
  · exact .inl rfl
  · exact .inr (.inl ⟨hown, rfl⟩)
  · refine .inr (.inr ⟨_, ?_, .inl ⟨hlast, rfl, rfl, fun _ => rfl, fun hpos => ?_⟩⟩)
    · exact ⟨hown, rfl, hnext⟩
    · exact absurd hone (by omega)
  · refine .inr (.inr ⟨_, ?_, .inl ⟨hlast, rfl, rfl, fun hzero => ?_, fun _ => rfl⟩⟩)
    · exact ⟨hown, rfl, hnext⟩
    · exact absurd hzero (by omega)
  · refine .inr (.inr ⟨_, ?_, .inr ⟨hlast, rfl, .inl ⟨hfirst, rfl, rfl⟩⟩⟩)
    exact ⟨hown, rfl, hnext⟩
  · refine .inr (.inr ⟨_, ?_, .inr ⟨hlast, rfl, .inr ⟨hfirst, rfl, rfl⟩⟩⟩)
    exact ⟨hown, rfl, hnext⟩

section Input

variable {heth heth' : ETH_HandleTypeDef} {current : Fin ETH_RXBUFNB} {inFrame : Bool}

/-- The ring does not depend on the rest of the handle. -/
theorem RingInv.congr (h : RingInv heth current inFrame)
    (htab : heth'.DMARxDscrTab = heth.DMARxDscrTab) (hrx : heth'.RxDesc = heth.RxDesc)
    (hinfos : heth'.RxFrameInfos = heth.RxFrameInfos) : RingInv heth' current inFrame := by
  rcases h with ⟨x, m, h⟩ | h
  · obtain ⟨hle, hsegs, hRxDesc, hcurrent, hown, hfs, hpassed, hfirst, hopen⟩ := h
    rw [← htab] at hown hfs hpassed hopen
    rw [← hinfos] at hsegs hRxDesc hpassed hfirst
    rw [← hrx] at hRxDesc
    exact .inl ⟨x, m, hle, hsegs, hRxDesc, hcurrent, hown, hfs, hpassed, hfirst, hopen⟩
  · rw [← htab] at h
    exact .inr h

/-- In the stretch, a descriptor at `RxDesc` that is the firmware's is one the task has not passed,
unless one frame fills the whole ring. -/
theorem Filled.lt_or_stuck {x : Fin ETH_RXBUFNB} {m : Nat} (h : Filled heth current inFrame x m)
    (hown : ¬ heth.DMARxDscrTab.has heth.RxDesc ETH_DMARXDESC_OWN) :
    heth.RxFrameInfos.SegCount < m ∨ Stuck heth.DMARxDscrTab := by
  rcases Nat.lt_or_ge heth.RxFrameInfos.SegCount m with hlt | hge
  · exact .inl hlt
  · have heq : heth.RxFrameInfos.SegCount = m := Nat.le_antisymm h.segs hge
    have hfull : m = ETH_RXBUFNB := by
      by_contra hne
      have hm : m < ETH_RXBUFNB := Nat.lt_of_le_of_ne h.le hne
      rw [h.RxDesc, heq, h.own m hm] at hown
      exact hown (Nat.le_refl m)
    refine .inr fun y => ?_
    have hgap := onward_gap x y
    have hlt := gap_lt x y
    rw [← hgap, h.own _ hlt]
    exact ⟨by omega, h.passed _ (by omega)⟩

/-- The first segment of the stretch is where no segment has been passed. -/
theorem Filled.not_first {x : Fin ETH_RXBUFNB} {m : Nat} (h : Filled heth current inFrame x m)
    (hlt : heth.RxFrameInfos.SegCount < m) (hpos : 0 < heth.RxFrameInfos.SegCount) :
    ¬ heth.DMARxDscrTab.has heth.RxDesc ETH_DMARXDESC_FS := by
  rw [h.RxDesc, h.first _ hlt, not_or]
  exact ⟨hpos.ne', h.passed _ (by omega)⟩

/-- What the ring is where the task finds a descriptor of the firmware's. -/
theorem RingInv.found (h : RingInv heth current inFrame)
    (hown : ¬ heth.DMARxDscrTab.has heth.RxDesc ETH_DMARXDESC_OWN) :
    (∃ x m, Filled heth current inFrame x m ∧ heth.RxFrameInfos.SegCount < m) ∨
      Stuck heth.DMARxDscrTab := by
  rcases h with ⟨x, m, h⟩ | hstuck
  · rcases h.lt_or_stuck hown with hlt | hstuck
    · exact .inl ⟨x, m, h, hlt⟩
    · exact .inr hstuck
  · exact .inr hstuck

/-- The last segment: the frame is given back from where its first has been seen. -/
theorem Filled.takes {x : Fin ETH_RXBUFNB} {m : Nat} (h : Filled heth current inFrame x m)
    (hlt : heth.RxFrameInfos.SegCount < m) (hgot : Segmented heth heth')
    (hlast : heth.DMARxDscrTab.has heth.RxDesc ETH_DMARXDESC_LS)
    (hcount : heth'.RxFrameInfos.SegCount = heth.RxFrameInfos.SegCount + 1)
    (hnew : heth.RxFrameInfos.SegCount = 0 → heth'.RxFrameInfos.FSRxDesc = heth.RxDesc)
    (hold : 0 < heth.RxFrameInfos.SegCount →
      heth'.RxFrameInfos.FSRxDesc = heth.RxFrameInfos.FSRxDesc) :
    RingInv heth'.releaseFrame current inFrame := by
  have hstart : heth'.RxFrameInfos.FSRxDesc = x := by
    rcases Nat.eq_zero_or_pos heth.RxFrameInfos.SegCount with hzero | hpos
    · rw [hnew hzero, h.RxDesc, hzero, onward_zero]
    · rw [hold hpos, h.FSRxDesc hpos]
  obtain ⟨-, htab, hrx⟩ := hgot
  obtain ⟨hreleased, hRxDesc, hzero⟩ := heth'.releaseFrame_spec
  rw [hcount, hstart, htab] at hreleased
  exact .inl ⟨_, _, h.give hreleased (hRxDesc.trans hrx) hzero hlt hlast⟩

/-- Any other segment is passed, and is the first just where none has been. -/
theorem Filled.passes {x : Fin ETH_RXBUFNB} {m : Nat} (h : Filled heth current inFrame x m)
    (hlt : heth.RxFrameInfos.SegCount < m) (hgot : Segmented heth heth')
    (hmore : ¬ heth.DMARxDscrTab.has heth.RxDesc ETH_DMARXDESC_LS)
    (hcases : heth.DMARxDscrTab.has heth.RxDesc ETH_DMARXDESC_FS ∧
        heth'.RxFrameInfos.SegCount = 1 ∧ heth'.RxFrameInfos.FSRxDesc = heth.RxDesc ∨
      ¬ heth.DMARxDscrTab.has heth.RxDesc ETH_DMARXDESC_FS ∧
        heth'.RxFrameInfos.SegCount = heth.RxFrameInfos.SegCount + 1 ∧
        heth'.RxFrameInfos.FSRxDesc = heth.RxFrameInfos.FSRxDesc) :
    RingInv heth' current inFrame := by
  obtain ⟨-, htab, hrx⟩ := hgot
  rcases hcases with ⟨hfs, hone, hstart⟩ | ⟨hfs, hcount, hstart⟩
  · have hzero : heth.RxFrameInfos.SegCount = 0 := by
      by_contra hne
      exact h.not_first hlt (Nat.pos_of_ne_zero hne) hfs
    refine .inl ⟨x, m, h.pass htab hrx ?_ ?_ hlt hmore⟩
    · rw [hone, hzero]
    · rw [hstart, h.RxDesc, hzero, onward_zero]
  · have hpos : 0 < heth.RxFrameInfos.SegCount := by
      by_contra hzero
      have hzero : heth.RxFrameInfos.SegCount = 0 := by omega
      rw [h.RxDesc, h.first _ hlt] at hfs
      exact hfs (.inl hzero)
    exact .inl ⟨x, m, h.pass htab hrx hcount (hstart.trans (h.FSRxDesc hpos)) hlt hmore⟩

/-- **`low_level_input` keeps the ring.** -/
theorem RingInv.input (h : RingInv heth current inFrame) (Rx_Buff : Fin ETH_RXBUFNB → Mem)
    (pbuf_alloc : Option (List (List UInt8))) :
    RingInv (low_level_input heth Rx_Buff pbuf_alloc).heth current inFrame := by
  have hbusy : HAL_StatusTypeDef.HAL_BUSY ≠ .HAL_OK := nofun
  have herror : HAL_StatusTypeDef.HAL_ERROR ≠ .HAL_OK := nofun
  rw [low_level_input_heth]
  rcases HAL_ETH_GetReceivedFrame_cases heth with hgot | ⟨-, hgot⟩ | ⟨got, hseg, hgot⟩
  · rw [hgot, if_neg hbusy]
    exact h
  · rw [hgot, if_neg herror]
    exact h.congr rfl rfl rfl
  · have hfound := h.found hseg.own
    rcases hgot with ⟨hlast, hgot, hcount, hnew, hold⟩ | ⟨hmore, hgot, hcases⟩
    · rw [hgot, if_pos rfl]
      rcases hfound with ⟨x, m, h, hlt⟩ | hstuck
      · exact h.takes hlt hseg hlast hcount hnew hold
      · exact absurd hlast (hstuck _).2
    · rw [hgot, if_neg herror]
      rcases hfound with ⟨x, m, h, hlt⟩ | hstuck
      · exact h.passes hlt hseg hmore hcases
      · rw [← hseg.table] at hstuck
        exact .inr hstuck

end Input

end EthIo.Eth
