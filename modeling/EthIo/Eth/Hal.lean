import EthIo.Base.Ring
import EthIo.Config.I2cEe
import EthIo.Uart.Rearm

/-!
# The Ethernet DMA descriptors and the HAL

Two rings of eight descriptors, one for each direction, each with a buffer of 1524 bytes. A
descriptor belongs to the DMA while its `OWN` bit is set and to the firmware otherwise. The two list
initialisations chain them: buffer `i` to descriptor `i`, and each descriptor to the next. No other
function changes those two words, so a `DescTab` carries the chaining as a field and the functions
here write status and size words only.

`HAL_ETH_TransmitFrame` cuts a length into descriptors and hands them to the DMA
(`HAL_ETH_TransmitFrame_ok`); `HAL_ETH_GetReceivedFrame` takes one descriptor of a received frame at
a time, and reports the frame with its last one.

A buffer is what stands at each offset from its start. Frame lengths and segment counts are numbers:
lwIP bounds the one by `tot_len`, 16 bits, and the ring the other. Not modelled are `State`, which
nothing here reads, and the words of a descriptor that the MAC uses for time stamps.
-/

namespace EthIo.Eth

open EthIo.Base EthIo.Config EthIo.Uart

/-! ## The sizes and the bits -/

/-- `ETH_MAX_PACKET_SIZE`, the size of each buffer. -/
def ETH_MAX_PACKET_SIZE : Nat := 1524
def ETH_TX_BUF_SIZE : Nat := ETH_MAX_PACKET_SIZE
def ETH_RX_BUF_SIZE : Nat := ETH_MAX_PACKET_SIZE
def ETH_TXBUFNB : Nat := 8
def ETH_RXBUFNB : Nat := 8

instance : NeZero ETH_TXBUFNB := ⟨by decide⟩
instance : NeZero ETH_RXBUFNB := ⟨by decide⟩

def ETH_DMATXDESC_OWN : UInt32 := 0x80000000
def ETH_DMATXDESC_LS : UInt32 := 0x20000000
def ETH_DMATXDESC_FS : UInt32 := 0x10000000
def ETH_DMATXDESC_TCH : UInt32 := 0x00100000
def ETH_DMATXDESC_CHECKSUMTCPUDPICMPFULL : UInt32 := 0x00C00000
def ETH_DMATXDESC_TBS1 : UInt32 := 0x00001FFF

def ETH_DMARXDESC_OWN : UInt32 := 0x80000000
def ETH_DMARXDESC_FL : UInt32 := 0x3FFF0000
def ETH_DMARXDESC_FRAMELENGTHSHIFT : UInt32 := 16
def ETH_DMARXDESC_FS : UInt32 := 0x00000200
def ETH_DMARXDESC_LS : UInt32 := 0x00000100
def ETH_DMARXDESC_RCH : UInt32 := 0x00004000
def ETH_DMARXDESC_DIC : UInt32 := 0x80000000

def ETH_DMASR_TBUS : UInt32 := 0x00000004
def ETH_DMASR_TUS : UInt32 := 0x00000020
def ETH_DMASR_RBUS : UInt32 := 0x00000080

theorem and_or_ne_zero_iff (w m v : UInt32) :
    (w ||| v) &&& m ≠ 0 ↔ w &&& m ≠ 0 ∨ v &&& m ≠ 0 := by
  have hdistrib : (w ||| v) &&& m = (w &&& m) ||| (v &&& m) :=
    UInt32.toBitVec_inj.mp BitVec.and_or_distrib_right
  rw [hdistrib, Ne, UInt32.or_eq_zero_iff, not_and_or]

/-- Bits that are not in the mask make no difference under it. -/
theorem or_ne_zero_iff_of_apart {w m v : UInt32} (h : v &&& m = 0) :
    (w ||| v) &&& m ≠ 0 ↔ w &&& m ≠ 0 := by
  rw [and_or_ne_zero_iff]
  exact or_iff_left (not_not_intro h)

theorem or_own (w : UInt32) : (w ||| ETH_DMATXDESC_OWN) &&& ETH_DMATXDESC_OWN ≠ 0 :=
  (and_or_ne_zero_iff _ _ _).mpr (.inr (by decide))

/-! ## Descriptors -/

/-- `ETH_DMADescTypeDef`, with the buffer and the descriptor its two addresses point to. -/
structure ETH_DMADescTypeDef (n : Nat) where
  Status : UInt32
  ControlBufferSize : UInt32
  Buffer1Addr : Fin n
  Buffer2NextDescAddr : Fin n
  deriving DecidableEq, Repr

/-- A table of descriptors in chain mode. -/
structure DescTab (n : Nat) where
  desc : Fin n → ETH_DMADescTypeDef n
  buffer : ∀ i, (desc i).Buffer1Addr = i
  chained : ∀ i, (desc i).Buffer2NextDescAddr = onward i 1

namespace DescTab

variable {n : Nat}

/-- The two words of one descriptor written. -/
def write (tab : DescTab n) (i : Fin n) (Status ControlBufferSize : UInt32) : DescTab n where
  desc := Function.update tab.desc i
    { tab.desc i with Status := Status, ControlBufferSize := ControlBufferSize }
  buffer j := by
    by_cases h : j = i
    · subst h
      rw [Function.update_self]
      exact tab.buffer j
    · rw [Function.update_of_ne h]
      exact tab.buffer j
  chained j := by
    by_cases h : j = i
    · subst h
      rw [Function.update_self]
      exact tab.chained j
    · rw [Function.update_of_ne h]
      exact tab.chained j

/-- A bit of the mask is set in the status of a descriptor. -/
def has (tab : DescTab n) (i : Fin n) (mask : UInt32) : Prop := (tab.desc i).Status &&& mask ≠ 0

instance (tab : DescTab n) (i : Fin n) (mask : UInt32) : Decidable (tab.has i mask) :=
  inferInstanceAs (Decidable (_ ≠ _))

@[simp] theorem write_self (tab : DescTab n) (i : Fin n) (w z : UInt32) :
    (tab.write i w z).desc i = { tab.desc i with Status := w, ControlBufferSize := z } :=
  Function.update_self _ _ _

theorem write_of_ne (tab : DescTab n) {i j : Fin n} (w z : UInt32) (h : j ≠ i) :
    (tab.write i w z).desc j = tab.desc j :=
  Function.update_of_ne h _ _

end DescTab

/-! ## The handle -/

/-- `ETH_DMARxFrameInfos`. -/
structure ETH_DMARxFrameInfos where
  FSRxDesc : Fin ETH_RXBUFNB
  LSRxDesc : Option (Fin ETH_RXBUFNB)
  SegCount : Nat
  length : UInt32
  buffer : Fin ETH_RXBUFNB
  deriving DecidableEq, Repr

/-- `heth`, with the descriptors it points to, the status register of its DMA, and how often the DMA
has been told to poll its lists again. -/
structure ETH_HandleTypeDef where
  Lock : HAL_LockTypeDef
  TxDesc : Fin ETH_TXBUFNB
  RxDesc : Fin ETH_RXBUFNB
  RxFrameInfos : ETH_DMARxFrameInfos
  DMATxDscrTab : DescTab ETH_TXBUFNB
  DMARxDscrTab : DescTab ETH_RXBUFNB
  DMASR : UInt32
  DMATPDR : Nat
  DMARPDR : Nat

/-- `Tab + i + 1`, or `Tab` where `i` is the last. -/
def following {n : Nat} (i : Fin n) : Fin n :=
  if h : i.val < n - 1 then ⟨i.val + 1, Nat.add_lt_of_lt_sub h⟩ else ⟨0, i.pos⟩

theorem following_eq {n : Nat} (i : Fin n) : following i = onward i 1 := by
  have hi := i.isLt
  apply Fin.ext
  simp only [following, onward]
  split_ifs with h
  · exact (Nat.mod_eq_of_lt (by omega)).symm
  · rw [show i.val + 1 = n by omega, Nat.mod_self]

/-- `HAL_ETH_DMATxDescListInit`: the table, whatever it held before. -/
def HAL_ETH_DMATxDescListInit (ChecksumByHardware : Bool)
    (DMATxDescTab : Fin ETH_TXBUFNB → UInt32) : DescTab ETH_TXBUFNB where
  desc i :=
    { Status :=
        if ChecksumByHardware then ETH_DMATXDESC_TCH ||| ETH_DMATXDESC_CHECKSUMTCPUDPICMPFULL
        else ETH_DMATXDESC_TCH
      ControlBufferSize := DMATxDescTab i
      Buffer1Addr := i
      Buffer2NextDescAddr := following i }
  buffer _ := rfl
  chained := following_eq

/-- `HAL_ETH_DMARxDescListInit`. -/
def HAL_ETH_DMARxDescListInit (RxInterruptMode : Bool) : DescTab ETH_RXBUFNB where
  desc i :=
    { Status := ETH_DMARXDESC_OWN
      ControlBufferSize :=
        if RxInterruptMode then
          (ETH_DMARXDESC_RCH ||| ETH_RX_BUF_SIZE.toUInt32) &&& ~~~ETH_DMARXDESC_DIC
        else ETH_DMARXDESC_RCH ||| ETH_RX_BUF_SIZE.toUInt32
      Buffer1Addr := i
      Buffer2NextDescAddr := following i }
  buffer _ := rfl
  chained := following_eq

/-- `heth` after `Bsp_Eth_Init`, but for where `TxDesc` has come to. -/
def Bsp_Eth_Init (TxDesc : Fin ETH_TXBUFNB) : ETH_HandleTypeDef where
  Lock := .HAL_UNLOCKED
  TxDesc := TxDesc
  RxDesc := 0
  RxFrameInfos := { FSRxDesc := 0, LSRxDesc := none, SegCount := 0, length := 0, buffer := 0 }
  DMATxDscrTab := HAL_ETH_DMATxDescListInit true fun _ => 0
  DMARxDscrTab := HAL_ETH_DMARxDescListInit true
  DMASR := 0
  DMATPDR := 0
  DMARPDR := 0

/-! ## Sending -/

/-- How many descriptors a frame needs. -/
def bufcount (FrameLength : Nat) : Nat :=
  if FrameLength > ETH_TX_BUF_SIZE then
    if FrameLength % ETH_TX_BUF_SIZE ≠ 0 then FrameLength / ETH_TX_BUF_SIZE + 1
    else FrameLength / ETH_TX_BUF_SIZE
  else 1

/-- The descriptor at `TxDesc` with these two words, the DMA's, and `TxDesc` at the next. -/
def ETH_HandleTypeDef.handOver (heth : ETH_HandleTypeDef) (Status ControlBufferSize : UInt32) :
    ETH_HandleTypeDef :=
  { heth with
    DMATxDscrTab :=
      heth.DMATxDscrTab.write heth.TxDesc (Status ||| ETH_DMATXDESC_OWN) ControlBufferSize
    TxDesc := (heth.DMATxDscrTab.desc heth.TxDesc).Buffer2NextDescAddr }

/-- Round `i` of the loop over the descriptors of a frame that needs several. -/
def segment (FrameLength count i : Nat) (heth : ETH_HandleTypeDef) : ETH_HandleTypeDef :=
  let Status := (heth.DMATxDscrTab.desc heth.TxDesc).Status &&&
    ~~~(ETH_DMATXDESC_FS ||| ETH_DMATXDESC_LS)
  let Status := if i = 0 then Status ||| ETH_DMATXDESC_FS else Status
  if i = count - 1 then
    heth.handOver (Status ||| ETH_DMATXDESC_LS)
      ((FrameLength - (count - 1) * ETH_TX_BUF_SIZE).toUInt32 &&& ETH_DMATXDESC_TBS1)
  else heth.handOver Status (ETH_TX_BUF_SIZE.toUInt32 &&& ETH_DMATXDESC_TBS1)

/-- `for (i = 0; i < bufcount; i++)`, with the rounds that are left and the next `i`. -/
def segments (FrameLength count : Nat) : Nat → Nat → ETH_HandleTypeDef → ETH_HandleTypeDef
  | 0, _, heth => heth
  | left + 1, i, heth => segments FrameLength count left (i + 1) (segment FrameLength count i heth)

/-- The descriptors of a frame handed to the DMA. -/
def ETH_HandleTypeDef.handFrame (heth : ETH_HandleTypeDef) (FrameLength : Nat) :
    ETH_HandleTypeDef :=
  if bufcount FrameLength = 1 then
    heth.handOver
      ((heth.DMATxDscrTab.desc heth.TxDesc).Status ||| (ETH_DMATXDESC_FS ||| ETH_DMATXDESC_LS))
      (FrameLength.toUInt32 &&& ETH_DMATXDESC_TBS1)
  else segments FrameLength (bufcount FrameLength) (bufcount FrameLength) 0 heth

/-- A flag of `DMASR` cleared by writing it, if it is set, and the DMA told to go on. -/
def ETH_HandleTypeDef.resumeTx (heth : ETH_HandleTypeDef) (flag : UInt32) : ETH_HandleTypeDef :=
  if heth.DMASR &&& flag ≠ 0 then
    { heth with DMASR := heth.DMASR &&& ~~~flag, DMATPDR := heth.DMATPDR + 1 }
  else heth

/-- `HAL_ETH_TransmitFrame`. -/
def HAL_ETH_TransmitFrame (heth : ETH_HandleTypeDef) (FrameLength : Nat) :
    HAL_StatusTypeDef × ETH_HandleTypeDef :=
  if heth.Lock = .HAL_LOCKED then (.HAL_BUSY, heth)
  else if FrameLength = 0 then (.HAL_ERROR, { heth with Lock := .HAL_UNLOCKED })
  else if heth.DMATxDscrTab.has heth.TxDesc ETH_DMATXDESC_OWN then
    (.HAL_ERROR, { heth with Lock := .HAL_UNLOCKED })
  else
    (.HAL_OK,
      { (heth.handFrame FrameLength).resumeTx ETH_DMASR_TBUS with Lock := .HAL_UNLOCKED })

/-! ### What is handed over -/

theorem bufcount_zero : bufcount 0 = 1 := rfl

/-- The count is the length over the size of a buffer, rounded up. -/
theorem bufcount_eq {FrameLength : Nat} (h : 0 < FrameLength) :
    bufcount FrameLength = (FrameLength + (ETH_TX_BUF_SIZE - 1)) / ETH_TX_BUF_SIZE := by
  have hsize : ETH_TX_BUF_SIZE = 1524 := rfl
  simp only [bufcount, hsize]
  split_ifs <;> omega

/-- The last descriptor of a frame is filled in part, or whole, but not empty. -/
theorem bufcount_bounds {FrameLength : Nat} (h : 0 < FrameLength) :
    0 < bufcount FrameLength ∧ (bufcount FrameLength - 1) * ETH_TX_BUF_SIZE < FrameLength ∧
      FrameLength ≤ bufcount FrameLength * ETH_TX_BUF_SIZE := by
  have hsize : ETH_TX_BUF_SIZE = 1524 := rfl
  rw [bufcount_eq h, hsize]
  omega

theorem bufcount_pos (FrameLength : Nat) : 0 < bufcount FrameLength := by
  rcases Nat.eq_zero_or_pos FrameLength with rfl | h
  · exact Nat.one_pos
  · exact (bufcount_bounds h).1

theorem bufcount_le {FrameLength : Nat} (h : FrameLength ≤ ETH_TXBUFNB * ETH_TX_BUF_SIZE) :
    bufcount FrameLength ≤ ETH_TXBUFNB := by
  have hsize : ETH_TX_BUF_SIZE = 1524 := rfl
  have hnb : ETH_TXBUFNB = 8 := rfl
  rcases Nat.eq_zero_or_pos FrameLength with rfl | hpos
  · decide
  · obtain ⟨-, hlast, -⟩ := bufcount_bounds hpos
    rw [hsize] at hlast h
    omega

/-- The size word of a descriptor that holds up to a buffer. -/
theorem tbs1_toNat {size : Nat} (h : size ≤ ETH_TX_BUF_SIZE) :
    (size.toUInt32 &&& ETH_DMATXDESC_TBS1).toNat = size := by
  have hsize : ETH_TX_BUF_SIZE = 1524 := rfl
  have hmask : ETH_DMATXDESC_TBS1.toNat = 2 ^ 13 - 1 := rfl
  have hnat : size.toUInt32.toNat = size := by
    rw [Nat.toUInt32, UInt32.toNat_ofNat']
    omega
  rw [UInt32.toNat_and, hmask, Nat.and_two_pow_sub_one_eq_mod, hnat]
  omega

namespace ETH_HandleTypeDef

variable (heth : ETH_HandleTypeDef) (w z : UInt32)

@[simp] theorem handOver_TxDesc : (heth.handOver w z).TxDesc = onward heth.TxDesc 1 :=
  heth.DMATxDscrTab.chained heth.TxDesc

theorem handOver_self : ((heth.handOver w z).DMATxDscrTab.desc heth.TxDesc) =
    { heth.DMATxDscrTab.desc heth.TxDesc with
      Status := w ||| ETH_DMATXDESC_OWN, ControlBufferSize := z } :=
  DescTab.write_self _ _ _ _

variable {heth w z}

theorem handOver_of_ne {x : Fin ETH_TXBUFNB} (h : x ≠ heth.TxDesc) :
    (heth.handOver w z).DMATxDscrTab.desc x = heth.DMATxDscrTab.desc x :=
  DescTab.write_of_ne _ _ _ h

/-- The descriptor handed over is the DMA's, and no other is taken from it. -/
theorem handOver_owned {x : Fin ETH_TXBUFNB}
    (h : x = heth.TxDesc ∨ heth.DMATxDscrTab.has x ETH_DMATXDESC_OWN) :
    (heth.handOver w z).DMATxDscrTab.has x ETH_DMATXDESC_OWN := by
  by_cases hx : x = heth.TxDesc
  · subst hx
    rw [DescTab.has, handOver_self]
    exact or_own w
  · rw [DescTab.has, handOver_of_ne hx]
    exact h.resolve_left hx

end ETH_HandleTypeDef

/-- What descriptor `i` of `count` holds once a frame has been handed over. -/
structure Segment (FrameLength count i : Nat) (d : ETH_DMADescTypeDef ETH_TXBUFNB) : Prop where
  own : d.Status &&& ETH_DMATXDESC_OWN ≠ 0
  first : d.Status &&& ETH_DMATXDESC_FS ≠ 0 ↔ i = 0
  last : d.Status &&& ETH_DMATXDESC_LS ≠ 0 ↔ i = count - 1
  size : d.ControlBufferSize.toNat =
    if i = count - 1 then FrameLength - (count - 1) * ETH_TX_BUF_SIZE else ETH_TX_BUF_SIZE

/-- A round of the loop hands over one descriptor and leaves the others alone. -/
theorem segment_eq (FrameLength count i : Nat) (heth : ETH_HandleTypeDef) :
    ∃ w z, segment FrameLength count i heth = heth.handOver w z := by
  simp only [segment]
  split_ifs
  all_goals exact ⟨_, _, rfl⟩

/-- Masks the first two bits of a frame out of a status. -/
theorem cleared_and (w : UInt32) :
    (w &&& ~~~(ETH_DMATXDESC_FS ||| ETH_DMATXDESC_LS)) &&& ETH_DMATXDESC_FS = 0 ∧
      (w &&& ~~~(ETH_DMATXDESC_FS ||| ETH_DMATXDESC_LS)) &&& ETH_DMATXDESC_LS = 0 := by
  have hfs : ~~~(ETH_DMATXDESC_FS ||| ETH_DMATXDESC_LS) &&& ETH_DMATXDESC_FS = 0 := rfl
  have hls : ~~~(ETH_DMATXDESC_FS ||| ETH_DMATXDESC_LS) &&& ETH_DMATXDESC_LS = 0 := rfl
  rw [UInt32.and_assoc, UInt32.and_assoc, hfs, hls]
  exact ⟨UInt32.and_zero, UInt32.and_zero⟩

/-- The first round marks its descriptor as the first, and so far none is marked as the last. -/
theorem first_marked (w : UInt32) (i : Nat) {Status : UInt32}
    (h : Status =
      if i = 0 then w &&& ~~~(ETH_DMATXDESC_FS ||| ETH_DMATXDESC_LS) ||| ETH_DMATXDESC_FS
      else w &&& ~~~(ETH_DMATXDESC_FS ||| ETH_DMATXDESC_LS)) :
    (Status &&& ETH_DMATXDESC_FS ≠ 0 ↔ i = 0) ∧ ¬ Status &&& ETH_DMATXDESC_LS ≠ 0 := by
  obtain ⟨hfs, hls⟩ := cleared_and w
  subst h
  split_ifs with hi
  · rw [and_or_ne_zero_iff, or_ne_zero_iff_of_apart rfl]
    exact ⟨iff_of_true (.inr (by decide)) hi, not_not_intro hls⟩
  · exact ⟨iff_of_false (not_not_intro hfs) hi, not_not_intro hls⟩

/-- The words a round writes, where the frame needs several descriptors. -/
theorem segment_self {FrameLength count i : Nat} (heth : ETH_HandleTypeDef)
    (hlast : FrameLength - (count - 1) * ETH_TX_BUF_SIZE ≤ ETH_TX_BUF_SIZE) :
    Segment FrameLength count i
      ((segment FrameLength count i heth).DMATxDscrTab.desc heth.TxDesc) := by
  obtain ⟨hfirst, hnone⟩ := first_marked (heth.DMATxDscrTab.desc heth.TxDesc).Status i rfl
  unfold segment
  by_cases hend : i = count - 1
  · rw [if_pos hend, ETH_HandleTypeDef.handOver_self]
    refine ⟨or_own _, ?_, iff_of_true ?_ hend, ?_⟩
    · rw [or_ne_zero_iff_of_apart rfl, or_ne_zero_iff_of_apart rfl]
      exact hfirst
    · rw [or_ne_zero_iff_of_apart rfl, and_or_ne_zero_iff]
      exact .inr (by decide)
    · rw [if_pos hend]
      exact tbs1_toNat hlast
  · rw [if_neg hend, ETH_HandleTypeDef.handOver_self]
    refine ⟨or_own _, ?_, iff_of_false ?_ hend, ?_⟩
    · rw [or_ne_zero_iff_of_apart rfl]
      exact hfirst
    · rw [or_ne_zero_iff_of_apart rfl]
      exact hnone
    · rw [if_neg hend]
      exact tbs1_toNat le_rfl

/-- **The loop over the descriptors**: as many as there are rounds, one behind the other, each with
what its place in the frame asks for. -/
theorem segments_spec {FrameLength count left : Nat} (i : Nat) (heth : ETH_HandleTypeDef)
    (hlast : FrameLength - (count - 1) * ETH_TX_BUF_SIZE ≤ ETH_TX_BUF_SIZE)
    (hturn : left ≤ ETH_TXBUFNB) :
    (segments FrameLength count left i heth).TxDesc = onward heth.TxDesc left ∧
      (∀ j, j < left → Segment FrameLength count (i + j)
        ((segments FrameLength count left i heth).DMATxDscrTab.desc (onward heth.TxDesc j))) ∧
      ∀ x, (∀ j, j < left → x ≠ onward heth.TxDesc j) →
        (segments FrameLength count left i heth).DMATxDscrTab.desc x =
          heth.DMATxDscrTab.desc x := by
  induction left generalizing i heth with
  | zero => exact ⟨(onward_zero _).symm, fun j hj => absurd hj (Nat.not_lt_zero j), fun _ _ => rfl⟩
  | succ left ih =>
    obtain ⟨w, z, hseg⟩ := segment_eq FrameLength count i heth
    have hself := segment_self (i := i) heth hlast
    have hnext : (segment FrameLength count i heth).TxDesc = onward heth.TxDesc 1 := by
      rw [hseg, ETH_HandleTypeDef.handOver_TxDesc]
    obtain ⟨hadvance, hrest, hothers⟩ :=
      ih (i + 1) (segment FrameLength count i heth) (by omega)
    rw [hnext] at hadvance hrest hothers
    simp only [onward_onward] at hadvance hrest hothers
    rw [segments]
    refine ⟨by rw [hadvance, Nat.add_comm], ?_, ?_⟩
    · intro j hj
      cases j with
      | zero =>
        -- the first descriptor is not written again
        rw [onward_zero, hothers]
        · exact hself
        · intro k hk h
          have h0 : onward heth.TxDesc 0 = onward heth.TxDesc (1 + k) := by rw [onward_zero, ← h]
          have := onward_inj (by omega) (by omega) h0
          omega
      | succ j =>
        rw [Nat.add_comm j 1, ← Nat.add_assoc]
        exact hrest j (by omega)
    · intro x hx
      rw [hothers, hseg]
      · apply ETH_HandleTypeDef.handOver_of_ne
        have h0 := hx 0 (by omega)
        rwa [onward_zero] at h0
      · intro j hj
        have hj' := hx (j + 1) (by omega)
        rwa [Nat.add_comm j 1] at hj'

/-- However many rounds there are, each descriptor the loop meets is the DMA's in the end. -/
theorem segments_owned {FrameLength count left i : Nat} {heth : ETH_HandleTypeDef}
    {x : Fin ETH_TXBUFNB}
    (h : (∃ j, j < left ∧ x = onward heth.TxDesc j) ∨
      heth.DMATxDscrTab.has x ETH_DMATXDESC_OWN) :
    (segments FrameLength count left i heth).DMATxDscrTab.has x ETH_DMATXDESC_OWN := by
  induction left generalizing i heth with
  | zero =>
    rcases h with ⟨j, hj, -⟩ | h
    · exact absurd hj (Nat.not_lt_zero j)
    · exact h
  | succ left ih =>
    obtain ⟨w, z, hseg⟩ := segment_eq FrameLength count i heth
    rw [segments, hseg]
    apply ih
    rw [ETH_HandleTypeDef.handOver_TxDesc]
    rcases h with ⟨j, hj, hx⟩ | h
    · cases j with
      | zero => exact .inr (ETH_HandleTypeDef.handOver_owned (.inl (by rw [hx, onward_zero])))
      | succ j => exact .inl ⟨j, by omega, by rw [onward_onward, Nat.add_comm 1 j, hx]⟩
    · exact .inr (ETH_HandleTypeDef.handOver_owned (.inr h))

/-- **A frame that has been handed over**: its descriptors are the `bufcount` ones from `TxDesc` on,
which has moved behind them, and nothing else has changed in the table. -/
structure HandedOver (heth after : ETH_HandleTypeDef) (FrameLength : Nat) : Prop where
  advance : after.TxDesc = onward heth.TxDesc (bufcount FrameLength)
  segments : ∀ i, i < bufcount FrameLength → Segment FrameLength (bufcount FrameLength) i
    (after.DMATxDscrTab.desc (onward heth.TxDesc i))
  others : ∀ x, (∀ i, i < bufcount FrameLength → x ≠ onward heth.TxDesc i) →
    after.DMATxDscrTab.desc x = heth.DMATxDscrTab.desc x

/-- A frame that fits one descriptor. -/
theorem handFrame_one {heth : ETH_HandleTypeDef} {FrameLength : Nat}
    (hone : bufcount FrameLength = 1) (hpos : 0 < FrameLength) :
    HandedOver heth (heth.handFrame FrameLength) FrameLength := by
  have hfit : FrameLength ≤ ETH_TX_BUF_SIZE := by
    have := (bufcount_bounds hpos).2.2
    rwa [hone, Nat.one_mul] at this
  have hself : (heth.handFrame FrameLength) = heth.handOver
      ((heth.DMATxDscrTab.desc heth.TxDesc).Status ||| (ETH_DMATXDESC_FS ||| ETH_DMATXDESC_LS))
      (FrameLength.toUInt32 &&& ETH_DMATXDESC_TBS1) := if_pos hone
  rw [hself]
  constructor
  · rw [ETH_HandleTypeDef.handOver_TxDesc, hone]
  · intro i hi
    obtain rfl : i = 0 := by omega
    rw [onward_zero, ETH_HandleTypeDef.handOver_self, hone]
    refine ⟨or_own _, iff_of_true ?_ rfl, iff_of_true ?_ rfl, ?_⟩
    · rw [or_ne_zero_iff_of_apart rfl, and_or_ne_zero_iff]
      exact .inr (by decide)
    · rw [or_ne_zero_iff_of_apart rfl, and_or_ne_zero_iff]
      exact .inr (by decide)
    · rw [tbs1_toNat hfit, if_pos rfl, Nat.sub_self, Nat.zero_mul, Nat.sub_zero]
  · intro x hx
    apply ETH_HandleTypeDef.handOver_of_ne
    have h0 := hx 0 (by omega)
    rwa [onward_zero] at h0

/-- **A frame of up to eight buffers is handed over whole.** -/
theorem handFrame_spec {heth : ETH_HandleTypeDef} {FrameLength : Nat} (hpos : 0 < FrameLength)
    (hturn : FrameLength ≤ ETH_TXBUFNB * ETH_TX_BUF_SIZE) :
    HandedOver heth (heth.handFrame FrameLength) FrameLength := by
  by_cases hone : bufcount FrameLength = 1
  · exact handFrame_one hone hpos
  · have hsegments : heth.handFrame FrameLength =
        segments FrameLength (bufcount FrameLength) (bufcount FrameLength) 0 heth := if_neg hone
    have hsize : ETH_TX_BUF_SIZE = 1524 := rfl
    obtain ⟨-, -, hend⟩ := bufcount_bounds hpos
    have hlast : FrameLength - (bufcount FrameLength - 1) * ETH_TX_BUF_SIZE ≤ ETH_TX_BUF_SIZE := by
      rw [hsize] at hend ⊢
      omega
    obtain ⟨hadvance, hframe, hothers⟩ := segments_spec 0 heth hlast (bufcount_le hturn)
    rw [hsegments]
    refine ⟨hadvance, ?_, hothers⟩
    intro i hi
    have hseg := hframe i hi
    rwa [Nat.zero_add] at hseg

/-- A frame of any length makes the descriptors it needs the DMA's. -/
theorem handFrame_owned {heth : ETH_HandleTypeDef} {FrameLength i : Nat}
    (hi : i < bufcount FrameLength) :
    (heth.handFrame FrameLength).DMATxDscrTab.has (onward heth.TxDesc i) ETH_DMATXDESC_OWN := by
  rw [ETH_HandleTypeDef.handFrame]
  split_ifs with hone
  · obtain rfl : i = 0 := by omega
    exact ETH_HandleTypeDef.handOver_owned (.inl (onward_zero _))
  · exact segments_owned (.inl ⟨i, hi, rfl⟩)

/-- Polling the list again changes no descriptor. -/
theorem ETH_HandleTypeDef.resumeTx_same (heth : ETH_HandleTypeDef) (flag : UInt32) :
    (heth.resumeTx flag).DMATxDscrTab = heth.DMATxDscrTab ∧
      (heth.resumeTx flag).TxDesc = heth.TxDesc := by
  rw [ETH_HandleTypeDef.resumeTx]
  split_ifs
  all_goals exact ⟨rfl, rfl⟩

theorem HAL_ETH_TransmitFrame_locked {heth : ETH_HandleTypeDef} {FrameLength : Nat}
    (h : heth.Lock = .HAL_LOCKED) :
    HAL_ETH_TransmitFrame heth FrameLength = (.HAL_BUSY, heth) := if_pos h

/-- An empty frame, and a `TxDesc` that is the DMA's, are errors that leave the ring alone. -/
theorem HAL_ETH_TransmitFrame_error {heth : ETH_HandleTypeDef} {FrameLength : Nat}
    (hlock : heth.Lock ≠ .HAL_LOCKED)
    (h : FrameLength = 0 ∨ heth.DMATxDscrTab.has heth.TxDesc ETH_DMATXDESC_OWN) :
    HAL_ETH_TransmitFrame heth FrameLength =
      (.HAL_ERROR, { heth with Lock := .HAL_UNLOCKED }) := by
  rw [HAL_ETH_TransmitFrame, if_neg hlock]
  split_ifs with hlen hown
  · rfl
  · rfl
  · exact absurd (h.resolve_left hlen) hown

/-- Anything else is handed over. -/
theorem HAL_ETH_TransmitFrame_ok {heth : ETH_HandleTypeDef} {FrameLength : Nat}
    (hlock : heth.Lock ≠ .HAL_LOCKED) (hpos : 0 < FrameLength)
    (hown : ¬ heth.DMATxDscrTab.has heth.TxDesc ETH_DMATXDESC_OWN) :
    (HAL_ETH_TransmitFrame heth FrameLength).1 = .HAL_OK ∧
      (HAL_ETH_TransmitFrame heth FrameLength).2.DMATxDscrTab =
        (heth.handFrame FrameLength).DMATxDscrTab ∧
      (HAL_ETH_TransmitFrame heth FrameLength).2.TxDesc = (heth.handFrame FrameLength).TxDesc := by
  rw [HAL_ETH_TransmitFrame, if_neg hlock, if_neg hpos.ne', if_neg hown]
  obtain ⟨htab, hdesc⟩ := (heth.handFrame FrameLength).resumeTx_same ETH_DMASR_TBUS
  exact ⟨rfl, htab, hdesc⟩

/-- Either the frame is handed over, or the descriptors stay as they are. -/
theorem HAL_ETH_TransmitFrame_cases (heth : ETH_HandleTypeDef) (FrameLength : Nat) :
    (HAL_ETH_TransmitFrame heth FrameLength).1 = .HAL_OK ∧ 0 < FrameLength ∧
        (HAL_ETH_TransmitFrame heth FrameLength).2.DMATxDscrTab =
          (heth.handFrame FrameLength).DMATxDscrTab ∨
      (HAL_ETH_TransmitFrame heth FrameLength).1 ≠ .HAL_OK ∧
        (HAL_ETH_TransmitFrame heth FrameLength).2.DMATxDscrTab = heth.DMATxDscrTab := by
  by_cases hlock : heth.Lock = .HAL_LOCKED
  · rw [HAL_ETH_TransmitFrame_locked hlock]
    exact .inr ⟨nofun, rfl⟩
  · by_cases hrefused : FrameLength = 0 ∨ heth.DMATxDscrTab.has heth.TxDesc ETH_DMATXDESC_OWN
    · rw [HAL_ETH_TransmitFrame_error hlock hrefused]
      exact .inr ⟨nofun, rfl⟩
    · rw [not_or] at hrefused
      have hpos := Nat.pos_of_ne_zero hrefused.1
      obtain ⟨hok, htab, -⟩ := HAL_ETH_TransmitFrame_ok hlock hpos hrefused.2
      exact .inl ⟨hok, hpos, htab⟩

/-! ## Receiving -/

/-- `HAL_ETH_GetReceivedFrame`. -/
def HAL_ETH_GetReceivedFrame (heth : ETH_HandleTypeDef) :
    HAL_StatusTypeDef × ETH_HandleTypeDef :=
  let tab := heth.DMARxDscrTab
  let infos := heth.RxFrameInfos
  let next := (tab.desc heth.RxDesc).Buffer2NextDescAddr
  if heth.Lock = .HAL_LOCKED then (.HAL_BUSY, heth)
  else if ¬ tab.has heth.RxDesc ETH_DMARXDESC_OWN then
    if tab.has heth.RxDesc ETH_DMARXDESC_LS then
      let FSRxDesc := if infos.SegCount + 1 = 1 then heth.RxDesc else infos.FSRxDesc
      let framelength := (((tab.desc heth.RxDesc).Status &&& ETH_DMARXDESC_FL) >>>
        ETH_DMARXDESC_FRAMELENGTHSHIFT) - 4
      (.HAL_OK,
        { heth with
          Lock := .HAL_UNLOCKED
          RxDesc := next
          RxFrameInfos :=
            { FSRxDesc := FSRxDesc
              LSRxDesc := some heth.RxDesc
              SegCount := infos.SegCount + 1
              length := framelength
              buffer := (tab.desc FSRxDesc).Buffer1Addr } })
    else if tab.has heth.RxDesc ETH_DMARXDESC_FS then
      (.HAL_ERROR,
        { heth with
          Lock := .HAL_UNLOCKED
          RxDesc := next
          RxFrameInfos := { infos with FSRxDesc := heth.RxDesc, LSRxDesc := none, SegCount := 1 } })
    else
      (.HAL_ERROR,
        { heth with
          Lock := .HAL_UNLOCKED
          RxDesc := next
          RxFrameInfos := { infos with SegCount := infos.SegCount + 1 } })
  else (.HAL_ERROR, { heth with Lock := .HAL_UNLOCKED })

end EthIo.Eth
