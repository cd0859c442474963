import Mathlib.Data.Nat.Bitwise
import EthIo.Base.Tiling

/-!
# The heap of `heap_4.c`

The free blocks are linked in the order of their addresses, from `xStart` to `pxEnd`. A block has a
header in front of it, the link to the next free block and its size; the top bit of the size says
that the block belongs to the application. Headers stand at multiples of `portBYTE_ALIGNMENT` and
have that many bytes, so no two of them overlap and `Heap.link` has one for each address.

An address is a number below `2 ^ 32`. Sums of addresses and sizes inside the heap stay below it;
the size the caller asks for is the caller's, and its sums are taken modulo `2 ^ 32`.

Both loops walk the free list. Their bound here is the number of bytes of the heap; the lemmas about
them say that a list that is linked to its end (`Chain`) is shorter than that.
-/

namespace EthIo.Rtos

open EthIo.Base

/-! ## Constants and words -/

def portBYTE_ALIGNMENT : Nat := 8

def portBYTE_ALIGNMENT_MASK : Nat := 0x0007

def configTOTAL_HEAP_SIZE : Nat := 25 * 1024

/-- The bytes of a `BlockLink_t`, a pointer and a `size_t`. -/
def sizeof_BlockLink_t : Nat := 8

/-- `~` of a `size_t`. -/
def complement (mask : Nat) : Nat := 2 ^ 32 - 1 - mask

def xHeapStructSize : Nat :=
  (sizeof_BlockLink_t + (portBYTE_ALIGNMENT - 1)) &&& complement portBYTE_ALIGNMENT_MASK

def heapMINIMUM_BLOCK_SIZE : Nat := xHeapStructSize <<< 1

/-- The pointer of no block. -/
def NULL : Nat := 0

theorem and_mask (x : Nat) : x &&& portBYTE_ALIGNMENT_MASK = x % 8 :=
  Nat.and_two_pow_sub_one_eq_mod x 3

theorem and_complement_mask {x : Nat} (h : x < 2 ^ 32) :
    x &&& complement portBYTE_ALIGNMENT_MASK = x / 8 * 8 := by
  have hmask : complement portBYTE_ALIGNMENT_MASK = (2 ^ 29 - 1) <<< 3 := rfl
  have hround : x / 8 * 8 = (x >>> 3) <<< 3 := by
    rw [Nat.shiftLeft_eq, Nat.shiftRight_eq_div_pow]
  rw [hmask, hround]
  apply Nat.eq_of_testBit_eq
  intro i
  rw [Nat.testBit_and, Nat.testBit_shiftLeft, Nat.testBit_two_pow_sub_one, Nat.testBit_shiftLeft,
    Nat.testBit_shiftRight]
  by_cases h3 : 3 ≤ i
  · rw [Nat.add_sub_cancel' h3]
    rcases Nat.lt_or_ge i 32 with hi | hi
    · have hi' : i - 3 < 29 := by omega
      simp [h3, hi']
    · have hbit : x.testBit i = false :=
        Nat.testBit_lt_two_pow (Nat.lt_of_lt_of_le h (Nat.pow_le_pow_right (by omega) hi))
      simp [hbit]
  · simp [h3]

/-- The top bit of a size. -/
theorem and_top {x : Nat} (h : x < 2 ^ 32) : x &&& 2 ^ 31 = 0 ↔ x < 2 ^ 31 := by
  simp only [Nat.and_two_pow, Nat.testBit_eq_decide_div_mod_eq, Nat.mul_eq_zero, Bool.toNat_eq_zero,
    decide_eq_false_iff_not]
  omega

/-- A size with the top bit set. -/
theorem or_top {x : Nat} (h : x < 2 ^ 31) : x ||| 2 ^ 31 = 2 ^ 31 + x := by
  rw [Nat.lor_comm]
  simpa using (Nat.two_pow_add_eq_or_of_lt h 1).symm

theorem and_complement_top {x : Nat} (h : x < 2 ^ 31) :
    (x ||| 2 ^ 31) &&& complement (2 ^ 31) = x := by
  have hmask : complement (2 ^ 31) = 2 ^ 31 - 1 := rfl
  rw [hmask, Nat.and_two_pow_sub_one_eq_mod, or_top h, Nat.add_mod_left, Nat.mod_eq_of_lt h]

/-! ## The heap -/

structure BlockLink_t where
  pxNextFreeBlock : Nat
  xBlockSize : Nat
  deriving DecidableEq

/-- Where the linker has put `ucHeap` and `xStart`. -/
structure HeapPlace where
  ucHeap : Nat
  xStart : Nat
  pos : 0 < ucHeap
  fits : ucHeap + configTOTAL_HEAP_SIZE ≤ 2 ^ 32
  apart : xStart + sizeof_BlockLink_t ≤ ucHeap ∨ ucHeap + configTOTAL_HEAP_SIZE ≤ xStart

structure Heap where
  link : Nat → BlockLink_t
  pxEnd : Nat
  xFreeBytesRemaining : Nat
  xMinimumEverFreeBytesRemaining : Nat
  xBlockAllocatedBit : Nat

/-- A header written. -/
def Heap.set (h : Heap) (p : Nat) (l : BlockLink_t) : Heap :=
  { h with link := Function.update h.link p l }

/-! ## The functions -/

namespace HeapPlace

variable (P : HeapPlace)

def pucAlignedHeap : Nat :=
  if P.ucHeap &&& portBYTE_ALIGNMENT_MASK ≠ 0 then
    (P.ucHeap + (portBYTE_ALIGNMENT - 1)) &&& complement portBYTE_ALIGNMENT_MASK
  else P.ucHeap

def xTotalHeapSize : Nat :=
  if P.ucHeap &&& portBYTE_ALIGNMENT_MASK ≠ 0 then
    configTOTAL_HEAP_SIZE - (P.pucAlignedHeap - P.ucHeap)
  else configTOTAL_HEAP_SIZE

/-- Where `prvHeapInit` puts the end marker. -/
def pxEnd : Nat :=
  (P.pucAlignedHeap + P.xTotalHeapSize - xHeapStructSize) &&& complement portBYTE_ALIGNMENT_MASK

end HeapPlace

def prvHeapInit (P : HeapPlace) (h : Heap) : Heap :=
  let h := h.set P.xStart { pxNextFreeBlock := P.pucAlignedHeap, xBlockSize := 0 }
  let h := h.set P.pxEnd { pxNextFreeBlock := NULL, xBlockSize := 0 }
  let xBlockSize := P.pxEnd - P.pucAlignedHeap
  let h := h.set P.pucAlignedHeap { pxNextFreeBlock := P.pxEnd, xBlockSize := xBlockSize }
  { h with
    pxEnd := P.pxEnd
    xMinimumEverFreeBytesRemaining := xBlockSize
    xFreeBytesRemaining := xBlockSize
    xBlockAllocatedBit := 1 <<< (4 * 8 - 1) }

/-- The first call of `pvPortMalloc` initialises the heap. -/
def initialised (P : HeapPlace) (h : Heap) : Heap := if h.pxEnd = NULL then prvHeapInit P h else h

/-- The `for` loop of `prvInsertBlockIntoFreeList`. -/
def insertAfter (link : Nat → BlockLink_t) (pxBlockToInsert : Nat) : Nat → Nat → Option Nat
  | 0, _ => none
  | fuel + 1, pxIterator =>
    if (link pxIterator).pxNextFreeBlock < pxBlockToInsert then
      insertAfter link pxBlockToInsert fuel (link pxIterator).pxNextFreeBlock
    else some pxIterator

/-- The block linked to the block at `next`, as one with it where they touch. -/
def linkNext (pxBlockToInsert next : Nat) (h : Heap) : Heap :=
  if pxBlockToInsert + (h.link pxBlockToInsert).xBlockSize = next then
    if next ≠ h.pxEnd then
      h.set pxBlockToInsert
        { xBlockSize := (h.link pxBlockToInsert).xBlockSize + (h.link next).xBlockSize
          pxNextFreeBlock := (h.link next).pxNextFreeBlock }
    else h.set pxBlockToInsert { h.link pxBlockToInsert with pxNextFreeBlock := h.pxEnd }
  else h.set pxBlockToInsert { h.link pxBlockToInsert with pxNextFreeBlock := next }

/-- The block to insert, behind `pxIterator`, as one with it where they touch. -/
def insertAt (pxIterator pxBlockToInsert : Nat) (h : Heap) : Heap :=
  if pxIterator + (h.link pxIterator).xBlockSize = pxBlockToInsert then
    let h :=
      h.set pxIterator
        { h.link pxIterator with
          xBlockSize := (h.link pxIterator).xBlockSize + (h.link pxBlockToInsert).xBlockSize }
    linkNext pxIterator (h.link pxIterator).pxNextFreeBlock h
  else
    let h := linkNext pxBlockToInsert (h.link pxIterator).pxNextFreeBlock h
    if pxIterator ≠ pxBlockToInsert then
      h.set pxIterator { h.link pxIterator with pxNextFreeBlock := pxBlockToInsert }
    else h

def prvInsertBlockIntoFreeList (P : HeapPlace) (pxBlockToInsert : Nat) (h : Heap) : Option Heap :=
  (insertAfter h.link pxBlockToInsert configTOTAL_HEAP_SIZE P.xStart).map fun pxIterator =>
    insertAt pxIterator pxBlockToInsert h

/-- The size of the block that is wanted, with its header. -/
def increased (xWantedSize : Nat) : Nat :=
  if xWantedSize > 0 then
    let xWantedSize := (xWantedSize + xHeapStructSize) % 2 ^ 32
    if xWantedSize &&& portBYTE_ALIGNMENT_MASK ≠ 0 then
      (xWantedSize + (portBYTE_ALIGNMENT - (xWantedSize &&& portBYTE_ALIGNMENT_MASK))) % 2 ^ 32
    else xWantedSize
  else xWantedSize

/-- The `while` loop of `pvPortMalloc`, with `pxPreviousBlock` and `pxBlock`. -/
def firstFit (link : Nat → BlockLink_t) (xWantedSize : Nat) : Nat → Nat → Nat → Option (Nat × Nat)
  | 0, _, _ => none
  | fuel + 1, pxPreviousBlock, pxBlock =>
    if (link pxBlock).xBlockSize < xWantedSize ∧ (link pxBlock).pxNextFreeBlock ≠ NULL then
      firstFit link xWantedSize fuel pxBlock (link pxBlock).pxNextFreeBlock
    else some (pxPreviousBlock, pxBlock)

/-- A block that is larger than required is split, and the new block inserted. -/
def splitOff (P : HeapPlace) (xWantedSize pxBlock : Nat) (h : Heap) : Option Heap :=
  if (h.link pxBlock).xBlockSize - xWantedSize > heapMINIMUM_BLOCK_SIZE then
    let pxNewBlockLink := pxBlock + xWantedSize
    let h :=
      h.set pxNewBlockLink
        { h.link pxNewBlockLink with xBlockSize := (h.link pxBlock).xBlockSize - xWantedSize }
    let h := h.set pxBlock { h.link pxBlock with xBlockSize := xWantedSize }
    prvInsertBlockIntoFreeList P pxNewBlockLink h
  else some h

/-- The block the loop has found, taken out of the list. -/
def takeOut (P : HeapPlace) (xWantedSize pxPreviousBlock pxBlock : Nat) (h : Heap) : Option Heap :=
  splitOff P xWantedSize pxBlock
    (h.set pxPreviousBlock
      { h.link pxPreviousBlock with pxNextFreeBlock := (h.link pxBlock).pxNextFreeBlock })

/-- What `pvPortMalloc` notes of a block it returns. -/
def handOut (pxBlock : Nat) (h : Heap) : Heap :=
  let xFreeBytesRemaining := h.xFreeBytesRemaining - (h.link pxBlock).xBlockSize
  let h :=
    { h with
      xFreeBytesRemaining := xFreeBytesRemaining
      xMinimumEverFreeBytesRemaining :=
        if xFreeBytesRemaining < h.xMinimumEverFreeBytesRemaining then xFreeBytesRemaining
        else h.xMinimumEverFreeBytesRemaining }
  h.set pxBlock
    { xBlockSize := (h.link pxBlock).xBlockSize ||| h.xBlockAllocatedBit, pxNextFreeBlock := NULL }

/-- The heap after the call, and `pvReturn`. -/
def pvPortMalloc (P : HeapPlace) (xWantedSize : Nat) (h : Heap) : Option (Heap × Nat) :=
  let h := initialised P h
  if xWantedSize &&& h.xBlockAllocatedBit = 0 then
    let xWantedSize := increased xWantedSize
    if xWantedSize > 0 ∧ xWantedSize ≤ h.xFreeBytesRemaining then
      (firstFit h.link xWantedSize configTOTAL_HEAP_SIZE P.xStart
          (h.link P.xStart).pxNextFreeBlock).bind fun (pxPreviousBlock, pxBlock) =>
        if pxBlock ≠ h.pxEnd then
          let pvReturn := (h.link pxPreviousBlock).pxNextFreeBlock + xHeapStructSize
          (takeOut P xWantedSize pxPreviousBlock pxBlock h).map fun h =>
            (handOut pxBlock h, pvReturn)
        else some (h, NULL)
    else some (h, NULL)
  else some (h, NULL)

/-- `vPortFree` up to `vTaskSuspendAll`, and the block it goes on with. -/
def vPortFree (pv : Nat) (h : Heap) : Heap × Option Nat :=
  if pv ≠ NULL then
    let pxLink := pv - xHeapStructSize
    if (h.link pxLink).xBlockSize &&& h.xBlockAllocatedBit ≠ 0 then
      if (h.link pxLink).pxNextFreeBlock = NULL then
        (h.set pxLink
          { h.link pxLink with
            xBlockSize := (h.link pxLink).xBlockSize &&& complement h.xBlockAllocatedBit },
          some pxLink)
      else (h, none)
    else (h, none)
  else (h, none)

/-- `vPortFree` while the scheduler is suspended. -/
def vPortFree_suspended (P : HeapPlace) (pxLink : Nat) (h : Heap) : Option Heap :=
  prvInsertBlockIntoFreeList P pxLink
    { h with xFreeBytesRemaining := h.xFreeBytesRemaining + (h.link pxLink).xBlockSize }

def xPortGetFreeHeapSize (h : Heap) : Nat := h.xFreeBytesRemaining

def xPortGetMinimumEverFreeHeapSize (h : Heap) : Nat := h.xMinimumEverFreeBytesRemaining

end EthIo.Rtos
