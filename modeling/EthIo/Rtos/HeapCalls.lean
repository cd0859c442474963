import Mathlib.Algebra.Order.BigOperators.Group.List
import Mathlib.Algebra.Order.Group.Nat
import EthIo.Rtos.HeapTiling

/-!
# The calls of the heap

Between two calls the heap area is tiled (`Laid`), the headers of the blocks that are not free say
what they are, and `xFreeBytesRemaining` is the size of the free ones. One lemma for each call: what
it returns, and the tiling behind it.
-/

namespace EthIo.Rtos

open EthIo.Base

/-! ## The invariant -/

/-- The header of a block that is not free. -/
def Header (link : Nat → BlockLink_t) : Block × Option Live → Prop
  | (_, none) => True
  | (b, some (.held xWantedSize)) =>
    link b.addr = ⟨NULL, b.size ||| 2 ^ 31⟩ ∧ 0 < xWantedSize ∧ xWantedSize + 8 ≤ b.size
  | (b, some .freeing) => link b.addr = ⟨NULL, b.size⟩

/-- What holds of the heap between two calls. -/
structure Laid (P : HeapPlace) (h : Heap) (ts : List (Block × Option Live)) : Prop extends
    Linked P h.link ts where
  pxEnd : h.pxEnd = P.pxEnd
  bit : h.xBlockAllocatedBit = 2 ^ 31
  endMark : h.link P.pxEnd = ⟨NULL, 0⟩
  headers : ∀ t ∈ ts, Header h.link t
  free : h.xFreeBytesRemaining = ((frees ts).map Block.size).sum

/-! ## Initialisation -/

/-- The heap as `prvHeapInit` leaves it: one free block. -/
theorem laid_prvHeapInit (P : HeapPlace) (h : Heap) :
    Laid P (prvHeapInit P h) [(⟨P.pucAlignedHeap, P.pxEnd - P.pucAlignedHeap⟩, none)] := by
  obtain ⟨haligned, -, -, hlt, -⟩ := P.bounds
  have hstart : P.xStart ≠ P.pucAlignedHeap := P.xStart_apart le_rfl hlt.le
  have hend : P.xStart ≠ P.pxEnd := P.xStart_apart hlt.le le_rfl
  have hlink : (prvHeapInit P h).link = Function.update (Function.update (Function.update h.link
      P.xStart ⟨P.pucAlignedHeap, 0⟩) P.pxEnd ⟨NULL, 0⟩) P.pucAlignedHeap
      ⟨P.pxEnd, P.pxEnd - P.pucAlignedHeap⟩ := rfl
  have hxStart : (prvHeapInit P h).link P.xStart = ⟨P.pucAlignedHeap, 0⟩ := by
    rw [hlink, Function.update_of_ne hstart, Function.update_of_ne hend, Function.update_self]
  have hfirst : (prvHeapInit P h).link P.pucAlignedHeap =
      ⟨P.pxEnd, P.pxEnd - P.pucAlignedHeap⟩ := by
    rw [hlink, Function.update_self]
  refine ⟨⟨⟨rfl, Nat.sub_pos_of_lt hlt, ?_⟩, .singleton _, ?_, ?_⟩, rfl, rfl, ?_, ?_, ?_⟩
  · exact Nat.add_sub_cancel' hlt.le
  · intro t ht
    rw [List.mem_singleton.mp ht]
    exact haligned
  · refine ⟨rfl, by rw [hxStart]; rfl, ?_⟩
    rw [hxStart]
    refine ⟨rfl, by rw [hfirst], ?_⟩
    rw [hfirst]
    rfl
  · rw [hlink, Function.update_of_ne (Nat.ne_of_gt hlt), Function.update_self]
  · intro t ht
    rw [List.mem_singleton.mp ht]
    trivial
  · exact (Nat.add_zero _).symm

theorem HeapPlace.pxEnd_ne_null (P : HeapPlace) : P.pxEnd ≠ NULL := by
  have hbounds := P.bounds
  exact Nat.ne_of_gt (Nat.zero_lt_of_lt hbounds.2.2.2.1)

/-! ## The calls -/

section Calls

variable {P : HeapPlace} {h : Heap} {ts pre post : List (Block × Option Live)} {b : Block}
  {t : Block × Option Live} {n : Nat}

theorem Laid.initialised_eq (L : Laid P h ts) : initialised P h = h :=
  if_neg (by rw [L.pxEnd]; exact P.pxEnd_ne_null)

/-- The size with the header, rounded up. -/
theorem increased_eq (hpos : 0 < n) (hn : n < 2 ^ 31) : increased n = (n + 15) / 8 * 8 := by
  have hstruct : xHeapStructSize = 8 := rfl
  have halign : portBYTE_ALIGNMENT = 8 := rfl
  have hsum : (n + xHeapStructSize) % 2 ^ 32 = n + 8 := by
    rw [hstruct, Nat.mod_eq_of_lt (by omega)]
  simp only [increased, if_pos hpos, hsum, and_mask, halign]
  split_ifs with hmod
  · rw [Nat.mod_eq_of_lt (by omega)]
    omega
  · omega

theorem Laid.size_lt (L : Laid P h ts) (ht : t ∈ ts) : t.1.size < 2 ^ 31 := by
  have hmem := L.tiles.mem ht
  have hbounds := P.bounds
  have hfin : t.1.fin = t.1.addr + t.1.size := rfl
  have htotal : configTOTAL_HEAP_SIZE = 25600 := rfl
  omega

/-- A free block has no more bytes than are free. -/
theorem Laid.size_le_free (L : Laid P h ts) (hb : b ∈ frees ts) :
    b.size ≤ h.xFreeBytesRemaining := by
  rw [L.free]
  exact List.single_le_sum (fun _ _ => Nat.zero_le _) _ (List.mem_map_of_mem hb)

/-- The blocks of the list and its end are no null pointers. -/
theorem Laid.next_ne_null (L : Laid P h ts) (hb : b ∈ frees ts) :
    (h.link b.addr).pxNextFreeBlock ≠ NULL := by
  obtain ⟨-, -, hrest⟩ := L.chain
  apply hrest.next_ne_null hb _ P.pxEnd_ne_null
  intro c hc
  have hmem := (L.tiles.mem (mem_frees.mp hc)).1
  exact Nat.ne_of_gt (Nat.lt_of_lt_of_le (Nat.lt_of_lt_of_le P.pos P.bounds.2.2.1) hmem)

/-- The last block of a list, with `xStart` in front of it. -/
theorem front_eq_append (P : HeapPlace) (l : List Block) :
    ∃ l₀ q, P.front :: l = l₀ ++ [q] :=
  ⟨_, _, (List.dropLast_append_getLast (List.cons_ne_nil P.front l)).symm⟩

/-- **No block is large enough**: the loop comes to the end marker. -/
theorem Laid.firstFit_none (L : Laid P h ts) (hsmall : ∀ b ∈ frees ts, b.size < n) :
    ∃ p, firstFit h.link n configTOTAL_HEAP_SIZE P.xStart (h.link P.xStart).pxNextFreeBlock =
      some (p, P.pxEnd) := by
  obtain ⟨l₀, q, hl⟩ := front_eq_append P (frees ts)
  obtain ⟨-, -, hrest⟩ := L.chain
  refine ⟨q.addr, firstFit_eq (q := P.front) hl hrest hsmall (fun b hb => L.next_ne_null hb) ?_ ?_⟩
  · rw [L.endMark]
    exact fun h => h.2 rfl
  · exact Nat.lt_of_succ_lt (Tiles.frees_length_lt L.tiles le_rfl)

/-- **The first block that is large enough** is the one the loop stops at. -/
theorem Laid.firstFit_some {l₀ : List Block} {q : Block} (L : Laid P h (pre ++ (b, none) :: post))
    (hl : P.front :: frees pre = l₀ ++ [q]) (hsmall : ∀ b ∈ frees pre, b.size < n)
    (hb : n ≤ b.size) :
    firstFit h.link n configTOTAL_HEAP_SIZE P.xStart (h.link P.xStart).pxNextFreeBlock =
      some (q.addr, b.addr) := by
  obtain ⟨-, -, hrest⟩ := L.chain
  have hlist : frees (pre ++ (b, none) :: post) = frees pre ++ b :: frees post := by
    rw [frees, kept_append, kept_cons_of_true rfl]
    rfl
  rw [hlist] at hrest
  obtain ⟨_, hpre, rfl, hsize, -⟩ := chain_append.mp hrest
  refine firstFit_eq (q := P.front) hl hpre hsmall (fun c hc => L.next_ne_null ?_) ?_ ?_
  · rw [hlist]
    exact List.mem_append_left _ hc
  · rw [hsize]
    exact fun h => Nat.not_lt.mpr hb h.1
  · have hbound := Tiles.frees_length_lt L.tiles le_rfl
    rw [hlist, List.length_append] at hbound
    omega

theorem Laid.next_eq {l₀ : List Block} {q : Block} (L : Laid P h (pre ++ (b, none) :: post))
    (hl : P.front :: frees pre = l₀ ++ [q]) : (h.link q.addr).pxNextFreeBlock = b.addr := by
  have hlist : P.front :: frees (pre ++ (b, none) :: post) = l₀ ++ q :: b :: frees post := by
    rw [frees, kept_append, kept_cons_of_true rfl, ← List.cons_append, ← frees, hl]
    simp [frees]
  have hchain := L.chain
  rw [hlist] at hchain
  obtain ⟨_, -, rfl, -, hnext, -⟩ := chain_append.mp hchain
  exact hnext

theorem Header.congr {link link' : Nat → BlockLink_t} (h : Header link t)
    (hsame : link' t.1.addr = link t.1.addr) : Header link' t := by
  obtain ⟨b, k⟩ := t
  cases k with
  | none => trivial
  | some k =>
    have hsame : link' b.addr = link b.addr := hsame
    cases k with
    | held n =>
      obtain ⟨hlink, hn⟩ := h
      exact ⟨hsame.trans hlink, hn⟩
    | freeing =>
      have hlink : link b.addr = ⟨NULL, b.size⟩ := h
      exact hsame.trans hlink

/-- **A block noted as handed out.** -/
theorem Linked.handOut {m : Nat} (L : Linked P h.link ts) (hpxEnd : h.pxEnd = P.pxEnd)
    (hbit : h.xBlockAllocatedBit = 2 ^ 31) (hend : h.link P.pxEnd = ⟨NULL, 0⟩)
    (hb : (b, some (.held n)) ∈ ts) (hsize : (h.link b.addr).xBlockSize = b.size)
    (hheaders : ∀ t ∈ ts, t ≠ (b, some (.held n)) → Header h.link t)
    (hfree : h.xFreeBytesRemaining = ((frees ts).map Block.size).sum + b.size)
    (hpos : 0 < n) (hn : n + 8 ≤ b.size) (hm : m = b.size) :
    Laid P (EthIo.Rtos.handOut b.addr h) ts ∧
      (EthIo.Rtos.handOut b.addr h).xFreeBytesRemaining + m = h.xFreeBytesRemaining ∧
      (EthIo.Rtos.handOut b.addr h).xMinimumEverFreeBytesRemaining =
        min (EthIo.Rtos.handOut b.addr h).xFreeBytesRemaining
          h.xMinimumEverFreeBytesRemaining := by
  have hlink : (EthIo.Rtos.handOut b.addr h).link =
      Function.update h.link b.addr ⟨NULL, b.size ||| 2 ^ 31⟩ := by
    simp only [EthIo.Rtos.handOut, Heap.set, hsize, hbit]
  have hfree' : (EthIo.Rtos.handOut b.addr h).xFreeBytesRemaining =
      h.xFreeBytesRemaining - b.size := by
    simp only [EthIo.Rtos.handOut, Heap.set, hsize]
  have hother {t : Block × Option Live} (ht : t ∈ ts) (hne : t ≠ (b, some (.held n))) :
      (EthIo.Rtos.handOut b.addr h).link t.1.addr = h.link t.1.addr := by
    rw [hlink]
    exact Function.update_of_ne (L.addr_ne hb ht hne.symm).symm _ _
  refine ⟨⟨⟨L.tiles, L.coalesced, L.aligned, L.chain.congr ?_⟩, hpxEnd, hbit, ?_, ?_, ?_⟩, ?_, ?_⟩
  · intro c hc
    rcases List.mem_cons.mp hc with rfl | hc
    · rw [hlink]
      exact Function.update_of_ne (L.xStart_ne hb) _ _
    · exact hother (mem_frees.mp hc) (by simp)
  · rw [hlink, Function.update_of_ne (Nat.ne_of_gt (L.tiles.addr_lt hb)), hend]
  · intro t ht
    by_cases hne : t = (b, some (.held n))
    · rw [hne]
      exact ⟨by rw [hlink, Function.update_self], hpos, hn⟩
    · exact (hheaders t ht hne).congr (hother ht hne)
  · omega
  · omega
  · have hmin : (EthIo.Rtos.handOut b.addr h).xMinimumEverFreeBytesRemaining =
        if h.xFreeBytesRemaining - b.size < h.xMinimumEverFreeBytesRemaining then
          h.xFreeBytesRemaining - b.size
        else h.xMinimumEverFreeBytesRemaining := by
      simp only [EthIo.Rtos.handOut, Heap.set, hsize]
    rw [hmin, hfree']
    split_ifs <;> omega

/-- **`pvPortMalloc`** either refuses, or hands out a block that was free. -/
theorem Laid.pvPortMalloc (L : Laid P h ts) (hn : n < 2 ^ 32) :
    (EthIo.Rtos.pvPortMalloc P n h = some (h, NULL) ∧
      (n = 0 ∨ 2 ^ 31 ≤ n ∨ ∀ b ∈ frees ts, b.size < increased n)) ∨
    ((0 < n ∧ n < 2 ^ 31) ∧ ∃ b ∈ frees ts, increased n ≤ b.size ∧ ∃ m h' ts',
      EthIo.Rtos.pvPortMalloc P n h = some (h', b.addr + xHeapStructSize) ∧ Laid P h' ts' ∧
      (∀ c k, (c, some k) ∈ ts' ↔ (c, some k) ∈ ts ∨ c = ⟨b.addr, m⟩ ∧ k = .held n) ∧
      h'.xFreeBytesRemaining + m = h.xFreeBytesRemaining ∧
      h'.xMinimumEverFreeBytesRemaining =
        min h'.xFreeBytesRemaining h.xMinimumEverFreeBytesRemaining) := by
  have hbit : n &&& h.xBlockAllocatedBit = 0 ↔ n < 2 ^ 31 := by
    rw [L.bit]
    exact and_top hn
  unfold EthIo.Rtos.pvPortMalloc
  simp only [L.initialised_eq, hbit]
  by_cases htop : n < 2 ^ 31
  swap
  · rw [if_neg htop]
    exact .inl ⟨rfl, .inr (.inl (Nat.le_of_not_lt htop))⟩
  rw [if_pos htop]
  rcases Nat.eq_zero_or_pos n with rfl | hpos
  · exact .inl ⟨rfl, .inl rfl⟩
  have hwanted := increased_eq hpos htop
  have hwpos : 0 < increased n := by omega
  by_cases hsmall : ∀ b ∈ frees ts, b.size < increased n
  · -- too large for every free block, whether or not the test in front of the loop sees it
    refine .inl ⟨?_, .inr (.inr hsmall)⟩
    split_ifs with hroom
    · obtain ⟨p, hfit⟩ := L.firstFit_none hsmall
      rw [hfit, Option.bind_some]
      exact if_neg (not_not.mpr L.pxEnd.symm)
    · rfl
  · refine .inr ⟨⟨hpos, htop⟩, ?_⟩
    -- the first block that is large enough
    obtain ⟨b, hfind⟩ :
        ∃ b, (frees ts).find? (fun b => decide (increased n ≤ b.size)) = some b := by
      rw [← Option.isSome_iff_exists, List.find?_isSome]
      simpa using hsmall
    obtain ⟨hb, l, r, hlr, hl⟩ := List.find?_eq_some_iff_append.mp hfind
    have hb : increased n ≤ b.size := of_decide_eq_true hb
    obtain ⟨pre, k, post, rfl, hk, rfl, rfl⟩ := kept_eq_append hlr
    obtain rfl : k = none := Option.isNone_iff_eq_none.mp hk
    have hbmem : (b, none) ∈ pre ++ (b, none) :: post := by simp
    have hsmall : ∀ c ∈ frees pre, c.size < increased n := by
      intro c hc
      simpa using hl c hc
    have hroom : increased n ≤ h.xFreeBytesRemaining :=
      hb.trans (L.size_le_free (mem_frees.mpr hbmem))
    obtain ⟨l₀, q, hq⟩ := front_eq_append P (frees pre)
    obtain ⟨m, ts', link, hm, htake, L', hsize, howners, hframe, hend, hsum⟩ :=
      L.takeOut L.pxEnd hq hwpos hb (by omega) (.held n)
    have hmem : ((⟨b.addr, m⟩ : Block), some (.held n)) ∈ ts' :=
      (howners _ _).mpr (.inr ⟨rfl, rfl⟩)
    obtain ⟨L'', hfree, hmin⟩ := Linked.handOut (h := { h with link := link }) (m := m) L' L.pxEnd
      L.bit (hend.trans L.endMark) hmem hsize (by
        rintro ⟨c, k⟩ hc hne
        cases k with
        | none => trivial
        | some k =>
          rcases (howners c k).mp hc with hc | ⟨rfl, rfl⟩
          · exact (L.headers _ hc).congr (hframe c k hc)
          · exact absurd rfl hne) (by rw [hsum]; exact L.free) hpos
        (show n + 8 ≤ m by omega) rfl
    refine ⟨b, mem_frees.mpr hbmem, hb, m, _, ts', ?_, L'', howners, hfree, hmin⟩
    have hne : b.addr ≠ h.pxEnd := by
      rw [L.pxEnd]
      exact Nat.ne_of_lt (L.tiles.addr_lt hbmem)
    rw [if_pos ⟨hwpos, hroom⟩, L.firstFit_some hq hsmall hb, Option.bind_some]
    simp only [if_pos hne, htake, Option.map_some, L.next_eq hq]

/-- **`vPortFree`** finds a block that the application holds, and clears its bit. -/
theorem Laid.vPortFree (L : Laid P h (pre ++ (b, some (.held n)) :: post)) :
    ∃ h', EthIo.Rtos.vPortFree (b.addr + xHeapStructSize) h = (h', some b.addr) ∧
      Laid P h' (pre ++ (b, some .freeing) :: post) ∧
      h'.xFreeBytesRemaining = h.xFreeBytesRemaining ∧
      h'.xMinimumEverFreeBytesRemaining = h.xMinimumEverFreeBytesRemaining := by
  have hb : (b, some (.held n)) ∈ pre ++ (b, some (.held n)) :: post := by simp
  obtain ⟨hlink, -, -⟩ : Header h.link (b, some (.held n)) := L.headers _ hb
  have hsize : b.size < 2 ^ 31 := L.size_lt hb
  have hset : (b.size ||| 2 ^ 31) &&& h.xBlockAllocatedBit ≠ 0 := by
    rw [L.bit, or_top hsize, ne_eq, and_top (by omega)]
    omega
  have hclear : (b.size ||| 2 ^ 31) &&& complement h.xBlockAllocatedBit = b.size := by
    rw [L.bit, and_complement_top hsize]
  have hpv : b.addr + xHeapStructSize ≠ NULL := Nat.succ_ne_zero _
  refine ⟨h.set b.addr ⟨NULL, b.size⟩, ?_, ?_, rfl, rfl⟩
  · simp only [EthIo.Rtos.vPortFree, if_pos hpv, Nat.add_sub_cancel, hlink, if_pos hset,
      if_true, hclear]
  have hother {t : Block × Option Live} (ht : t ∈ pre ∨ t ∈ post) :
      (h.set b.addr ⟨NULL, b.size⟩).link t.1.addr = h.link t.1.addr :=
    Function.update_of_ne (L.tiles.addr_ne_around ht) _ _
  refine ⟨L.relabel ?_ .freeing, L.pxEnd, L.bit, ?_, ?_, ?_⟩
  · intro c hc
    rcases List.mem_cons.mp hc with rfl | hc
    · exact Function.update_of_ne (L.xStart_ne hb) _ _
    · exact hother ((List.mem_append.mp hc).imp mem_frees.mp mem_frees.mp)
  · rw [← L.endMark]
    exact Function.update_of_ne (Nat.ne_of_gt (L.tiles.addr_lt hb)) _ _
  · intro t ht
    have hold (ht : t ∈ pre ∨ t ∈ post) : Header (h.set b.addr ⟨NULL, b.size⟩).link t := by
      refine (L.headers t ?_).congr (hother ht)
      rw [List.mem_append, List.mem_cons]
      exact ht.imp id .inr
    rw [List.mem_append, List.mem_cons] at ht
    rcases ht with ht | rfl | ht
    · exact hold (.inl ht)
    · exact Function.update_self _ _ _
    · exact hold (.inr ht)
  · rw [frees_around, ← frees_around (b := b) (k := .held n)]
    exact L.free

/-- **The rest of `vPortFree`** makes the block free. -/
theorem Laid.vPortFree_suspended (L : Laid P h (pre ++ (b, some .freeing) :: post)) :
    ∃ h' ts', EthIo.Rtos.vPortFree_suspended P b.addr h = some h' ∧ Laid P h' ts' ∧
      (∀ c k, (c, some k) ∈ ts' ↔ (c, some k) ∈ pre ∨ (c, some k) ∈ post) ∧
      h.xFreeBytesRemaining ≤ h'.xFreeBytesRemaining ∧
      h'.xMinimumEverFreeBytesRemaining = h.xMinimumEverFreeBytesRemaining := by
  have hb : (b, some .freeing) ∈ pre ++ (b, some .freeing) :: post := by simp
  have hlink : h.link b.addr = ⟨NULL, b.size⟩ := L.headers _ hb
  have hsize : (h.link b.addr).xBlockSize = b.size := by rw [hlink]
  have hinsert := Linked.insert
    (h := { h with xFreeBytesRemaining := h.xFreeBytesRemaining + (h.link b.addr).xBlockSize })
    L.toLinked L.pxEnd hsize
  obtain ⟨ts', link, hins, L', howners, hframe, hsum⟩ := hinsert
  refine ⟨_, ts', hins, ⟨L', L.pxEnd, L.bit, ?_, ?_, ?_⟩, howners, Nat.le_add_right _ _, rfl⟩
  · rw [← L.endMark]
    refine hframe _ (P.xStart_apart P.bounds.2.2.2.1.le le_rfl).symm
      (Nat.ne_of_gt (L.tiles.addr_lt hb)) ?_
    intro c hc
    exact Nat.ne_of_gt (L.tiles.addr_lt (List.mem_append_left _ (mem_frees.mp hc)))
  · rintro ⟨c, k⟩ hc
    cases k with
    | none => trivial
    | some k =>
      have hin := (howners c k).mp hc
      have hold : (c, some k) ∈ pre ++ (b, some .freeing) :: post := by
        rw [List.mem_append, List.mem_cons]
        exact hin.imp id .inr
      refine (L.headers _ hold).congr
        (hframe _ (L.xStart_ne hold).symm (L.tiles.addr_ne_around hin) ?_)
      intro d hd
      exact L.addr_ne hold (List.mem_append_left _ (mem_frees.mp hd)) (by simp)
  · rw [hsum, ← L.free, ← hsize]

/-- **What the application writes** into a block that it holds changes no header. -/
theorem Laid.store {offset : Nat} (L : Laid P h ts) (hb : (b, some (.held n)) ∈ ts)
    (hoffset : offset < n) (l : BlockLink_t) :
    Laid P (h.set (b.addr + xHeapStructSize + offset) l) ts := by
  have hstruct : xHeapStructSize = 8 := rfl
  have hfin : b.fin = b.addr + b.size := rfl
  obtain ⟨-, -, hroom⟩ : Header h.link (b, some (.held n)) := L.headers _ hb
  have hbEnd : b.fin ≤ P.pxEnd := (L.tiles.mem hb).2.2
  have hbStart : P.pucAlignedHeap ≤ b.addr := (L.tiles.mem hb).1
  have hother (a : Nat) (ha : a ≠ b.addr + xHeapStructSize + offset) :
      (h.set (b.addr + xHeapStructSize + offset) l).link a = h.link a :=
    Function.update_of_ne ha _ _
  have htile {t : Block × Option Live} (ht : t ∈ ts) :
      t.1.addr ≠ b.addr + xHeapStructSize + offset := by
    intro heq
    have hpos := (L.tiles.mem ht).2.1
    have heq' := L.tiles.unique ht hb (Block.has_addr hpos)
      ⟨by simp only; omega, by simp only; omega⟩
    rw [heq'] at heq
    simp only at heq
    omega
  refine ⟨⟨L.tiles, L.coalesced, L.aligned, L.chain.congr ?_⟩, L.pxEnd, L.bit, ?_, ?_, L.free⟩
  · intro c hc
    rcases List.mem_cons.mp hc with rfl | hc
    · exact hother _ (P.xStart_apart (by omega) (by omega))
    · exact hother _ (htile (mem_frees.mp hc))
  · rw [hother _ (by omega), L.endMark]
  · intro t ht
    exact (L.headers t ht).congr (hother _ (htile ht))

end Calls

end EthIo.Rtos
