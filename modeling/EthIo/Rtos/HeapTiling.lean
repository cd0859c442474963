import EthIo.Rtos.FreeList

/-!
# The heap area as a tiling

Between `pucAlignedHeap` and the end marker the heap area is tiled by blocks that are free, held by
the application or on their way back. No two free blocks are neighbours, and the free list links
exactly the free ones (`Linked`). Taking a block out of the list, cutting one in two and inserting
one lead from such a tiling to another, and what they leave alone is said with them: the headers of
the blocks that are not free, and how many bytes the list has.
-/

namespace EthIo.Rtos

open EthIo.Base

/-- What a block that is not free is. -/
inductive Live
  /-- The application holds it and may use the bytes it asked for. -/
  | held (xWantedSize : Nat)
  /-- `vPortFree` has cleared its bit. -/
  | freeing
  deriving DecidableEq

/-! ## Where the heap lies -/

namespace HeapPlace

variable (P : HeapPlace)

theorem pucAlignedHeap_eq : P.pucAlignedHeap = (P.ucHeap + 7) / 8 * 8 := by
  have hfits := P.fits
  have htotal : configTOTAL_HEAP_SIZE = 25600 := rfl
  unfold pucAlignedHeap
  rw [and_mask]
  split_ifs with h
  · exact and_complement_mask (by rw [portBYTE_ALIGNMENT]; omega)
  · omega

theorem xTotalHeapSize_eq :
    P.xTotalHeapSize = configTOTAL_HEAP_SIZE - (P.pucAlignedHeap - P.ucHeap) := by
  have haligned := P.pucAlignedHeap_eq
  unfold xTotalHeapSize
  rw [and_mask]
  split_ifs with h
  · rfl
  · omega

theorem pxEnd_eq : P.pxEnd = (P.ucHeap + configTOTAL_HEAP_SIZE - 8) / 8 * 8 := by
  have hfits := P.fits
  have haligned := P.pucAlignedHeap_eq
  have hstruct : xHeapStructSize = 8 := rfl
  have htotal : configTOTAL_HEAP_SIZE = 25600 := rfl
  have hsum : P.pucAlignedHeap + P.xTotalHeapSize - xHeapStructSize =
      P.ucHeap + configTOTAL_HEAP_SIZE - 8 := by
    rw [xTotalHeapSize_eq]
    omega
  rw [pxEnd, hsum, and_complement_mask (by omega)]

/-- The area between the first block and the end marker. -/
theorem bounds : 8 ∣ P.pucAlignedHeap ∧ 8 ∣ P.pxEnd ∧ P.ucHeap ≤ P.pucAlignedHeap ∧
    P.pucAlignedHeap < P.pxEnd ∧ P.pxEnd + 8 ≤ P.ucHeap + configTOTAL_HEAP_SIZE := by
  have haligned := P.pucAlignedHeap_eq
  have hend := P.pxEnd_eq
  have htotal : configTOTAL_HEAP_SIZE = 25600 := rfl
  refine ⟨?_, ?_, ?_, ?_, ?_⟩ <;> omega

theorem xStart_apart {a : Nat} (h₁ : P.pucAlignedHeap ≤ a) (h₂ : a ≤ P.pxEnd) : P.xStart ≠ a := by
  have hbounds := P.bounds
  have hsize : sizeof_BlockLink_t = 8 := rfl
  rcases P.apart with h | h <;> omega

/-- `xStart` as a block in front of the list. -/
def front : Block := ⟨P.xStart, 0⟩

end HeapPlace

/-! ## The invariant -/

/-- The free blocks of a tiling. -/
def frees (ts : List (Block × Option Live)) : List Block := kept Option.isNone ts

/-- **The heap area is tiled**, and the list links its free blocks. -/
structure Linked (P : HeapPlace) (link : Nat → BlockLink_t) (ts : List (Block × Option Live)) :
    Prop where
  tiles : Tiles P.pucAlignedHeap ts P.pxEnd
  coalesced : Coalesced Option.isNone ts
  aligned : ∀ t ∈ ts, 8 ∣ t.1.addr
  chain : Chain link P.xStart (P.front :: frees ts) P.pxEnd

section Linked

variable {P : HeapPlace} {h : Heap} {link : Nat → BlockLink_t}
  {ts pre post : List (Block × Option Live)} {b : Block} {t : Block × Option Live} {k : Live}

theorem mem_frees : b ∈ frees ts ↔ (b, none) ∈ ts := by
  rw [frees, mem_kept]
  constructor
  · rintro ⟨k, hk, hb⟩
    rwa [Option.isNone_iff_eq_none.mp hk] at hb
  · intro hb
    exact ⟨none, rfl, hb⟩

theorem frees_around : frees (pre ++ (b, some k) :: post) = frees pre ++ frees post := by
  rw [frees, kept_append, kept_cons_of_false rfl]
  rfl

theorem Linked.xStart_ne (L : Linked P link ts) (ht : t ∈ ts) : P.xStart ≠ t.1.addr :=
  P.xStart_apart (L.tiles.mem ht).1 (L.tiles.addr_lt ht).le

/-- The addresses of the list and of any block are all different. -/
theorem Linked.nodup {k : Option Live} (L : Linked P link (pre ++ (b, k) :: post)) :
    ((P.front :: (frees pre ++ b :: frees post)).map Block.addr ++ [P.pxEnd]).Nodup := by
  have hsub : (frees pre ++ b :: frees post).Sublist
      ((pre ++ (b, k) :: post).map Prod.fst) := by
    rw [List.map_append, List.map_cons]
    exact (kept_sublist _ pre).append ((kept_sublist _ post).cons_cons b)
  have hasc : ((frees pre ++ b :: frees post).map Block.addr ++ [P.pxEnd]).Pairwise (· < ·) :=
    L.tiles.pairwise.sublist ((hsub.map Block.addr).append (List.Sublist.refl _))
  rw [List.map_cons, List.cons_append, List.nodup_cons]
  refine ⟨?_, hasc.imp Nat.ne_of_lt⟩
  intro hmem
  rcases List.mem_append.mp hmem with hmem | hmem
  · obtain ⟨c, hc, heq⟩ := List.mem_map.mp hmem
    obtain ⟨t, ht, rfl⟩ := List.mem_map.mp (hsub.subset hc)
    exact L.xStart_ne ht heq.symm
  · exact P.xStart_apart P.bounds.2.2.2.1.le le_rfl (List.mem_singleton.mp hmem)

/-- The list is shorter than the bound of the loops. -/
theorem Tiles.frees_length_lt {e : Nat} (h : Tiles P.pucAlignedHeap pre e) (he : e ≤ P.pxEnd) :
    (frees pre).length + 1 < configTOTAL_HEAP_SIZE := by
  have hsub := (kept_sublist Option.isNone pre).length_le
  have hlen := h.length_le
  have hbounds := P.bounds
  have htotal : configTOTAL_HEAP_SIZE = 25600 := rfl
  rw [List.length_map] at hsub
  simp only [frees]
  omega

/-- **The `for` loop** ends at the last free block in front of the one to insert, or at `xStart`. -/
theorem Linked.insertAfter_eq {l₀ : List Block} {q : Block}
    (L : Linked P link (pre ++ (b, some k) :: post)) (hsplit : P.front :: frees pre = l₀ ++ [q]) :
    insertAfter link b.addr configTOTAL_HEAP_SIZE P.xStart = some q.addr := by
  obtain ⟨hpre, hpos, hpost⟩ := tiles_around.mp L.tiles
  have hchain := L.chain
  rw [frees_around, ← List.cons_append, hsplit, List.append_assoc, List.singleton_append] at hchain
  have hlt : b.addr < b.fin := Nat.lt_add_of_pos_right hpos
  apply EthIo.Rtos.insertAfter_eq hchain
  · intro c hc
    rw [← hsplit, List.tail_cons, mem_frees] at hc
    exact hpre.addr_lt hc
  · obtain ⟨m, -, rfl, -, hr⟩ := chain_append.mp hchain
    cases hc : frees post with
    | nil =>
      rw [hc] at hr
      have hnext : (link q.addr).pxNextFreeBlock = P.pxEnd := hr
      rw [hnext]
      exact hlt.le.trans hpost.le
    | cons c r =>
      rw [hc] at hr
      rw [hr.start]
      have hmem : (c, none) ∈ post := mem_frees.mp (hc ▸ List.mem_cons_self)
      exact hlt.le.trans (hpost.mem hmem).1
  · have hlen : (P.front :: frees pre).length = l₀.length + 1 := by rw [hsplit]; simp
    have hbound := Tiles.frees_length_lt hpre (L.tiles.addr_lt (t := (b, some k)) (by simp)).le
    rw [List.length_cons] at hlen
    omega

/-- **A block inserted into the free list.** It is free, on its own or as part of a neighbour. -/
theorem Linked.insert (L : Linked P h.link (pre ++ (b, some k) :: post))
    (hpxEnd : h.pxEnd = P.pxEnd)
    (hsize : (h.link b.addr).xBlockSize = b.size) :
    ∃ ts link, prvInsertBlockIntoFreeList P b.addr h = some { h with link := link } ∧
      Linked P link ts ∧
      (∀ c k, (c, some k) ∈ ts ↔ (c, some k) ∈ pre ∨ (c, some k) ∈ post) ∧
      (∀ a, a ≠ P.xStart → a ≠ b.addr → (∀ c ∈ frees pre, a ≠ c.addr) → link a = h.link a) ∧
      ((frees ts).map Block.size).sum =
        ((frees (pre ++ (b, some k) :: post)).map Block.size).sum + b.size := by
  have hfront : P.front.fin ≠ b.addr := L.xStart_ne (t := (b, some k)) (by simp)
  obtain ⟨l₀, q, ts, hsplit, htiles, hco, hlist, hstarts, hsame⟩ :=
    Tiles.release (f := none) (P := Option.isNone) rfl L.tiles L.coalesced hfront
  have hsplit : P.front :: frees pre = l₀ ++ [q] := hsplit
  have hlist : P.front :: frees ts = l₀ ++ q.behind b (frees post) := hlist
  have hmemq : q ∈ P.front :: frees pre := by rw [hsplit]; simp
  have hchain := L.chain
  have hnodup := L.nodup
  rw [frees_around, ← List.cons_append, hsplit, List.append_assoc, List.singleton_append,
    ← hpxEnd] at hchain
  rw [← List.cons_append, hsplit, List.append_assoc, List.singleton_append, ← hpxEnd] at hnodup
  obtain ⟨link, hins, hchain', hframe⟩ := insertAt_eq hchain hsize hnodup
  refine ⟨ts, link, ?_, ⟨htiles, hco, ?_, ?_⟩, ?_, ?_, ?_⟩
  · rw [prvInsertBlockIntoFreeList, L.insertAfter_eq hsplit, Option.map_some, hins]
  · intro t ht
    obtain ⟨u, hu, heq⟩ := hstarts t ht
    rw [heq]
    exact L.aligned u hu
  · rw [hlist, ← hpxEnd]
    exact hchain'
  · intro c k'
    exact hsame (c, some k') rfl
  · intro a hxStart hb hne
    apply hframe a _ hb
    rintro rfl
    rcases List.mem_cons.mp hmemq with rfl | hmemq
    · exact hxStart rfl
    · exact hne q hmemq rfl
  · have hsum : ((P.front :: frees ts).map Block.size).sum =
        ((l₀ ++ q.behind b (frees post)).map Block.size).sum := by rw [hlist]
    have hsum' : ((P.front :: frees pre).map Block.size).sum =
        ((l₀ ++ [q]).map Block.size).sum := by rw [hsplit]
    rw [frees_around]
    simp only [List.map_append, List.map_cons, List.sum_append, List.sum_cons, List.map_nil,
      List.sum_nil, Block.behind_sizes] at hsum hsum' ⊢
    omega

/-- **A free block taken out of the list**, by the link of the block in front of it. -/
theorem Linked.unlink {l₀ : List Block} {q : Block} (L : Linked P link (pre ++ (b, none) :: post))
    (hsplit : P.front :: frees pre = l₀ ++ [q]) (k : Live) :
    Linked P (Function.update link q.addr
        { link q.addr with pxNextFreeBlock := (link b.addr).pxNextFreeBlock })
      (pre ++ (b, some k) :: post) := by
  obtain ⟨hpre, hpos, hpost⟩ := tiles_around.mp L.tiles
  have hlist : P.front :: frees (pre ++ (b, none) :: post) = l₀ ++ q :: b :: frees post := by
    rw [frees, kept_append, kept_cons_of_true rfl, ← List.cons_append, ← frees, hsplit]
    simp [frees]
  have hchain := L.chain
  have hnodup := L.nodup
  rw [← List.cons_append, hsplit] at hnodup
  simp only [List.map_append, List.map_cons, List.append_assoc, List.cons_append,
    List.nil_append, List.nodup_append, List.nodup_cons, List.mem_append, List.mem_cons,
    List.mem_map, List.not_mem_nil, not_or, not_exists, not_and, or_false] at hnodup
  obtain ⟨-, ⟨⟨-, hqr, -⟩, -⟩, hl⟩ := hnodup
  rw [hlist] at hchain
  obtain ⟨_, -, rfl, hq, hqb, -, hr⟩ := chain_append.mp hchain
  rw [hqb] at hr
  refine ⟨tiles_around.mpr ⟨hpre, hpos, hpost⟩,
    L.coalesced.left.around L.coalesced.right rfl, ?_, ?_⟩
  · intro t ht
    rw [List.mem_append, List.mem_cons] at ht
    rcases ht with ht | rfl | ht
    · exact L.aligned t (by simp [ht])
    · exact L.aligned (b, none) (by simp)
    · exact L.aligned t (by simp [ht])
  · rw [frees_around, ← List.cons_append, hsplit, List.append_assoc, List.singleton_append]
    refine hchain.replace ?_ ⟨rfl, ?_, ?_⟩
    · intro c hc
      exact Function.update_of_ne (hl _ ⟨c, hc, rfl⟩ _ (.inl rfl)) _ _
    · rw [Function.update_self]
      exact hq
    · rw [Function.update_self]
      exact hr.congr fun c hc => Function.update_of_ne (hqr c hc) _ _

/-- A block that is not free has a header of its own. -/
theorem Linked.addr_ne (L : Linked P link ts) {c d : Block} {k' : Option Live}
    (hc : (c, some k) ∈ ts) (hd : (d, k') ∈ ts) (hne : (c, some k) ≠ (d, k')) : c.addr ≠ d.addr :=
  fun heq => hne (L.tiles.eq_of_addr hc hd heq)

/-- A block that is not free becomes another. -/
theorem Linked.relabel {link' : Nat → BlockLink_t} (L : Linked P link (pre ++ (b, some k) :: post))
    (hsame : ∀ c ∈ P.front :: (frees pre ++ frees post), link' c.addr = link c.addr) (k' : Live) :
    Linked P link' (pre ++ (b, some k') :: post) := by
  have hchain := L.chain
  rw [frees_around] at hchain
  refine ⟨?_, L.coalesced.left.around L.coalesced.right rfl, ?_, ?_⟩
  · obtain ⟨hpre, hpos, hpost⟩ := tiles_around.mp L.tiles
    exact tiles_around.mpr ⟨hpre, hpos, hpost⟩
  · intro t ht
    rw [List.mem_append, List.mem_cons] at ht
    rcases ht with ht | rfl | ht
    · exact L.aligned t (by simp [ht])
    · exact L.aligned (b, some k) (by simp)
    · exact L.aligned t (by simp [ht])
  · rw [frees_around]
    exact hchain.congr hsame

/-- A block that is not free cut in two. -/
theorem Linked.split {link' : Nat → BlockLink_t} {w : Nat}
    (L : Linked P link (pre ++ (b, some k) :: post)) (hpos : 0 < w) (hw : w < b.size) (hdvd : 8 ∣ w)
    (hsame : ∀ c ∈ P.front :: (frees pre ++ frees post), link' c.addr = link c.addr) (k' : Live) :
    Linked P link' (pre ++ [(⟨b.addr, w⟩, some k)] ++
      (⟨b.addr + w, b.size - w⟩, some k') :: post) := by
  obtain ⟨hpre, -, hpost⟩ := tiles_around.mp L.tiles
  have hfin : (⟨b.addr + w, b.size - w⟩ : Block).fin = b.fin := by
    simp only [Block.fin]
    omega
  refine ⟨?_, ?_, ?_, ?_⟩
  · refine tiles_around.mpr ⟨tiles_around.mpr ⟨hpre, hpos, rfl⟩, Nat.sub_pos_of_lt hw, ?_⟩
    rw [hfin]
    exact hpost
  · exact (L.coalesced.left.around (.nil) rfl).around L.coalesced.right rfl
  · have hb := L.aligned (b, some k) (by simp)
    intro t ht
    simp only [List.append_assoc, List.singleton_append, List.mem_append, List.mem_cons] at ht
    rcases ht with ht | rfl | rfl | ht
    · exact L.aligned t (by simp [ht])
    · exact hb
    · exact Nat.dvd_add hb hdvd
    · exact L.aligned t (by simp [ht])
  · have hchain := L.chain
    rw [frees_around] at hchain
    have hpre' : frees (pre ++ [((⟨b.addr, w⟩ : Block), some k)]) = frees pre := by
      rw [frees, kept_append, kept_cons_of_false rfl]
      simp [frees]
    rw [frees_around, hpre']
    exact hchain.congr hsame

/-- **A block of the application cut to size**, where the rest is enough for a block. -/
theorem Linked.splitOff {w : Nat} (L : Linked P h.link (pre ++ (b, some k) :: post))
    (hpxEnd : h.pxEnd = P.pxEnd) (hsize : (h.link b.addr).xBlockSize = b.size) (hpos : 0 < w)
    (hw : w ≤ b.size) (hdvd : 8 ∣ w) :
    ∃ n ts link, w ≤ n ∧ splitOff P w b.addr h = some { h with link := link } ∧
      Linked P link ts ∧ (link b.addr).xBlockSize = n ∧
      (∀ c k', (c, some k') ∈ ts ↔
        (c, some k') ∈ pre ∨ (c, some k') ∈ post ∨ c = ⟨b.addr, n⟩ ∧ k' = k) ∧
      (∀ c k', (c, some k') ∈ pre ∨ (c, some k') ∈ post → link c.addr = h.link c.addr) ∧
      link P.pxEnd = h.link P.pxEnd ∧
      ((frees ts).map Block.size).sum + n =
        ((frees (pre ++ (b, some k) :: post)).map Block.size).sum + b.size := by
  unfold EthIo.Rtos.splitOff
  rw [hsize]
  split_ifs with hlarge
  · have hmin : heapMINIMUM_BLOCK_SIZE = 16 := rfl
    have hlt : w < b.size := by omega
    have hbmem : (b, some k) ∈ pre ++ (b, some k) :: post := by simp
    have hbfin := (L.tiles.mem hbmem).2.2
    -- the new header stands inside the block
    have hnew {t : Block × Option Live} (ht : t ∈ pre ∨ t ∈ post) :
        t.1.addr ≠ b.addr ∧ t.1.addr ≠ b.addr + w := by
      have hin : t ∈ pre ++ (b, some k) :: post := by
        rw [List.mem_append, List.mem_cons]
        exact ht.imp id .inr
      obtain ⟨hpre, -, hpost⟩ := tiles_around.mp L.tiles
      have hfin : b.fin = b.addr + b.size := rfl
      rcases ht with ht | ht
      · have hlt := hpre.addr_lt ht
        simp only at hlt
        omega
      · have hle := (hpost.mem ht).1
        simp only at hle
        omega
    generalize hh₂ : (h.set (b.addr + w) { h.link (b.addr + w) with xBlockSize := b.size - w }).set
      b.addr
      { (h.set (b.addr + w) { h.link (b.addr + w) with xBlockSize := b.size - w }).link b.addr with
        xBlockSize := w } = h₂
    have hh₂' : h₂ = { h with link := h₂.link } := by rw [← hh₂]; rfl
    have hother (a : Nat) (ha : a ≠ b.addr) (ha' : a ≠ b.addr + w) : h₂.link a = h.link a := by
      rw [← hh₂]
      exact (Function.update_of_ne ha _ _).trans (Function.update_of_ne ha' _ _)
    have hself : (h₂.link b.addr).xBlockSize = w := by
      rw [← hh₂]
      simp only [Heap.set, Function.update_self]
    have hrest : (h₂.link (b.addr + w)).xBlockSize = b.size - w := by
      rw [← hh₂]
      simp only [Heap.set]
      rw [Function.update_of_ne (Nat.ne_of_gt (Nat.lt_add_of_pos_right hpos)), Function.update_self]
    have hpx₂ : h₂.pxEnd = P.pxEnd := by rw [hh₂', hpxEnd]
    have hagree : ∀ c ∈ P.front :: (frees pre ++ frees post), h₂.link c.addr = h.link c.addr := by
      intro c hc
      rcases List.mem_cons.mp hc with rfl | hc
      · refine hother _ (L.xStart_ne hbmem) ?_
        have hle := L.tiles.mem hbmem
        have hfin : b.fin = b.addr + b.size := rfl
        simp only at hle
        exact P.xStart_apart (by omega) (by omega)
      · rcases List.mem_append.mp hc with hc | hc
        · exact hother _ (hnew (.inl (mem_frees.mp hc))).1 (hnew (.inl (mem_frees.mp hc))).2
        · exact hother _ (hnew (.inr (mem_frees.mp hc))).1 (hnew (.inr (mem_frees.mp hc))).2
    have L₂ := L.split hpos hlt hdvd hagree .freeing
    obtain ⟨ts, link, hins, L₃, howners, hframe, hsum⟩ := L₂.insert hpx₂ hrest
    have hpre' : frees (pre ++ [((⟨b.addr, w⟩ : Block), some k)]) = frees pre := by
      rw [frees, kept_append, kept_cons_of_false rfl]
      simp [frees]
    rw [frees_around, hpre', ← frees_around (b := b) (k := k)] at hsum
    rw [hpre'] at hframe
    have hkeeps (a : Nat) (hstart : P.xStart ≠ a) (ha : a ≠ b.addr + w)
        (hfree : ∀ c ∈ frees pre, a ≠ c.addr) : link a = h₂.link a := hframe a hstart.symm ha hfree
    refine ⟨w, ts, link, le_rfl, ?_, L₃, ?_, ?_, ?_, ?_, ?_⟩
    · simp only [hh₂]
      rw [hins, hh₂']
    · rw [hkeeps _ (L.xStart_ne hbmem) (Nat.ne_of_lt (Nat.lt_add_of_pos_right hpos)), hself]
      intro c hc
      exact (hnew (.inl (mem_frees.mp hc))).1.symm
    · intro c k'
      rw [howners]
      simp only [List.mem_append, List.mem_singleton, Prod.mk.injEq, Option.some.injEq]
      tauto
    · intro c k' hc
      have hne := hnew hc
      have hin : (c, some k') ∈ pre ++ (b, some k) :: post := by
        rw [List.mem_append, List.mem_cons]
        exact hc.imp id .inr
      rw [hkeeps _ (L.xStart_ne hin) hne.2]
      · exact hother _ hne.1 hne.2
      · intro d hd
        exact L.addr_ne hin (List.mem_append_left _ (mem_frees.mp hd)) (by simp)
    · have hlt := L.tiles.addr_lt hbmem
      have hfin : b.fin = b.addr + b.size := rfl
      simp only at hbfin hlt
      rw [hkeeps _ (P.xStart_apart P.bounds.2.2.2.1.le le_rfl) (by omega)]
      · exact hother _ (by omega) (by omega)
      · intro d hd
        exact Nat.ne_of_gt (L.tiles.addr_lt (t := (d, none)) (by simp [mem_frees.mp hd]))
    · rw [hsum, Nat.add_assoc]
      exact congrArg _ (Nat.sub_add_cancel hw)
  · refine ⟨b.size, _, h.link, hw, rfl, L, hsize, ?_, fun _ _ _ => rfl, rfl, rfl⟩
    intro c k'
    simp only [List.mem_append, List.mem_cons, Prod.mk.injEq, Option.some.injEq]
    tauto

/-- **The block the loop has found.** It is not free any more, and what it has more than is wanted
goes back to the list where that is enough for a block. -/
theorem Linked.takeOut {l₀ : List Block} {q : Block} {w : Nat}
    (L : Linked P h.link (pre ++ (b, none) :: post)) (hpxEnd : h.pxEnd = P.pxEnd)
    (hsplit : P.front :: frees pre = l₀ ++ [q]) (hpos : 0 < w) (hw : w ≤ b.size) (hdvd : 8 ∣ w)
    (k : Live) :
    ∃ n ts link, w ≤ n ∧ takeOut P w q.addr b.addr h = some { h with link := link } ∧
      Linked P link ts ∧ (link b.addr).xBlockSize = n ∧
      (∀ c k', (c, some k') ∈ ts ↔
        (c, some k') ∈ pre ++ (b, none) :: post ∨ c = ⟨b.addr, n⟩ ∧ k' = k) ∧
      (∀ c k', (c, some k') ∈ pre ++ (b, none) :: post → link c.addr = h.link c.addr) ∧
      link P.pxEnd = h.link P.pxEnd ∧
      ((frees ts).map Block.size).sum + n =
        ((frees (pre ++ (b, none) :: post)).map Block.size).sum := by
  have hbmem : (b, none) ∈ pre ++ (b, none) :: post := by simp
  have hq : q ∈ P.front :: frees pre := by rw [hsplit]; simp
  have hsum : ((frees (pre ++ (b, none) :: post)).map Block.size).sum =
      ((frees (pre ++ (b, some k) :: post)).map Block.size).sum + b.size := by
    rw [frees_around, frees, kept_append, kept_cons_of_true rfl]
    simp only [frees, List.map_append, List.map_cons, List.sum_append, List.sum_cons]
    omega
  have hmem (c : Block) (k' : Live) : (c, some k') ∈ pre ++ (b, none) :: post ↔
      (c, some k') ∈ pre ∨ (c, some k') ∈ post := by simp
  generalize hh₁ : h.set q.addr
    { h.link q.addr with pxNextFreeBlock := (h.link b.addr).pxNextFreeBlock } = h₁
  have L₁ : Linked P h₁.link (pre ++ (b, some k) :: post) := by
    rw [← hh₁]
    exact L.unlink hsplit k
  -- the size in a header has not changed, and no header but that of `q`
  have hsize : (h₁.link b.addr).xBlockSize = b.size := by
    rw [← L.chain.size (List.mem_cons_of_mem _ (mem_frees.mpr hbmem)), ← hh₁]
    simp only [Heap.set, Function.update_apply]
    split_ifs with hbq
    · rw [hbq]
    · rfl
  have hqne (a : Nat) (hstart : P.xStart ≠ a) (hfree : ∀ c ∈ frees pre, a ≠ c.addr) :
      h₁.link a = h.link a := by
    rw [← hh₁]
    apply Function.update_of_ne
    rcases List.mem_cons.mp hq with rfl | hq
    · exact hstart.symm
    · exact hfree q hq
  obtain ⟨n, ts, link, hwn, hsplitOff, L₂, hn, howners, hframe, hend, hsum'⟩ :=
    L₁.splitOff (w := w) (by rw [← hh₁]; exact hpxEnd) hsize hpos hw hdvd
  refine ⟨n, ts, link, hwn, ?_, L₂, hn, ?_, ?_, ?_, by rw [hsum', hsum]⟩
  · rw [EthIo.Rtos.takeOut, hh₁, hsplitOff, ← hh₁]
    rfl
  · intro c k'
    rw [howners, hmem, or_assoc]
  · intro c k' hc
    rw [hframe c k' ((hmem c k').mp hc)]
    apply hqne _ (L.xStart_ne hc)
    intro d hd
    exact L.addr_ne hc (List.mem_append_left _ (mem_frees.mp hd)) (by simp)
  · rw [hend]
    apply hqne _ (P.xStart_apart P.bounds.2.2.2.1.le le_rfl)
    intro d hd
    exact Nat.ne_of_gt (L.tiles.addr_lt (List.mem_append_left _ (mem_frees.mp hd)))

end Linked

end EthIo.Rtos
