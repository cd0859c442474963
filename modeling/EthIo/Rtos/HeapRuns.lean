import EthIo.Base.Machine
import EthIo.Rtos.HeapCalls

/-!
# The heap and its callers

Any number of tasks call `pvPortMalloc` and `vPortFree`. A call of `pvPortMalloc` is one step, as
the scheduler is suspended in it; `vPortFree` clears the bit of a block before it suspends the
scheduler, so it is two steps, and others run between them. What the application does with a block
it holds is a step as well: it may write anything there, headers that once stood in it included.

What is asked of the application is that it gives back only what it holds, and writes only there.
Then no call ever fails to return, what is held by different callers never overlaps, and a request
is refused only where no hole in the heap is large enough.
-/

namespace EthIo.Rtos

open EthIo.Base

structure HeapSys where
  heap : Heap
  /-- The blocks the application holds or is giving back, by the address it was given. -/
  live : Nat → Option Live

inductive HeapLabel
  | pvPortMalloc (xWantedSize : UInt32)
  /-- `vPortFree` up to `vTaskSuspendAll`. -/
  | vPortFree (pv : Nat)
  /-- The rest of it. -/
  | vPortFree_suspended (pv : Nat)
  /-- The application writes to a block. -/
  | store (pv offset : Nat) (l : BlockLink_t)

def HeapSys.step (P : HeapPlace) (s : HeapSys) : HeapLabel → Option HeapSys
  | .pvPortMalloc xWantedSize =>
    (pvPortMalloc P xWantedSize.toNat s.heap).map fun (heap, pv) =>
      { heap := heap
        live :=
          if pv = NULL then s.live
          else Function.update s.live pv (some (.held xWantedSize.toNat)) }
  | .vPortFree pv =>
    let r := vPortFree pv s.heap
    match s.live pv with
    | some (.held _) =>
      some
        { heap := r.1
          live := if r.2.isSome then Function.update s.live pv (some .freeing) else s.live }
    | _ => if pv = NULL then some { s with heap := r.1 } else none
  | .vPortFree_suspended pv =>
    match s.live pv with
    | some .freeing =>
      (vPortFree_suspended P (pv - xHeapStructSize) s.heap).map fun heap =>
        { heap := heap, live := Function.update s.live pv none }
    | _ => none
  | .store pv offset l =>
    match s.live pv with
    | some (.held xWantedSize) =>
      if offset < xWantedSize then some { s with heap := s.heap.set (pv + offset) l } else none
    | _ => none

/-- The heap with its callers. -/
def heapSys (P : HeapPlace) : Machine HeapSys HeapLabel := ⟨HeapSys.step P⟩

/-- Nothing has been called. -/
def heapStart : HeapSys where
  heap :=
    { link := fun _ => ⟨NULL, 0⟩
      pxEnd := NULL
      xFreeBytesRemaining := 0
      xMinimumEverFreeBytesRemaining := 0
      xBlockAllocatedBit := 0 }
  live _ := none

/-! ## The invariant -/

/-- Who holds what is what the tiling says. -/
def Owns (live : Nat → Option Live) (ts : List (Block × Option Live)) : Prop :=
  ∀ pv k, live pv = some k ↔ ∃ b, (b, some k) ∈ ts ∧ pv = b.addr + xHeapStructSize

structure HeapInv (P : HeapPlace) (s : HeapSys) (ts : List (Block × Option Live)) : Prop where
  laid : Laid P (initialised P s.heap) ts
  owns : Owns s.live ts
  fresh : s.heap.pxEnd = NULL → ∀ pv, s.live pv = none

section Inv

variable {P : HeapPlace} {s s' : HeapSys} {ts ts' pre post : List (Block × Option Live)}
  {live : Nat → Option Live} {b : Block} {pv : Nat} {k : Live}

theorem heapInv_start (P : HeapPlace) :
    HeapInv P heapStart [(⟨P.pucAlignedHeap, P.pxEnd - P.pucAlignedHeap⟩, none)] where
  laid := laid_prvHeapInit P _
  owns pv k := by
    constructor
    · intro h
      cases h
    · rintro ⟨b, hb, -⟩
      simp at hb
  fresh _ _ := rfl

/-- Once something is held, the heap has been initialised. -/
theorem HeapInv.of_live (I : HeapInv P s ts) (hlive : s.live pv = some k) : Laid P s.heap ts := by
  have hinit : s.heap.pxEnd ≠ NULL := fun h =>
    absurd ((I.fresh h pv).symm.trans hlive) (Option.some_ne_none k).symm
  have hlaid := I.laid
  rwa [initialised, if_neg hinit] at hlaid

theorem Laid.pxEnd_ne_null {heap : Heap} (L : Laid P heap ts) : heap.pxEnd ≠ NULL := by
  rw [L.pxEnd]
  exact P.pxEnd_ne_null

theorem Laid.inv {heap : Heap} (L : Laid P heap ts) (hlive : Owns live ts) :
    HeapInv P ⟨heap, live⟩ ts where
  laid := by
    rw [L.initialised_eq]
    exact L
  owns := hlive
  fresh h := absurd h L.pxEnd_ne_null

/-- A block of the application, in the tiling. -/
theorem HeapInv.block (I : HeapInv P s ts) (hlive : s.live pv = some k) :
    ∃ b pre post, ts = pre ++ (b, some k) :: post ∧ pv = b.addr + xHeapStructSize := by
  obtain ⟨b, hb, hpv⟩ := (I.owns pv k).mp hlive
  obtain ⟨pre, post, rfl⟩ := List.append_of_mem hb
  exact ⟨b, pre, post, rfl, hpv⟩

/-- A block handed out. -/
theorem Owns.handedOut {n m : Nat} (h : Owns live ts)
    (htiles : Tiles P.pucAlignedHeap ts P.pxEnd) (hb : (b, none) ∈ ts)
    (howners : ∀ c k, (c, some k) ∈ ts' ↔ (c, some k) ∈ ts ∨ c = ⟨b.addr, m⟩ ∧ k = .held n) :
    Owns (Function.update live (b.addr + xHeapStructSize) (some (.held n))) ts' := by
  intro pv k
  by_cases hpv : pv = b.addr + xHeapStructSize
  · subst hpv
    rw [Function.update_self]
    constructor
    · intro hk
      cases hk
      exact ⟨_, (howners _ _).mpr (.inr ⟨rfl, rfl⟩), rfl⟩
    · rintro ⟨c, hc, hpv⟩
      rcases (howners c k).mp hc with hc | ⟨-, rfl⟩
      · -- the block was free
        have heq := htiles.eq_of_addr hc hb (Nat.add_right_cancel hpv).symm
        cases heq
      · rfl
  · rw [Function.update_of_ne hpv, h]
    constructor
    · rintro ⟨c, hc, hpv⟩
      exact ⟨c, (howners c k).mpr (.inl hc), hpv⟩
    · rintro ⟨c, hc, hpv'⟩
      rcases (howners c k).mp hc with hc | ⟨rfl, -⟩
      · exact ⟨c, hc, hpv'⟩
      · exact absurd hpv' hpv

/-- A block that is another, or none any more. -/
theorem Owns.relabelled {k' : Option Live} (h : Owns live (pre ++ (b, some k) :: post))
    (htiles : Tiles P.pucAlignedHeap (pre ++ (b, some k) :: post) P.pxEnd)
    (howners : ∀ c l, (c, some l) ∈ ts' ↔
      (c, some l) ∈ pre ∨ (c, some l) ∈ post ∨ c = b ∧ some l = k') :
    Owns (Function.update live (b.addr + xHeapStructSize) k') ts' := by
  intro pv l
  by_cases hpv : pv = b.addr + xHeapStructSize
  · subst hpv
    rw [Function.update_self]
    constructor
    · intro hk
      exact ⟨b, (howners b l).mpr (.inr (.inr ⟨rfl, hk.symm⟩)), rfl⟩
    · rintro ⟨c, hc, hpv⟩
      have haddr : c.addr = b.addr := (Nat.add_right_cancel hpv).symm
      rcases (howners c l).mp hc with hc | hc | ⟨-, hl⟩
      · exact absurd haddr (htiles.addr_ne_around (u := (c, some l)) (.inl hc))
      · exact absurd haddr (htiles.addr_ne_around (u := (c, some l)) (.inr hc))
      · exact hl.symm
  · rw [Function.update_of_ne hpv, h]
    constructor
    · rintro ⟨c, hc, hpv'⟩
      refine ⟨c, (howners c l).mpr ?_, hpv'⟩
      rw [List.mem_append, List.mem_cons] at hc
      rcases hc with hc | hc | hc
      · exact .inl hc
      · cases hc
        exact absurd hpv' hpv
      · exact .inr (.inl hc)
    · rintro ⟨c, hc, hpv'⟩
      refine ⟨c, ?_, hpv'⟩
      rw [List.mem_append, List.mem_cons]
      rcases (howners c l).mp hc with hc | hc | ⟨rfl, -⟩
      · exact .inl hc
      · exact .inr (.inr hc)
      · exact absurd hpv' hpv

end Inv

/-! ## What one step does -/

/-- How a step changes the two counts: the least follows what is free, or nothing is taken. -/
def Counts (h h' : Heap) : Prop :=
  h'.pxEnd ≠ NULL ∧
    (h'.xMinimumEverFreeBytesRemaining =
        min h.xMinimumEverFreeBytesRemaining h'.xFreeBytesRemaining ∨
      h.xFreeBytesRemaining ≤ h'.xFreeBytesRemaining ∧
        h'.xMinimumEverFreeBytesRemaining = h.xMinimumEverFreeBytesRemaining)

section Step

variable {P : HeapPlace} {s s' : HeapSys} {ts : List (Block × Option Live)} {pv n offset : Nat}

/-- The first call is one of an initialised heap. -/
theorem HeapInv.first (I : HeapInv P s ts) (n : Nat) :
    EthIo.Rtos.pvPortMalloc P n s.heap =
      EthIo.Rtos.pvPortMalloc P n (initialised P s.heap) := by
  have hagain : initialised P (initialised P s.heap) = initialised P s.heap :=
    I.laid.initialised_eq
  unfold EthIo.Rtos.pvPortMalloc
  rw [hagain]

/-- A call of `pvPortMalloc` returns. -/
theorem HeapInv.pvPortMalloc (I : HeapInv P s ts) (xWantedSize : UInt32) :
    ∃ s' ts', s.step P (.pvPortMalloc xWantedSize) = some s' ∧ HeapInv P s' ts' ∧
      Counts (initialised P s.heap) s'.heap := by
  have hlt : xWantedSize.toNat < 2 ^ 32 := xWantedSize.toNat_lt
  have hsame := I.first xWantedSize.toNat
  unfold HeapSys.step
  rcases I.laid.pvPortMalloc hlt with
    ⟨hnull, -⟩ | ⟨-, b, hb, -, m, h', ts', hpv, L', howners, -, hmin⟩
  · refine ⟨⟨initialised P s.heap, s.live⟩, ts, ?_, I.laid.inv I.owns,
      I.laid.pxEnd_ne_null, .inr ⟨le_rfl, rfl⟩⟩
    simp only [hsame, hnull, Option.map_some, if_true]
  · have hne : b.addr + xHeapStructSize ≠ NULL := Nat.succ_ne_zero _
    refine ⟨⟨h', _⟩, ts', ?_,
      L'.inv (I.owns.handedOut I.laid.tiles (mem_frees.mp hb) howners), L'.pxEnd_ne_null, .inl ?_⟩
    · simp only [hsame, hpv, Option.map_some, if_neg hne]
    · rw [hmin, Nat.min_comm]

/-- A call of `vPortFree` for a block that is held finds it. -/
theorem HeapInv.vPortFree (I : HeapInv P s ts) (hlive : s.live pv = some (.held n)) :
    ∃ s' ts', s.step P (.vPortFree pv) = some s' ∧ HeapInv P s' ts' ∧
      s'.live = Function.update s.live pv (some .freeing) ∧ Counts s.heap s'.heap := by
  have L := I.of_live hlive
  obtain ⟨b, pre, post, rfl, rfl⟩ := I.block hlive
  obtain ⟨h', hfree, L', hbytes, hmin⟩ := L.vPortFree
  refine ⟨⟨h', Function.update s.live (b.addr + xHeapStructSize) (some .freeing)⟩, _, ?_,
    L'.inv (I.owns.relabelled L.tiles ?_), rfl, L'.pxEnd_ne_null, .inr ⟨hbytes.ge, hmin⟩⟩
  · simp only [HeapSys.step, hlive, hfree, Option.isSome_some, if_true]
  · intro c l
    simp only [List.mem_append, List.mem_cons, Prod.mk.injEq, Option.some.injEq]
    tauto

/-- The block is inserted into the free list. -/
theorem HeapInv.vPortFree_suspended (I : HeapInv P s ts) (hlive : s.live pv = some .freeing) :
    ∃ s' ts', s.step P (.vPortFree_suspended pv) = some s' ∧ HeapInv P s' ts' ∧
      Counts s.heap s'.heap := by
  have L := I.of_live hlive
  obtain ⟨b, pre, post, rfl, rfl⟩ := I.block hlive
  obtain ⟨h', ts', hfree, L', howners, hbytes, hmin⟩ := L.vPortFree_suspended
  refine ⟨⟨h', Function.update s.live (b.addr + xHeapStructSize) none⟩, ts', ?_,
    L'.inv (I.owns.relabelled L.tiles ?_), L'.pxEnd_ne_null, .inr ⟨hbytes, hmin⟩⟩
  · simp only [HeapSys.step, hlive, Nat.add_sub_cancel, hfree, Option.map_some]
  · intro c l
    rw [howners]
    simp

/-- **Every step keeps the invariant.** -/
theorem heapInv_keep {a : HeapLabel} (I : HeapInv P s ts) (hs : s.step P a = some s') :
    (∃ ts', HeapInv P s' ts') ∧ (s' = s ∨ Counts (initialised P s.heap) s'.heap) := by
  cases a with
  | pvPortMalloc xWantedSize =>
    obtain ⟨s₁, ts', hs₁, I', hcounts⟩ := I.pvPortMalloc xWantedSize
    rw [hs] at hs₁
    cases hs₁
    exact ⟨⟨ts', I'⟩, .inr hcounts⟩
  | vPortFree pv =>
    cases hlive : s.live pv with
    | none =>
      simp only [HeapSys.step, hlive] at hs
      split_ifs at hs with hnull
      cases hs
      have hsame : EthIo.Rtos.vPortFree pv s.heap = (s.heap, none) := if_neg (not_not.mpr hnull)
      rw [hsame]
      exact ⟨⟨ts, I⟩, .inl rfl⟩
    | some k =>
      have L := I.of_live hlive
      rw [L.initialised_eq]
      cases k with
      | held n =>
        obtain ⟨s₁, ts', hs₁, I', -, hcounts⟩ := I.vPortFree hlive
        rw [hs] at hs₁
        cases hs₁
        exact ⟨⟨ts', I'⟩, .inr hcounts⟩
      | freeing =>
        obtain ⟨b, pre, post, -, rfl⟩ := I.block hlive
        simp only [HeapSys.step, hlive] at hs
        rw [if_neg (show b.addr + xHeapStructSize ≠ NULL from Nat.succ_ne_zero _)] at hs
        cases hs
  | vPortFree_suspended pv =>
    cases hlive : s.live pv with
    | none => simp [HeapSys.step, hlive] at hs
    | some k =>
      rw [(I.of_live hlive).initialised_eq]
      cases k with
      | held n => simp [HeapSys.step, hlive] at hs
      | freeing =>
        obtain ⟨s₁, ts', hs₁, I', hcounts⟩ := I.vPortFree_suspended hlive
        rw [hs] at hs₁
        cases hs₁
        exact ⟨⟨ts', I'⟩, .inr hcounts⟩
  | store pv offset l =>
    cases hlive : s.live pv with
    | none => simp [HeapSys.step, hlive] at hs
    | some k =>
      have L := I.of_live hlive
      rw [L.initialised_eq]
      cases k with
      | held n =>
        obtain ⟨b, pre, post, rfl, rfl⟩ := I.block hlive
        simp only [HeapSys.step, hlive] at hs
        split_ifs at hs with hoffset
        cases hs
        have L' := L.store (b := b) (by simp) hoffset l
        exact ⟨⟨_, L'.inv I.owns⟩, .inr ⟨L'.pxEnd_ne_null, .inr ⟨le_rfl, rfl⟩⟩⟩
      | freeing => simp [HeapSys.step, hlive] at hs

end Step

/-! ## Whole runs -/

theorem heapInv_reachable {P : HeapPlace} {s : HeapSys} (h : (heapSys P).Reachable heapStart s) :
    ∃ ts, HeapInv P s ts :=
  Machine.invariant (I := fun s => ∃ ts, HeapInv P s ts)
    (fun _ _ _ hI hs => hI.elim fun _ I => (heapInv_keep I hs).1) ⟨_, heapInv_start P⟩ h

/-- **The heap is sound**, whatever its callers do in between: what they hold is aligned, lies in
`ucHeap` behind a header, and never overlaps; every call returns, and a block that is given back is
accepted. -/
theorem heap_sound (P : HeapPlace) {s : HeapSys} (h : (heapSys P).Reachable heapStart s) :
    (∀ pv n, s.live pv = some (.held n) → 8 ∣ pv ∧
      P.ucHeap + xHeapStructSize ≤ pv ∧
      pv + n + xHeapStructSize ≤ P.ucHeap + configTOTAL_HEAP_SIZE) ∧
    (∀ pv pv' n n', s.live pv = some (.held n) → s.live pv' = some (.held n') → pv ≠ pv' →
      pv + n + xHeapStructSize ≤ pv' ∨ pv' + n' + xHeapStructSize ≤ pv) ∧
    (∀ xWantedSize, ∃ s', s.step P (.pvPortMalloc xWantedSize) = some s') ∧
    (∀ pv n, s.live pv = some (.held n) → ∃ s', s.step P (.vPortFree pv) = some s' ∧
      s'.live = Function.update s.live pv (some .freeing)) ∧
    ∀ pv, s.live pv = some .freeing → ∃ s', s.step P (.vPortFree_suspended pv) = some s' := by
  obtain ⟨ts, I⟩ := heapInv_reachable h
  have hstruct : xHeapStructSize = 8 := rfl
  have hbounds := P.bounds
  have hheld {pv n : Nat} (hlive : s.live pv = some (.held n)) : ∃ b, (b, some (.held n)) ∈ ts ∧
      pv = b.addr + xHeapStructSize ∧ pv + n ≤ b.fin := by
    obtain ⟨b, hb, rfl⟩ := (I.owns pv _).mp hlive
    obtain ⟨-, -, hroom⟩ : Header s.heap.link (b, some (.held n)) := (I.of_live hlive).headers _ hb
    have hfin : b.fin = b.addr + b.size := rfl
    exact ⟨b, hb, rfl, by omega⟩
  refine ⟨?_, ?_, ?_, ?_, ?_⟩
  · intro pv n hlive
    obtain ⟨b, hb, rfl, hroom⟩ := hheld hlive
    obtain ⟨hstart, -, hend⟩ := I.laid.tiles.mem hb
    simp only at hstart hend
    exact ⟨Nat.dvd_add (I.laid.aligned _ hb) (Nat.dvd_refl 8), by omega, by omega⟩
  · intro pv pv' n n' hlive hlive' hne
    obtain ⟨b, hb, rfl, hroom⟩ := hheld hlive
    obtain ⟨b', hb', rfl, hroom'⟩ := hheld hlive'
    have hblocks : (b, some (Live.held n)) ≠ (b', some (.held n')) := by
      intro heq
      cases heq
      exact hne rfl
    rcases I.laid.tiles.apart hb hb' hblocks with hle | hle
    · have hle : b.fin ≤ b'.addr := hle
      exact .inl (by omega)
    · have hle : b'.fin ≤ b.addr := hle
      exact .inr (by omega)
  · intro xWantedSize
    obtain ⟨s', -, hs', -⟩ := I.pvPortMalloc xWantedSize
    exact ⟨s', hs'⟩
  · intro pv n hlive
    obtain ⟨s', -, hs', -, hlive', -⟩ := I.vPortFree hlive
    exact ⟨s', hs', hlive'⟩
  · intro pv hlive
    obtain ⟨s', -, hs', -⟩ := I.vPortFree_suspended hlive
    exact ⟨s', hs'⟩

/-- A heap in RAM that is not aligned. -/
def ram : HeapPlace where
  ucHeap := 0x20000004
  xStart := 0x20010000
  pos := by decide
  fits := by decide
  apart := .inr (by decide)

/-- Two blocks, the first of which is written to and given back. -/
def someCalls : List HeapLabel :=
  [.pvPortMalloc 100, .pvPortMalloc 24, .store 0x20000010 8 ⟨7, 7⟩, .vPortFree 0x20000010,
    .vPortFree_suspended 0x20000010]

theorem heap_sound_some_calls :
    ∃ s, (heapSys ram).exec heapStart someCalls = some s ∧
      s.live 0x20000080 = some (.held 24) ∧ 8 ∣ 0x20000080 ∧
      ∀ xWantedSize, ∃ s', s.step ram (.pvPortMalloc xWantedSize) = some s' :=
  ⟨_, rfl, rfl, ((heap_sound ram ⟨someCalls, rfl⟩).1 0x20000080 24 rfl).1,
    (heap_sound ram ⟨someCalls, rfl⟩).2.2.1⟩

/-- The address belongs to a block that is held or being given back, its header included. -/
def Owned (s : HeapSys) (x : Nat) : Prop :=
  ∃ pv k, s.live pv = some k ∧ pv - xHeapStructSize ≤ x ∧
    x < pv - xHeapStructSize +
      ((s.heap.link (pv - xHeapStructSize)).xBlockSize &&& complement (2 ^ 31))

/-- A hole of `m` bytes in the heap. -/
def Hole (P : HeapPlace) (s : HeapSys) (m : Nat) : Prop :=
  ∃ x, P.pucAlignedHeap ≤ x ∧ x + m ≤ P.pxEnd ∧ ∀ y, x ≤ y → y < x + m → ¬ Owned s y

/-- What is owned is what the blocks that are not free have. -/
theorem HeapInv.owned_iff {P : HeapPlace} {s : HeapSys} {ts : List (Block × Option Live)}
    (I : HeapInv P s ts) {t : Block × Option Live} {x : Nat} (ht : t ∈ ts) (hx : t.1.Has x) :
    ¬ Owned s x ↔ t.2.isNone = true := by
  have hsize {b : Block} {k : Live} (hb : (b, some k) ∈ ts) :
      (s.heap.link b.addr).xBlockSize &&& complement (2 ^ 31) = b.size := by
    have L := I.of_live ((I.owns _ k).mpr ⟨b, hb, rfl⟩)
    have hlt : b.size < 2 ^ 31 := L.size_lt hb
    cases k with
    | held n =>
      obtain ⟨hlink, -⟩ : Header s.heap.link (b, some (.held n)) := L.headers _ hb
      rw [hlink, and_complement_top hlt]
    | freeing =>
      have hlink : s.heap.link b.addr = ⟨NULL, b.size⟩ := L.headers _ hb
      have hmask : complement (2 ^ 31) = 2 ^ 31 - 1 := rfl
      rw [hlink, hmask, Nat.and_two_pow_sub_one_eq_mod, Nat.mod_eq_of_lt hlt]
  obtain ⟨b, k⟩ := t
  cases k with
  | none =>
    refine iff_of_true ?_ rfl
    rintro ⟨pv, k, hlive, hle, hlt⟩
    obtain ⟨c, hc, rfl⟩ := (I.owns pv k).mp hlive
    rw [Nat.add_sub_cancel] at hle hlt
    rw [hsize hc] at hlt
    have heq := I.laid.tiles.unique ht hc hx ⟨hle, hlt⟩
    cases heq
  | some k =>
    refine iff_of_false (not_not.mpr ⟨b.addr + xHeapStructSize, k, ?_, ?_, ?_⟩) Bool.noConfusion
    · exact (I.owns _ k).mpr ⟨b, ht, rfl⟩
    · rw [Nat.add_sub_cancel]
      exact hx.1
    · rw [Nat.add_sub_cancel, hsize ht]
      exact hx.2

/-- **A request is refused only where there is no room for it**: in any state the callers can bring
the heap to, `pvPortMalloc` returns `NULL` if and only if the size is zero or has the top bit, or no
hole in the heap has as many bytes as the block needs. -/
theorem pvPortMalloc_null_iff (P : HeapPlace) {s : HeapSys}
    (h : (heapSys P).Reachable heapStart s) (xWantedSize : UInt32) :
    ∃ heap pv, pvPortMalloc P xWantedSize.toNat s.heap = some (heap, pv) ∧
      (pv = NULL ↔ xWantedSize.toNat = 0 ∨ 2 ^ 31 ≤ xWantedSize.toNat ∨
        ¬ Hole P s (increased xWantedSize.toNat)) := by
  obtain ⟨ts, I⟩ := heapInv_reachable h
  rw [I.first]
  rcases I.laid.pvPortMalloc xWantedSize.toNat_lt with
    ⟨hnull, hwhy⟩ | ⟨⟨hpos, htop⟩, b, hb, hfits, m, h', ts', hpv, -⟩
  · refine ⟨_, _, hnull, iff_of_true rfl ?_⟩
    rcases hwhy with hzero | htop | hsmall
    · exact .inl hzero
    · exact .inr (.inl htop)
    · by_cases hzero : xWantedSize.toNat = 0
      · exact .inl hzero
      by_cases htop : 2 ^ 31 ≤ xWantedSize.toNat
      · exact .inr (.inl htop)
      refine .inr (.inr ?_)
      rintro ⟨x, hstart, hend, hfree⟩
      have hneed := increased_eq (Nat.pos_of_ne_zero hzero) (Nat.lt_of_not_le htop)
      obtain ⟨b, hb, hle, hge⟩ := I.laid.tiles.hole I.laid.coalesced (by omega) hstart hend
        fun t ht y hy hy' hhas => (I.owned_iff ht hhas).mp (hfree y hy hy')
      have hsize := hsmall b hb
      have hfin : b.fin = b.addr + b.size := rfl
      omega
  · refine ⟨_, _, hpv, iff_of_false (Nat.succ_ne_zero _) ?_⟩
    rintro (hzero | htop' | hnone)
    · exact Nat.ne_of_gt hpos hzero
    · exact Nat.not_lt.mpr htop' htop
    · have hmem := I.laid.tiles.mem (mem_frees.mp hb)
      have hfin : b.fin = b.addr + b.size := rfl
      simp only at hmem
      refine hnone ⟨b.addr, hmem.1, by omega, fun y hy hy' => ?_⟩
      exact (I.owned_iff (mem_frees.mp hb) ⟨hy, by simp only; omega⟩).mpr rfl

theorem pvPortMalloc_null_some_calls :
    ∃ s, (heapSys ram).exec heapStart someCalls = some s ∧
      ∃ heap pv, pvPortMalloc ram (20000 : UInt32).toNat s.heap = some (heap, pv) ∧
        (pv = NULL ↔ (20000 : UInt32).toNat = 0 ∨ 2 ^ 31 ≤ (20000 : UInt32).toNat ∨
          ¬ Hole ram s (increased (20000 : UInt32).toNat)) :=
  ⟨_, rfl, pvPortMalloc_null_iff ram ⟨someCalls, rfl⟩ 20000⟩

/-- The least that has been free at the end of a call. -/
def LeastFree (P : HeapPlace) (ls : List HeapLabel) (n : Nat) : Prop :=
  (∀ pre, pre <+: ls → ∀ s, (heapSys P).exec heapStart pre = some s → s.heap.pxEnd ≠ NULL →
    n ≤ xPortGetFreeHeapSize s.heap) ∧
  ∃ pre s, pre <+: ls ∧ (heapSys P).exec heapStart pre = some s ∧ s.heap.pxEnd ≠ NULL ∧
    xPortGetFreeHeapSize s.heap = n

theorem Laid.free_le {P : HeapPlace} {h : Heap} {ts : List (Block × Option Live)}
    (L : Laid P h ts) : h.xFreeBytesRemaining ≤ P.pxEnd - P.pucAlignedHeap := by
  have htotal := L.tiles.total
  have hsub := ((kept_sublist Option.isNone ts).map Block.size).sum_le_sum fun _ _ => Nat.zero_le _
  rw [List.map_map] at hsub
  rw [L.free, frees]
  exact Nat.le_sub_of_add_le' (htotal ▸ Nat.add_le_add_left hsub _)

/-- A bound of what has been free, one call on. -/
theorem least_concat {P : HeapPlace} {ls : List HeapLabel} {a : HeapLabel} {s : HeapSys} {n : Nat}
    (hls : ∀ pre, pre <+: ls → ∀ s, (heapSys P).exec heapStart pre = some s →
      s.heap.pxEnd ≠ NULL → n ≤ xPortGetFreeHeapSize s.heap)
    (hrun : (heapSys P).exec heapStart (ls ++ [a]) = some s)
    (hn : n ≤ xPortGetFreeHeapSize s.heap) :
    ∀ pre, pre <+: ls ++ [a] → ∀ s, (heapSys P).exec heapStart pre = some s →
      s.heap.pxEnd ≠ NULL → n ≤ xPortGetFreeHeapSize s.heap := by
  intro pre hpre s' hs' hinit
  rcases List.prefix_concat_iff.mp hpre with rfl | hpre
  · rw [hrun] at hs'
    cases hs'
    exact hn
  · exact hls pre hpre s' hs' hinit

/-- Before the first call nothing has been initialised; after it the least is known. -/
theorem leastFree_run (P : HeapPlace) {ls : List HeapLabel} {s : HeapSys}
    (hrun : (heapSys P).exec heapStart ls = some s) :
    (s.heap.pxEnd = NULL ∧ ∀ pre, pre <+: ls → ∀ s', (heapSys P).exec heapStart pre = some s' →
      s'.heap.pxEnd = NULL) ∨
    (s.heap.pxEnd ≠ NULL ∧ LeastFree P ls (xPortGetMinimumEverFreeHeapSize s.heap)) := by
  induction ls using List.reverseRecOn generalizing s with
  | nil =>
    cases hrun
    refine .inl ⟨rfl, fun pre hpre s' hs' => ?_⟩
    rw [List.prefix_nil.mp hpre] at hs'
    cases hs'
    rfl
  | append_singleton ls a ih =>
    have hrun' := hrun
    rw [Machine.exec_append] at hrun'
    obtain ⟨s₀, hs₀, hlast⟩ := Option.bind_eq_some_iff.mp hrun'
    obtain ⟨s₁, hstep, hs₁⟩ := Machine.exec_cons_some hlast
    obtain rfl : s₁ = s := Option.some.inj hs₁
    obtain ⟨ts, I⟩ := heapInv_reachable ⟨ls, hs₀⟩
    obtain ⟨⟨ts', I'⟩, hsame | ⟨hinit, hcounts⟩⟩ := heapInv_keep I hstep
    · -- nothing has changed
      subst hsame
      rcases ih hs₀ with ⟨hnull, hpast⟩ | ⟨hinit, hleast, hat⟩
      · refine .inl ⟨hnull, fun pre hpre s' hs' => ?_⟩
        rcases List.prefix_concat_iff.mp hpre with rfl | hpre
        · rw [hrun] at hs'
          cases hs'
          exact hnull
        · exact hpast pre hpre s' hs'
      · refine .inr ⟨hinit, least_concat hleast hrun (hleast ls List.prefix_rfl s₁ hs₀ hinit), ?_⟩
        obtain ⟨pre, s', hpre, hs'⟩ := hat
        exact ⟨pre, s', hpre.trans (List.prefix_append ls [a]), hs'⟩
    · refine .inr ⟨hinit, ?_⟩
      have L' := I'.laid
      rw [initialised, if_neg hinit] at L'
      have hwhole : ∃ pre s', pre <+: ls ++ [a] ∧ (heapSys P).exec heapStart pre = some s' ∧
          s'.heap.pxEnd ≠ NULL ∧ xPortGetFreeHeapSize s'.heap = xPortGetFreeHeapSize s₁.heap :=
        ⟨_, _, List.prefix_rfl, hrun, hinit, rfl⟩
      unfold xPortGetMinimumEverFreeHeapSize
      rcases ih hs₀ with ⟨hnull, hpast⟩ | ⟨hinit₀, hleast, hat⟩
      · -- the first call: what it leaves is the least there has been
        have htotal := L'.free_le
        have hmin : (initialised P s₀.heap).xMinimumEverFreeBytesRemaining =
            P.pxEnd - P.pucAlignedHeap := by rw [initialised, if_pos hnull]; rfl
        have hfree : (initialised P s₀.heap).xFreeBytesRemaining =
            P.pxEnd - P.pucAlignedHeap := by rw [initialised, if_pos hnull]; rfl
        have heq : s₁.heap.xMinimumEverFreeBytesRemaining = xPortGetFreeHeapSize s₁.heap := by
          unfold xPortGetFreeHeapSize
          rcases hcounts with hcounts | hcounts <;> omega
        rw [heq]
        refine ⟨least_concat ?_ hrun le_rfl, hwhole⟩
        intro pre hpre s' hs' hinit'
        exact absurd (hpast pre hpre s' hs') hinit'
      · rw [initialised, if_neg hinit₀] at hcounts
        have hold : ∃ pre s', pre <+: ls ++ [a] ∧ (heapSys P).exec heapStart pre = some s' ∧
            s'.heap.pxEnd ≠ NULL ∧
            xPortGetFreeHeapSize s'.heap = s₀.heap.xMinimumEverFreeBytesRemaining := by
          obtain ⟨pre, s', hpre, hs'⟩ := hat
          exact ⟨pre, s', hpre.trans (List.prefix_append ls [a]), hs'⟩
        rcases hcounts with hmin | ⟨hle, hmin⟩
        · rw [hmin]
          refine ⟨least_concat (fun pre hpre s' hs' hinit' =>
            (Nat.min_le_left _ _).trans (hleast pre hpre s' hs' hinit')) hrun
            (Nat.min_le_right _ _), ?_⟩
          rcases Nat.le_total s₀.heap.xMinimumEverFreeBytesRemaining
            s₁.heap.xFreeBytesRemaining with hle | hle
          · rw [Nat.min_eq_left hle]
            exact hold
          · rw [Nat.min_eq_right hle]
            exact hwhole
        · rw [hmin]
          exact ⟨least_concat hleast hrun
            ((hleast ls List.prefix_rfl s₀ hs₀ hinit₀).trans hle), hold⟩

open Classical in
/-- **The two counters are exact**, once the heap is initialised: `xPortGetFreeHeapSize` is the
number of bytes that belong to no block in use, and `xPortGetMinimumEverFreeHeapSize` the least it
has been since the first call. -/
theorem heap_counters_exact (P : HeapPlace) {ls : List HeapLabel} {s : HeapSys}
    (hrun : (heapSys P).exec heapStart ls = some s) (hinit : s.heap.pxEnd ≠ NULL) :
    xPortGetFreeHeapSize s.heap =
      ((Finset.Ico P.pucAlignedHeap P.pxEnd).filter fun x => ¬ Owned s x).card ∧
    LeastFree P ls (xPortGetMinimumEverFreeHeapSize s.heap) := by
  refine ⟨?_, ((leastFree_run P hrun).resolve_left fun h => hinit h.1).2⟩
  obtain ⟨ts, I⟩ := heapInv_reachable ⟨ls, hrun⟩
  have L := I.laid
  rw [initialised, if_neg hinit] at L
  rw [xPortGetFreeHeapSize, L.free, frees]
  exact (L.tiles.card _ fun t ht x hx => I.owned_iff ht hx).symm

/-- The block given back has been joined with nothing: the other one is behind it. -/
theorem heap_counters_some_calls :
    ∃ s, (heapSys ram).exec heapStart someCalls = some s ∧
      xPortGetFreeHeapSize s.heap = 25552 ∧ LeastFree ram someCalls 25440 :=
  ⟨_, rfl, rfl, (heap_counters_exact ram
    (show (heapSys ram).exec heapStart someCalls = _ from rfl) ram.pxEnd_ne_null).2⟩

end EthIo.Rtos
