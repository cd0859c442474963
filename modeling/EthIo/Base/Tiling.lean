import Mathlib.Data.List.Chain
import Mathlib.Algebra.Order.BigOperators.Group.List
import Mathlib.Algebra.Order.Group.Nat
import Mathlib.Algebra.GroupWithZero.Nat
import Mathlib.Order.Interval.Finset.Nat

/-!
# Tilings of an interval by blocks of two kinds

A **tiling** cuts an interval of addresses into blocks that follow one another without a gap, none
of them empty; each block carries what it is used for. The uses that `P` accepts are the ones a free
list is made of, and `kept P` reads that list off a tiling, in the order of the addresses.

A tiling is **coalesced** when no two neighbours are both kept. Then a kept block is a maximal hole:
any stretch of addresses that lie in kept blocks lies in one of them (`Tiles.hole`). So a search of
the kept blocks for one that is large enough misses nothing.

The two moves of an allocator with an ordered free list keep both. Taking a block, or its front,
out of the list is a change of the tiling in one place (`tiles_append`). Giving one back joins it
with a kept neighbour on either side; `Block.behind` is the same move on the list, where a neighbour
is the block in front of it or behind it (`Tiles.release`).
-/

namespace EthIo.Base

/-- A stretch of addresses. -/
structure Block where
  addr : Nat
  size : Nat
  deriving DecidableEq

namespace Block

/-- The address behind the last. -/
def fin (b : Block) : Nat := b.addr + b.size

/-- The address is one of the block's. -/
def Has (b : Block) (x : Nat) : Prop := b.addr ≤ x ∧ x < b.fin

/-- A block in front of a list of blocks, as one with the first where they touch. -/
def before (b : Block) : List Block → List Block
  | [] => [b]
  | c :: r => if b.fin = c.addr then ⟨b.addr, b.size + c.size⟩ :: r else b :: c :: r

/-- A block between another and a list of blocks, as one with what it touches. -/
def behind (p b : Block) (r : List Block) : List Block :=
  if p.fin = b.addr then before ⟨p.addr, p.size + b.size⟩ r else p :: before b r

end Block

variable {κ : Type*}

/-- The blocks lead from `a` to `e`, one behind the other. -/
def Tiles : Nat → List (Block × κ) → Nat → Prop
  | a, [], e => a = e
  | a, t :: ts, e => t.1.addr = a ∧ 0 < t.1.size ∧ Tiles t.1.fin ts e

/-- The blocks whose use is accepted. -/
def kept (P : κ → Bool) (ts : List (Block × κ)) : List Block :=
  (ts.filter fun t => P t.2).map Prod.fst

/-- No two neighbours are both kept. -/
def Coalesced (P : κ → Bool) (ts : List (Block × κ)) : Prop :=
  ts.IsChain fun t u => ¬ (P t.2 = true ∧ P u.2 = true)

section Kept

variable {P : κ → Bool} {t : Block × κ} {ts us : List (Block × κ)}

@[simp] theorem kept_nil : kept P [] = [] := rfl

theorem kept_cons_of_true (h : P t.2 = true) : kept P (t :: ts) = t.1 :: kept P ts := by
  simp [kept, h]

theorem kept_cons_of_false (h : P t.2 = false) : kept P (t :: ts) = kept P ts := by
  simp [kept, h]

@[simp] theorem kept_append : kept P (ts ++ us) = kept P ts ++ kept P us := by
  simp [kept]

theorem mem_kept {b : Block} : b ∈ kept P ts ↔ ∃ k, P k = true ∧ (b, k) ∈ ts := by
  simp only [kept, List.mem_map, List.mem_filter]
  constructor
  · rintro ⟨⟨b, k⟩, ⟨hmem, hk⟩, rfl⟩
    exact ⟨k, hk, hmem⟩
  · rintro ⟨k, hk, hmem⟩
    exact ⟨(b, k), ⟨hmem, hk⟩, rfl⟩

theorem kept_sublist (P : κ → Bool) (ts : List (Block × κ)) :
    (kept P ts).Sublist (ts.map Prod.fst) :=
  List.filter_sublist.map Prod.fst

/-- The tiling around a block of the list. -/
theorem kept_eq_append {b : Block} {l r : List Block} (h : kept P ts = l ++ b :: r) :
    ∃ pre k post, ts = pre ++ (b, k) :: post ∧ P k = true ∧ kept P pre = l ∧ kept P post = r := by
  obtain ⟨l', r', hfilter, rfl, hr'⟩ := List.map_eq_append_iff.mp h
  obtain ⟨⟨b', k⟩, r'', rfl, rfl, rfl⟩ := List.map_eq_cons_iff.mp hr'
  obtain ⟨pre, rest, rfl, rfl, hrest⟩ := List.filter_eq_append_iff.mp hfilter
  obtain ⟨skip, post, rfl, hskip, hk, rfl⟩ := List.filter_eq_cons_iff.mp hrest
  refine ⟨pre ++ skip, k, post, by simp, hk, ?_, rfl⟩
  have hnone : kept P skip = [] := by
    rw [kept, List.filter_eq_nil_iff.mpr hskip, List.map_nil]
  rw [kept_append, hnone, List.append_nil]
  rfl

end Kept

section Coalesced

variable {P : κ → Bool} {k : κ} {b : Block} {t : Block × κ} {pre post : List (Block × κ)}

theorem Coalesced.left (h : Coalesced P (pre ++ t :: post)) : Coalesced P pre :=
  (List.isChain_append.mp h).1

theorem Coalesced.right (h : Coalesced P (pre ++ t :: post)) : Coalesced P post :=
  (List.isChain_cons.mp (List.isChain_append.mp h).2.1).2

/-- A block that is not kept keeps its neighbours apart. -/
theorem Coalesced.around (hpre : Coalesced P pre) (hpost : Coalesced P post) (hk : P k = false) :
    Coalesced P (pre ++ (b, k) :: post) := by
  refine List.isChain_append.mpr ⟨hpre, List.isChain_cons.mpr ⟨?_, hpost⟩, ?_⟩
  · intro y _ hboth
    exact Bool.noConfusion (hk.symm.trans hboth.1)
  · intro x _ y hy hboth
    have hy : (b, k) = y := by simpa using hy
    rw [← hy] at hboth
    exact Bool.noConfusion (hk.symm.trans hboth.2)

end Coalesced

section Tiles

variable {a m e x : Nat} {t u : Block × κ} {ts us : List (Block × κ)}

theorem tiles_append : Tiles a (ts ++ us) e ↔ ∃ m, Tiles a ts m ∧ Tiles m us e := by
  induction ts generalizing a with
  | nil => simp [Tiles]
  | cons t ts ih =>
    simp only [List.cons_append, Tiles, ih]
    constructor
    · rintro ⟨ha, hpos, m, hts, hus⟩
      exact ⟨m, ⟨ha, hpos, hts⟩, hus⟩
    · rintro ⟨m, ⟨ha, hpos, hts⟩, hus⟩
      exact ⟨ha, hpos, m, hts, hus⟩

/-- A tiling around one of its blocks. -/
theorem tiles_around : Tiles a (ts ++ t :: us) e ↔
    Tiles a ts t.1.addr ∧ 0 < t.1.size ∧ Tiles t.1.fin us e := by
  rw [tiles_append]
  constructor
  · rintro ⟨m, hts, rfl, hpos, hus⟩
    exact ⟨hts, hpos, hus⟩
  · rintro ⟨hts, hpos, hus⟩
    exact ⟨_, hts, rfl, hpos, hus⟩

/-- The blocks fill the interval. -/
theorem Tiles.total (h : Tiles a ts e) : a + (ts.map fun t => t.1.size).sum = e := by
  induction ts generalizing a with
  | nil => exact h
  | cons t ts ih =>
    obtain ⟨rfl, -, hts⟩ := h
    have hrest := ih hts
    rw [List.map_cons, List.sum_cons, ← Nat.add_assoc]
    exact hrest

theorem Tiles.le (h : Tiles a ts e) : a ≤ e := by
  have htotal := h.total
  omega

/-- Each block takes an address at least. -/
theorem Tiles.length_le (h : Tiles a ts e) : a + ts.length ≤ e := by
  induction ts generalizing a with
  | nil => exact Nat.le_of_eq h
  | cons t ts ih =>
    obtain ⟨rfl, hpos, hts⟩ := h
    have hrest := ih hts
    have hfin : t.1.fin = t.1.addr + t.1.size := rfl
    rw [List.length_cons]
    omega

theorem Tiles.mem (h : Tiles a ts e) (ht : t ∈ ts) :
    a ≤ t.1.addr ∧ 0 < t.1.size ∧ t.1.fin ≤ e := by
  obtain ⟨pre, post, rfl⟩ := List.append_of_mem ht
  obtain ⟨hpre, hpos, hpost⟩ := tiles_around.mp h
  exact ⟨hpre.le, hpos, hpost.le⟩

theorem Tiles.addr_lt (h : Tiles a ts e) (ht : t ∈ ts) : t.1.addr < e := by
  obtain ⟨-, hpos, hfin⟩ := h.mem ht
  exact Nat.lt_of_lt_of_le (Nat.lt_add_of_pos_right hpos) hfin

/-- The other blocks start elsewhere. -/
theorem Tiles.addr_ne_around (h : Tiles a (ts ++ t :: us) e) (hu : u ∈ ts ∨ u ∈ us) :
    u.1.addr ≠ t.1.addr := by
  obtain ⟨hts, hpos, hus⟩ := tiles_around.mp h
  rcases hu with hu | hu
  · exact Nat.ne_of_lt (hts.addr_lt hu)
  · exact Nat.ne_of_gt (Nat.lt_of_lt_of_le (Nat.lt_add_of_pos_right hpos) (hus.mem hu).1)

/-- The addresses of the blocks ascend, and the end is above them. -/
theorem Tiles.pairwise (h : Tiles a ts e) :
    ((ts.map Prod.fst).map Block.addr ++ [e]).Pairwise (· < ·) := by
  induction ts generalizing a with
  | nil => exact List.pairwise_singleton _ _
  | cons t ts ih =>
    obtain ⟨rfl, hpos, hts⟩ := h
    refine List.pairwise_cons.mpr ⟨?_, ih hts⟩
    intro y hy
    have hlt : t.1.addr < t.1.fin := Nat.lt_add_of_pos_right hpos
    have hy : y ∈ (ts.map Prod.fst).map Block.addr ++ [e] := hy
    rw [List.mem_append, List.map_map, List.mem_map, List.mem_singleton] at hy
    rcases hy with ⟨u, hu, rfl⟩ | rfl
    · exact hlt.trans_le (hts.mem hu).1
    · exact hlt.trans_le hts.le

/-- Every address of the interval is in a block. -/
theorem Tiles.covers (h : Tiles a ts e) (ha : a ≤ x) (he : x < e) : ∃ t ∈ ts, t.1.Has x := by
  induction ts generalizing a with
  | nil => exact absurd (h ▸ he) (Nat.not_lt.mpr ha)
  | cons t ts ih =>
    obtain ⟨rfl, -, hts⟩ := h
    rcases Nat.lt_or_ge x t.1.fin with hx | hx
    · exact ⟨t, List.mem_cons_self, ha, hx⟩
    · obtain ⟨u, hu, hhas⟩ := ih hts hx
      exact ⟨u, List.mem_cons_of_mem t hu, hhas⟩

/-- No address is in two blocks. -/
theorem Tiles.unique (h : Tiles a ts e) (ht : t ∈ ts) (hu : u ∈ ts) (htx : t.1.Has x)
    (hux : u.1.Has x) : t = u := by
  obtain ⟨pre, post, rfl⟩ := List.append_of_mem ht
  obtain ⟨hpre, -, hpost⟩ := tiles_around.mp h
  obtain ⟨htx₁, htx₂⟩ := htx
  obtain ⟨hux₁, hux₂⟩ := hux
  rcases List.mem_append.mp hu with hu | hu
  · have hend := (hpre.mem hu).2.2
    omega
  · rcases List.mem_cons.mp hu with rfl | hu
    · rfl
    · have hstart := (hpost.mem hu).1
      omega

theorem Block.has_addr {b : Block} (h : 0 < b.size) : b.Has b.addr :=
  ⟨le_rfl, Nat.lt_add_of_pos_right h⟩

/-- A block is told by its address. -/
theorem Tiles.eq_of_addr (h : Tiles a ts e) (ht : t ∈ ts) (hu : u ∈ ts)
    (haddr : t.1.addr = u.1.addr) : t = u :=
  h.unique ht hu (Block.has_addr (h.mem ht).2.1)
    (haddr ▸ Block.has_addr (h.mem hu).2.1)

/-- As many addresses lie in kept blocks as these have bytes. -/
theorem Tiles.card {P : κ → Bool} (h : Tiles a ts e) (Q : Nat → Prop) [DecidablePred Q]
    (hQ : ∀ t ∈ ts, ∀ x, t.1.Has x → (Q x ↔ P t.2 = true)) :
    ((Finset.Ico a e).filter Q).card = ((kept P ts).map Block.size).sum := by
  induction ts generalizing a with
  | nil =>
    obtain rfl : a = e := h
    simp
  | cons t ts ih =>
    obtain ⟨rfl, hpos, hts⟩ := h
    have hlt : t.1.addr ≤ t.1.fin := Nat.le_add_right _ _
    have hrest := ih hts fun u hu => hQ u (List.mem_cons_of_mem t hu)
    have hfirst : ∀ x ∈ Finset.Ico t.1.addr t.1.fin, (Q x ↔ P t.2 = true) :=
      fun x hx => hQ t List.mem_cons_self x (Finset.mem_Ico.mp hx)
    rw [← Finset.Ico_union_Ico_eq_Ico hlt hts.le, Finset.filter_union, Finset.card_union_of_disjoint
      (Finset.disjoint_filter_filter (Finset.Ico_disjoint_Ico_consecutive _ _ _)), hrest]
    cases hk : P t.2 with
    | true =>
      rw [Finset.filter_true_of_mem fun x hx => (hfirst x hx).mpr hk, Nat.card_Ico,
        kept_cons_of_true hk, List.map_cons, List.sum_cons, Block.fin, Nat.add_sub_cancel_left]
    | false =>
      have hnot : ∀ x ∈ Finset.Ico t.1.addr t.1.fin, ¬ Q x := fun x hx hq =>
        Bool.noConfusion (hk.symm.trans ((hfirst x hx).mp hq))
      rw [Finset.filter_false_of_mem hnot, Finset.card_empty, Nat.zero_add, kept_cons_of_false hk]

/-- Two different blocks lie one behind the other. -/
theorem Tiles.apart (h : Tiles a ts e) (ht : t ∈ ts) (hu : u ∈ ts) (hne : t ≠ u) :
    t.1.fin ≤ u.1.addr ∨ u.1.fin ≤ t.1.addr := by
  obtain ⟨pre, post, rfl⟩ := List.append_of_mem ht
  obtain ⟨hpre, -, hpost⟩ := tiles_around.mp h
  rcases List.mem_append.mp hu with hu | hu
  · exact .inr (hpre.mem hu).2.2
  · rcases List.mem_cons.mp hu with rfl | hu
    · exact absurd rfl hne
    · exact .inl (hpost.mem hu).1

/-- **A hole lies in one kept block**, where no two of them are neighbours. -/
theorem Tiles.hole {P : κ → Bool} {n : Nat} (h : Tiles a ts e) (hco : Coalesced P ts) (hn : 0 < n)
    (ha : a ≤ x) (he : x + n ≤ e)
    (hfree : ∀ t ∈ ts, ∀ y, x ≤ y → y < x + n → t.1.Has y → P t.2 = true) :
    ∃ b ∈ kept P ts, b.addr ≤ x ∧ x + n ≤ b.fin := by
  obtain ⟨⟨b, k⟩, ht, hx₁, hx₂⟩ := h.covers ha (show x < e by omega)
  have hk : P k = true := hfree _ ht x le_rfl (by omega) ⟨hx₁, hx₂⟩
  refine ⟨b, mem_kept.mpr ⟨k, hk, ht⟩, hx₁, ?_⟩
  -- else the block behind it is kept as well
  by_contra hshort
  have hx₂ : x < b.fin := hx₂
  obtain ⟨pre, post, rfl⟩ := List.append_of_mem ht
  obtain ⟨-, -, hpost⟩ := tiles_around.mp h
  cases post with
  | nil =>
    have hend : b.fin = e := hpost
    omega
  | cons u post =>
    obtain ⟨hu, hpos, -⟩ := hpost
    have hu : u.1.addr = b.fin := hu
    have hhas : u.1.Has b.fin := hu ▸ Block.has_addr hpos
    have hkept := hfree u (by simp) b.fin (by omega) (by omega) hhas
    exact (List.isChain_append_cons_cons.mp hco).2.1 ⟨hk, hkept⟩

end Tiles

/-! ## Giving a block back -/

section Release

variable {P : κ → Bool} {f k : κ} {a m e : Nat} {b p w : Block} {pre post : List (Block × κ)}

/-- The move on the list keeps a block that nothing touches. -/
theorem Block.before_of_lt {r : List Block} (h : ∀ c ∈ r, b.fin < c.addr) :
    b.before r = b :: r := by
  cases r with
  | nil => rfl
  | cons c r => exact if_neg (Nat.ne_of_lt (h c List.mem_cons_self))

theorem Block.before_sizes (b : Block) (r : List Block) :
    ((b.before r).map Block.size).sum = b.size + (r.map Block.size).sum := by
  cases r with
  | nil => rfl
  | cons c r =>
    rw [Block.before]
    split_ifs
    · rw [List.map_cons, List.sum_cons, List.map_cons, List.sum_cons, Nat.add_assoc]
    · rfl

/-- Joining loses no byte. -/
theorem Block.behind_sizes (p b : Block) (r : List Block) :
    ((p.behind b r).map Block.size).sum = p.size + b.size + (r.map Block.size).sum := by
  rw [Block.behind]
  split_ifs
  · exact Block.before_sizes _ r
  · rw [List.map_cons, List.sum_cons, Block.before_sizes, Nat.add_assoc]

/-- Joining leaves no other addresses in the list. -/
theorem Block.addr_of_mem_before {c : Block} {r : List Block} (hc : c ∈ b.before r) :
    c.addr = b.addr ∨ ∃ d ∈ r, c.addr = d.addr := by
  cases r with
  | nil =>
    rw [Block.before, List.mem_singleton] at hc
    exact .inl (by rw [hc])
  | cons d r =>
    rw [Block.before] at hc
    split_ifs at hc
    · rcases List.mem_cons.mp hc with rfl | hc
      · exact .inl rfl
      · exact .inr ⟨c, List.mem_cons_of_mem d hc, rfl⟩
    · rcases List.mem_cons.mp hc with rfl | hc
      · exact .inl rfl
      · exact .inr ⟨c, hc, rfl⟩

/-- A kept block is joined with the kept block behind it. -/
theorem Tiles.release_before (hf : P f = true) (h : Tiles m ((b, k) :: post) e)
    (hco : Coalesced P post) :
    ∃ c post', Tiles m ((c, f) :: post') e ∧ c.addr = b.addr ∧ Coalesced P ((c, f) :: post') ∧
      kept P ((c, f) :: post') = b.before (kept P post) ∧ post' ⊆ post ∧
      ∀ t : Block × κ, P t.2 = false → (t ∈ post' ↔ t ∈ post) := by
  obtain ⟨rfl, hpos, hpost⟩ := h
  cases post with
  | nil => exact ⟨b, [], ⟨rfl, hpos, hpost⟩, rfl, .singleton _, by simp [kept, hf, Block.before],
      List.Subset.refl _, fun _ _ => Iff.rfl⟩
  | cons u post =>
    obtain ⟨hu, hupos, hrest⟩ := hpost
    cases hk : P u.2 with
    | true =>
      -- the neighbour is kept: one block from here to its end
      refine ⟨⟨b.addr, b.size + u.1.size⟩, post, ⟨rfl, Nat.add_pos_right _ hupos, ?_⟩, rfl, ?_, ?_,
        List.subset_cons_self u post, ?_⟩
      · have hfin : (⟨b.addr, b.size + u.1.size⟩ : Block).fin = u.1.fin := by
          simp only [Block.fin] at hu ⊢
          omega
        rw [hfin]
        exact hrest
      · refine List.isChain_cons.mpr ⟨?_, (List.isChain_cons.mp hco).2⟩
        intro y hy hboth
        exact (List.isChain_cons.mp hco).1 y hy ⟨hk, hboth.2⟩
      · rw [kept_cons_of_true hf, kept_cons_of_true hk, Block.before, if_pos hu.symm]
      · intro t ht
        rw [List.mem_cons, or_iff_right]
        rintro rfl
        exact Bool.noConfusion (hk.symm.trans ht)
    | false =>
      refine ⟨b, u :: post, ⟨rfl, hpos, hu, hupos, hrest⟩, rfl, ?_, ?_, List.Subset.refl _,
        fun _ _ => Iff.rfl⟩
      · exact List.isChain_cons_cons.mpr
          ⟨fun hboth => Bool.noConfusion (hk.symm.trans hboth.2), hco⟩
      · rw [kept_cons_of_true hf, kept_cons_of_false hk, Block.before_of_lt]
        intro c hc
        obtain ⟨kc, -, hmem⟩ := mem_kept.mp hc
        have hle : u.1.fin ≤ c.addr := (hrest.mem hmem).1
        have hfin : u.1.fin = u.1.addr + u.1.size := rfl
        have hu : u.1.addr = b.fin := hu
        omega

/-- **A block given back.** Joined with the kept blocks on either side it is kept, the tiling stays
coalesced and all other blocks are as they were. `w` is a block that is not part of the tiling and
stands in front of the list. -/
theorem Tiles.release (hf : P f = true) (h : Tiles a (pre ++ (b, k) :: post) e)
    (hco : Coalesced P (pre ++ (b, k) :: post)) (hw : w.fin ≠ b.addr) :
    ∃ l₀ q ts, w :: kept P pre = l₀ ++ [q] ∧ Tiles a ts e ∧ Coalesced P ts ∧
      w :: kept P ts = l₀ ++ q.behind b (kept P post) ∧
      (∀ t ∈ ts, ∃ u ∈ pre ++ (b, k) :: post, t.1.addr = u.1.addr) ∧
      ∀ t : Block × κ, P t.2 = false → (t ∈ ts ↔ t ∈ pre ∨ t ∈ post) := by
  obtain ⟨hpre, hpos, hpost⟩ := tiles_around.mp h
  have hcopre : Coalesced P pre := Coalesced.left hco
  have hcopost : Coalesced P post := Coalesced.right hco
  cases pre using List.reverseRecOn with
  | nil =>
    obtain ⟨c, post', htiles, hc, hco', hkept, hsub, hmem⟩ :=
      Tiles.release_before (k := k) hf ⟨rfl, hpos, hpost⟩ hcopost
    refine ⟨[], w, (c, f) :: post', rfl, ?_, hco', ?_, ?_, ?_⟩
    · have ha : a = b.addr := hpre
      rw [ha]
      exact htiles
    · rw [hkept, Block.behind, if_neg hw]
      rfl
    · intro t ht
      rcases List.mem_cons.mp ht with rfl | ht
      · exact ⟨_, List.mem_cons_self, hc⟩
      · exact ⟨t, List.mem_cons_of_mem _ (hsub ht), rfl⟩
    · intro t ht
      rw [List.mem_cons, or_iff_right, hmem t ht]
      · simp
      · rintro rfl
        exact Bool.noConfusion (hf.symm.trans ht)
  | append_singleton pre u =>
    obtain ⟨hpre', hupos, hu⟩ := tiles_around.mp hpre
    have hu : u.1.fin = b.addr := hu
    cases hku : P u.2 with
    | false =>
      -- the block in front is not kept, and no kept block touches this one from there
      obtain ⟨c, post', htiles, hc, hco', hkept, hsub, hmem⟩ :=
        Tiles.release_before (k := k) hf ⟨rfl, hpos, hpost⟩ hcopost
      have hpreu : kept P (pre ++ [u]) = kept P pre := by
        rw [kept_append, kept_cons_of_false hku, kept_nil, List.append_nil]
      obtain ⟨l₀, q, hq⟩ : ∃ l₀ q, w :: kept P pre = l₀ ++ [q] :=
        ⟨_, _, (List.dropLast_append_getLast (List.cons_ne_nil w _)).symm⟩
      have hne : q.fin ≠ b.addr := by
        have hmemq : q ∈ w :: kept P pre := by rw [hq]; simp
        rcases List.mem_cons.mp hmemq with rfl | hmemq
        · exact hw
        · obtain ⟨kq, -, hmemq⟩ := mem_kept.mp hmemq
          have hle : q.fin ≤ u.1.addr := (hpre'.mem hmemq).2.2
          have hfin : u.1.fin = u.1.addr + u.1.size := rfl
          omega
      refine ⟨l₀, q, pre ++ [u] ++ (c, f) :: post', ?_, ?_, ?_, ?_, ?_, ?_⟩
      · rw [hpreu, hq]
      · refine tiles_append.mpr ⟨b.addr, hpre, ?_⟩
        exact htiles
      · refine List.isChain_append.mpr ⟨hcopre, hco', ?_⟩
        intro x hx y _ hboth
        obtain rfl : x = u := by simpa [eq_comm] using hx
        exact Bool.noConfusion (hku.symm.trans hboth.1)
      · rw [kept_append, hpreu, hkept, Block.behind, if_neg hne, ← List.cons_append, hq]
        simp
      · intro t ht
        rcases List.mem_append.mp ht with ht | ht
        · exact ⟨t, List.mem_append_left _ ht, rfl⟩
        · rcases List.mem_cons.mp ht with rfl | ht
          · exact ⟨(b, k), by simp, hc⟩
          · exact ⟨t, List.mem_append_right _ (List.mem_cons_of_mem _ (hsub ht)), rfl⟩
      · intro t ht
        rw [List.mem_append, List.mem_cons, hmem t ht, or_iff_right (a := t = (c, f))]
        rintro rfl
        exact Bool.noConfusion (hf.symm.trans ht)
    | true =>
      -- one block from the start of the one in front
      obtain ⟨ub, uk⟩ := u
      have hfin : (⟨ub.addr, ub.size + b.size⟩ : Block).fin = b.fin := by
        simp only [Block.fin] at hu ⊢
        omega
      have hjoin : Tiles ub.addr ((⟨ub.addr, ub.size + b.size⟩, k) :: post) e := by
        refine ⟨rfl, Nat.add_pos_right _ hpos, ?_⟩
        rw [hfin]
        exact hpost
      obtain ⟨c, post', htiles, hc, hco', hkept, hsub, hmem⟩ :=
        Tiles.release_before (k := k) hf hjoin hcopost
      refine ⟨w :: kept P pre, ub, pre ++ (c, f) :: post', ?_, ?_, ?_, ?_, ?_, ?_⟩
      · rw [kept_append, kept_cons_of_true hku, kept_nil]
        rfl
      · exact tiles_append.mpr ⟨ub.addr, hpre', htiles⟩
      · refine List.isChain_append.mpr ⟨Coalesced.left hcopre, hco', ?_⟩
        intro x hx y hy hboth
        exact (List.isChain_append.mp hcopre).2.2 x hx (ub, uk) (by simp) ⟨hboth.1, hku⟩
      · rw [kept_append, hkept, Block.behind, if_pos hu]
        rfl
      · intro t ht
        rcases List.mem_append.mp ht with ht | ht
        · exact ⟨t, by simp [ht], rfl⟩
        · rcases List.mem_cons.mp ht with rfl | ht
          · exact ⟨(ub, uk), by simp, hc⟩
          · exact ⟨t, List.mem_append_right _ (List.mem_cons_of_mem _ (hsub ht)), rfl⟩
      · intro t ht
        have hne : t ≠ (ub, uk) := by
          rintro rfl
          exact Bool.noConfusion (hku.symm.trans ht)
        have hnec : t ≠ (c, f) := by
          rintro rfl
          exact Bool.noConfusion (hf.symm.trans ht)
        simp only [List.mem_append, List.mem_cons, hmem t ht, hne, hnec, List.not_mem_nil, false_or,
          or_false]

end Release

end EthIo.Base
