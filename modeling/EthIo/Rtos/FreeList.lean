import EthIo.Rtos.Heap

/-!
# The linked free list

`Chain` says that headers in memory are the links of a list of blocks. Each function of the heap has
one lemma: where the free list is a chain before the call, it is one after it, and the list is the
one the abstract move gives.
-/

namespace EthIo.Rtos

open EthIo.Base

/-- The headers from `p` on are those of the blocks, and the last of them leads to `e`. -/
def Chain (link : Nat → BlockLink_t) : Nat → List Block → Nat → Prop
  | p, [], e => p = e
  | p, b :: bs, e =>
    p = b.addr ∧ (link p).xBlockSize = b.size ∧ Chain link (link p).pxNextFreeBlock bs e

section Chain

variable {link link' : Nat → BlockLink_t} {p e : Nat} {b : Block} {bs cs : List Block}

theorem chain_append : Chain link p (bs ++ cs) e ↔ ∃ m, Chain link p bs m ∧ Chain link m cs e := by
  induction bs generalizing p with
  | nil => simp [Chain]
  | cons b bs ih =>
    simp only [List.cons_append, Chain, ih]
    constructor
    · rintro ⟨hp, hsize, m, hbs, hcs⟩
      exact ⟨m, ⟨hp, hsize, hbs⟩, hcs⟩
    · rintro ⟨m, ⟨hp, hsize, hbs⟩, hcs⟩
      exact ⟨hp, hsize, m, hbs, hcs⟩

/-- A chain reads the headers of its blocks and no others. -/
theorem Chain.congr (h : Chain link p bs e) (hsame : ∀ b ∈ bs, link' b.addr = link b.addr) :
    Chain link' p bs e := by
  induction bs generalizing p with
  | nil => exact h
  | cons b bs ih =>
    obtain ⟨rfl, hsize, hbs⟩ := h
    have hb := hsame b List.mem_cons_self
    refine ⟨rfl, by rw [hb]; exact hsize, ?_⟩
    rw [hb]
    exact ih hbs fun c hc => hsame c (List.mem_cons_of_mem b hc)

theorem Chain.start (h : Chain link p (b :: bs) e) : p = b.addr := h.1

/-- No block of a chain whose end is no null pointer leads to one. -/
theorem Chain.next_ne_null (h : Chain link p bs e) (hb : b ∈ bs) (hbs : ∀ c ∈ bs, c.addr ≠ NULL)
    (he : e ≠ NULL) : (link b.addr).pxNextFreeBlock ≠ NULL := by
  obtain ⟨pre, post, rfl⟩ := List.append_of_mem hb
  obtain ⟨m, -, rfl, -, hpost⟩ := chain_append.mp h
  cases post with
  | nil => rwa [show _ = e from hpost]
  | cons c post =>
    rw [Chain.start hpost]
    exact hbs c (by simp)

theorem Chain.size (h : Chain link p bs e) (hb : b ∈ bs) : (link b.addr).xBlockSize = b.size := by
  obtain ⟨pre, post, rfl⟩ := List.append_of_mem hb
  obtain ⟨m, -, rfl, hsize, -⟩ := chain_append.mp h
  exact hsize

/-- The end of a chain replaced, from one of its blocks on. -/
theorem Chain.replace {l₀ mid r : List Block} {q : Block}
    (h : Chain link p (l₀ ++ q :: r) e) (hsame : ∀ b ∈ l₀, link' b.addr = link b.addr)
    (hmid : Chain link' q.addr mid e) : Chain link' p (l₀ ++ mid) e := by
  obtain ⟨m, hl₀, rfl, -, -⟩ := chain_append.mp h
  exact chain_append.mpr ⟨_, hl₀.congr hsame, hmid⟩

end Chain

/-! ## The loops -/

section Loops

variable {link : Nat → BlockLink_t} {e fuel : Nat}

/-- **The `for` loop** ends behind the last block in front of the one to insert. -/
theorem insertAfter_eq {p b : Nat} {l₀ r : List Block} {q : Block}
    (h : Chain link p (l₀ ++ q :: r) e) (hlow : ∀ c ∈ (l₀ ++ [q]).tail, c.addr < b)
    (hhigh : b ≤ (link q.addr).pxNextFreeBlock) (hfuel : l₀.length < fuel) :
    insertAfter link b fuel p = some q.addr := by
  induction l₀ generalizing p fuel with
  | nil =>
    obtain ⟨rfl, -, -⟩ := h
    obtain ⟨fuel, rfl⟩ := Nat.exists_eq_succ_of_ne_zero (Nat.ne_of_gt hfuel)
    rw [insertAfter, if_neg (Nat.not_lt.mpr hhigh)]
  | cons c l₀ ih =>
    obtain ⟨fuel, rfl⟩ := Nat.exists_eq_succ_of_ne_zero (Nat.ne_of_gt (Nat.zero_lt_of_lt hfuel))
    obtain ⟨rfl, -, hrest⟩ := h
    have hnext : (link c.addr).pxNextFreeBlock < b := by
      cases l₀ with
      | nil =>
        rw [hrest.start]
        exact hlow q (by simp)
      | cons d l₀ =>
        rw [Chain.start hrest]
        exact hlow d (by simp)
    rw [insertAfter, if_pos hnext]
    apply ih hrest _ (Nat.lt_of_succ_lt_succ hfuel)
    intro d hd
    exact hlow d (List.mem_of_mem_tail hd)

/-- **The `while` loop** passes the blocks that are too small, and stops at the first that is not or
at the end marker. -/
theorem firstFit_eq {w p s : Nat} {q q' : Block} {l₀ l : List Block} (hl : q :: l = l₀ ++ [q'])
    (h : Chain link p l s) (hsmall : ∀ b ∈ l, b.size < w)
    (hnull : ∀ b ∈ l, (link b.addr).pxNextFreeBlock ≠ NULL)
    (hstop : ¬ ((link s).xBlockSize < w ∧ (link s).pxNextFreeBlock ≠ NULL))
    (hfuel : l.length < fuel) : firstFit link w fuel q.addr p = some (q'.addr, s) := by
  induction l generalizing p q l₀ fuel with
  | nil =>
    obtain rfl : p = s := h
    obtain ⟨fuel, rfl⟩ := Nat.exists_eq_succ_of_ne_zero (Nat.ne_of_gt hfuel)
    obtain ⟨-, rfl⟩ : l₀ = [] ∧ q = q' := by
      cases l₀ with
      | nil => simpa using hl
      | cons c l₀ => simp at hl
    rw [firstFit, if_neg hstop]
  | cons c l ih =>
    obtain ⟨fuel, rfl⟩ := Nat.exists_eq_succ_of_ne_zero (Nat.ne_of_gt (Nat.zero_lt_of_lt hfuel))
    obtain ⟨rfl, hsize, hrest⟩ := h
    have hgo : (link c.addr).xBlockSize < w ∧ (link c.addr).pxNextFreeBlock ≠ NULL := by
      rw [hsize]
      exact ⟨hsmall c List.mem_cons_self, hnull c List.mem_cons_self⟩
    cases l₀ with
    | nil => simp at hl
    | cons d l₀ =>
      rw [List.cons_append, List.cons.injEq] at hl
      rw [firstFit, if_pos hgo]
      exact ih hl.2 hrest (fun b hb => hsmall b (List.mem_cons_of_mem c hb))
        (fun b hb => hnull b (List.mem_cons_of_mem c hb)) (Nat.lt_of_succ_lt_succ hfuel)

end Loops

/-! ## Inserting a block -/

section Insert

variable {h : Heap} {b c q : Block} {l₀ r : List Block} {n x : Nat}

theorem linkNext_eq (hr : Chain h.link n r h.pxEnd) (hc : (h.link c.addr).xBlockSize = c.size)
    (hcr : ∀ d ∈ r, d.addr ≠ c.addr) (hend : ∀ d ∈ r, d.addr ≠ h.pxEnd) :
    ∃ l, linkNext c.addr n h = h.set c.addr l ∧
      Chain (Function.update h.link c.addr l) c.addr (c.before r) h.pxEnd := by
  have hframe {l : BlockLink_t} {p : Nat} {r' : List Block} (hchain : Chain h.link p r' h.pxEnd)
      (hr' : ∀ d ∈ r', d ∈ r) : Chain (Function.update h.link c.addr l) p r' h.pxEnd :=
    hchain.congr fun d hd => Function.update_of_ne (hcr d (hr' d hd)) _ _
  unfold linkNext
  cases r with
  | nil =>
    obtain rfl : n = h.pxEnd := hr
    have hchain (l : BlockLink_t) (hsize : l.xBlockSize = c.size)
        (hnext : l.pxNextFreeBlock = h.pxEnd) :
        Chain (Function.update h.link c.addr l) c.addr (c.before []) h.pxEnd := by
      refine ⟨rfl, ?_, ?_⟩
      · rw [Function.update_self, hsize]
      · rw [Function.update_self]
        exact hnext
    split_ifs with htouch hne
    · exact absurd rfl hne
    · exact ⟨_, rfl, hchain _ hc rfl⟩
    · exact ⟨_, rfl, hchain _ hc rfl⟩
  | cons d r =>
    obtain ⟨rfl, hsize, hrest⟩ := hr
    have hne : d.addr ≠ h.pxEnd := hend d List.mem_cons_self
    by_cases htouch : c.addr + (h.link c.addr).xBlockSize = d.addr
    · rw [if_pos htouch, if_pos hne]
      rw [hc] at htouch
      refine ⟨_, rfl, ?_⟩
      rw [Block.before, if_pos (show c.fin = d.addr from htouch)]
      refine ⟨rfl, ?_, ?_⟩
      · rw [Function.update_self, hc, hsize]
      · rw [Function.update_self]
        exact hframe hrest fun e he => List.mem_cons_of_mem d he
    · rw [if_neg htouch]
      rw [hc] at htouch
      refine ⟨_, rfl, ?_⟩
      rw [Block.before, if_neg (show ¬ c.fin = d.addr from htouch)]
      refine ⟨rfl, ?_, ?_⟩
      · rw [Function.update_self]
        exact hc
      · rw [Function.update_self]
        exact hframe (show Chain h.link d.addr (d :: r) h.pxEnd from ⟨rfl, hsize, hrest⟩)
          fun e he => he

/-- **A block inserted behind `q`** joins what it touches, and no header but these two changes. -/
theorem insertAt_eq (hchain : Chain h.link x (l₀ ++ q :: r) h.pxEnd)
    (hb : (h.link b.addr).xBlockSize = b.size)
    (hnd : ((l₀ ++ q :: b :: r).map Block.addr ++ [h.pxEnd]).Nodup) :
    ∃ link, insertAt q.addr b.addr h = { h with link := link } ∧
      Chain link x (l₀ ++ q.behind b r) h.pxEnd ∧
      ∀ a, a ≠ q.addr → a ≠ b.addr → link a = h.link a := by
  obtain ⟨m, hl₀, rfl, hq, hr⟩ := chain_append.mp hchain
  -- the addresses are all different
  simp only [List.map_append, List.map_cons, List.append_assoc, List.cons_append,
    List.nodup_append, List.nodup_cons, List.mem_append, List.mem_cons, List.mem_map,
    List.not_mem_nil, not_or, not_exists, not_and, or_false] at hnd
  obtain ⟨-, ⟨⟨hqb, hqr, hqe⟩, ⟨hbr, hbe⟩, -, -, hre⟩, hl⟩ := hnd
  have hl₀q (d : Block) (hd : d ∈ l₀) : d.addr ≠ q.addr := hl _ ⟨d, hd, rfl⟩ _ (.inl rfl)
  have hl₀b (d : Block) (hd : d ∈ l₀) : d.addr ≠ b.addr := hl _ ⟨d, hd, rfl⟩ _ (.inr (.inl rfl))
  have hrend (d : Block) (hd : d ∈ r) : d.addr ≠ h.pxEnd := hre _ ⟨d, hd, rfl⟩ _ rfl
  unfold insertAt Block.behind
  by_cases htouch : q.addr + (h.link q.addr).xBlockSize = b.addr
  · rw [if_pos htouch]
    rw [hq] at htouch
    rw [if_pos (show q.fin = b.addr from htouch)]
    -- the block in front, as long as both
    generalize hh₁ : h.set q.addr
      { h.link q.addr with
        xBlockSize := (h.link q.addr).xBlockSize + (h.link b.addr).xBlockSize } = h₁
    have hlink₁ : h₁.link = Function.update h.link q.addr
      { h.link q.addr with
        xBlockSize := (h.link q.addr).xBlockSize + (h.link b.addr).xBlockSize } := by
      rw [← hh₁]
      rfl
    have hpxEnd₁ : h₁.pxEnd = h.pxEnd := by rw [← hh₁]; rfl
    have hself : h₁.link q.addr = { h.link q.addr with
        xBlockSize := (h.link q.addr).xBlockSize + (h.link b.addr).xBlockSize } := by
      rw [hlink₁, Function.update_self]
    have hother (a : Nat) (ha : a ≠ q.addr) : h₁.link a = h.link a := by
      rw [hlink₁, Function.update_of_ne ha]
    obtain ⟨l, hset, hnew⟩ := linkNext_eq (h := h₁) (c := ⟨q.addr, q.size + b.size⟩) (r := r)
      (n := (h₁.link q.addr).pxNextFreeBlock)
      (by
        rw [hself, hpxEnd₁]
        exact hr.congr fun d hd => hother _ (hqr d hd))
      (by rw [hself]; simp only [hq, hb])
      (fun d hd => hqr d hd) (fun d hd => by rw [hpxEnd₁]; exact hrend d hd)
    refine ⟨Function.update h₁.link q.addr l, ?_, ?_, ?_⟩
    · rw [hset, ← hh₁]
      rfl
    · rw [hpxEnd₁] at hnew
      refine hchain.replace ?_ hnew
      intro d hd
      rw [Function.update_of_ne (hl₀q d hd), hother _ (hl₀q d hd)]
    · intro a ha _
      rw [Function.update_of_ne ha, hother a ha]
  · rw [if_neg htouch]
    rw [hq] at htouch
    rw [if_neg (show ¬ q.fin = b.addr from htouch)]
    obtain ⟨l, hset, hnew⟩ := linkNext_eq hr hb (fun d hd => hbr d hd) hrend
    simp only [hset]
    rw [if_pos hqb]
    refine ⟨_, rfl, ?_, ?_⟩
    · refine hchain.replace ?_ ⟨rfl, ?_, ?_⟩
      · intro d hd
        rw [Function.update_of_ne (hl₀q d hd)]
        exact Function.update_of_ne (hl₀b d hd) _ _
      · rw [Function.update_self]
        change (Function.update h.link b.addr l q.addr).xBlockSize = q.size
        rw [Function.update_of_ne hqb, hq]
      · rw [Function.update_self]
        refine hnew.congr fun d hd => Function.update_of_ne ?_ _ _
        rcases Block.addr_of_mem_before hd with hd | ⟨d', hd', heq⟩
        · rw [hd]
          exact Ne.symm hqb
        · rw [heq]
          exact hqr d' hd'
    · intro a haq hab
      rw [Function.update_of_ne haq]
      exact Function.update_of_ne hab _ _

end Insert

end EthIo.Rtos
