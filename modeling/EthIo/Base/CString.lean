import Mathlib.Data.List.Basic
import Mathlib.Data.List.TakeWhile

/-!
# `strncpy`, `strncmp` and `memset`

The three calls on byte objects of fixed size. An object is the list of its bytes; a call that
would touch a byte outside its object has no result. `strncpy` copies up to a NUL and fills the
rest of its `n` bytes with NULs, so what it leaves in the first `n` bytes is determined by the
source alone. `strncmp_eq_zero_iff` says when a comparison with a constant finds it.
-/

namespace EthIo.Base

/-- `strncpy(dst, src, n)`: the destination afterwards, if `n` bytes fit it. -/
def strncpy (dst src : List UInt8) (n : Nat) : Option (List UInt8) :=
  if n ≤ dst.length then
    some ((src.take n).takeWhile (· ≠ 0) ++
      (List.replicate (n - ((src.take n).takeWhile (· ≠ 0)).length) 0 ++ dst.drop n))
  else none

/-- `strncmp(a, b, n)`: the difference of the first bytes that differ, none behind a common NUL. -/
def strncmp : List UInt8 → List UInt8 → Nat → Option Int
  | _, _, 0 => some 0
  | a :: as, b :: bs, n + 1 =>
    if a ≠ b then some ((a.toNat : Int) - b.toNat)
    else if a = 0 then some 0
    else strncmp as bs n
  | _, _, _ + 1 => none

/-- `memset(dst, b, n)`: the destination afterwards, if `n` bytes fit it. -/
def memset (dst : List UInt8) (b : UInt8) (n : Nat) : Option (List UInt8) :=
  if n ≤ dst.length then some (List.replicate n b ++ dst.drop n) else none

/-- A text without a NUL is copied whole, into an object it fits. -/
theorem strncpy_text {dst src : List UInt8} (hnul : (0 : UInt8) ∉ src)
    (hfit : src.length ≤ dst.length) :
    strncpy dst src src.length = some (src ++ dst.drop src.length) := by
  have hall : src.takeWhile (· ≠ 0) = src := by
    rw [List.takeWhile_eq_self_iff]
    intro b hb
    exact decide_eq_true fun h => hnul (h ▸ hb)
  rw [strncpy, if_pos hfit, List.take_length, hall, Nat.sub_self]
  rfl

/-- The copy of any text: what stands before its first NUL, NULs for the rest of it, and the object
behind it as it was. -/
theorem strncpy_whole {dst src : List UInt8} (hfit : src.length ≤ dst.length) :
    strncpy dst src src.length =
      some (src.takeWhile (· ≠ 0) ++
        (List.replicate (src.length - (src.takeWhile (· ≠ 0)).length) 0 ++
          dst.drop src.length)) := by
  rw [strncpy, if_pos hfit, List.take_length]

/-- A copy does not change the size of the object. -/
theorem length_strncpy {dst src copied : List UInt8} {n : Nat}
    (h : strncpy dst src n = some copied) :
    copied.length = dst.length := by
  rw [strncpy] at h
  split_ifs at h with hfit
  cases h
  have hcut : ((src.take n).takeWhile (· ≠ 0)).length ≤ n :=
    (List.takeWhile_sublist _).length_le.trans (List.length_take_le n src)
  simp only [List.length_append, List.length_replicate, List.length_drop]
  omega

theorem memset_whole (dst : List UInt8) (b : UInt8) :
    memset dst b dst.length = some (List.replicate dst.length b) := by
  rw [memset, if_pos (Nat.le_refl _), List.drop_length, List.append_nil]

/-- A comparison with a constant finds it exactly when the object begins with it. -/
theorem strncmp_eq_zero_iff {a w : List UInt8} (hnul : (0 : UInt8) ∉ w)
    (hfit : w.length ≤ a.length) :
    strncmp a (w ++ [0]) w.length = some 0 ↔ w <+: a := by
  induction w generalizing a with
  | nil => simp [strncmp]
  | cons b w ih =>
    cases a with
    | nil => simp at hfit
    | cons c a =>
      have hb : b ≠ 0 := fun h => hnul (h ▸ List.mem_cons_self)
      have htail := ih (fun h => hnul (List.mem_cons_of_mem _ h)) (Nat.le_of_succ_le_succ hfit)
      rw [List.cons_append, List.length_cons, strncmp, List.cons_prefix_cons]
      by_cases hcb : c = b
      · subst hcb
        rw [if_neg (not_not.mpr rfl), if_neg hb, htail]
        exact (and_iff_right rfl).symm
      · have hdiff : (c.toNat : Int) - b.toNat ≠ 0 := by
          intro h
          exact hcb (UInt8.toNat_inj.mp (by omega))
        rw [if_pos hcb]
        constructor
        · intro h
          exact absurd (Option.some.inj h) hdiff
        · rintro ⟨h, -⟩
          exact absurd h.symm hcb

/-- A comparison of no more bytes than both objects have stays inside them. -/
theorem strncmp_ne_none {a b : List UInt8} {n : Nat} (ha : n ≤ a.length) (hb : n ≤ b.length) :
    strncmp a b n ≠ none := by
  induction n generalizing a b with
  | zero => simp [strncmp]
  | succ n ih =>
    cases a with
    | nil => simp at ha
    | cons x a =>
      cases b with
      | nil => simp at hb
      | cons y b =>
        rw [strncmp]
        split_ifs
        · exact Option.some_ne_none _
        · exact Option.some_ne_none _
        · exact ih (Nat.le_of_succ_le_succ ha) (Nat.le_of_succ_le_succ hb)

/-- A word without a NUL ends before the first NUL of a text. -/
theorem prefix_append_zero_iff {w p z : List UInt8} (hnul : (0 : UInt8) ∉ w) :
    w <+: p ++ 0 :: z ↔ w <+: p := by
  constructor
  · intro h
    induction w generalizing p with
    | nil => exact List.nil_prefix
    | cons b w ih =>
      cases p with
      | nil =>
        obtain ⟨hb, -⟩ := List.cons_prefix_cons.mp h
        exact absurd (hb ▸ List.mem_cons_self) hnul
      | cons c p =>
        obtain ⟨rfl, hrest⟩ := List.cons_prefix_cons.mp h
        have hnul' : (0 : UInt8) ∉ w := fun hmem => hnul (List.mem_cons_of_mem _ hmem)
        exact List.cons_prefix_cons.mpr ⟨rfl, ih hnul' hrest⟩
  · intro h
    exact h.trans (List.prefix_append _ _)

/-- A text with a NUL is cut at the first one. -/
theorem eq_takeWhile_append_zero {s : List UInt8} (h : (0 : UInt8) ∈ s) :
    ∃ z, s = s.takeWhile (· ≠ 0) ++ 0 :: z := by
  induction s with
  | nil => cases h
  | cons b s ih =>
    by_cases hb : b = 0
    · subst hb
      exact ⟨s, rfl⟩
    · obtain ⟨z, hz⟩ := ih ((List.mem_cons.mp h).resolve_left fun h0 => hb h0.symm)
      refine ⟨z, ?_⟩
      have hcons : (b :: s).takeWhile (· ≠ 0) = b :: s.takeWhile (· ≠ 0) := by
        rw [List.takeWhile_cons, if_pos (decide_eq_true hb)]
      rw [hcons, List.cons_append, ← hz]

/-- **The copy of a text begins with the same words as the text itself**, with the object behind it,
as far as words without a NUL go. -/
theorem prefix_strncpy_iff {dst src copied w : List UInt8} (hnul : (0 : UInt8) ∉ w)
    (h : strncpy dst src src.length = some copied) :
    w <+: copied ↔ w <+: src ++ dst.drop src.length := by
  have hfit : src.length ≤ dst.length := by
    by_contra hnot
    rw [strncpy, if_neg hnot] at h
    cases h
  by_cases hzero : (0 : UInt8) ∈ src
  · obtain ⟨z, hz⟩ := eq_takeWhile_append_zero hzero
    have hlong : ∃ k, src.length - (src.takeWhile (· ≠ 0)).length = k + 1 := by
      refine ⟨z.length, ?_⟩
      have hlen := congrArg List.length hz
      rw [List.length_append, List.length_cons] at hlen
      omega
    obtain ⟨k, hk⟩ := hlong
    rw [strncpy_whole hfit, hk] at h
    cases h
    rw [List.replicate_succ, List.cons_append, prefix_append_zero_iff hnul]
    conv_rhs => rw [hz, List.append_assoc, List.cons_append, prefix_append_zero_iff hnul]
  · rw [strncpy_text hzero hfit] at h
    cases h
    rfl

/-- A word without a NUL stands in a text filled up with NULs only if it stands in the text. -/
theorem prefix_append_zeros_iff {w p z : List UInt8} (hnul : (0 : UInt8) ∉ w)
    (hz : ∀ b ∈ z, b = 0) : w <+: p ++ z ↔ w <+: p := by
  constructor
  · intro h
    induction w generalizing p with
    | nil => exact List.nil_prefix
    | cons b w ih =>
      cases p with
      | nil =>
        have hb : b ∈ z := h.subset List.mem_cons_self
        exact absurd (hz b hb ▸ List.mem_cons_self) hnul
      | cons c p =>
        obtain ⟨rfl, -⟩ := List.cons_prefix_cons.mp h
        have hnul' : (0 : UInt8) ∉ w := fun hmem => hnul (List.mem_cons_of_mem _ hmem)
        exact List.cons_prefix_cons.mpr ⟨rfl, ih hnul' (List.cons_prefix_cons.mp h).2⟩
  · intro h
    exact h.trans (List.prefix_append _ _)

end EthIo.Base
