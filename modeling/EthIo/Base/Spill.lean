import EthIo.Base.Memory

/-!
# Stores wider than their variables

A list of 4-byte stores into 2-byte variables. Each store has two surplus bytes: it `Spills` onto
what stands behind its variable. Where the values fit 16 bits the surplus bytes are zero, so a spill
is harmless where a zero stands already, or where a later store puts the right byte back.

`storeInts_exact_iff` says when a list of such stores does exactly what the same list of 2-byte
stores would do: whatever the order of the variables in memory, it does so if and only if its spills
are `Harmless`.
-/

namespace EthIo.Base

/-- The two bytes of the variable at `a`. -/
def InHalf (a y : Nat) : Prop := a ≤ y ∧ y < a + 2

/-- The two surplus bytes of a 4-byte store at `a`. -/
def Spills (a y : Nat) : Prop := a + 2 ≤ y ∧ y < a + 4

instance (a y : Nat) : Decidable (InHalf a y) := inferInstanceAs (Decidable (_ ∧ _))

instance (a y : Nat) : Decidable (Spills a y) := inferInstanceAs (Decidable (_ ∧ _))

/-- Neither variable overlaps the other. -/
def Apart (a b : Nat) : Prop := a + 2 ≤ b ∨ b + 2 ≤ a

instance (a b : Nat) : Decidable (Apart a b) := inferInstanceAs (Decidable (_ ∨ _))

theorem Apart.not_inHalf {a b y : Nat} (h : Apart a b) (hy : InHalf a y) : ¬ InHalf b y := by
  unfold Apart InHalf at *
  omega

/-- **Spills that do no harm.** A surplus byte falls on a variable stored earlier only where that
variable has a zero byte, and on anything else, the region `B` apart, only where a zero stands. -/
structure Harmless (B : Nat → Prop) (m : Mem) (stores : List (Nat × Int)) : Prop where
  earlier : stores.Pairwise fun s t =>
    ∀ y, InHalf s.1 y → Spills t.1 y → byteOf s.2 (y - s.1) = 0
  others : ∀ s ∈ stores, ∀ y, Spills s.1 y → ¬ B y → (∀ t ∈ stores, ¬ InHalf t.1 y) → m y = 0

/-- Only what stands outside the region matters. -/
theorem Harmless.congr {B : Nat → Prop} {m m' : Mem} {stores : List (Nat × Int)}
    (h : Harmless B m stores) (same : ∀ y, ¬ B y → m' y = m y) : Harmless B m' stores where
  earlier := h.earlier
  others := by
    intro s hs y hspill hB off
    rw [same y hB]
    exact h.others s hs y hspill hB off

/-! ## Bytes of 16-bit values -/

theorem byteOf_surplus {z : Int} {k : Nat} (hz : 0 ≤ z ∧ z < 65536) (hk : 2 ≤ k) :
    byteOf z k = 0 := by
  have hpow : (65536 : Int) ≤ 256 ^ k := by
    calc (65536 : Int) = 256 ^ 2 := by norm_num
      _ ≤ 256 ^ k := pow_le_pow_right₀ (by norm_num) hk
  rw [byteOf, Int.ediv_eq_zero_of_lt hz.1 (hz.2.trans_le hpow)]
  rfl

theorem forall_inHalf {a : Nat} {P : Nat → Prop} :
    (∀ y, InHalf a y → P y) ↔ P a ∧ P (a + 1) := by
  unfold InHalf
  constructor
  · intro h
    exact ⟨h a (by omega), h (a + 1) (by omega)⟩
  · rintro ⟨h₀, h₁⟩ y hy
    obtain rfl | rfl : y = a ∨ y = a + 1 := by omega
    · exact h₀
    · exact h₁

namespace Mem

/-- A variable has a 16-bit value exactly if its two bytes are the value's. -/
theorem loadHalf_eq_iff {m : Mem} {a : Nat} {z : Int} (hz : 0 ≤ z ∧ z < 65536) :
    (m.loadHalf a : Int) = z ↔ ∀ y, InHalf a y → m y = byteOf z (y - a) := by
  have h₀ := byteOf_toNat z 0
  have h₁ := byteOf_toNat z 1
  have hlow := (m a).toNat_lt
  have hhigh := (m (a + 1)).toNat_lt
  rw [forall_inHalf, Nat.sub_self, Nat.add_sub_cancel_left, loadHalf, ← UInt8.toNat_inj,
    ← UInt8.toNat_inj]
  omega

/-- A variable of which both bytes are kept keeps its value. -/
theorem loadHalf_congr {m m' : Mem} {a : Nat} (h : ∀ y, InHalf a y → m y = m' y) :
    m.loadHalf a = m'.loadHalf a := by
  rw [forall_inHalf] at h
  rw [loadHalf, loadHalf, h.1, h.2]

/-- A store leaves its own bytes on its variable. -/
theorem storeInt_inHalf {m : Mem} {a y : Nat} {z : Int} (h : InHalf a y) :
    m.storeInt a z y = byteOf z (y - a) := by
  revert y
  rw [forall_inHalf, Nat.sub_self, Nat.add_sub_cancel_left]
  exact ⟨write_apply_add (i := 0) (by simp), write_apply_add (i := 1) (by simp)⟩

/-- Its surplus bytes are zero. -/
theorem storeInt_spills {m : Mem} {a y : Nat} {z : Int} (hz : 0 ≤ z ∧ z < 65536)
    (h : Spills a y) : m.storeInt a z y = 0 := by
  unfold Spills at h
  obtain rfl | rfl : y = a + 2 ∨ y = a + 3 := by omega
  · exact (write_apply_add (i := 2) (by simp)).trans (byteOf_surplus hz (by simp))
  · exact (write_apply_add (i := 3) (by simp)).trans (byteOf_surplus hz (by simp))

theorem storeInt_apply_of_clear {m : Mem} {a y : Nat} {z : Int} (hin : ¬ InHalf a y)
    (hspill : ¬ Spills a y) : m.storeInt a z y = m y := by
  unfold InHalf at hin
  unfold Spills at hspill
  exact storeInt_apply (by omega)

variable {m : Mem} {stores : List (Nat × Int)} {y : Nat}

/-- A byte that was zero off the variables stays zero. -/
theorem storeInts_zero (half : ∀ s ∈ stores, 0 ≤ s.2 ∧ s.2 < 65536)
    (off : ∀ s ∈ stores, ¬ InHalf s.1 y) (h : m y = 0) : m.storeInts stores y = 0 := by
  induction stores generalizing m with
  | nil => exact h
  | cons s stores ih =>
    obtain ⟨hs, hrest⟩ := List.forall_mem_cons.mp half
    obtain ⟨os, orest⟩ := List.forall_mem_cons.mp off
    rw [storeInts_cons]
    apply ih hrest orest
    by_cases hspill : Spills s.1 y
    · exact storeInt_spills hs hspill
    · rw [storeInt_apply_of_clear os hspill, h]

/-- **Off the variables** a byte becomes zero if a store spills onto it, and keeps its value
otherwise. -/
theorem storeInts_off (half : ∀ s ∈ stores, 0 ≤ s.2 ∧ s.2 < 65536)
    (off : ∀ s ∈ stores, ¬ InHalf s.1 y) :
    m.storeInts stores y = if ∃ s ∈ stores, Spills s.1 y then 0 else m y := by
  induction stores generalizing m with
  | nil => simp
  | cons s stores ih =>
    obtain ⟨hs, hrest⟩ := List.forall_mem_cons.mp half
    obtain ⟨os, orest⟩ := List.forall_mem_cons.mp off
    rw [storeInts_cons]
    by_cases hspill : Spills s.1 y
    · rw [if_pos ⟨s, List.mem_cons_self, hspill⟩]
      exact storeInts_zero hrest orest (storeInt_spills hs hspill)
    · rw [ih hrest orest, storeInt_apply_of_clear os hspill]
      simp only [List.exists_mem_cons_iff, hspill, false_or]

/-- Every variable holds its own value exactly if no later store spills onto a byte of it that is
not zero. -/
theorem storeInts_reads_iff (half : ∀ s ∈ stores, 0 ≤ s.2 ∧ s.2 < 65536)
    (apart : stores.Pairwise fun s t => Apart s.1 t.1) :
    (∀ s ∈ stores, ((m.storeInts stores).loadHalf s.1 : Int) = s.2) ↔
      stores.Pairwise fun s t => ∀ y, InHalf s.1 y → Spills t.1 y → byteOf s.2 (y - s.1) = 0 := by
  induction stores generalizing m with
  | nil => simp
  | cons s stores ih =>
    obtain ⟨hs, hrest⟩ := List.forall_mem_cons.mp half
    obtain ⟨aparts, arest⟩ := List.pairwise_cons.mp apart
    rw [List.forall_mem_cons, List.pairwise_cons, storeInts_cons, ih hrest arest]
    refine and_congr_left fun _ => ?_
    rw [loadHalf_eq_iff hs]
    constructor
    · intro h t ht y hy hspill
      have hback := h y hy
      rw [storeInts_off hrest fun u hu => (aparts u hu).not_inHalf hy, if_pos ⟨t, ht, hspill⟩]
        at hback
      exact hback.symm
    · intro h y hy
      rw [storeInts_off hrest fun u hu => (aparts u hu).not_inHalf hy, storeInt_inHalf hy]
      split_ifs with hspill
      · obtain ⟨t, ht, hspill⟩ := hspill
        exact (h t ht y hy hspill).symm
      · rfl

/-- **When wide stores do what narrow ones would**: every variable holds its value and, the region
`B` apart, nothing else has changed, if and only if the spills are harmless. -/
theorem storeInts_exact_iff (B : Nat → Prop) (half : ∀ s ∈ stores, 0 ≤ s.2 ∧ s.2 < 65536)
    (apart : stores.Pairwise fun s t => Apart s.1 t.1) :
    ((∀ s ∈ stores, ((m.storeInts stores).loadHalf s.1 : Int) = s.2) ∧
      ∀ y, ¬ B y → (∀ s ∈ stores, ¬ InHalf s.1 y) → m.storeInts stores y = m y) ↔
    Harmless B m stores := by
  rw [storeInts_reads_iff half apart]
  constructor
  · rintro ⟨hreads, hframe⟩
    refine ⟨hreads, fun s hs y hspill hB off => ?_⟩
    rw [← hframe y hB off, storeInts_off half off, if_pos ⟨s, hs, hspill⟩]
  · intro h
    refine ⟨h.earlier, fun y hB off => ?_⟩
    rw [storeInts_off half off]
    split_ifs with hspill
    · obtain ⟨s, hs, hspill⟩ := hspill
      exact (h.others s hs y hspill hB off).symm
    · rfl

end Mem

end EthIo.Base
