import Mathlib.Logic.Function.Basic
import EthIo.Base.Memory

/-!
# Streams in a ring of cells

The positions of a ring of `n` are counted onward from any of them: `onward x k` is `k` places
behind `x`, and `gap x y` is how far it is from `x` to `y`, which is less than `n`.

Each position has a cell of `c` bytes. A stream of bytes that starts at `x` runs through the cells
in order, byte `t` at offset `t % c` of the cell `t / c` places onward. `flow` reads a stretch of
such a stream; a stretch that does not leave its cell is one contiguous read (`flow_cell`), and
whole cells one after the other are a flow (`flow_cells`). `laid` is a ring after the first `t`
bytes of a stream have been written to it: each contiguous write inside one cell takes it a stretch
further (`write_laid`), and what has been laid flows out again (`flow_laid`).
-/

namespace EthIo.Base

variable {n : Nat}

/-! ## Positions -/

/-- The position `k` places behind `x`. -/
def onward (x : Fin n) (k : Nat) : Fin n := ⟨(x.val + k) % n, Nat.mod_lt _ x.pos⟩

/-- How many places `y` is behind `x`. -/
def gap (x y : Fin n) : Nat := (y.val + n - x.val) % n

@[simp] theorem onward_zero (x : Fin n) : onward x 0 = x :=
  Fin.ext (Nat.mod_eq_of_lt x.isLt)

theorem onward_onward (x : Fin n) (i j : Nat) : onward (onward x i) j = onward x (i + j) := by
  apply Fin.ext
  simp only [onward, Nat.mod_add_mod, Nat.add_assoc]

/-- A whole turn leads back. -/
theorem onward_turn (x : Fin n) {k : Nat} (h : n ≤ k) : onward x k = onward x (k - n) := by
  have hturn : x.val + k = x.val + (k - n) + n := by omega
  apply Fin.ext
  simp only [onward]
  rw [hturn, Nat.add_mod_right]

theorem gap_lt (x y : Fin n) : gap x y < n := Nat.mod_lt _ x.pos

theorem onward_gap (x y : Fin n) : onward x (gap x y) = y := by
  apply Fin.ext
  have hx := x.isLt
  have hy := y.isLt
  simp only [onward, gap, Nat.add_mod_mod]
  rw [Nat.add_sub_cancel' (by omega), Nat.add_mod_right, Nat.mod_eq_of_lt hy]

theorem gap_onward (x : Fin n) {k : Nat} (hk : k < n) : gap x (onward x k) = k := by
  have hx := x.isLt
  simp only [onward, gap]
  rcases Nat.lt_or_ge (x.val + k) n with h | h
  · rw [Nat.mod_eq_of_lt h, show x.val + k + n - x.val = k + n by omega, Nat.add_mod_right,
      Nat.mod_eq_of_lt hk]
  · rw [Nat.mod_eq_sub_mod h, Nat.mod_eq_of_lt (by omega : x.val + k - n < n),
      show x.val + k - n + n - x.val = k by omega, Nat.mod_eq_of_lt hk]

/-- Places less than one turn apart are different. -/
theorem onward_inj {x : Fin n} {i j : Nat} (hi : i < n) (hj : j < n)
    (h : onward x i = onward x j) : i = j := by
  rw [← gap_onward x hi, h, gap_onward x hj]

/-! ## Streams -/

variable {c : Nat}

/-- Byte `t` of the stream that starts at `x`. -/
def streamAt (cells : Fin n → Mem) (x : Fin n) (c t : Nat) : UInt8 :=
  cells (onward x (t / c)) (t % c)

/-- The `m` bytes of the stream from byte `t` on. -/
def flow (cells : Fin n → Mem) (x : Fin n) (c t m : Nat) : List UInt8 :=
  (List.range m).map fun i => streamAt cells x c (t + i)

@[simp] theorem flow_length (cells : Fin n → Mem) (x : Fin n) (c t m : Nat) :
    (flow cells x c t m).length = m := by
  simp [flow]

theorem flow_append (cells : Fin n → Mem) (x : Fin n) (c t m k : Nat) :
    flow cells x c t (m + k) = flow cells x c t m ++ flow cells x c (t + m) k := by
  simp only [flow, List.range_add, List.map_append, List.map_map]
  congr 1
  apply List.map_congr_left
  intro i _
  simp only [Function.comp_apply, Nat.add_assoc]

theorem flow_take (cells : Fin n → Mem) (x : Fin n) (c t : Nat) {m k : Nat} (h : m ≤ k) :
    (flow cells x c t k).take m = flow cells x c t m := by
  obtain ⟨r, rfl⟩ := Nat.exists_eq_add_of_le h
  rw [flow_append, List.take_left' (flow_length _ _ _ _ _)]

/-- A stretch out of the middle of a longer one. -/
theorem flow_drop (cells : Fin n → Mem) (x : Fin n) (c : Nat) {t m k : Nat} (h : t + m ≤ k) :
    ((flow cells x c 0 k).drop t).take m = flow cells x c t m := by
  obtain ⟨r, rfl⟩ := Nat.exists_eq_add_of_le h
  rw [Nat.add_assoc, flow_append, List.drop_left' (flow_length _ _ _ _ _), Nat.zero_add,
    flow_take _ _ _ _ (Nat.le_add_right m r)]

/-- **A stretch that does not leave its cell is one read.** -/
theorem flow_cell (cells : Fin n → Mem) (x : Fin n) {d o m : Nat} (h : o + m ≤ c) :
    flow cells x c (d * c + o) m = (cells (onward x d)).read o m := by
  apply List.map_congr_left
  intro i hi
  have hi := List.mem_range.mp hi
  have hlt : o + i < c := by omega
  rw [streamAt, Nat.add_assoc, Nat.add_comm (d * c), Nat.add_mul_div_right _ _ (by omega),
    Nat.add_mul_mod_self_right, Nat.div_eq_of_lt hlt, Nat.mod_eq_of_lt hlt, Nat.zero_add]

/-- Whole cells, one after the other, and a last one in part. -/
theorem flow_cells (cells : Fin n → Mem) (x : Fin n) {k m : Nat} (h : m ≤ c) :
    ((List.range k).map fun i => (cells (onward x i)).read 0 c).flatten ++
        (cells (onward x k)).read 0 m = flow cells x c 0 (k * c + m) := by
  have hwhole : ∀ k, ((List.range k).map fun i => (cells (onward x i)).read 0 c).flatten =
      flow cells x c 0 (k * c) := by
    intro k
    induction k with
    | zero => simp [flow]
    | succ k ih =>
      rw [List.range_succ, List.map_append, List.flatten_append, ih, List.map_singleton,
        List.flatten_singleton, Nat.succ_mul, flow_append, Nat.zero_add,
        ← flow_cell cells x (d := k) (o := 0) (Nat.le_of_eq (Nat.zero_add c)), Nat.add_zero]
  have hlast : flow cells x c (k * c) m = (cells (onward x k)).read 0 m :=
    flow_cell (o := 0) cells x (by omega)
  rw [hwhole, flow_append, Nat.zero_add, hlast]

/-! ## Writing a stream -/

/-- The ring after the first `t` bytes of the stream `f` have been written from `x` on. -/
def laid (cells : Fin n → Mem) (x : Fin n) (c : Nat) (f : List UInt8) (t : Nat) : Fin n → Mem :=
  fun y o =>
    if o < c ∧ gap x y * c + o < t then f.getD (gap x y * c + o) (cells y o) else cells y o

theorem laid_zero (cells : Fin n → Mem) (x : Fin n) (c : Nat) (f : List UInt8) :
    laid cells x c f 0 = cells := by
  funext y o
  rw [laid, if_neg (by omega)]

theorem laid_onward (cells : Fin n → Mem) (x : Fin n) (f : List UInt8) {d : Nat} (hd : d < n)
    (t o : Nat) : laid cells x c f t (onward x d) o =
      if o < c ∧ d * c + o < t then f.getD (d * c + o) (cells (onward x d) o)
      else cells (onward x d) o := by
  rw [laid, gap_onward x hd]

/-- **A write inside one cell lays a stretch.** -/
theorem write_laid (cells : Fin n → Mem) (x : Fin n) {f bs : List UInt8} {d o : Nat} (hd : d < n)
    (hcell : o + bs.length ≤ c) (hbs : bs <+: f.drop (d * c + o)) :
    Function.update (laid cells x c f (d * c + o)) (onward x d)
        ((laid cells x c f (d * c + o) (onward x d)).write o bs) =
      laid cells x c f (d * c + o + bs.length) := by
  funext y p
  by_cases hy : y = onward x d
  · subst hy
    rw [Function.update_self, laid_onward cells x f hd]
    rcases Nat.lt_or_ge p o with hp | hp
    · rw [Mem.write_apply_of_lt hp, laid_onward cells x f hd, if_pos (by omega), if_pos (by omega)]
    · rcases Nat.lt_or_ge p (o + bs.length) with hp' | hp'
      · obtain ⟨i, rfl⟩ := Nat.exists_eq_add_of_le hp
        have hi : i < bs.length := by omega
        obtain ⟨rest, hrest⟩ := hbs
        have hget : f[d * c + (o + i)]? = some bs[i] := by
          rw [← Nat.add_assoc, ← List.getElem?_drop, ← hrest, List.getElem?_append_left hi,
            List.getElem?_eq_getElem hi]
        rw [Mem.write_apply_add hi, if_pos (by omega), List.getD_eq_getElem?_getD, hget]
        rfl
      · rw [Mem.write_apply_of_le (by omega), laid_onward cells x f hd, if_neg (by omega),
          if_neg (by omega)]
  · rw [Function.update_of_ne hy]
    have hgap : gap x y ≠ d := fun h => hy (by rw [← h, onward_gap])
    unfold laid
    rcases Nat.lt_or_gt_of_ne hgap with hlt | hgt
    · -- an earlier cell: laid before and after
      have hmul : (gap x y + 1) * c ≤ d * c := Nat.mul_le_mul_right c hlt
      rw [Nat.succ_mul] at hmul
      by_cases hp : p < c
      · rw [if_pos (by omega), if_pos (by omega)]
      · rw [if_neg (by omega), if_neg (by omega)]
    · -- a later cell: not reached yet
      have hmul : (d + 1) * c ≤ gap x y * c := Nat.mul_le_mul_right c hgt
      rw [Nat.succ_mul] at hmul
      rw [if_neg (by omega), if_neg (by omega)]

/-- **What has been laid flows out again**, where the stream goes round the ring at most once. -/
theorem flow_laid (cells : Fin n → Mem) (x : Fin n) {f : List UInt8} {t : Nat} (hc : 0 < c)
    (hturn : f.length ≤ n * c) (ht : t ≤ f.length) :
    flow (laid cells x c f t) x c 0 t = f.take t := by
  apply List.ext_getElem (by simp [ht])
  intro i hi _
  rw [flow_length] at hi
  have hd : i / c < n := Nat.div_lt_of_lt_mul (by rw [Nat.mul_comm]; omega)
  have hsum : i / c * c + i % c = i := Nat.div_add_mod' i c
  simp only [flow, List.getElem_map, List.getElem_range, streamAt, laid, Nat.zero_add,
    gap_onward x hd, hsum, List.getElem_take]
  rw [if_pos ⟨Nat.mod_lt i hc, hi⟩, List.getD_eq_getElem?_getD,
    List.getElem?_eq_getElem (by omega)]
  rfl

/-- What has been laid in one cell is read there. -/
theorem read_laid (cells : Fin n → Mem) (x : Fin n) {f : List UInt8} {d m : Nat} (hc : 0 < c)
    (hturn : f.length ≤ n * c) (hm : m ≤ c) (hend : d * c + m ≤ f.length) :
    (laid cells x c f f.length (onward x d)).read 0 m = (f.drop (d * c)).take m := by
  have hcell := flow_cell (o := 0) (laid cells x c f f.length) x (d := d)
    (show 0 + m ≤ c by omega)
  have hflow := flow_laid cells x hc hturn le_rfl
  rw [List.take_length] at hflow
  rw [Nat.add_zero, ← flow_drop _ _ _ hend, hflow] at hcell
  exact hcell.symm

/-- A cell the stream has not reached is as it was. -/
theorem laid_of_le {cells : Fin n → Mem} {x y : Fin n} {f : List UInt8} {t : Nat}
    (h : t ≤ gap x y * c) : laid cells x c f t y = cells y := by
  funext o
  rw [laid, if_neg (by omega)]

end EthIo.Base
