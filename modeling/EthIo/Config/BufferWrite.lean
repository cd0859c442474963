import EthIo.Config.I2cEe

/-!
# Writing any stretch of the EEPROM

`I2C_EE_BufferWrite` cuts a stretch into page writes: bytes up to the next page boundary, whole
pages, and what is left. The chip does not go on to the next page, it wraps inside the one it has
been given. `writes_exactly_iff` says when the cutting is right for a start `a` and a length `n`:
always from eight bytes on, and below that only where the stretch stays in its page, because the
branch for fewer bytes than a page does not look at the boundary.

The firmware itself only writes twenty bytes from the first page on. There the cutting is right, and
what can go wrong is the bus: the status of each page write is dropped on the way up, and
`I2C_Write_EE_IP` reports success whatever it was. `success_is_stored_iff` counts the cost.
-/

namespace EthIo.Config

open EthIo.Base

/-! ## The chip -/

namespace Eeprom

/-- The bytes `bs` in the cells from `a` on, all others as they were. -/
def put (e : Eeprom) (a : UInt8) (bs : List UInt8) : Eeprom := fun y =>
  if a.toNat ≤ y.toNat then bs.getD (y.toNat - a.toNat) (e y) else e y

theorem put_nil (e : Eeprom) (a : UInt8) : e.put a [] = e := by
  funext y
  simp [put]

/-- Two stretches, one behind the other. -/
theorem put_put (e : Eeprom) {a c : UInt8} {bs cs : List UInt8}
    (hc : c.toNat = a.toNat + bs.length) : (e.put a bs).put c cs = e.put a (bs ++ cs) := by
  funext y
  simp only [put, List.getD_eq_getElem?_getD]
  by_cases hy : c.toNat ≤ y.toNat
  · have hsub : y.toNat - c.toNat = y.toNat - a.toNat - bs.length := by omega
    rw [if_pos hy, if_pos (by omega), if_pos (by omega), List.getElem?_append_right (by omega),
      hsub, List.getElem?_eq_none (l := bs) (by omega)]
    rfl
  · by_cases ha : a.toNat ≤ y.toNat
    · rw [if_neg hy, if_pos ha, if_pos ha, List.getElem?_append_left (by omega)]
    · rw [if_neg hy, if_neg ha, if_neg ha]

/-- A page write that stays in its page puts its bytes where they belong. -/
theorem pageWrite_eq_put {x : UInt8} {bs : List UInt8} (e : Eeprom)
    (h : x.toNat % 8 + bs.length ≤ 8) : e.pageWrite x bs = e.put x bs :=
  funext fun y => pageWrite_apply e h y

/-- The cell of byte `i` lies in the page of the start. -/
theorem pageCell_toNat_of_lt (x : UInt8) {i : Nat} (hi : i < 8) :
    (pageCell x i).toNat = x.toNat / 8 * 8 + (x.toNat + i) % 8 := by
  have all : ∀ x : Fin 256, ∀ i : Fin 8,
      (pageCell (UInt8.ofNat x.val) i.val).toNat = x.val / 8 * 8 + (x.val + i.val) % 8 := by
    decide +kernel
  have hx := all ⟨x.toNat, x.toNat_lt⟩ ⟨i, hi⟩
  simpa only [UInt8.ofNat_toNat] using hx

/-- No two of eight bytes go to one cell. -/
theorem pageCell_inj {x : UInt8} {i j : Nat} (hi : i < 8) (hj : j < 8)
    (h : pageCell x i = pageCell x j) : i = j := by
  have hnat := congrArg UInt8.toNat h
  rw [pageCell_toNat_of_lt x hi, pageCell_toNat_of_lt x hj] at hnat
  omega

/-- A cell none of the bytes goes to is left alone. -/
theorem pageWriteFrom_of_ne {x y : UInt8} {i : Nat} {bs : List UInt8} {e : Eeprom}
    (h : ∀ j, j < bs.length → pageCell x (i + j) ≠ y) : pageWriteFrom x i bs e y = e y := by
  induction bs generalizing i e with
  | nil => rfl
  | cons b bs ih =>
    have hne : y ≠ pageCell x i := fun hy => h 0 (by simp) hy.symm
    rw [pageWriteFrom, ih, store, if_neg hne]
    intro j hj
    have := h (j + 1) (by rw [List.length_cons]; omega)
    rwa [show i + 1 + j = i + (j + 1) by omega]

/-- The cell of each byte holds it, as long as no other byte goes there. -/
theorem pageWriteFrom_pageCell {x : UInt8} {i j : Nat} {bs : List UInt8} (e : Eeprom)
    (hlen : i + bs.length ≤ 8) (hj : j < bs.length) :
    pageWriteFrom x i bs e (pageCell x (i + j)) = bs[j] := by
  induction bs generalizing i j e with
  | nil => simp at hj
  | cons b bs ih =>
    rw [List.length_cons] at hlen hj
    cases j with
    | zero =>
      rw [pageWriteFrom, Nat.add_zero, pageWriteFrom_of_ne]
      · simp [store]
      · intro k hk h
        have := pageCell_inj (by omega) (by omega) h
        omega
    | succ j =>
      have hj' : j < bs.length := by omega
      rw [pageWriteFrom, show i + (j + 1) = i + 1 + j by omega, ih _ (by omega) hj']
      rfl

end Eeprom

/-! ## The cutting -/

variable {b : List UInt8} {a : UInt8} {e : Eeprom}

theorem toNat_add_ofNat {k : Nat} (h : a.toNat + k < 256) :
    (a + UInt8.ofNat k).toNat = a.toNat + k := by
  rw [UInt8.toNat_add, UInt8.toNat_ofNat']
  omega

/-- **The loop over whole pages**, from the start of a page: the bytes of `k` pages, the pointer
and the address behind them. -/
theorem writePages_faithful {k : Nat} (hpage : a.toNat % 8 = 0) (hb : 8 * k ≤ b.length)
    (hend : a.toNat + 8 * k ≤ 256) :
    writePages k b a (faithful e) =
      (b.drop (8 * k), a + UInt8.ofNat (8 * k), faithful (e.put a (b.take (8 * k)))) := by
  induction k generalizing b a e with
  | zero =>
    have h0 : a + UInt8.ofNat (8 * 0) = a := UInt8.add_zero a
    rw [h0, Nat.mul_zero, List.take_zero, Eeprom.put_nil]
    rfl
  | succ k ih =>
    have hlen : (b.take 8).length = 8 := by
      rw [List.length_take]
      omega
    have hput : e.pageWrite a (b.take 8) = e.put a (b.take 8) :=
      Eeprom.pageWrite_eq_put e (by omega)
    have haddr : a + 8 + UInt8.ofNat (8 * k) = a + UInt8.ofNat (8 * (k + 1)) := by
      rw [Nat.mul_succ, Nat.add_comm, UInt8.ofNat_add, UInt8.add_assoc]
      rfl
    have hstep : writePages (k + 1) b a (faithful e) =
        writePages k (b.drop 8) (a + 8) (faithful (e.put a (b.take 8))) := by
      rw [← hput]
      rfl
    cases k with
    | zero =>
      rw [hstep]
      rfl
    | succ k =>
      have hnext : (a + 8).toNat = a.toNat + 8 := toNat_add_ofNat (k := 8) (by omega)
      rw [hstep, ih (by omega) (by rw [List.length_drop]; omega) (by omega), haddr, List.drop_drop,
        Eeprom.put_put e (by omega), show 8 * (k + 1 + 1) = 8 + 8 * (k + 1) by omega,
        List.take_add]

/-- Whole pages and a rest that fills no page, from the start of a page. -/
theorem writePagesAndRest_faithful {p r : UInt8} (hpage : a.toNat % 8 = 0) (hr : r.toNat < 8)
    (hb : 8 * p.toNat + r.toNat ≤ b.length) (hend : a.toNat + (8 * p.toNat + r.toNat) ≤ 256) :
    writePagesAndRest p r b a (faithful e) =
      faithful (e.put a (b.take (8 * p.toNat + r.toNat))) := by
  rw [writePagesAndRest, writePages_faithful hpage (by omega) (by omega)]
  dsimp only
  split_ifs with hrest
  · have hpos : r.toNat ≠ 0 := fun h => hrest (UInt8.toNat_inj.mp h)
    have hnext : (a + UInt8.ofNat (8 * p.toNat)).toNat = a.toNat + 8 * p.toNat :=
      toNat_add_ofNat (by omega)
    have hlen : ((b.drop (8 * p.toNat)).take r.toNat).length = r.toNat := by
      rw [List.length_take, List.length_drop]
      omega
    rw [I2C_EE_PageWrite_faithful, Eeprom.pageWrite_eq_put _ (by omega), Eeprom.put_put,
        List.take_add]
    rw [List.length_take]
    omega
  · have hzero : r.toNat = 0 := by
      rw [Decidable.not_not.mp hrest]
      rfl
    rw [hzero, Nat.add_zero]

/-- The counters of `I2C_EE_BufferWrite`: whole pages and the rest of a length up to 256. -/
theorem counters (n : UInt16) (hn : n.toNat ≤ 256) :
    (n / EEPROM_PAGESIZE.toUInt16).toUInt8.toNat = n.toNat / 8 ∧
      (n % EEPROM_PAGESIZE.toUInt16).toUInt8.toNat = n.toNat % 8 := by
  have h8 : EEPROM_PAGESIZE.toUInt16.toNat = 8 := rfl
  constructor
  · rw [UInt16.toNat_toUInt8, UInt16.toNat_div, h8]
    omega
  · rw [UInt16.toNat_toUInt8, UInt16.toNat_mod, h8]
    omega

theorem addr_mod (a : UInt8) : (a % EEPROM_PAGESIZE).toNat = a.toNat % 8 := UInt8.toNat_mod a 8

theorem addr_eq_zero_iff : a % EEPROM_PAGESIZE = 0 ↔ a.toNat % 8 = 0 := by
  rw [← UInt8.toNat_inj, addr_mod]
  rfl

theorem pages_eq_zero_iff {n : UInt16} (hn : n.toNat ≤ 256) :
    (n / EEPROM_PAGESIZE.toUInt16).toUInt8 = 0 ↔ n.toNat < 8 := by
  have h0 : (0 : UInt8).toNat = 0 := rfl
  rw [← UInt8.toNat_inj, (counters n hn).1, h0]
  omega

/-- Fewer bytes than a page are one page write, wherever they start. -/
theorem bufferWrite_short {n : UInt16} (hn : n.toNat < 8) :
    I2C_EE_BufferWrite b a n (faithful e) = faithful (e.pageWrite a (b.take n.toNat)) := by
  have hpages := (pages_eq_zero_iff (n := n) (by omega)).mpr hn
  have hsingle := (counters n (by omega)).2
  rw [Nat.mod_eq_of_lt hn] at hsingle
  simp only [I2C_EE_BufferWrite, if_pos hpages, ite_self, I2C_EE_PageWrite_faithful, hsingle]

/-- A page or more from the start of a page: pages and a rest. -/
theorem bufferWrite_aligned {n : UInt16} (hpage : a.toNat % 8 = 0) (hn : 8 ≤ n.toNat)
    (hb : n.toNat ≤ b.length) (hend : a.toNat + n.toNat ≤ 256) :
    I2C_EE_BufferWrite b a n (faithful e) = faithful (e.put a (b.take n.toNat)) := by
  obtain ⟨hpages, hsingle⟩ := counters n (by omega)
  have hnot : ¬ (n / EEPROM_PAGESIZE.toUInt16).toUInt8 = 0 := fun h =>
    absurd ((pages_eq_zero_iff (by omega)).mp h) (by omega)
  have hsum : 8 * (n.toNat / 8) + n.toNat % 8 = n.toNat := Nat.div_add_mod _ _
  simp only [I2C_EE_BufferWrite, if_pos (addr_eq_zero_iff.mpr hpage), if_neg hnot]
  rw [writePagesAndRest_faithful hpage (by omega) (by omega) (by omega), hpages, hsingle, hsum]

/-- A page or more from inside a page: the bytes up to the boundary first. -/
theorem bufferWrite_unaligned {n : UInt16} (hpage : a.toNat % 8 ≠ 0) (hn : 8 ≤ n.toNat)
    (hb : n.toNat ≤ b.length) (hend : a.toNat + n.toNat ≤ 256) :
    I2C_EE_BufferWrite b a n (faithful e) = faithful (e.put a (b.take n.toNat)) := by
  have h8 : EEPROM_PAGESIZE.toNat = 8 := rfl
  have hcount : (EEPROM_PAGESIZE - a % EEPROM_PAGESIZE).toNat = 8 - a.toNat % 8 := by
    rw [UInt8.toNat_sub_of_le, addr_mod, h8]
    rw [UInt8.le_iff_toNat_le, addr_mod, h8]
    omega
  obtain ⟨c, hc⟩ : ∃ c, c = EEPROM_PAGESIZE - a % EEPROM_PAGESIZE := ⟨_, rfl⟩
  rw [← hc] at hcount
  have hcpos : c ≠ 0 := by
    intro h
    have : c.toNat = 0 := by rw [h]; rfl
    omega
  have hleft : (n - c.toUInt16).toNat = n.toNat - c.toNat := by
    rw [UInt16.toNat_sub_of_le, UInt8.toNat_toUInt16]
    rw [UInt16.le_iff_toNat_le, UInt8.toNat_toUInt16]
    omega
  obtain ⟨hpages, hsingle⟩ := counters (n - c.toUInt16) (by omega)
  have hnot : ¬ (n / EEPROM_PAGESIZE.toUInt16).toUInt8 = 0 := fun h =>
    absurd ((pages_eq_zero_iff (by omega)).mp h) (by omega)
  have hsum : 8 * ((n.toNat - c.toNat) / 8) + (n.toNat - c.toNat) % 8 = n.toNat - c.toNat :=
    Nat.div_add_mod _ _
  have hnext : (a + c).toNat = (a.toNat + c.toNat) % 256 := UInt8.toNat_add a c
  have hlen : (b.take c.toNat).length = c.toNat := by
    rw [List.length_take]
    omega
  have hfirst : (I2C_EE_PageWrite b a c (faithful e)).2 = faithful (e.put a (b.take c.toNat)) := by
    rw [I2C_EE_PageWrite_faithful, Eeprom.pageWrite_eq_put _ (by omega)]
  simp only [I2C_EE_BufferWrite, ← hc, if_neg (mt addr_eq_zero_iff.mp hpage), if_neg hnot,
    if_pos hcpos, hfirst]
  have hdrop : (b.drop c.toNat).length = b.length - c.toNat := List.length_drop
  rw [writePagesAndRest_faithful (by omega) (by omega) (by omega) (by omega), hpages, hsingle,
    hleft, hsum, Eeprom.put_put _ (by omega), ← List.take_add,
    Nat.add_sub_cancel' (by omega : c.toNat ≤ n.toNat)]

/-! ## Exactly the requested cells -/

/-- **The bytes are in the cells `a` on, and every other cell is unchanged.** -/
def WritesExactly (b : List UInt8) (a : UInt8) (n : UInt16) (e : Eeprom) : Prop :=
  (∀ i, i < n.toNat →
    some ((I2C_EE_BufferWrite b a n (faithful e)).eeprom (a + UInt8.ofNat i)) = b[i]?) ∧
  ∀ y, (∀ i, i < n.toNat → y ≠ a + UInt8.ofNat i) →
    (I2C_EE_BufferWrite b a n (faithful e)).eeprom y = e y

/-- A page or more; or fewer bytes, of which each that the chip wraps into the start of the page is
already in its own cell, and in the cell it is wrapped to. -/
def Fits (b : List UInt8) (a : UInt8) (n : UInt16) (e : Eeprom) : Prop :=
  8 ≤ n.toNat ∨ ∀ i, i < n.toNat → 8 ≤ a.toNat % 8 + i →
    some (e (a + UInt8.ofNat i)) = b[i]? ∧ some (e (Eeprom.pageCell a i)) = b[i]?

/-- A stretch in its place is written exactly. -/
theorem writesExactly_of_put {n : UInt16} (hb : n.toNat ≤ b.length)
    (hend : a.toNat + n.toNat ≤ 256)
    (h : (I2C_EE_BufferWrite b a n (faithful e)).eeprom = e.put a (b.take n.toNat)) :
    WritesExactly b a n e := by
  have hlen : (b.take n.toNat).length = n.toNat := by
    rw [List.length_take]
    omega
  rw [WritesExactly, h]
  constructor
  · intro i hi
    have hcell : (a + UInt8.ofNat i).toNat = a.toNat + i := toNat_add_ofNat (by omega)
    rw [Eeprom.put, hcell, if_pos (by omega), Nat.add_sub_cancel_left, List.getD_eq_getElem?_getD,
      List.getElem?_take_of_lt hi, List.getElem?_eq_getElem (by omega)]
    rfl
  · intro y hy
    rw [Eeprom.put]
    split_ifs with hle
    · rw [List.getD_eq_getElem?_getD, List.getElem?_eq_none]
      · rfl
      · by_contra hnot
        have hcell : (a + UInt8.ofNat (y.toNat - a.toNat)).toNat = a.toNat + (y.toNat - a.toNat) :=
          toNat_add_ofNat (by have := y.toNat_lt; omega)
        refine hy (y.toNat - a.toNat) (by omega) (UInt8.toNat_inj.mp ?_)
        omega
    · rfl

/-- From a page on, the cutting is right. -/
theorem writesExactly_of_page {n : UInt16} (hn : 8 ≤ n.toNat) (hb : n.toNat ≤ b.length)
    (hend : a.toNat + n.toNat ≤ 256) : WritesExactly b a n e := by
  apply writesExactly_of_put hb hend
  by_cases hpage : a.toNat % 8 = 0
  · rw [bufferWrite_aligned hpage hn hb hend]
    rfl
  · rw [bufferWrite_unaligned hpage hn hb hend]
    rfl

/-- A byte short of the page end goes to its own cell. -/
theorem pageCell_eq_add {i : Nat} (h : a.toNat % 8 + i < 8) :
    Eeprom.pageCell a i = a + UInt8.ofNat i := by
  have ha := a.toNat_lt
  apply UInt8.toNat_inj.mp
  rw [Eeprom.pageCell_toNat_of_lt a (by omega), toNat_add_ofNat (by omega)]
  omega

/-- The bytes of a short write, cell by cell. -/
theorem shortWrite_pageCell {n i : Nat} (hn : n < 8) (hb : n ≤ b.length) (hi : i < n) :
    some (e.pageWrite a (b.take n) (Eeprom.pageCell a i)) = b[i]? := by
  have hlen : (b.take n).length = n := by
    rw [List.length_take]
    omega
  have hbytes : i < (b.take n).length := by omega
  have hcell := Eeprom.pageWriteFrom_pageCell (x := a) (i := 0) e (by omega) hbytes
  rw [Nat.zero_add] at hcell
  rw [Eeprom.pageWrite, hcell, List.getElem_take, List.getElem?_eq_getElem]

theorem shortWrite_other {n : Nat} {y : UInt8} (h : ∀ i, i < n → Eeprom.pageCell a i ≠ y) :
    e.pageWrite a (b.take n) y = e y := by
  apply Eeprom.pageWriteFrom_of_ne
  intro j hj
  rw [Nat.zero_add]
  exact h j (Nat.lt_of_lt_of_le hj (List.length_take_le _ _))

/-- Below a page, the cutting is right where each byte that is wrapped stands in place already. -/
theorem writesExactly_short_iff {n : UInt16} (hn : n.toNat < 8) (hb : n.toNat ≤ b.length)
    (hend : a.toNat + n.toNat ≤ 256) :
    WritesExactly b a n e ↔ ∀ i, i < n.toNat → 8 ≤ a.toNat % 8 + i →
      some (e (a + UInt8.ofNat i)) = b[i]? ∧ some (e (Eeprom.pageCell a i)) = b[i]? := by
  have hcell : ∀ i, i < n.toNat → (a + UInt8.ofNat i).toNat = a.toNat + i := fun i hi =>
    toNat_add_ofNat (by omega)
  have hpage : ∀ i, i < n.toNat →
      (Eeprom.pageCell a i).toNat = a.toNat / 8 * 8 + (a.toNat + i) % 8 := fun i hi =>
    Eeprom.pageCell_toNat_of_lt a (by omega)
  have hne : ∀ i j, i < n.toNat → j < n.toNat → 8 ≤ a.toNat % 8 + i →
      Eeprom.pageCell a j ≠ a + UInt8.ofNat i := by
    intro i j hi hj hwrap h
    have hnat := congrArg UInt8.toNat h
    rw [hpage j hj, hcell i hi] at hnat
    omega
  rw [WritesExactly, bufferWrite_short hn]
  show (∀ i, i < n.toNat → some (e.pageWrite a (b.take n.toNat) _) = _) ∧
    (∀ y, _ → e.pageWrite a (b.take n.toNat) y = e y) ↔ _
  constructor
  · rintro ⟨hown, hother⟩ i hi hwrap
    constructor
    · rw [← hown i hi, shortWrite_other fun j hj => hne i j hi hj hwrap]
    · rw [← shortWrite_pageCell hn hb hi, hother]
      intro j hj h
      have hnat := congrArg UInt8.toNat h
      rw [hpage i hi, hcell j hj] at hnat
      omega
  · intro hplace
    constructor
    · intro i hi
      by_cases hwrap : 8 ≤ a.toNat % 8 + i
      · rw [shortWrite_other fun j hj => hne i j hi hj hwrap]
        exact (hplace i hi hwrap).1
      · rw [← pageCell_eq_add (by omega)]
        exact shortWrite_pageCell hn hb hi
    · intro y hy
      by_cases hcells : ∃ i, i < n.toNat ∧ Eeprom.pageCell a i = y
      · obtain ⟨i, hi, rfl⟩ := hcells
        have hwrap : 8 ≤ a.toNat % 8 + i := by
          by_contra hnot
          exact hy i hi (pageCell_eq_add (by omega))
        have hplaced := (hplace i hi hwrap).2
        rw [← shortWrite_pageCell (e := e) hn hb hi] at hplaced
        exact (Option.some.inj hplaced).symm
      · exact shortWrite_other fun i hi h => hcells ⟨i, hi, h⟩

/-- **When `I2C_EE_BufferWrite` writes exactly the requested cells**: from a page on always, and
below it where no byte crosses the page end that is not in place already. -/
theorem writes_exactly_iff {n : UInt16} (hb : n.toNat ≤ b.length)
    (hend : a.toNat + n.toNat ≤ 256) : WritesExactly b a n e ↔ Fits b a n e := by
  rcases Nat.lt_or_ge n.toNat 8 with hn | hn
  · rw [writesExactly_short_iff hn hb hend, Fits, or_iff_right (by omega)]
  · exact iff_of_true (writesExactly_of_page hn hb hend) (.inl hn)

/-- Ten bytes from the fourth cell on, over a page end. -/
theorem writes_exactly_over_a_page_end :
    WritesExactly [1, 2, 3, 4, 5, 6, 7, 8, 9, 10] 3 10 (fun _ => 0xff) ↔
      Fits [1, 2, 3, 4, 5, 6, 7, 8, 9, 10] 3 10 (fun _ => 0xff) :=
  writes_exactly_iff (by decide) (by decide)

/-- Two bytes from the last cell of the first page on: the second lands in cell 0. -/
theorem short_write_wraps :
    ¬ WritesExactly [1, 2] 7 2 (fun _ => 0xff) := by
  intro h
  have hcell := h.1 1 (by decide)
  have hlost : (I2C_EE_BufferWrite [1, 2] 7 2 (faithful fun _ => 0xff)).eeprom 8 = 0xff := by
    decide +kernel
  have hsecond : some ((I2C_EE_BufferWrite [1, 2] 7 2 (faithful fun _ => 0xff)).eeprom 8) =
      some 2 := hcell
  rw [hlost] at hsecond
  exact absurd (Option.some.inj hsecond) (by decide)

/-! ## What the bus answers -/

/-- The script behind a page write: its own answer and those of the poll behind it are gone. -/
def afterPage (answers : List Answer) : List Answer :=
  (answers.tail.dropWhile (·.status = .HAL_TIMEOUT)).tail

/-- The status of the `k`-th `HAL_I2C_Mem_Write` of a row of page writes. -/
def writeStatus : Nat → List Answer → HAL_StatusTypeDef
  | 0, [] => .HAL_OK
  | 0, answer :: _ => answer.status
  | k + 1, answers => writeStatus k (afterPage answers)

/-- The bytes of a configuration that go to its `k`-th page. -/
def piece (Usart_Ip_data : List UInt8) (k : Nat) : List UInt8 :=
  ((Usart_Ip_data.take DATA_Size.toNat).drop (8 * k)).take 8

/-- **A success message means that the configuration is stored.** -/
def StoredIfReported (Usart_Ip_data : List UInt8) (board : Board) : Prop :=
  (I2C_Write_EE_IP Usart_Ip_data board).1 = 1 ∧
      (I2C_Write_EE_IP Usart_Ip_data board).2.printed =
        board.printed ++ [.written (Usart_Ip_data.takeWhile (· ≠ 0))] →
    (I2C_Write_EE_IP Usart_Ip_data board).2.bus.eeprom.readCells EEP_Firstpage DATA_Size.toNat =
      Usart_Ip_data.take DATA_Size.toNat

/-- Each page is written with `HAL_OK`, or holds its bytes already. -/
def Acknowledged (Usart_Ip_data : List UInt8) (board : Board) : Prop :=
  ∀ k, k < 3 → writeStatus k board.bus.answers = .HAL_OK ∨
    board.bus.eeprom.readCells (UInt8.ofNat (8 * k)) (piece Usart_Ip_data k).length =
      piece Usart_Ip_data k

/-- The chip after a page write with this status. -/
def Eeprom.pageIf (status : HAL_StatusTypeDef) (e : Eeprom) (x : UInt8) (bs : List UInt8) :
    Eeprom :=
  if status = .HAL_OK then e.pageWrite x bs else e

/-- What the page holds is what was to be written, if it is acknowledged or was there before. -/
theorem Eeprom.readCells_pageIf_iff (e : Eeprom) (status : HAL_StatusTypeDef) {x : UInt8}
    {bs : List UInt8} (h : x.toNat % 8 + bs.length ≤ 8) :
    (e.pageIf status x bs).readCells x bs.length = bs ↔
      status = .HAL_OK ∨ e.readCells x bs.length = bs := by
  rw [Eeprom.pageIf]
  split_ifs with hok
  · exact iff_of_true (Eeprom.readCells_pageWrite e h) (.inl hok)
  · exact (or_iff_right hok).symm

theorem Eeprom.readCells_pageIf_of_disjoint {status : HAL_StatusTypeDef} {x c : UInt8}
    {bs : List UInt8} {n : Nat} (h : x.toNat % 8 + bs.length ≤ 8) (hn : c.toNat + n ≤ 256)
    (clear : c.toNat + n ≤ x.toNat ∨ x.toNat + bs.length ≤ c.toNat) :
    (e.pageIf status x bs).readCells c n = e.readCells c n := by
  rw [Eeprom.pageIf]
  split_ifs
  · exact Eeprom.readCells_pageWrite_of_disjoint e h hn clear
  · rfl

/-- A page write: stored if it is acknowledged, and the rest of the script behind its poll. -/
theorem I2C_EE_PageWrite_snd (pBuffer : List UInt8) (WriteAddr NumByteToWrite : UInt8) (bus : Bus) :
    (I2C_EE_PageWrite pBuffer WriteAddr NumByteToWrite bus).2 =
      ⟨bus.eeprom.pageIf (writeStatus 0 bus.answers) WriteAddr (pBuffer.take NumByteToWrite.toNat),
        afterPage bus.answers⟩ := by
  obtain ⟨eeprom, answers⟩ := bus
  cases answers with
  | nil => rfl
  | cons answer answers =>
    by_cases hok : answer.status = .HAL_OK
    all_goals simp [I2C_EE_PageWrite, HAL_I2C_Mem_Write, Bus.answer, waitReady, writeStatus,
      afterPage, Eeprom.pageIf, hok]

/-- The chip after a configuration has been written: three pages, each with its own status. -/
theorem I2C_Write_EE_IP_eeprom (Usart_Ip_data : List UInt8) (board : Board) :
    (I2C_Write_EE_IP Usart_Ip_data board).2.bus.eeprom =
      ((board.bus.eeprom.pageIf (writeStatus 0 board.bus.answers) 0 (piece Usart_Ip_data 0)).pageIf
        (writeStatus 1 board.bus.answers) 8 (piece Usart_Ip_data 1)).pageIf
        (writeStatus 2 board.bus.answers) 16 (piece Usart_Ip_data 2) := by
  have hpiece0 : piece Usart_Ip_data 0 = Usart_Ip_data.take 8 := by
    show ((Usart_Ip_data.take 20).drop 0).take 8 = _
    rw [List.drop_zero, List.take_take]
    rfl
  have hpiece1 : piece Usart_Ip_data 1 = (Usart_Ip_data.drop 8).take 8 := by
    show ((Usart_Ip_data.take 20).drop 8).take 8 = _
    rw [List.drop_take, List.take_take]
    rfl
  have hpiece2 : piece Usart_Ip_data 2 = ((Usart_Ip_data.drop 8).drop 8).take 4 := by
    show ((Usart_Ip_data.take 20).drop 16).take 8 = _
    rw [List.drop_take, List.take_take, List.drop_drop]
    rfl
  rw [hpiece0, hpiece1, hpiece2]
  show (I2C_EE_BufferWrite Usart_Ip_data EEP_Firstpage DATA_Size board.bus).eeprom = _
  rw [I2C_EE_BufferWrite_firstpage, I2C_EE_PageWrite_snd, I2C_EE_PageWrite_snd,
    I2C_EE_PageWrite_snd]
  rfl

/-- A configuration is the pieces of its three pages. -/
theorem take_eq_pieces (Usart_Ip_data : List UInt8) :
    Usart_Ip_data.take DATA_Size.toNat =
      piece Usart_Ip_data 0 ++ (piece Usart_Ip_data 1 ++ piece Usart_Ip_data 2) := by
  have h20 : DATA_Size.toNat = 20 := rfl
  have hrest : ((Usart_Ip_data.take DATA_Size.toNat).drop (8 * 2)).take 8 =
      (Usart_Ip_data.take DATA_Size.toNat).drop (8 + 8) :=
    List.take_of_length_le (by rw [List.length_drop, List.length_take, h20]; omega)
  rw [piece, piece, piece, hrest, Nat.mul_zero, List.drop_zero, Nat.mul_one, ← List.drop_drop,
    List.take_append_drop, List.take_append_drop]

theorem piece_length {Usart_Ip_data : List UInt8} (hlen : 20 ≤ Usart_Ip_data.length) :
    (piece Usart_Ip_data 0).length = 8 ∧ (piece Usart_Ip_data 1).length = 8 ∧
      (piece Usart_Ip_data 2).length = 4 := by
  have h20 : DATA_Size.toNat = 20 := rfl
  simp only [piece, h20, List.length_take, List.length_drop]
  omega

/-- What the three pages hold in the end, page by page. -/
theorem readCells_pages_iff {p q r : List UInt8} {s₀ s₁ s₂ : HAL_StatusTypeDef}
    (hp : p.length = 8) (hq : q.length = 8) (hr : r.length = 4) :
    (((e.pageIf s₀ 0 p).pageIf s₁ 8 q).pageIf s₂ 16 r).readCells 0 20 = p ++ (q ++ r) ↔
      (s₀ = .HAL_OK ∨ e.readCells 0 8 = p) ∧ (s₁ = .HAL_OK ∨ e.readCells 8 8 = q) ∧
        (s₂ = .HAL_OK ∨ e.readCells 16 4 = r) := by
  have h0 : (0 : UInt8).toNat = 0 := rfl
  have h8 : (8 : UInt8).toNat = 8 := rfl
  have h16 : (16 : UInt8).toNat = 16 := rfl
  have hp8 : (0 : UInt8).toNat % 8 + p.length ≤ 8 := by omega
  have hq8 : (8 : UInt8).toNat % 8 + q.length ≤ 8 := by omega
  have hr8 : (16 : UInt8).toNat % 8 + r.length ≤ 8 := by omega
  have third := Eeprom.readCells_pageIf_iff ((e.pageIf s₀ 0 p).pageIf s₁ 8 q) s₂ hr8
  have second := Eeprom.readCells_pageIf_iff (e.pageIf s₀ 0 p) s₁ hq8
  have first := Eeprom.readCells_pageIf_iff e s₀ hp8
  -- each page keeps what it holds while the others are written
  have keep16 : ((e.pageIf s₀ 0 p).pageIf s₁ 8 q).readCells 16 4 = e.readCells 16 4 := by
    rw [Eeprom.readCells_pageIf_of_disjoint (by omega) (by omega) (by omega),
      Eeprom.readCells_pageIf_of_disjoint (by omega) (by omega) (by omega)]
  have keep8 : (e.pageIf s₀ 0 p).readCells 8 8 = e.readCells 8 8 :=
    Eeprom.readCells_pageIf_of_disjoint (by omega) (by omega) (by omega)
  rw [hr, keep16] at third
  rw [hq, keep8] at second
  rw [hp] at first
  have low : ((((e.pageIf s₀ 0 p).pageIf s₁ 8 q).pageIf s₂ 16 r).readCells 0 8) =
      (e.pageIf s₀ 0 p).readCells 0 8 := by
    rw [Eeprom.readCells_pageIf_of_disjoint (by omega) (by omega) (by omega),
      Eeprom.readCells_pageIf_of_disjoint (by omega) (by omega) (by omega)]
  have middle : ((((e.pageIf s₀ 0 p).pageIf s₁ 8 q).pageIf s₂ 16 r).readCells 8 8) =
      ((e.pageIf s₀ 0 p).pageIf s₁ 8 q).readCells 8 8 :=
    Eeprom.readCells_pageIf_of_disjoint (by omega) (by omega) (by omega)
  rw [← first, ← second, ← third, ← low, ← middle, show (20 : Nat) = 8 + (8 + 4) from rfl,
    Eeprom.readCells_append, Eeprom.readCells_append]
  constructor
  · intro h
    obtain ⟨hlow, hrest⟩ := List.append_inj h (by rw [Eeprom.readCells_length, hp])
    obtain ⟨hmiddle, hhigh⟩ := List.append_inj hrest (by rw [Eeprom.readCells_length, hq])
    exact ⟨hlow, hmiddle, hhigh⟩
  · rintro ⟨hlow, hmiddle, hhigh⟩
    exact congrArg₂ _ hlow (congrArg₂ _ hmiddle hhigh)

/-- **When success means stored**: exactly when every page is acknowledged or holds its bytes
already. -/
theorem success_is_stored_iff {Usart_Ip_data : List UInt8} {board : Board}
    (hlen : 20 ≤ Usart_Ip_data.length) :
    StoredIfReported Usart_Ip_data board ↔ Acknowledged Usart_Ip_data board := by
  obtain ⟨h0, h1, h2⟩ := piece_length hlen
  rw [StoredIfReported, imp_iff_right ⟨rfl, rfl⟩, I2C_Write_EE_IP_eeprom, take_eq_pieces]
  apply (readCells_pages_iff h0 h1 h2).trans
  constructor
  · rintro ⟨hlow, hmiddle, hhigh⟩ k hk
    match k, hk with
    | 0, _ => rwa [h0]
    | 1, _ => rwa [h1]
    | 2, _ => rwa [h2]
  · intro h
    have hlow := h 0 (by omega)
    have hmiddle := h 1 (by omega)
    have hhigh := h 2 (by omega)
    rw [h0] at hlow
    rw [h1] at hmiddle
    rw [h2] at hhigh
    exact ⟨hlow, hmiddle, hhigh⟩

/-- A poll that ends in `HAL_ERROR` after a page that was written, and a bus that goes on well. -/
theorem success_is_stored_after_poll_error :
    StoredIfReported (ascii "192.168.100.100:8080")
        ⟨⟨fun _ => 0xff, [⟨.HAL_OK, 0⟩, ⟨.HAL_ERROR, 0⟩]⟩, fun _ => 0, []⟩ ↔
      Acknowledged (ascii "192.168.100.100:8080")
        ⟨⟨fun _ => 0xff, [⟨.HAL_OK, 0⟩, ⟨.HAL_ERROR, 0⟩]⟩, fun _ => 0, []⟩ :=
  success_is_stored_iff (by decide)

/-- The first page is stored, its write cycle outlasts the poll, and the second page is not
acknowledged: half of the new address stands before half of the old, and success is reported. -/
theorem dropped_status_reported :
    ¬ StoredIfReported (ascii "192.168.100.100:8080")
      ⟨⟨fun _ => 0xff, [⟨.HAL_OK, 0⟩, ⟨.HAL_ERROR, 0⟩, ⟨.HAL_ERROR, 0⟩]⟩, fun _ => 0, []⟩ := by
  intro h
  have hcells := h ⟨rfl, rfl⟩
  revert hcells
  decide +kernel

end EthIo.Config
