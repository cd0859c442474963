import EthIo.Rtos.Queue

/-!
# The items of a queue

`Holds q m xs` says that the queue, in memory `m`, has the items `xs`, the one to be read next in
front. Each way of copying an item in or out does to the list what it should: to the back, to the
front, in place of the only item, out of it, or not at all. So the ring with its two pointers is a
list of at most `uxLength` items, wherever in the ring these stand.
-/

namespace EthIo.Rtos

open EthIo.Base

variable {τ : Type*}

namespace Queue_t

variable {q q' : Queue_t τ} {m : Mem} {xs : List (List UInt8)} {x item : List UInt8}

/-- The address of a cell. -/
def cell (q : Queue_t τ) (i : Nat) : Nat := q.pcHead + i * q.uxItemSize

/-- **Where the linker and the heap have put the cells.** -/
structure Placed (q : Queue_t τ) : Prop where
  length : 0 < q.uxLength
  pcTail : q.pcTail = q.cell q.uxLength
  below : q.uxItemSize ≤ q.pcHead
  fits : q.pcTail ≤ 2 ^ 32

/-- **The items of a queue**, the one to be read next in front. -/
structure Holds (q : Queue_t τ) (m : Mem) (xs : List (List UInt8)) : Prop where
  placed : q.Placed
  count : q.uxMessagesWaiting = xs.length
  room : xs.length ≤ q.uxLength
  sizes : ∀ x ∈ xs, x.length = q.uxItemSize
  cells : q.uxItemSize ≠ 0 → ∃ r : Fin q.uxLength, q.pcReadFrom = q.cell r ∧
    q.pcWriteTo = q.cell (onward r (1 + xs.length)) ∧
    ∀ i (h : i < xs.length), m.read (q.cell (onward r (1 + i))) q.uxItemSize = xs[i]

/-- The rings of two queues are the same. -/
structure SameRing (q q' : Queue_t τ) : Prop where
  pcHead : q'.pcHead = q.pcHead
  pcTail : q'.pcTail = q.pcTail
  pcWriteTo : q'.pcWriteTo = q.pcWriteTo
  pcReadFrom : q'.pcReadFrom = q.pcReadFrom
  uxMessagesWaiting : q'.uxMessagesWaiting = q.uxMessagesWaiting
  uxLength : q'.uxLength = q.uxLength
  uxItemSize : q'.uxItemSize = q.uxItemSize

section Cells

theorem cell_succ (q : Queue_t τ) (i : Nat) : q.cell (i + 1) = q.cell i + q.uxItemSize := by
  simp only [cell, Nat.succ_mul, Nat.add_assoc]

theorem cell_lt (hsize : q.uxItemSize ≠ 0) {i j : Nat} : q.cell i < q.cell j ↔ i < j := by
  simp only [cell]
  rw [Nat.add_lt_add_iff_left, Nat.mul_lt_mul_right (Nat.pos_of_ne_zero hsize)]

theorem cell_le {i j : Nat} (h : i ≤ j) : q.cell i ≤ q.cell j :=
  Nat.add_le_add_left (Nat.mul_le_mul_right _ h) _

/-- The pointer moved on by a cell, round at the end. -/
theorem next_cell (P : q.Placed) (hsize : q.uxItemSize ≠ 0) (r : Fin q.uxLength) :
    (if q.cell r + q.uxItemSize ≥ q.pcTail then q.pcHead else q.cell r + q.uxItemSize) =
      q.cell (onward r 1) := by
  rw [← cell_succ, P.pcTail]
  have hr := r.isLt
  by_cases hlast : r.val + 1 = q.uxLength
  · rw [hlast, if_pos (Nat.le_refl _)]
    simp [onward, hlast, cell]
  · have hlt : r.val + 1 < q.uxLength := by omega
    rw [if_neg (Nat.not_le.mpr ((cell_lt hsize).mpr hlt))]
    simp only [onward, Nat.mod_eq_of_lt hlt]

/-- The pointer moved back by a cell. -/
theorem prev_cell (P : q.Placed) (hsize : q.uxItemSize ≠ 0) (r : Fin q.uxLength) :
    (if movedBack (q.cell r) q.uxItemSize < q.pcHead then q.pcTail - q.uxItemSize
      else movedBack (q.cell r) q.uxItemSize) = q.cell (onward r (q.uxLength - 1)) := by
  have hr := r.isLt
  have hbelow := P.below
  have hfits := P.fits
  have hend : q.cell r + q.uxItemSize ≤ q.pcTail := by
    rw [← cell_succ, P.pcTail]
    exact cell_le hr
  have hstart : q.pcHead ≤ q.cell r := Nat.le_add_right _ _
  have hmod : movedBack (q.cell r) q.uxItemSize = q.cell r - q.uxItemSize := by
    unfold movedBack
    rw [show q.cell r + (2 ^ 32 - q.uxItemSize) = q.cell r - q.uxItemSize + 2 ^ 32 by omega,
      Nat.add_mod_right, Nat.mod_eq_of_lt (by omega)]
  rw [hmod]
  rcases Nat.eq_zero_or_pos r.val with hzero | hpos
  · have hcell : q.cell r = q.pcHead := by rw [hzero, cell, Nat.zero_mul, Nat.add_zero]
    have hback : (onward r (q.uxLength - 1)).val = q.uxLength - 1 := by
      simp only [onward, hzero, Nat.zero_add]
      exact Nat.mod_eq_of_lt (Nat.sub_lt P.length Nat.one_pos)
    rw [hcell, if_pos (by omega), hback, P.pcTail,
      show q.uxLength = q.uxLength - 1 + 1 by omega, cell_succ, Nat.add_sub_cancel,
      Nat.add_sub_cancel]
  · have hcell : q.cell r - q.uxItemSize = q.cell (r.val - 1) := by
      rw [show r.val = r.val - 1 + 1 by omega, cell_succ, Nat.add_sub_cancel, Nat.add_sub_cancel]
    have hback : (onward r (q.uxLength - 1)).val = r.val - 1 := by
      simp only [onward]
      rw [show r.val + (q.uxLength - 1) = r.val - 1 + q.uxLength by omega, Nat.add_mod_right,
        Nat.mod_eq_of_lt (by omega)]
    rw [hcell, if_neg (show ¬ q.cell (r.val - 1) < q.pcHead from
      Nat.not_lt.mpr (Nat.le_add_right _ _)), hback]

/-- A cell written is read back. -/
theorem read_write_self (hitem : item.length = q.uxItemSize) (a : Nat) :
    (m.write a (item.take q.uxItemSize)).read a q.uxItemSize = item := by
  rw [List.take_of_length_le hitem.le, ← hitem]
  exact Mem.read_write m a item

/-- The other cells are as they were. -/
theorem read_write_of_ne (hitem : item.length = q.uxItemSize) {i j : Nat} (h : i ≠ j) :
    (m.write (q.cell i) (item.take q.uxItemSize)).read (q.cell j) q.uxItemSize =
      m.read (q.cell j) q.uxItemSize := by
  rw [List.take_of_length_le hitem.le]
  apply Mem.read_congr
  intro a hj hj'
  rcases Nat.lt_or_gt_of_ne h with hlt | hgt
  · apply Mem.write_apply_of_le
    rw [hitem, ← cell_succ]
    exact (cell_le hlt).trans hj
  · apply Mem.write_apply_of_lt
    have hle : q.cell (j + 1) ≤ q.cell i := cell_le hgt
    rw [cell_succ] at hle
    exact Nat.lt_of_lt_of_le hj' hle

end Cells

/-! ## Copying -/

/-- What a queue holds, said with the cells of the queue it comes from. -/
theorem Holds.of_cells (P : q.Placed) (hhead : q'.pcHead = q.pcHead) (htail : q'.pcTail = q.pcTail)
    (hlength : q'.uxLength = q.uxLength) (hsize : q'.uxItemSize = q.uxItemSize)
    (count : q'.uxMessagesWaiting = xs.length) (room : xs.length ≤ q.uxLength)
    (sizes : ∀ x ∈ xs, x.length = q.uxItemSize)
    (cells : q.uxItemSize ≠ 0 → ∃ r : Fin q.uxLength, q'.pcReadFrom = q.cell r ∧
      q'.pcWriteTo = q.cell (onward r (1 + xs.length)) ∧
      ∀ i (h : i < xs.length), m.read (q.cell (onward r (1 + i))) q.uxItemSize = xs[i]) :
    q'.Holds m xs := by
  obtain ⟨head, tail, write, read, send, recv, waiting, length, size, rx, tx⟩ := q
  obtain ⟨head', tail', write', read', send', recv', waiting', length', size', rx', tx'⟩ := q'
  cases hhead
  cases htail
  cases hlength
  cases hsize
  exact ⟨⟨P.length, P.pcTail, P.below, P.fits⟩, count, room, sizes, cells⟩

/-- Nothing but the ring decides what a queue holds. -/
theorem Holds.congr (h : q.Holds m xs) (hsame : q.SameRing q') : q'.Holds m xs := by
  refine .of_cells h.placed hsame.pcHead hsame.pcTail hsame.uxLength hsame.uxItemSize
    (hsame.uxMessagesWaiting.trans h.count) h.room h.sizes ?_
  rw [hsame.pcReadFrom, hsame.pcWriteTo]
  exact h.cells

/-- **Sent to the back.** -/
theorem Holds.back (h : q.Holds m xs) (hroom : xs.length < q.uxLength)
    (hitem : item.length = q.uxItemSize) :
    (q.prvCopyDataToQueue m item .queueSEND_TO_BACK).1.Holds
      (q.prvCopyDataToQueue m item .queueSEND_TO_BACK).2 (xs ++ [item]) := by
  have hlen : (xs ++ [item]).length = xs.length + 1 := by simp
  have hcount : q.uxMessagesWaiting + 1 = (xs ++ [item]).length := by rw [hlen, ← h.count]
  have hroom' : (xs ++ [item]).length ≤ q.uxLength := hlen ▸ hroom
  have hsizes : ∀ x ∈ xs ++ [item], x.length = q.uxItemSize := by
    intro x hx
    rcases List.mem_append.mp hx with hx | hx
    · exact h.sizes x hx
    · rw [List.mem_singleton.mp hx, hitem]
  unfold prvCopyDataToQueue
  by_cases hsize : q.uxItemSize = 0
  · rw [if_pos hsize]
    exact .of_cells h.placed rfl rfl rfl rfl hcount hroom' hsizes fun hne => absurd hsize hne
  · rw [if_neg hsize, if_pos rfl]
    obtain ⟨r, hread, hwrite, hcells⟩ := h.cells hsize
    refine .of_cells h.placed rfl rfl rfl rfl hcount hroom' hsizes fun _ => ⟨r, hread, ?_, ?_⟩
    · simp only [hwrite]
      rw [next_cell h.placed hsize, onward_onward, hlen, Nat.add_assoc]
    · intro i hi
      rw [hlen] at hi
      simp only [hwrite]
      rcases Nat.lt_or_ge i xs.length with hlt | hge
      · rw [List.getElem_append_left hlt, ← hcells i hlt]
        refine read_write_of_ne hitem fun heq => ?_
        -- no two of the cells in use are the same
        have hshift := onward_inj (x := onward r 1) (i := xs.length) (j := i) hroom (by omega)
          (by rw [onward_onward, onward_onward]; exact Fin.ext heq)
        omega
      · obtain rfl : i = xs.length := by omega
        rw [List.getElem_concat_length]
        · exact read_write_self hitem _
        · rfl

/-- Behind the cell one back stands what stood here. -/
theorem onward_back {n : Nat} (r : Fin n) (i : Nat) :
    onward (onward r (n - 1)) (1 + i) = onward r i := by
  have hn := r.pos
  rw [onward_onward, show n - 1 + (1 + i) = n + i by omega, onward_turn r (Nat.le_add_right _ _),
    Nat.add_sub_cancel_left]

/-- **Sent to the front.** -/
theorem Holds.front (h : q.Holds m xs) (hroom : xs.length < q.uxLength)
    (hitem : item.length = q.uxItemSize) :
    (q.prvCopyDataToQueue m item .queueSEND_TO_FRONT).1.Holds
      (q.prvCopyDataToQueue m item .queueSEND_TO_FRONT).2 (item :: xs) := by
  have hcount : q.uxMessagesWaiting + 1 = (item :: xs).length := by
    rw [List.length_cons, ← h.count]
  have hsizes : ∀ x ∈ item :: xs, x.length = q.uxItemSize :=
    List.forall_mem_cons.mpr ⟨hitem, h.sizes⟩
  unfold prvCopyDataToQueue
  by_cases hsize : q.uxItemSize = 0
  · rw [if_pos hsize]
    exact .of_cells h.placed rfl rfl rfl rfl hcount hroom hsizes fun hne => absurd hsize hne
  · rw [if_neg hsize, if_neg CopyPosition.noConfusion]
    obtain ⟨r, hread, hwrite, hcells⟩ := h.cells hsize
    refine .of_cells h.placed rfl rfl rfl rfl ?_ hroom hsizes
      fun _ => ⟨onward r (q.uxLength - 1), ?_, ?_, ?_⟩
    · rw [← hcount, if_neg fun hpos => CopyPosition.noConfusion hpos.1]
    · simp only [hread]
      exact prev_cell h.placed hsize r
    · rw [onward_back, List.length_cons, Nat.add_comm xs.length]
      exact hwrite
    · intro i hi
      simp only [hread]
      rw [onward_back]
      cases i with
      | zero =>
        rw [onward_zero]
        exact read_write_self hitem _
      | succ i =>
        have hi' : i < xs.length := Nat.lt_of_succ_lt_succ hi
        rw [List.getElem_cons_succ, ← hcells i hi', Nat.add_comm 1 i]
        refine read_write_of_ne hitem fun heq => ?_
        have hshift := onward_inj (x := r) (i := 0) (j := i + 1) (by omega) (by omega)
          (by rw [onward_zero]; exact Fin.ext heq)
        omega

/-- **In place of the only item.** -/
theorem Holds.overwrite (h : q.Holds m xs) (hone : q.uxLength = 1)
    (hitem : item.length = q.uxItemSize) (hsize : q.uxItemSize ≠ 0) :
    (q.prvCopyDataToQueue m item .queueOVERWRITE).1.Holds
      (q.prvCopyDataToQueue m item .queueOVERWRITE).2 [item] := by
  have hroom := h.room
  have hcount := h.count
  have hsame : ∀ s t : Fin q.uxLength, s = t := by
    intro s t
    have hs := s.isLt
    have ht := t.isLt
    exact Fin.ext (by omega)
  unfold prvCopyDataToQueue
  rw [if_neg hsize, if_neg CopyPosition.noConfusion]
  obtain ⟨r, hread, hwrite, -⟩ := h.cells hsize
  refine .of_cells h.placed rfl rfl rfl rfl ?_ h.placed.length
    (List.forall_mem_cons.mpr ⟨hitem, fun x hx => nomatch hx⟩)
    fun _ => ⟨onward r (q.uxLength - 1), ?_, ?_, ?_⟩
  · simp only [List.length_singleton, true_and]
    split <;> omega
  · simp only [hread]
    exact prev_cell h.placed hsize r
  · simp only [hwrite]
    rw [hsame (onward r (1 + xs.length))]
  · intro i hi
    obtain rfl : i = 0 := by simpa using hi
    simp only [hread]
    rw [onward_back, onward_zero]
    exact read_write_self hitem _

/-- **Received**: the item in front is copied out, and the others are left. -/
theorem Holds.receive (h : q.Holds m (x :: xs)) :
    (q.prvCopyDataFromQueue m).2 = x ∧
      { (q.prvCopyDataFromQueue m).1 with
        uxMessagesWaiting := q.uxMessagesWaiting - 1 }.Holds m xs := by
  have hcount := h.count
  have hroom := h.room
  rw [List.length_cons] at hcount hroom
  have hcount' : q.uxMessagesWaiting - 1 = xs.length := by rw [hcount, Nat.add_sub_cancel]
  have hsizes : ∀ y ∈ xs, y.length = q.uxItemSize :=
    fun y hy => h.sizes y (List.mem_cons_of_mem _ hy)
  unfold prvCopyDataFromQueue
  by_cases hsize : q.uxItemSize = 0
  · rw [if_neg (not_not_intro hsize)]
    refine ⟨?_, .of_cells h.placed rfl rfl rfl rfl hcount' (Nat.le_of_succ_le hroom) hsizes
      fun hne => absurd hsize hne⟩
    exact (List.eq_nil_of_length_eq_zero ((h.sizes x List.mem_cons_self).trans hsize)).symm
  · rw [if_pos hsize]
    obtain ⟨r, hread, hwrite, hcells⟩ := h.cells hsize
    simp only [hread]
    rw [next_cell h.placed hsize r]
    refine ⟨hcells 0 (Nat.succ_pos _), .of_cells h.placed rfl rfl rfl rfl hcount'
      (Nat.le_of_succ_le hroom) hsizes fun _ => ⟨onward r 1, rfl, ?_, ?_⟩⟩
    · simp only [hwrite]
      rw [onward_onward, List.length_cons, Nat.add_comm xs.length]
    · intro i hi
      rw [onward_onward, Nat.add_comm 1 i]
      have hcell := hcells (i + 1) (Nat.succ_lt_succ hi)
      rw [List.getElem_cons_succ] at hcell
      rw [← hcell, Nat.add_comm i 1]

/-- A look at the item in front, the pointer put back, leaves all of them. -/
theorem Holds.peek (h : q.Holds m (x :: xs)) :
    (q.prvCopyDataFromQueue m).2 = x ∧
      { (q.prvCopyDataFromQueue m).1 with pcReadFrom := q.pcReadFrom }.Holds m (x :: xs) := by
  refine ⟨h.receive.1, ?_⟩
  unfold prvCopyDataFromQueue
  by_cases hsize : q.uxItemSize = 0
  · rw [if_neg (not_not_intro hsize)]
    exact h.congr ⟨rfl, rfl, rfl, rfl, rfl, rfl, rfl⟩
  · rw [if_pos hsize]
    exact h.congr ⟨rfl, rfl, rfl, rfl, rfl, rfl, rfl⟩

/-- **A new queue has no items.** -/
theorem holds_reset (hlength : 0 < q.uxLength) (below : q.uxItemSize ≤ q.pcHead)
    (fits : q.pcHead + q.uxLength * q.uxItemSize ≤ 2 ^ 32) (m : Mem) :
    (q.xQueueGenericReset true).Holds m [] := by
  have hlast : q.uxLength - 1 < q.uxLength := Nat.sub_lt hlength Nat.one_pos
  refine ⟨⟨hlength, rfl, below, fits⟩, rfl, Nat.zero_le _, (fun x hx => nomatch hx),
    fun _ => ⟨⟨q.uxLength - 1, hlast⟩, rfl, ?_, (fun i hi => nomatch hi)⟩⟩
  have hfirst : (onward (⟨q.uxLength - 1, hlast⟩ : Fin q.uxLength) 1).val = 0 := by
    simp only [onward]
    rw [Nat.sub_add_cancel hlength, Nat.mod_self]
  change q.pcHead = q.pcHead + (onward (⟨q.uxLength - 1, hlast⟩ : Fin q.uxLength) 1).val *
    q.uxItemSize
  rw [hfirst, Nat.zero_mul, Nat.add_zero]

end Queue_t

end EthIo.Rtos
