import EthIo.Base.Scanf

/-!
# Byte memory and stores by `%d`

Memory is a byte at every address. `%d` stores an `int`, four bytes, whatever the object behind the
pointer is, and a variable of type `uint16_t` is read back from two of them. So a list of
conversions into 16-bit variables is a list of stores that overlap what stands behind them.

`scanMem` is `sscanf` with its text in that memory and its stores made as the conversions succeed,
so that a store into the unread text would change it. Where every destination ends below the text,
the call is `scan` on the text as it was, followed by the stores (`scanMem_eq`); where they stand on
both sides of the text, `scanMem_of_scans` says when a text the format describes is read through.
`loadHalf_storeInts` is the reading back: stores into variables that ascend in memory leave each
variable the low half of its own value.
-/

namespace EthIo.Base

/-- A byte at every address. -/
abbrev Mem := Nat → UInt8

/-- The `k`-th byte of an integer, least significant first. -/
def byteOf (z : Int) (k : Nat) : UInt8 := (z / 256 ^ k % 256).toNat.toUInt8

theorem byteOf_toNat (z : Int) (k : Nat) : ((byteOf z k).toNat : Int) = z / 256 ^ k % 256 := by
  have hlo : 0 ≤ z / 256 ^ k % 256 := Int.emod_nonneg _ (by decide)
  have hhi : z / 256 ^ k % 256 < 256 := Int.emod_lt_of_pos _ (by decide)
  simp only [byteOf, Nat.toUInt8, UInt8.toNat_ofNat']
  omega

namespace Mem

/-- The `n` bytes from address `a` on. -/
def read (m : Mem) (a n : Nat) : List UInt8 := (List.range n).map fun i => m (a + i)

/-- Bytes written from address `a` on. -/
def write (m : Mem) (a : Nat) (bs : List UInt8) : Mem :=
  fun x => if a ≤ x then bs.getD (x - a) (m x) else m x

/-- A 4-byte little-endian store. -/
def storeInt (m : Mem) (a : Nat) (z : Int) : Mem :=
  m.write a [byteOf z 0, byteOf z 1, byteOf z 2, byteOf z 3]

/-- A 2-byte little-endian load. -/
def loadHalf (m : Mem) (a : Nat) : Nat := (m a).toNat + 256 * (m (a + 1)).toNat

/-- Stores in order. -/
def storeInts (m : Mem) (stores : List (Nat × Int)) : Mem :=
  stores.foldl (fun m s => m.storeInt s.1 s.2) m

@[simp] theorem read_length (m : Mem) (a n : Nat) : (m.read a n).length = n := by
  simp [read]

theorem read_append (m : Mem) (a n k : Nat) :
    m.read a (n + k) = m.read a n ++ m.read (a + n) k := by
  simp only [read, List.range_add, List.map_append, List.map_map]
  congr 1
  apply List.map_congr_left
  intro i _
  simp only [Function.comp_apply, Nat.add_assoc]

theorem read_congr {m m' : Mem} {a n : Nat} (h : ∀ x, a ≤ x → x < a + n → m x = m' x) :
    m.read a n = m'.read a n :=
  List.map_congr_left fun i hi => h (a + i) (by omega) (by have := List.mem_range.mp hi; omega)

theorem write_apply_of_lt {m : Mem} {a x : Nat} {bs : List UInt8} (h : x < a) :
    m.write a bs x = m x := if_neg (by omega)

theorem write_apply_of_le {m : Mem} {a x : Nat} {bs : List UInt8} (h : a + bs.length ≤ x) :
    m.write a bs x = m x := by
  rw [write, if_pos (by omega), List.getD_eq_getElem?_getD, List.getElem?_eq_none (by omega)]
  rfl

theorem write_apply_add {m : Mem} {a i : Nat} {bs : List UInt8} (h : i < bs.length) :
    m.write a bs (a + i) = bs[i] := by
  rw [write, if_pos (by omega), Nat.add_sub_cancel_left, List.getD_eq_getElem?_getD,
    List.getElem?_eq_getElem h]
  rfl

/-- What was written is read back. -/
theorem read_write (m : Mem) (a : Nat) (bs : List UInt8) :
    (m.write a bs).read a bs.length = bs := by
  apply List.ext_getElem (by simp)
  intro i hi _
  simp only [read_length] at hi
  simp only [read, List.getElem_map, List.getElem_range]
  exact write_apply_add hi

/-- Bytes below or above the four of a store keep their value. -/
theorem storeInt_apply {m : Mem} {a x : Nat} {z : Int} (h : x < a ∨ a + 4 ≤ x) :
    m.storeInt a z x = m x := by
  rcases h with h | h
  · exact write_apply_of_lt h
  · exact write_apply_of_le h

@[simp] theorem storeInts_nil (m : Mem) : m.storeInts [] = m := rfl

theorem storeInts_cons (m : Mem) (s : Nat × Int) (stores : List (Nat × Int)) :
    m.storeInts (s :: stores) = (m.storeInt s.1 s.2).storeInts stores := rfl

theorem storeInts_apply {m : Mem} {stores : List (Nat × Int)} {x : Nat}
    (h : ∀ s ∈ stores, x < s.1 ∨ s.1 + 4 ≤ x) : m.storeInts stores x = m x := by
  induction stores generalizing m with
  | nil => rfl
  | cons s stores ih =>
    rw [storeInts_cons, ih fun t ht => h t (List.mem_cons_of_mem _ ht)]
    exact storeInt_apply (h s List.mem_cons_self)

/-- A 16-bit variable reads back the low half of the integer stored at it. -/
theorem loadHalf_storeInt (m : Mem) (a : Nat) (z : Int) :
    ((m.storeInt a z).loadHalf a : Int) = z % 65536 := by
  have low : m.storeInt a z a = byteOf z 0 := write_apply_add (i := 0) (by simp)
  have high : m.storeInt a z (a + 1) = byteOf z 1 := write_apply_add (i := 1) (by simp)
  rw [loadHalf, low, high]
  push_cast
  rw [byteOf_toNat, byteOf_toNat]
  omega

/-- **Ascending variables read back.** Each keeps the low half of the integer stored at it. -/
theorem loadHalf_storeInts {m : Mem} {stores : List (Nat × Int)}
    (asc : stores.Pairwise fun s t => s.1 + 2 ≤ t.1) :
    ∀ s ∈ stores, ((m.storeInts stores).loadHalf s.1 : Int) = s.2 % 65536 := by
  induction stores generalizing m with
  | nil => intro s hs; cases hs
  | cons s stores ih =>
    obtain ⟨hs, hrest⟩ := List.pairwise_cons.mp asc
    intro t ht
    rw [storeInts_cons]
    rcases List.mem_cons.mp ht with rfl | ht
    · -- the stores that follow all start behind the two bytes of this variable
      rw [← loadHalf_storeInt m t.1 t.2, loadHalf, loadHalf,
        storeInts_apply fun u hu => .inl (by have := hs u hu; omega),
        storeInts_apply fun u hu => .inl (by have := hs u hu; omega)]
    · exact ih hrest t ht

end Mem

/-! ## `sscanf` in memory -/

/-- `sscanf` on the text from address `pos` to the end `top` of what may be read: each conversion is
stored as soon as it has succeeded. -/
def scanMem (top : Nat) : List (Directive Nat) → Nat → Mem → ScanResult Nat × Mem
  | [], pos, m => (⟨[], .done, m.read pos (top - pos)⟩, m)
  | .literal c :: fs, pos, m =>
    match scanLiteral c (m.read pos (top - pos)) with
    | .error stop => (⟨[], stop, m.read pos (top - pos)⟩, m)
    | .ok r => scanMem top fs (top - r.length) m
  | .decimal dst :: fs, pos, m =>
    match scanDecimal (m.read pos (top - pos)) with
    | .error stop => (⟨[], stop, m.read pos (top - pos)⟩, m)
    | .ok (v, r) =>
      match scanMem top fs (top - r.length) (m.storeInt dst v) with
      | (res, m') => ({ res with assigned := (dst, v) :: res.assigned }, m')

/-- The destinations a format stores to. -/
def destinations {α : Type*} : List (Directive α) → List α
  | [] => []
  | .decimal dst :: fs => dst :: destinations fs
  | .literal _ :: fs => destinations fs

private theorem read_suffix {m : Mem} {pos top : Nat} {u r : List UInt8} (hpos : pos ≤ top)
    (h : m.read pos (top - pos) = u ++ r) :
    pos ≤ top - r.length ∧ top - (top - r.length) = r.length ∧
      m.read (top - r.length) r.length = r := by
  have hlen : top - pos = u.length + r.length := by
    rw [← List.length_append, ← h, Mem.read_length]
  have hstart : top - r.length = pos + u.length := by omega
  rw [hlen, Mem.read_append] at h
  refine ⟨by omega, by omega, ?_⟩
  rw [hstart]
  exact (List.append_inj h (by simp)).2

private theorem scanLiteral_ok {c : UInt8} {s r : List UInt8} (h : scanLiteral c s = .ok r) :
    s = [c] ++ r := by
  unfold scanLiteral at h
  split at h
  · cases h
  next b t =>
  split_ifs at h with _ hc
  cases h
  rw [hc]
  rfl

/-- **Stores below the text do not disturb the scan.** -/
theorem scanMem_eq {top pos : Nat} {fs : List (Directive Nat)} {m : Mem} (hpos : pos ≤ top)
    (below : ∀ dst ∈ destinations fs, dst + 4 ≤ pos) :
    scanMem top fs pos m =
      (scan fs (m.read pos (top - pos)),
        m.storeInts (scan fs (m.read pos (top - pos))).assigned) := by
  induction fs generalizing pos m with
  | nil => rfl
  | cons f fs ih =>
    cases f with
    | literal c =>
      simp only [scanMem, scan]
      cases hl : scanLiteral c (m.read pos (top - pos)) with
      | error stop => rfl
      | ok r =>
        obtain ⟨hle, hlen, hr⟩ := read_suffix hpos (scanLiteral_ok hl)
        dsimp only
        rw [ih (by omega) fun dst hdst => (below dst hdst).trans hle, hlen, hr]
    | decimal dst =>
      simp only [scanMem, scan]
      cases hd : scanDecimal (m.read pos (top - pos)) with
      | error stop => rfl
      | ok p =>
        obtain ⟨v, r⟩ := p
        obtain ⟨n, hs, _, _, _⟩ := scanDecimal_ok hd
        obtain ⟨hle, hlen, hr⟩ := read_suffix hpos hs
        have hdst : dst + 4 ≤ pos := below dst List.mem_cons_self
        -- the store ends below the text, so the text read on from here is the one it was
        have hkeep : (m.storeInt dst v).read (top - r.length) r.length = r :=
          (Mem.read_congr fun x hx _ => Mem.storeInt_apply (.inr (by omega))).trans hr
        dsimp only
        rw [ih (by omega) fun dst hdst =>
          (below dst (List.mem_cons_of_mem _ hdst)).trans hle, hlen, hkeep]
        rfl

/-! ### Stores above and between the text -/

/-- What memory shows from `pos` to `top`, when a text stands at `pos`. -/
private theorem read_text {m : Mem} {pos top : Nat} {s : List UInt8} (fits : pos + s.length ≤ top)
    (hs : m.read pos s.length = s) :
    m.read pos (top - pos) = s ++ m.read (pos + s.length) (top - (pos + s.length)) := by
  rw [show top - pos = s.length + (top - (pos + s.length)) by omega, Mem.read_append, hs]

/-- A literal that stands in memory is passed. -/
theorem scanMem_literal {top pos : Nat} {c : UInt8} {fs : List (Directive Nat)} {m : Mem}
    (hc : c ≠ 0) (fits : pos < top) (h : m pos = c) :
    scanMem top (.literal c :: fs) pos m = scanMem top fs (pos + 1) m := by
  have htext : m.read pos (top - pos) = [c] ++ m.read (pos + 1) (top - (pos + 1)) :=
    read_text fits (by simp [Mem.read, h])
  rw [List.singleton_append] at htext
  simp only [scanMem, htext, scanLiteral, if_neg hc, ↓reduceIte, Mem.read_length]
  rw [show top - (top - (pos + 1)) = pos + 1 by omega]

/-- A NUL where the literal is due ends the call. -/
theorem scanMem_literal_nul {top pos : Nat} {c : UInt8} {fs : List (Directive Nat)} {m : Mem}
    (fits : pos < top) (h : m pos = 0) :
    scanMem top (.literal c :: fs) pos m = (⟨[], .input, m.read pos (top - pos)⟩, m) := by
  have htext : m.read pos (top - pos) = [0] ++ m.read (pos + 1) (top - (pos + 1)) :=
    read_text fits (by simp [Mem.read, h])
  rw [List.singleton_append] at htext
  simp only [scanMem, htext, scanLiteral, ↓reduceIte]

/-- A numeral that stands in memory is stored. -/
theorem scanMem_decimal {top pos dst : Nat} {fs : List (Directive Nat)} {m : Mem} (n : Numeral)
    {s : List UInt8} (hne : s ≠ []) (hnd : noDigit s = true)
    (fits : pos + (n.text ++ s).length ≤ top)
    (hs : m.read pos (n.text ++ s).length = n.text ++ s) :
    scanMem top (.decimal dst :: fs) pos m =
      match scanMem top fs (pos + n.text.length) (m.storeInt dst n.value) with
      | (res, m') => ({ res with assigned := (dst, n.value) :: res.assigned }, m') := by
  obtain ⟨c, t, rfl⟩ := List.exists_cons_of_ne_nil hne
  have hc : isdigit c = false := by simpa [noDigit] using hnd
  have htext := read_text fits hs
  rw [List.append_assoc, List.cons_append] at htext
  have hpos : top - (c :: (t ++ m.read (pos + (n.text ++ c :: t).length)
      (top - (pos + (n.text ++ c :: t).length)))).length = pos + n.text.length := by
    simp only [List.length_cons, List.length_append, Mem.read_length] at fits ⊢
    omega
  simp only [scanMem, htext, scanDecimal_text n hc, hpos]

/-- **A text the stores keep off.** Where a text the format describes stands in memory, and each
destination is above it or so low that a store there ends behind the numeral stored, the call
finishes, with the conversions stored in order. -/
theorem scanMem_of_scans {top pos : Nat} {fs : List (Directive Nat)} {m : Mem}
    {s r : List UInt8} {vs : List (Nat × Int)} (h : Scans fs s vs r)
    (hs : m.read pos s.length = s) (fits : pos + s.length ≤ top)
    (clear : ∀ dst ∈ destinations fs, dst + 3 ≤ pos ∨ pos + s.length ≤ dst) :
    ∃ rest, scanMem top fs pos m = (⟨vs, .done, rest⟩, m.storeInts vs) := by
  induction h generalizing pos m with
  | nil s => exact ⟨_, rfl⟩
  | @literal c fs s r vs hc _ ih =>
    simp only [List.length_cons] at fits clear
    rw [List.length_cons, Nat.add_comm, Mem.read_append] at hs
    obtain ⟨hhead, hrest⟩ := List.append_inj (show _ ++ _ = [c] ++ s from hs) (by simp)
    have hpos : m pos = c := by simpa [Mem.read] using hhead
    rw [scanMem_literal hc (by omega) hpos]
    exact ih hrest (by omega) fun dst hdst => (clear dst hdst).imp (by omega) (by omega)
  | @decimal dst fs s r vs n hne hnd _ ih =>
    have hlen := n.text_length_pos
    rw [scanMem_decimal n hne hnd fits hs]
    rw [List.length_append] at fits clear hs
    rw [Mem.read_append] at hs
    obtain ⟨-, hrest⟩ := List.append_inj hs (by simp)
    have hdst := clear dst List.mem_cons_self
    -- a store from `pos - 3` on ends behind the first byte of the numeral
    have hkeep : (m.storeInt dst n.value).read (pos + n.text.length) s.length = s :=
      (Mem.read_congr fun x _ _ => Mem.storeInt_apply (by omega)).trans hrest
    obtain ⟨rest, hscan⟩ := ih hkeep (by omega) fun d hd =>
      (clear d (List.mem_cons_of_mem _ hd)).imp (by omega) (by omega)
    exact ⟨rest, by rw [hscan]; rfl⟩

end EthIo.Base
