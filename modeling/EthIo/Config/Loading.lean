import EthIo.Base.Spill
import EthIo.Config.Reboot

/-!
# Loading the configuration into its variables

`client.c` declares `ip_addr0` … `ip_port` as `uint16_t`, and `I2C_Read_EE_IP` hands their addresses
to `%d`, which stores four bytes at each. In the order of the link map each store's surplus is
written over by the next variable's own bytes, and that of the last falls on padding. A linker may
place the variables otherwise: `Placed` is any placement in which the objects do not overlap.

`LoadsExactly` is what the load is for: the five variables have the five values, and outside them
and `I2c_Buf_Read` nothing has changed. There are two ways for it to fail. A store may spill onto a
variable set before it or onto a neighbour of the variables; and where `I2c_Buf_Read` stands right
behind `ip_addr0`, a first octet of one character has its store spill onto the `.` that has still to
be read, so that the parse is cut off behind it (`CutOff`).
-/

namespace EthIo.Config

open EthIo.Base

/-- Five variables of two bytes and a buffer of twenty that do not overlap, in any order. -/
structure Placed extends Placement where
  apart : toPlacement.vars.Pairwise Apart
  clear : ∀ a ∈ toPlacement.vars,
    a + 2 ≤ I2c_Buf_Read ∨ I2c_Buf_Read + DATA_Size.toNat ≤ a
  fits : I2c_Buf_Read + DATA_Size.toNat ≤ ramEnd

/-- A firmware linked in the order of the link map. -/
def Linked.placed (place : Linked) : Placed where
  toPlacement := place.toPlacement
  apart := place.ascending.imp .inl
  clear := fun a ha => .inl (by have := place.below a ha; omega)
  fits := place.fits

/-- The bytes of `I2c_Buf_Read`. -/
def InBuf (place : Placement) (y : Nat) : Prop :=
  place.I2c_Buf_Read ≤ y ∧ y < place.I2c_Buf_Read + DATA_Size.toNat

/-- **The load sets exactly its five variables.** -/
def LoadsExactly (place : Placement) (b : Board) (vs : List Int) : Prop :=
  ∃ ret b', I2C_Read_EE_IP place b = some (ret, b') ∧
    (∀ s ∈ place.vars.zip vs, (b'.mem.loadHalf s.1 : Int) = s.2) ∧
    ∀ y, ¬ InBuf place y → (∀ a ∈ place.vars, ¬ InHalf a y) → b'.mem y = b.mem y

/-- The store of the first octet spills onto the `.` behind it. -/
def CutOff (place : Placement) (t : ConfigText) : Prop :=
  place.ip_addr0 + 2 = place.I2c_Buf_Read ∧ t.a.text.length = 1

/-- Four octets and a port. -/
def OctetsAndPort (t : ConfigText) : Prop :=
  (0 ≤ t.a.value ∧ t.a.value ≤ 255) ∧ (0 ≤ t.b.value ∧ t.b.value ≤ 255) ∧
    (0 ≤ t.c.value ∧ t.c.value ≤ 255) ∧ (0 ≤ t.d.value ∧ t.d.value ≤ 255) ∧
      (0 ≤ t.p.value ∧ t.p.value ≤ 65535)

theorem OctetsAndPort.half {t : ConfigText} (h : OctetsAndPort t) (place : Placement) :
    ∀ s ∈ place.vars.zip t.values, 0 ≤ s.2 ∧ s.2 < 65536 := by
  unfold OctetsAndPort at h
  simp only [Placement.vars, ConfigText.values, List.zip_cons_cons, List.zip_nil_right,
    List.forall_mem_cons, List.not_mem_nil, false_imp_iff, implies_true, and_true]
  omega

/-- What holds of the variables holds of the places the values are stored at. -/
theorem pairwise_stores {R : Nat → Nat → Prop} {place : Placement} (t : ConfigText)
    (h : place.vars.Pairwise R) :
    (place.vars.zip t.values).Pairwise fun s u => R s.1 u.1 := by
  have hvars : (place.vars.zip t.values).map Prod.fst = place.vars := rfl
  rw [← hvars] at h
  exact List.pairwise_map.mp h

theorem forall_stores_iff (place : Placement) (t : ConfigText) (P : Nat → Prop) :
    (∀ s ∈ place.vars.zip t.values, P s.1) ↔ ∀ a ∈ place.vars, P a :=
  (List.forall_mem_map (f := Prod.fst) (l := place.vars.zip t.values)).symm

/-! ## The parse in memory -/

section

variable {place : Placed} {m : Mem} {t : ConfigText} {tail : List UInt8}

/-- The parse once the first octet is stored, with what stands in the buffer behind it. -/
theorem scanI2cBuf_first
    (hread : m.read place.I2c_Buf_Read DATA_Size.toNat = t.text ++ 0 :: tail) :
    scanI2cBuf place.toPlacement m =
      match scanMem place.ramEnd
          [.literal 46, .decimal place.ip_addr1, .literal 46, .decimal place.ip_addr2, .literal 46,
            .decimal place.ip_addr3, .literal 58, .decimal place.ip_port]
          (place.I2c_Buf_Read + t.a.text.length) (m.storeInt place.ip_addr0 t.a.value) with
      | (res, m') =>
        ({ res with assigned := (place.ip_addr0, t.a.value) :: res.assigned }, m') := by
  have hlen := congrArg List.length hread
  rw [Mem.read_length] at hlen
  rw [t.text_eq, List.append_assoc] at hread hlen
  have fits := place.fits
  have hdot : noDigit (t.rest ++ 0 :: tail) = true := rfl
  rw [scanI2cBuf, ipFormat_eq]
  refine scanMem_decimal t.a (List.cons_ne_nil _ _) hdot ?_ ?_
  · exact hlen ▸ fits
  · exact hlen ▸ hread

/-- What stands behind the first numeral, where its store does not reach it. -/
theorem read_rest (hread : m.read place.I2c_Buf_Read DATA_Size.toNat = t.text ++ 0 :: tail)
    (h : ¬ CutOff place.toPlacement t) :
    (m.storeInt place.ip_addr0 t.a.value).read (place.I2c_Buf_Read + t.a.text.length)
      (t.rest ++ 0 :: tail).length = t.rest ++ 0 :: tail := by
  have hlen := congrArg List.length hread
  have hpos := t.a.text_length_pos
  have hclear := place.clear place.ip_addr0 List.mem_cons_self
  unfold CutOff at h
  rw [t.text_eq, List.append_assoc] at hread hlen
  rw [Mem.read_length, List.length_append] at hlen
  rw [hlen, Mem.read_append] at hread
  obtain ⟨-, hrest⟩ := List.append_inj hread (by simp)
  -- the store ends at the latest with the byte before the `.`
  exact (Mem.read_congr fun x _ _ => Mem.storeInt_apply (by omega)).trans hrest

/-- **The whole text is parsed**, and each value stored in turn. -/
theorem scanI2cBuf_whole (hread : m.read place.I2c_Buf_Read DATA_Size.toNat = t.text ++ 0 :: tail)
    (h : ¬ CutOff place.toPlacement t) :
    ∃ rest, scanI2cBuf place.toPlacement m =
      (⟨place.vars.zip t.values, .done, rest⟩, m.storeInts (place.vars.zip t.values)) := by
  have hlen := congrArg List.length hread
  have hpos := t.a.text_length_pos
  have fits := place.fits
  rw [t.text_eq, List.append_assoc, Mem.read_length, List.length_append] at hlen
  have clear : ∀ a ∈ [place.ip_addr1, place.ip_addr2, place.ip_addr3, place.ip_port],
      a + 3 ≤ place.I2c_Buf_Read + t.a.text.length ∨
        place.I2c_Buf_Read + t.a.text.length + (t.rest ++ 0 :: tail).length ≤ a := by
    intro a ha
    have := place.clear a (List.mem_cons_of_mem _ ha)
    omega
  have hfits : place.I2c_Buf_Read + t.a.text.length + (t.rest ++ 0 :: tail).length ≤
      place.ramEnd := by
    omega
  obtain ⟨rest, hscan⟩ := scanMem_of_scans (t.scans_rest (List.cons_ne_nil _ _) rfl)
    (read_rest hread h) hfits clear
  exact ⟨rest, by rw [scanI2cBuf_first hread, hscan]; rfl⟩

/-- **The parse that is cut off** stores the first octet, and finds the end of the text where the
`.` stood. -/
theorem scanI2cBuf_cutOff (hread : m.read place.I2c_Buf_Read DATA_Size.toNat = t.text ++ 0 :: tail)
    (half : 0 ≤ t.a.value ∧ t.a.value < 65536) (h : CutOff place.toPlacement t) :
    ∃ rest, scanI2cBuf place.toPlacement m =
      (⟨[(place.ip_addr0, t.a.value)], .input, rest⟩, m.storeInt place.ip_addr0 t.a.value) := by
  obtain ⟨hbehind, hone⟩ := h
  have h20 : DATA_Size.toNat = 20 := rfl
  have fits := place.fits
  have hnul : m.storeInt place.ip_addr0 t.a.value (place.I2c_Buf_Read + t.a.text.length) = 0 :=
    Mem.storeInt_spills half ⟨by omega, by omega⟩
  rw [scanI2cBuf_first hread, scanMem_literal_nul (by omega) hnul]
  exact ⟨_, rfl⟩

end

/-! ## The call -/

theorem HAL_I2C_Mem_Read_length_le (MemAddress : UInt8) (Size : UInt16) (bus : Bus) :
    (HAL_I2C_Mem_Read MemAddress Size bus).2.1.length ≤ Size.toNat := by
  simp only [HAL_I2C_Mem_Read, Eeprom.readCells_length]
  split_ifs
  · exact le_rfl
  · exact min_le_right _ _

/-- Outside the buffer the read leaves RAM as it was. -/
theorem loaded_apply {place : Placement} {b : Board} {y : Nat} (h : ¬ InBuf place y) :
    loaded place b y = b.mem y := by
  have hlen := HAL_I2C_Mem_Read_length_le EEP_Firstpage DATA_Size b.bus
  unfold InBuf at h
  show b.mem.write _ (HAL_I2C_Mem_Read EEP_Firstpage DATA_Size b.bus).2.1 y = b.mem y
  rcases Nat.lt_or_ge y place.I2c_Buf_Read with hlt | hge
  · exact Mem.write_apply_of_lt hlt
  · apply Mem.write_apply_of_le
    generalize List.length _ = n at hlen ⊢
    omega

/-- A call whose parse stays in RAM leaves the memory its parse leaves. -/
theorem loadsExactly_of_scan {place : Placement} {b : Board} {vs : List Int} {r : ScanResult Nat}
    {m' : Mem} (hscan : scanI2cBuf place (loaded place b) = (r, m')) (hstop : r.stop ≠ .overrun) :
    LoadsExactly place b vs ↔
      (∀ s ∈ place.vars.zip vs, (m'.loadHalf s.1 : Int) = s.2) ∧
        ∀ y, ¬ InBuf place y → (∀ a ∈ place.vars, ¬ InHalf a y) → m' y = b.mem y := by
  have hmem : (I2C_Read_EE_IP place b).map (fun out => out.2.mem) = some m' := by
    unfold loaded at hscan
    simp only [I2C_Read_EE_IP, hscan, if_neg hstop]
    split_ifs <;> rfl
  constructor
  · intro h
    obtain ⟨ret, b', hrun, hloads⟩ := h
    rw [hrun] at hmem
    cases hmem
    exact hloads
  · intro hloads
    obtain ⟨⟨ret, b'⟩, hrun, rfl⟩ := Option.map_eq_some_iff.mp hmem
    exact ⟨ret, b', hrun, hloads⟩

section

variable {place : Placed} {b : Board} {t : ConfigText} {tail : List UInt8}

/-- The whole text is loaded exactly if the spills of its stores do no harm. -/
theorem loadsExactly_whole_iff
    (hread : (loaded place.toPlacement b).read place.I2c_Buf_Read DATA_Size.toNat =
      t.text ++ 0 :: tail)
    (hrange : OctetsAndPort t) (h : ¬ CutOff place.toPlacement t) :
    LoadsExactly place.toPlacement b t.values ↔
      Harmless (InBuf place.toPlacement) b.mem (place.vars.zip t.values) := by
  obtain ⟨rest, hscan⟩ := scanI2cBuf_whole hread h
  rw [loadsExactly_of_scan hscan ScanStop.noConfusion]
  have hexact := Mem.storeInts_exact_iff (m := loaded place.toPlacement b)
    (InBuf place.toPlacement) (hrange.half place.toPlacement) (pairwise_stores t place.apart)
  have hcongr : Harmless (InBuf place.toPlacement) (loaded place.toPlacement b)
      (place.vars.zip t.values) ↔
        Harmless (InBuf place.toPlacement) b.mem (place.vars.zip t.values) :=
    ⟨fun h => h.congr fun y hy => (loaded_apply hy).symm, fun h => h.congr fun y => loaded_apply⟩
  rw [← hcongr, ← hexact]
  refine and_congr_right fun _ => forall₂_congr fun y hy => ?_
  rw [loaded_apply hy, forall_stores_iff place.toPlacement t fun a => ¬ InHalf a y]

/-- The one store of a load that is cut off reaches its variable and the buffer, nothing else. -/
theorem storeInt_cutOff (h : CutOff place.toPlacement t) {m : Mem} {y : Nat}
    (hbuf : ¬ InBuf place.toPlacement y) (hoff : ¬ InHalf place.ip_addr0 y) :
    m.storeInt place.ip_addr0 t.a.value y = m y := by
  have h20 : DATA_Size.toNat = 20 := rfl
  obtain ⟨hbehind, -⟩ := h
  unfold InBuf at hbuf
  refine Mem.storeInt_apply_of_clear hoff fun hspill => ?_
  unfold Spills at hspill
  omega

/-- The load that is cut off leaves the other four variables alone: it is exact if they had their
values before. -/
theorem loadsExactly_cutOff_iff
    (hread : (loaded place.toPlacement b).read place.I2c_Buf_Read DATA_Size.toNat =
      t.text ++ 0 :: tail)
    (hrange : OctetsAndPort t) (h : CutOff place.toPlacement t) :
    LoadsExactly place.toPlacement b t.values ↔
      ∀ s ∈ (place.vars.zip t.values).tail, (b.mem.loadHalf s.1 : Int) = s.2 := by
  have hfirst : 0 ≤ t.a.value ∧ t.a.value < 65536 :=
    hrange.half place.toPlacement _ List.mem_cons_self
  obtain ⟨rest, hscan⟩ := scanI2cBuf_cutOff hread hfirst h
  rw [loadsExactly_of_scan hscan ScanStop.noConfusion]
  have hset : (((loaded place.toPlacement b).storeInt place.ip_addr0 t.a.value).loadHalf
      place.ip_addr0 : Int) = t.a.value := by
    rw [Mem.loadHalf_storeInt, Int.emod_eq_of_lt hfirst.1 hfirst.2]
  have hkeep : ∀ s ∈ (place.vars.zip t.values).tail,
      ((loaded place.toPlacement b).storeInt place.ip_addr0 t.a.value).loadHalf s.1 =
        b.mem.loadHalf s.1 := by
    intro s hs
    have hmem : s.1 ∈ place.vars.tail := List.mem_map_of_mem hs
    have hclear := place.clear s.1 (List.mem_of_mem_tail hmem)
    have hapart : Apart place.ip_addr0 s.1 := (List.pairwise_cons.mp place.apart).1 s.1 hmem
    refine Mem.loadHalf_congr fun y hy => ?_
    have hbuf : ¬ InBuf place.toPlacement y := by
      unfold InHalf at hy
      unfold InBuf
      omega
    rw [storeInt_cutOff h hbuf fun hfirst => hapart.not_inHalf hfirst hy, loaded_apply hbuf]
  constructor
  · intro hloads s hs
    rw [← hkeep s hs]
    exact hloads.1 s (List.mem_cons_of_mem _ hs)
  · intro hreads
    refine ⟨List.forall_mem_cons.mpr ⟨hset, fun s hs => ?_⟩, fun y hbuf hoff => ?_⟩
    · rw [hkeep s hs]
      exact hreads s hs
    · rw [storeInt_cutOff h hbuf (hoff _ List.mem_cons_self), loaded_apply hbuf]

/-- **When the load sets exactly its five variables**, wherever the linker has put them: if its text
is parsed whole, exactly when no surplus byte does harm; if the parse is cut off behind the first
octet, exactly when the other four variables had their values before. -/
theorem loads_exactly_iff
    (hread : (loaded place.toPlacement b).read place.I2c_Buf_Read DATA_Size.toNat =
      t.text ++ 0 :: tail)
    (hrange : OctetsAndPort t) :
    LoadsExactly place.toPlacement b t.values ↔
      (¬ CutOff place.toPlacement t ∧
        Harmless (InBuf place.toPlacement) b.mem (place.vars.zip t.values)) ∨
      (CutOff place.toPlacement t ∧
        ∀ s ∈ (place.vars.zip t.values).tail, (b.mem.loadHalf s.1 : Int) = s.2) := by
  by_cases h : CutOff place.toPlacement t
  · simp only [loadsExactly_cutOff_iff hread hrange h, h, not_true_eq_false, false_and, true_and,
      false_or]
  · simp only [loadsExactly_whole_iff hread hrange h, h, not_false_eq_true, false_and, true_and,
      or_false]

end

/-- A chip that holds a text in its first cells, and zeros behind it. -/
def chipWith (s : List UInt8) : Eeprom := fun y => s.getD y.toNat 0

/-- The configuration the firmware prints as its example. -/
def printedExample : ConfigText := dotted "192" "168" "2" "187" "5000" (by decide)

/-- A start from a chip that holds it. -/
def exampleBoard : Board := ⟨faithful (chipWith printedExample.text), fun _ => 0, []⟩

theorem exampleBoard_read (place : Placement) :
    (loaded place exampleBoard).read place.I2c_Buf_Read DATA_Size.toNat =
      printedExample.text ++ 0 :: [0] := by
  rw [exampleBoard, loaded_read_faithful]
  decide +kernel

theorem octetsAndPort_printedExample : OctetsAndPort printedExample := by
  unfold OctetsAndPort
  decide +kernel

/-- The example, in the order of the link map. -/
theorem loads_exactly_printed_example :
    LoadsExactly shipped.toPlacement exampleBoard printedExample.values ↔
      (¬ CutOff shipped.toPlacement printedExample ∧
        Harmless (InBuf shipped.toPlacement) exampleBoard.mem
          (shipped.vars.zip printedExample.values)) ∨
      (CutOff shipped.toPlacement printedExample ∧
        ∀ s ∈ (shipped.vars.zip printedExample.values).tail,
          (exampleBoard.mem.loadHalf s.1 : Int) = s.2) :=
  @loads_exactly_iff shipped.placed _ _ _ (exampleBoard_read shipped.toPlacement)
    octetsAndPort_printedExample

/-- Variables that descend in memory, the rest as it was linked. -/
def descending : Placed where
  ip_addr0 := 0x20000024
  ip_addr1 := 0x20000022
  ip_addr2 := 0x20000020
  ip_addr3 := 0x2000001e
  ip_port := 0x2000001c
  I2c_Buf_Read := 0x2000683c
  ramEnd := 0x20020000
  apart := by decide
  clear := by decide
  fits := shipped.fits

/-- In descending order each store clears the variable set before it: of the example only the port
is left. -/
theorem descending_variables_cleared :
    (loaded descending.toPlacement exampleBoard).read descending.I2c_Buf_Read DATA_Size.toNat =
        printedExample.text ++ 0 :: [0] ∧
      OctetsAndPort printedExample ∧
      ¬ LoadsExactly descending.toPlacement exampleBoard printedExample.values := by
  refine ⟨exampleBoard_read _, octetsAndPort_printedExample, fun h => ?_⟩
  have hcut : ¬ CutOff descending.toPlacement printedExample := fun hcut =>
    absurd hcut.1 (by decide)
  have hharm :=
    (loadsExactly_whole_iff (exampleBoard_read _) octetsAndPort_printedExample hcut).mp h
  have hlow : byteOf 192 0 = 0 :=
    (List.pairwise_cons.mp hharm.earlier).1 _ List.mem_cons_self 0x20000024
      ⟨by decide, by decide⟩ ⟨by decide, by decide⟩
  revert hlow
  decide

/-! ## The order of the link map -/

/-- **In the order of the link map** no store spills onto a variable set before it: the load is
exact as long as what stands between and behind the variables is zero where a store spills. -/
theorem loadsExactly_linked_iff (place : Linked) {b : Board} {t : ConfigText} {tail : List UInt8}
    (hread : (loaded place.toPlacement b).read place.I2c_Buf_Read DATA_Size.toNat =
      t.text ++ 0 :: tail)
    (hrange : OctetsAndPort t) :
    LoadsExactly place.toPlacement b t.values ↔
      ∀ a ∈ place.vars, ∀ y, Spills a y → (∀ a ∈ place.vars, ¬ InHalf a y) → b.mem y = 0 := by
  have hoff : ∀ y, (∀ s ∈ place.vars.zip t.values, ¬ InHalf s.1 y) ↔
      ∀ a ∈ place.vars, ¬ InHalf a y :=
    fun y => forall_stores_iff place.toPlacement t fun a => ¬ InHalf a y
  have asc := pairwise_stores t place.ascending
  have hcut : ¬ CutOff place.toPlacement t := by
    intro hcut
    have hbelow := place.below place.ip_addr0 List.mem_cons_self
    have hbehind := hcut.1
    omega
  rw [show place.toPlacement = place.placed.toPlacement from rfl] at hread ⊢
  rw [loadsExactly_whole_iff hread hrange hcut]
  constructor
  · intro h
    refine (forall_stores_iff place.toPlacement t _).mp fun s hs y hspill off => ?_
    refine h.others s hs y hspill (fun hbuf => ?_) ((hoff y).mpr off)
    have hbelow := place.below s.1 (List.mem_map_of_mem hs)
    have hge : place.I2c_Buf_Read ≤ y := hbuf.1
    unfold Spills at hspill
    omega
  · intro h
    refine ⟨asc.imp fun hle y hin hspill => ?_, fun s hs y hspill _ off => ?_⟩
    · unfold InHalf at hin
      unfold Spills at hspill
      omega
    · exact h s.1 (List.mem_map_of_mem hs) y hspill ((hoff y).mp off)

/-- As it was linked, the firmware loads exactly if the two bytes behind `ip_port`, padding in its
map, are zero. -/
theorem loadsExactly_shipped_iff {b : Board} {t : ConfigText} {tail : List UInt8}
    (hread : (loaded shipped.toPlacement b).read shipped.I2c_Buf_Read DATA_Size.toNat =
      t.text ++ 0 :: tail)
    (hrange : OctetsAndPort t) :
    LoadsExactly shipped.toPlacement b t.values ↔ b.mem 0x20000026 = 0 ∧ b.mem 0x20000027 = 0 := by
  rw [loadsExactly_linked_iff shipped hread hrange]
  simp only [Placement.vars, shipped, List.forall_mem_cons, List.not_mem_nil, false_imp_iff,
    implies_true, and_true, Spills, InHalf]
  constructor
  · intro h
    obtain ⟨-, -, -, -, hport⟩ := h
    exact ⟨hport _ (by omega) (by omega), hport _ (by omega) (by omega)⟩
  · intro h
    obtain ⟨h₀, h₁⟩ := h
    refine ⟨?_, ?_, ?_, ?_, ?_⟩ <;> intro y hspill off
    all_goals
      obtain rfl | rfl : y = 0x20000026 ∨ y = 0x20000027 := by omega
      · exact h₀
      · exact h₁

end EthIo.Config
