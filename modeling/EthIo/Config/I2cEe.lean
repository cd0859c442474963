import EthIo.Base.Memory
import EthIo.Config.Text

/-!
# The EEPROM and `bsp_i2c_ee.c`

The AT24C02 is 256 cells in pages of eight. A page write places its bytes inside the page of its
start address, wrapping there; a sequential read runs on through the cells. What the bus does is a
script: one answer for each HAL call, `HAL_OK` once the script has ended. A page is stored only on
`HAL_OK`; a read that fails has delivered the first `moved` of its bytes.

The functions of `bsp_i2c_ee.c` are translated with their 8- and 16-bit variables.
`I2C_EE_PageWrite` returns its status and `I2C_EE_BufferWrite` drops it; `I2C_Read_EE_IP` drops the
status of its read and decides by `sscanf` alone.

Memory is the firmware's RAM as far as the configuration needs it: the five 16-bit variables
`ip_addr0` … `ip_port` and `I2c_Buf_Read`, at the addresses of a `Placement`. `Linked` is a
placement in the order of the link map: the variables ascend, and the buffer stands above them.
A parse that runs past the end of RAM does not return.

Not modelled: `HAL_I2C_GetState`, which is back at `READY` whenever a HAL call has returned, and
the I2C registers below the HAL.
-/

namespace EthIo.Config

open EthIo.Base

/-- `HAL_StatusTypeDef`. -/
inductive HAL_StatusTypeDef
  | HAL_OK
  | HAL_ERROR
  | HAL_BUSY
  | HAL_TIMEOUT
  deriving DecidableEq, Repr

/-! ## The chip -/

/-- The cells of the AT24C02. -/
abbrev Eeprom := UInt8 → UInt8

/-- `EEPROM_PAGESIZE`. -/
def EEPROM_PAGESIZE : UInt8 := 8

/-- `DATA_Size`, the bytes kept of a configuration. -/
def DATA_Size : UInt16 := 20

/-- `EEP_Firstpage`, where they are kept. -/
def EEP_Firstpage : UInt8 := 0x00

namespace Eeprom

/-- The cell byte `i` of a page write at `x` goes to. -/
def pageCell (x : UInt8) (i : Nat) : UInt8 := (x &&& 0xF8) ||| ((x + i.toUInt8) &&& 7)

/-- One byte into one cell. -/
def store (e : Eeprom) (cell b : UInt8) : Eeprom := fun y => if y = cell then b else e y

/-- Bytes `i`, `i + 1`, … of a page write at `x`. -/
def pageWriteFrom (x : UInt8) : Nat → List UInt8 → Eeprom → Eeprom
  | _, [], e => e
  | i, b :: bs, e => pageWriteFrom x (i + 1) bs (e.store (pageCell x i) b)

/-- A page write at `x`. -/
def pageWrite (e : Eeprom) (x : UInt8) (bs : List UInt8) : Eeprom := pageWriteFrom x 0 bs e

/-- A sequential read of `n` cells from `a` on. -/
def readCells (e : Eeprom) (a : UInt8) (n : Nat) : List UInt8 :=
  (List.range n).map fun i => e (a + i.toUInt8)

/-- A byte that stays in the page of its start address goes to the cell it was meant for. -/
theorem pageCell_toNat {x : UInt8} {i : Nat} (h : x.toNat % 8 + i < 8) :
    (pageCell x i).toNat = x.toNat + i := by
  have all : ∀ x : Fin 256, ∀ i : Fin 8, x.val % 8 + i.val < 8 →
      (pageCell (UInt8.ofNat x.val) i.val).toNat = x.val + i.val := by
    decide +kernel
  have hx := all ⟨x.toNat, x.toNat_lt⟩ ⟨i, by omega⟩ h
  simpa only [UInt8.ofNat_toNat] using hx

theorem pageWriteFrom_apply {x : UInt8} {i : Nat} {bs : List UInt8} {e : Eeprom}
    (h : x.toNat % 8 + i + bs.length ≤ 8) (y : UInt8) :
    pageWriteFrom x i bs e y =
      if x.toNat + i ≤ y.toNat then bs.getD (y.toNat - (x.toNat + i)) (e y) else e y := by
  induction bs generalizing i e with
  | nil => simp [pageWriteFrom]
  | cons b bs ih =>
    rw [List.length_cons] at h
    have hcell := pageCell_toNat (x := x) (i := i) (by omega)
    have hstore : e.store (pageCell x i) b y = if y.toNat = x.toNat + i then b else e y := by
      simp only [store, ← UInt8.toNat_inj, hcell]
    rw [pageWriteFrom, ih (by omega), hstore]
    rcases Nat.lt_trichotomy y.toNat (x.toNat + i) with hlt | heq | hgt
    · rw [if_neg (by omega), if_neg (by omega), if_neg (by omega)]
    · rw [if_neg (by omega), if_pos heq, if_pos (by omega), heq, Nat.sub_self]
      rfl
    · rw [if_pos (by omega), if_neg (by omega), if_pos (by omega),
        show y.toNat - (x.toNat + i) = y.toNat - (x.toNat + (i + 1)) + 1 by omega]
      rfl

/-- **A page write that does not wrap**: its bytes in order from its start, all else unchanged. -/
theorem pageWrite_apply {x : UInt8} {bs : List UInt8} (e : Eeprom)
    (h : x.toNat % 8 + bs.length ≤ 8) (y : UInt8) :
    e.pageWrite x bs y =
      if x.toNat ≤ y.toNat then bs.getD (y.toNat - x.toNat) (e y) else e y :=
  pageWriteFrom_apply (by omega) y

@[simp] theorem readCells_length (e : Eeprom) (a : UInt8) (n : Nat) :
    (e.readCells a n).length = n := by
  simp [readCells]

theorem readCells_append (e : Eeprom) (a : UInt8) (n k : Nat) :
    e.readCells a (n + k) = e.readCells a n ++ e.readCells (a + n.toUInt8) k := by
  simp only [readCells, List.range_add, List.map_append, List.map_map]
  congr 1
  refine List.map_congr_left fun i _ => congrArg e ?_
  simp only [Nat.toUInt8, UInt8.ofNat_add]
  exact (UInt8.add_assoc _ _ _).symm

private theorem cell_toNat {a : UInt8} {n i : Nat} (h : a.toNat + n ≤ 256) (hi : i < n) :
    (a + i.toUInt8).toNat = a.toNat + i := by
  simp only [Nat.toUInt8, UInt8.toNat_add, UInt8.toNat_ofNat']
  omega

/-- What a page write has stored is read back. -/
theorem readCells_pageWrite {x : UInt8} {bs : List UInt8} (e : Eeprom)
    (h : x.toNat % 8 + bs.length ≤ 8) : (e.pageWrite x bs).readCells x bs.length = bs := by
  have hx := x.toNat_lt
  apply List.ext_getElem (by simp)
  intro i hi _
  rw [readCells_length] at hi
  have hcell := cell_toNat (a := x) (n := bs.length) (by omega) hi
  simp only [readCells, List.getElem_map, List.getElem_range]
  rw [pageWrite_apply e h, hcell, if_pos (by omega), Nat.add_sub_cancel_left,
    List.getD_eq_getElem?_getD, List.getElem?_eq_getElem hi]
  rfl

/-- Cells a page write is clear of are read as before. -/
theorem readCells_pageWrite_of_disjoint {x a : UInt8} {bs : List UInt8} {n : Nat} (e : Eeprom)
    (h : x.toNat % 8 + bs.length ≤ 8) (hn : a.toNat + n ≤ 256)
    (clear : a.toNat + n ≤ x.toNat ∨ x.toNat + bs.length ≤ a.toNat) :
    (e.pageWrite x bs).readCells a n = e.readCells a n := by
  apply List.map_congr_left
  intro i hi
  have hcell := cell_toNat hn (List.mem_range.mp hi)
  have hi' := List.mem_range.mp hi
  rw [pageWrite_apply e h, hcell]
  split_ifs with hle
  · rw [List.getD_eq_getElem?_getD, List.getElem?_eq_none (by omega)]
    rfl
  · rfl

/-- The three pages of a configuration, read back as one. -/
theorem readCells_pages (e : Eeprom) {p q r : List UInt8} (hp : p.length = 8) (hq : q.length = 8)
    (hr : r.length = 4) :
    (((e.pageWrite 0 p).pageWrite 8 q).pageWrite 16 r).readCells 0 20 = p ++ (q ++ r) := by
  have h0 : (0 : UInt8).toNat = 0 := rfl
  have h8 : (8 : UInt8).toNat = 8 := rfl
  have h16 : (16 : UInt8).toNat = 16 := rfl
  have third : (Eeprom.pageWrite _ 16 r).readCells 16 r.length = r :=
    readCells_pageWrite ((e.pageWrite 0 p).pageWrite 8 q) (by omega)
  have second : (Eeprom.pageWrite _ 8 q).readCells 8 q.length = q :=
    readCells_pageWrite (e.pageWrite 0 p) (by omega)
  have first : (e.pageWrite 0 p).readCells 0 p.length = p := readCells_pageWrite e (by omega)
  rw [hr] at third
  rw [hq] at second
  rw [hp] at first
  rw [show (20 : Nat) = 8 + (8 + 4) from rfl, readCells_append, readCells_append]
  show _ ++ (_ ++ Eeprom.readCells _ 16 4) = _
  rw [third, readCells_pageWrite_of_disjoint _ (by omega) (by decide) (by omega),
    readCells_pageWrite_of_disjoint _ (by omega) (by decide) (by omega), first]
  show _ ++ (Eeprom.readCells _ 8 8 ++ _) = _
  rw [readCells_pageWrite_of_disjoint _ (by omega) (by decide) (by omega), second]

end Eeprom

/-! ## The bus -/

/-- What one HAL call does: its status, and how many bytes a failing read has delivered. -/
structure Answer where
  status : HAL_StatusTypeDef
  moved : Nat
  deriving DecidableEq, Repr

/-- The chip and the script of the HAL calls to come. -/
structure Bus where
  eeprom : Eeprom
  answers : List Answer

/-- The next answer of the script. -/
def Bus.answer (bus : Bus) : Answer × Bus :=
  match bus.answers with
  | [] => (⟨.HAL_OK, 0⟩, bus)
  | a :: as => (a, { bus with answers := as })

/-- A bus on which every HAL call succeeds. -/
def faithful (e : Eeprom) : Bus := ⟨e, []⟩

/-- `HAL_I2C_Mem_Write`: the page is stored only if the call succeeds. -/
def HAL_I2C_Mem_Write (MemAddress : UInt8) (pData : List UInt8) (Size : UInt8) (bus : Bus) :
    HAL_StatusTypeDef × Bus :=
  match bus.answer with
  | (a, bus) =>
    (a.status,
      if a.status = .HAL_OK then
        { bus with eeprom := bus.eeprom.pageWrite MemAddress (pData.take Size.toNat) }
      else bus)

/-- `HAL_I2C_Mem_Read`: its status and the bytes it has delivered. -/
def HAL_I2C_Mem_Read (MemAddress : UInt8) (Size : UInt16) (bus : Bus) :
    HAL_StatusTypeDef × List UInt8 × Bus :=
  match bus.answer with
  | (a, bus) =>
    (a.status,
      bus.eeprom.readCells MemAddress
        (if a.status = .HAL_OK then Size.toNat else min a.moved Size.toNat),
      bus)

/-- `while (HAL_I2C_IsDeviceReady(..) == HAL_TIMEOUT);` -/
def waitReady (bus : Bus) : Bus :=
  { bus with answers := (bus.answers.dropWhile (·.status = .HAL_TIMEOUT)).tail }

/-- `I2C_EE_PageWrite`. -/
def I2C_EE_PageWrite (pBuffer : List UInt8) (WriteAddr NumByteToWrite : UInt8) (bus : Bus) :
    HAL_StatusTypeDef × Bus :=
  match HAL_I2C_Mem_Write WriteAddr pBuffer NumByteToWrite bus with
  | (status, bus) => (status, waitReady bus)

/-- `while(NumOfPage--)`: whole pages, with the pointer and the address behind them. -/
def writePages : Nat → List UInt8 → UInt8 → Bus → List UInt8 × UInt8 × Bus
  | 0, pBuffer, WriteAddr, bus => (pBuffer, WriteAddr, bus)
  | n + 1, pBuffer, WriteAddr, bus =>
    writePages n (pBuffer.drop EEPROM_PAGESIZE.toNat) (WriteAddr + EEPROM_PAGESIZE)
      (I2C_EE_PageWrite pBuffer WriteAddr EEPROM_PAGESIZE bus).2

/-- The pages of one write and the bytes that do not fill a page. -/
def writePagesAndRest (NumOfPage NumOfSingle : UInt8) (pBuffer : List UInt8) (WriteAddr : UInt8)
    (bus : Bus) : Bus :=
  match writePages NumOfPage.toNat pBuffer WriteAddr bus with
  | (pBuffer, WriteAddr, bus) =>
    if NumOfSingle ≠ 0 then (I2C_EE_PageWrite pBuffer WriteAddr NumOfSingle bus).2 else bus

/-- `I2C_EE_BufferWrite`. `pBuffer` is what the pointer and the bytes behind it hold. -/
def I2C_EE_BufferWrite (pBuffer : List UInt8) (WriteAddr : UInt8) (NumByteToWrite : UInt16)
    (bus : Bus) : Bus :=
  let Addr := WriteAddr % EEPROM_PAGESIZE
  let count := EEPROM_PAGESIZE - Addr
  let NumOfPage := (NumByteToWrite / EEPROM_PAGESIZE.toUInt16).toUInt8
  let NumOfSingle := (NumByteToWrite % EEPROM_PAGESIZE.toUInt16).toUInt8
  if Addr = 0 then
    if NumOfPage = 0 then (I2C_EE_PageWrite pBuffer WriteAddr NumOfSingle bus).2
    else writePagesAndRest NumOfPage NumOfSingle pBuffer WriteAddr bus
  else
    if NumOfPage = 0 then (I2C_EE_PageWrite pBuffer WriteAddr NumOfSingle bus).2
    else
      let NumByteToWrite := NumByteToWrite - count.toUInt16
      let NumOfPage := (NumByteToWrite / EEPROM_PAGESIZE.toUInt16).toUInt8
      let NumOfSingle := (NumByteToWrite % EEPROM_PAGESIZE.toUInt16).toUInt8
      if count ≠ 0 then
        writePagesAndRest NumOfPage NumOfSingle (pBuffer.drop count.toNat) (WriteAddr + count)
          (I2C_EE_PageWrite pBuffer WriteAddr count bus).2
      else writePagesAndRest NumOfPage NumOfSingle pBuffer WriteAddr bus

/-! ## Reading and writing the configuration -/

/-- Where the linker has put the configuration variables, and where RAM ends. -/
structure Placement where
  ip_addr0 : Nat
  ip_addr1 : Nat
  ip_addr2 : Nat
  ip_addr3 : Nat
  ip_port : Nat
  I2c_Buf_Read : Nat
  ramEnd : Nat
  deriving DecidableEq, Repr

/-- The addresses of the five variables, in the order of the format. -/
def Placement.vars (place : Placement) : List Nat :=
  [place.ip_addr0, place.ip_addr1, place.ip_addr2, place.ip_addr3, place.ip_port]

/-- A placement in the order of the link map. -/
structure Linked extends Placement where
  ascending : toPlacement.vars.Pairwise fun a b => a + 2 ≤ b
  below : ∀ a ∈ toPlacement.vars, a + 4 ≤ I2c_Buf_Read
  fits : I2c_Buf_Read + DATA_Size.toNat ≤ ramEnd

/-- The placement of `Listings/LwIP_F407.map`, with the 128 KiB of RAM at `0x20000000`. -/
def shipped : Linked where
  ip_addr0 := 0x2000001c
  ip_addr1 := 0x2000001e
  ip_addr2 := 0x20000020
  ip_addr3 := 0x20000022
  ip_port := 0x20000024
  I2c_Buf_Read := 0x2000683c
  ramEnd := 0x20020000
  ascending := by decide
  below := by decide
  fits := by decide

/-- What the configuration functions print: the result of a read, and after a write the string that
was written. -/
inductive Report
  | readOk
  | readFailed
  | written (line : List UInt8)
  deriving DecidableEq, Repr

/-- The EEPROM behind its bus, the RAM, and what has been printed. -/
structure Board where
  bus : Bus
  mem : Mem
  printed : List Report

/-- `I2C_EE_BufferRead`. -/
def I2C_EE_BufferRead (pBuffer : Nat) (ReadAddr : UInt8) (NumByteToRead : UInt16) (b : Board) :
    HAL_StatusTypeDef × Board :=
  match HAL_I2C_Mem_Read ReadAddr NumByteToRead b.bus with
  | (status, bytes, bus) => (status, { b with bus := bus, mem := b.mem.write pBuffer bytes })

/-- The `sscanf` of `I2C_Read_EE_IP`, on the text in `I2c_Buf_Read` and what stands behind it. -/
def scanI2cBuf (place : Placement) (m : Mem) : ScanResult Nat × Mem :=
  scanMem place.ramEnd
    (ipFormat place.ip_addr0 place.ip_addr1 place.ip_addr2 place.ip_addr3 place.ip_port)
    place.I2c_Buf_Read m

/-- `I2C_Read_EE_IP`. The status of the read is dropped; a parse past the end of RAM is a fault. -/
def I2C_Read_EE_IP (place : Placement) (b : Board) : Option (UInt8 × Board) :=
  let b := (I2C_EE_BufferRead place.I2c_Buf_Read EEP_Firstpage DATA_Size b).2
  match scanI2cBuf place b.mem with
  | (r, m) =>
    if r.stop = .overrun then none
    else if r.ret = 5 then some (1, { b with mem := m, printed := b.printed ++ [.readOk] })
    else some (0, { b with mem := m, printed := b.printed ++ [.readFailed] })

/-- `I2C_Write_EE_IP`. -/
def I2C_Write_EE_IP (Usart_Ip_data : List UInt8) (b : Board) : UInt8 × Board :=
  (1, { b with
    bus := I2C_EE_BufferWrite Usart_Ip_data EEP_Firstpage DATA_Size b.bus
    printed := b.printed ++ [.written (Usart_Ip_data.takeWhile (· ≠ 0))] })

/-! ## What they do -/

/-- The RAM from the buffer on, as the parse sees it: twenty bytes and what stands behind them. -/
def textOf (place : Placement) (m : Mem) : List UInt8 :=
  m.read place.I2c_Buf_Read (place.ramEnd - place.I2c_Buf_Read)

/-- The format of the read, with the addresses of the five variables. -/
def readFormat (place : Placement) : List (Directive Nat) :=
  ipFormat place.ip_addr0 place.ip_addr1 place.ip_addr2 place.ip_addr3 place.ip_port

theorem destinations_readFormat (place : Placement) :
    destinations (readFormat place) = place.vars := by
  rw [readFormat, ipFormat_eq]
  rfl

/-- In a linked firmware the parse reads the text as it was, and stores after it. -/
theorem scanI2cBuf_eq (place : Linked) (m : Mem) :
    scanI2cBuf place.toPlacement m =
      (scan (readFormat place.toPlacement) (textOf place.toPlacement m),
        m.storeInts (scan (readFormat place.toPlacement) (textOf place.toPlacement m)).assigned) :=
  scanMem_eq (by have := place.fits; omega) fun dst hdst =>
    place.below dst (destinations_readFormat place.toPlacement ▸ hdst)

/-- A successful read of the configuration fills the buffer from the chip. -/
theorem I2C_EE_BufferRead_faithful (place : Placement) (e : Eeprom) (m : Mem)
    (printed : List Report) :
    (I2C_EE_BufferRead place.I2c_Buf_Read EEP_Firstpage DATA_Size ⟨faithful e, m, printed⟩).2 =
      ⟨faithful e, m.write place.I2c_Buf_Read (e.readCells 0 20), printed⟩ := rfl

/-- Three page writes are what twenty bytes from the first page on amount to. -/
theorem I2C_EE_BufferWrite_firstpage (pBuffer : List UInt8) (bus : Bus) :
    I2C_EE_BufferWrite pBuffer EEP_Firstpage DATA_Size bus =
      (I2C_EE_PageWrite ((pBuffer.drop 8).drop 8) 16 4
        (I2C_EE_PageWrite (pBuffer.drop 8) 8 8
          (I2C_EE_PageWrite pBuffer 0 8 bus).2).2).2 := rfl

/-- A page write the bus answers with `HAL_OK` is stored. -/
theorem I2C_EE_PageWrite_of_ok (pBuffer : List UInt8) (WriteAddr NumByteToWrite : UInt8)
    {bus : Bus} (h : bus.answer.1.status = .HAL_OK) :
    (I2C_EE_PageWrite pBuffer WriteAddr NumByteToWrite bus).2.eeprom =
      bus.eeprom.pageWrite WriteAddr (pBuffer.take NumByteToWrite.toNat) := by
  obtain ⟨e, answers⟩ := bus
  cases answers with
  | nil => rfl
  | cons a as =>
    have ha : a.status = .HAL_OK := h
    simp [I2C_EE_PageWrite, HAL_I2C_Mem_Write, Bus.answer, waitReady, ha]

/-- A page write on a faithful bus. -/
theorem I2C_EE_PageWrite_faithful (pBuffer : List UInt8) (WriteAddr NumByteToWrite : UInt8)
    (e : Eeprom) :
    I2C_EE_PageWrite pBuffer WriteAddr NumByteToWrite (faithful e) =
      (.HAL_OK, faithful (e.pageWrite WriteAddr (pBuffer.take NumByteToWrite.toNat))) := rfl

/-- The chip after the three page writes of a configuration, each with a buffer of its own. -/
def threePages (e : Eeprom) (first second third : List UInt8) : Eeprom :=
  ((e.pageWrite 0 (first.take 8)).pageWrite 8 ((second.drop 8).take 8)).pageWrite 16
    ((third.drop 16).take 4)

/-- Each page comes from the buffer its write saw. -/
theorem readCells_threePages (e : Eeprom) {first second third : List UInt8}
    (h₁ : 20 ≤ first.length) (h₂ : 20 ≤ second.length) (h₃ : 20 ≤ third.length) :
    (threePages e first second third).readCells 0 20 =
      first.take 8 ++ ((second.drop 8).take 8 ++ (third.drop 16).take 4) :=
  Eeprom.readCells_pages e (by simp; omega) (by simp; omega) (by simp; omega)

theorem take_twenty (buf : List UInt8) :
    buf.take 8 ++ ((buf.drop 8).take 8 ++ (buf.drop 16).take 4) = buf.take 20 := by
  rw [show (20 : Nat) = 8 + (8 + 4) from rfl, List.take_add, List.take_add, List.drop_drop]

/-- **On a faithful bus the write stores the first twenty bytes**, and nothing else changes. -/
theorem I2C_Write_EE_IP_faithful (buf : List UInt8) (e : Eeprom) (m : Mem)
    (printed : List Report) :
    I2C_Write_EE_IP buf ⟨faithful e, m, printed⟩ =
      (1, ⟨faithful (threePages e buf buf buf), m,
        printed ++ [.written (buf.takeWhile (· ≠ 0))]⟩) := by
  rw [I2C_Write_EE_IP, I2C_EE_BufferWrite_firstpage, I2C_EE_PageWrite_faithful,
    I2C_EE_PageWrite_faithful, I2C_EE_PageWrite_faithful, List.drop_drop]
  rfl

/-! ## The result of the read -/

/-- The RAM when the parse starts: the buffer holds what the read has delivered. -/
def loaded (place : Placement) (b : Board) : Mem :=
  (I2C_EE_BufferRead place.I2c_Buf_Read EEP_Firstpage DATA_Size b).2.mem

/-- A faithful bus delivers the first twenty cells. -/
theorem loaded_read_faithful (place : Placement) (e : Eeprom) (m : Mem) (printed : List Report) :
    (loaded place ⟨faithful e, m, printed⟩).read place.I2c_Buf_Read DATA_Size.toNat =
      e.readCells 0 20 := by
  have hlen : (e.readCells 0 20).length = DATA_Size.toNat := Eeprom.readCells_length e 0 20
  rw [loaded, I2C_EE_BufferRead_faithful, ← hlen]
  exact Mem.read_write m _ _

/-- A text is completely parsed: it begins with a configuration that a further byte ends. -/
def Complete (s : List UInt8) : Prop :=
  ∃ (t : ConfigText) (r : List UInt8), s = t.text ++ r ∧ r ≠ [] ∧ noDigit r = true

theorem complete_iff_ret (place : Placement) (s : List UInt8) :
    Complete s ↔ (scan (readFormat place) s).ret = 5 :=
  scan_ipFormat_iff.symm

/-- **A complete text is loaded**: the call returns 1, with its five values stored. -/
theorem I2C_Read_EE_IP_complete (place : Linked) (b : Board) {t : ConfigText} {r : List UInt8}
    (hs : textOf place.toPlacement (loaded place.toPlacement b) = t.text ++ r) (hne : r ≠ [])
    (hnd : noDigit r = true) :
    I2C_Read_EE_IP place.toPlacement b =
      some (1,
        { bus := (I2C_EE_BufferRead place.I2c_Buf_Read EEP_Firstpage DATA_Size b).2.bus
          mem := (loaded place.toPlacement b).storeInts (place.vars.zip t.values)
          printed := b.printed ++ [.readOk] }) := by
  have hscan : scan (readFormat place.toPlacement) (t.text ++ r) =
      ⟨place.vars.zip t.values, .done, r⟩ := scan_ipFormat_text hne hnd
  have heq := scanI2cBuf_eq place (loaded place.toPlacement b)
  rw [hs, hscan] at heq
  simp only [loaded] at heq
  simp only [I2C_Read_EE_IP, heq]
  rfl

/-- A text that is not complete is refused, or runs the parse out of RAM; the conversions before
its first mismatch are stored all the same. -/
theorem I2C_Read_EE_IP_incomplete (place : Linked) (b : Board)
    (h : ¬ Complete (textOf place.toPlacement (loaded place.toPlacement b))) :
    I2C_Read_EE_IP place.toPlacement b =
      if (scan (readFormat place.toPlacement)
          (textOf place.toPlacement (loaded place.toPlacement b))).stop = .overrun then none
      else some (0,
        { bus := (I2C_EE_BufferRead place.I2c_Buf_Read EEP_Firstpage DATA_Size b).2.bus
          mem := (loaded place.toPlacement b).storeInts (scan (readFormat place.toPlacement)
            (textOf place.toPlacement (loaded place.toPlacement b))).assigned
          printed := b.printed ++ [.readFailed] }) := by
  rw [complete_iff_ret place.toPlacement] at h
  have heq := scanI2cBuf_eq place (loaded place.toPlacement b)
  simp only [loaded] at heq h ⊢
  simp only [I2C_Read_EE_IP, heq, if_neg h]
  rfl

/-- **The call returns 1 exactly on complete texts.** -/
theorem I2C_Read_EE_IP_eq_one_iff (place : Linked) (b : Board) :
    (∃ b', I2C_Read_EE_IP place.toPlacement b = some (1, b')) ↔
      Complete (textOf place.toPlacement (loaded place.toPlacement b)) := by
  constructor
  · rintro ⟨b', hb'⟩
    by_contra hnot
    rw [I2C_Read_EE_IP_incomplete place b hnot] at hb'
    split_ifs at hb'
    simp at hb'
  · rintro ⟨t, r, hs, hne, hnd⟩
    exact ⟨_, I2C_Read_EE_IP_complete place b hs hne hnd⟩

end EthIo.Config
