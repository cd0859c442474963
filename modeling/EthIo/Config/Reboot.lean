import EthIo.Config.I2cEe

/-!
# A configuration over a reboot

`I2ceeprom_Task` accepts a line of up to 1023 bytes, `I2C_Write_EE_IP` keeps the first twenty bytes
of its buffer, and `I2C_Read_EE_IP` parses those twenty in a buffer that ends with the last of them.
A configuration survives when the byte that ends its port is still among the twenty: its text has to
be shorter than `DATA_Size`, not merely no longer.

White space, signs and leading zeros count towards the length, and what follows the port does not.
-/

namespace EthIo.Config

open EthIo.Base

/-- The 16-bit locals of `I2ceeprom_Task`. -/
inductive CheckVar
  | Checkip0
  | Checkip1
  | Checkip2
  | Checkip3
  | Checkport
  deriving DecidableEq, Repr

/-- The check's format and destinations, as the task passes them: `&Checkip0` four times. -/
def checkFormat : List (Directive CheckVar) :=
  ipFormat .Checkip0 .Checkip0 .Checkip0 .Checkip0 .Checkport

/-- `USART_RBUFF_SIZE`. -/
def USART_RBUFF_SIZE : Nat := 1024

/-- The check of `I2ceeprom_Task` on what stands in `Usart_Rx_Buf`. -/
def accepts (Usart_Rx_Buf : List UInt8) : Prop := (scan checkFormat Usart_Rx_Buf).ret = 5

instance (buf : List UInt8) : Decidable (accepts buf) := inferInstanceAs (Decidable (_ = _))

theorem accepts_line_iff {line tail : List UInt8} (hnul : (0 : UInt8) ∉ line) :
    accepts (line ++ 0 :: tail) ↔ ∃ t, BeginsWith t line :=
  scan_line_iff hnul

/-- The integers a call has converted, in order. -/
def converted {α : Type*} (r : ScanResult α) : List Int := r.assigned.map Prod.snd

/-- What a reset leaves: the chip and its bus, and RAM anew. -/
def reset (b : Board) (m : Mem) : Board := { b with mem := m, printed := [] }

/-- **The round trip.** After the write and a reset, the read returns 1, converts the integers the
check converted, and needs no byte behind its buffer. -/
def RoundTrip (place : Placement) (Usart_Rx_Buf : List UInt8) (b : Board) (m : Mem) : Prop :=
  let next := reset (I2C_Write_EE_IP Usart_Rx_Buf b).2 m
  let ram := loaded place next
  (∃ b', I2C_Read_EE_IP place next = some (1, b')) ∧
    converted (scanI2cBuf place ram).1 = converted (scan checkFormat Usart_Rx_Buf) ∧
    (scan (readFormat place) (ram.read place.I2c_Buf_Read DATA_Size.toNat)).stop ≠ .overrun

/-! ## The twenty bytes after the reset -/

/-- The buffer of the next boot holds the first twenty bytes of the line's buffer. -/
theorem loaded_read (place : Placement) {buf : List UInt8} (hbuf : 20 ≤ buf.length) (e : Eeprom)
    (m ram : Mem) (printed : List Report) :
    (loaded place (reset (I2C_Write_EE_IP buf ⟨faithful e, m, printed⟩).2 ram)).read
      place.I2c_Buf_Read DATA_Size.toNat = buf.take 20 := by
  rw [I2C_Write_EE_IP_faithful, reset, loaded_read_faithful,
    readCells_threePages e hbuf hbuf hbuf, take_twenty]

/-- The parse sees the twenty bytes of the buffer, and RAM behind them. -/
theorem textOf_eq (place : Linked) (ram : Mem) :
    textOf place.toPlacement ram = ram.read place.I2c_Buf_Read DATA_Size.toNat ++
      ram.read (place.I2c_Buf_Read + DATA_Size.toNat)
        (place.ramEnd - (place.I2c_Buf_Read + DATA_Size.toNat)) := by
  have := place.fits
  rw [← Mem.read_append, textOf]
  congr 1
  omega

/-- A line shorter than the buffer that holds it: the first twenty bytes of it and its NUL. -/
theorem take_line {t : ConfigText} {rest tail : List UInt8} (hlt : t.text.length < 20) :
    (t.text ++ rest ++ 0 :: tail).take 20 =
      t.text ++ (rest ++ 0 :: tail).take (20 - t.text.length) := by
  rw [List.append_assoc, List.take_append, List.take_of_length_le (by omega)]

private theorem take_rest {rest : List UInt8} (tail : List UInt8) {n : Nat} (hn : 0 < n)
    (hnd : noDigit rest = true) :
    (rest ++ 0 :: tail).take n ≠ [] ∧ noDigit ((rest ++ 0 :: tail).take n) = true := by
  obtain ⟨n, rfl⟩ := Nat.exists_eq_succ_of_ne_zero hn.ne'
  cases rest with
  | nil => exact ⟨List.cons_ne_nil _ _, rfl⟩
  | cons x rest => exact ⟨List.cons_ne_nil _ _, hnd⟩

private theorem noDigit_append {r x : List UInt8} (hne : r ≠ []) :
    noDigit (r ++ x) = noDigit r := by
  cases r with
  | nil => exact absurd rfl hne
  | cons b r => rfl

theorem converted_zip {α : Type*} {a b c d p : α} (t : ConfigText) {r : ScanResult α}
    (h : r.assigned = [a, b, c, d, p].zip t.values) : converted r = t.values := by
  rw [converted, h]
  rfl

/-- A parse that the twenty bytes complete reads the line's own configuration, ended by a byte. -/
theorem length_lt_of_complete_take {t : ConfigText} {line tail : List UInt8}
    (hlen : 20 ≤ (line ++ 0 :: tail).length) (ht : BeginsWith t line)
    (h : Complete ((line ++ 0 :: tail).take 20)) : t.text.length < 20 := by
  obtain ⟨rest, hline, hnd⟩ := ht
  obtain ⟨u, r, hu, hne, hur⟩ := h
  have hbuf : t.text ++ (rest ++ 0 :: tail) = u.text ++ (r ++ (line ++ 0 :: tail).drop 20) := by
    rw [← List.append_assoc, ← hline, ← List.append_assoc, ← hu, List.take_append_drop]
  have hrest : noDigit (rest ++ 0 :: tail) = true := by
    cases rest with
    | nil => rfl
    | cons x rest => exact hnd
  obtain ⟨-, htext, -⟩ := ConfigText.unique hbuf (by simp) hrest (by simp [hne])
    ((noDigit_append hne).trans hur)
  have hcount := congrArg List.length hu
  rw [List.length_take, Nat.min_eq_left hlen, List.length_append, ← htext] at hcount
  have : 0 < r.length := List.length_pos_of_ne_nil hne
  omega

section

variable (place : Linked) (e : Eeprom) (m ram : Mem) (printed : List Report)
  {line tail : List UInt8}

/-- A configuration that survives is shorter than the buffer. -/
theorem length_lt_of_roundTrip {t : ConfigText}
    (hsize : (line ++ 0 :: tail).length = USART_RBUFF_SIZE) (ht : BeginsWith t line)
    (h : RoundTrip place.toPlacement (line ++ 0 :: tail) ⟨faithful e, m, printed⟩ ram) :
    t.text.length < DATA_Size.toNat := by
  have hlen : 20 ≤ (line ++ 0 :: tail).length := hsize ▸ by decide
  unfold RoundTrip at h
  dsimp only at h
  rw [I2C_Read_EE_IP_eq_one_iff, textOf_eq, loaded_read place.toPlacement hlen e m ram printed]
    at h
  obtain ⟨hone, -, hin⟩ := h
  apply length_lt_of_complete_take hlen ht
  -- the parse stays inside the buffer, so what stands behind it has no part in the result
  rw [complete_iff_ret place.toPlacement] at hone ⊢
  rw [scan_append _ hin] at hone
  exact hone

/-- A configuration shorter than the buffer survives. -/
theorem roundTrip_of_length_lt {t : ConfigText}
    (hsize : (line ++ 0 :: tail).length = USART_RBUFF_SIZE) (ht : BeginsWith t line)
    (hlt : t.text.length < DATA_Size.toNat) :
    RoundTrip place.toPlacement (line ++ 0 :: tail) ⟨faithful e, m, printed⟩ ram := by
  have hlen : 20 ≤ (line ++ 0 :: tail).length := hsize ▸ by decide
  unfold RoundTrip
  dsimp only
  rw [I2C_Read_EE_IP_eq_one_iff, scanI2cBuf_eq, textOf_eq,
    loaded_read place.toPlacement hlen e m ram printed]
  generalize Mem.read _ _ _ = behind
  have hcheck : converted (scan checkFormat (line ++ 0 :: tail)) = t.values :=
    converted_zip t (scan_line_text ht tail)
  obtain ⟨rest, rfl, hnd⟩ := ht
  rw [hcheck, take_line hlt, List.append_assoc]
  have hpos : 0 < 20 - t.text.length := Nat.sub_pos_of_lt hlt
  obtain ⟨hne, hrnd⟩ := take_rest tail hpos hnd
  generalize List.take _ (rest ++ 0 :: tail) = r at hne hrnd ⊢
  have hne' : r ++ behind ≠ [] := List.append_ne_nil_of_left_ne_nil hne behind
  have hnd' : noDigit (r ++ behind) = true := (noDigit_append hne).trans hrnd
  refine ⟨⟨t, _, rfl, hne', hnd'⟩, ?_, ?_⟩
  · exact converted_zip t (congrArg ScanResult.assigned (scan_ipFormat_text hne' hnd'))
  · rw [readFormat, scan_ipFormat_text hne hrnd]
    exact ScanStop.noConfusion

/-- **A configuration survives a reboot exactly when its text is shorter than twenty bytes.** -/
theorem roundTrip_iff (hnul : (0 : UInt8) ∉ line)
    (hsize : (line ++ 0 :: tail).length = USART_RBUFF_SIZE)
    (hacc : accepts (line ++ 0 :: tail)) :
    RoundTrip place.toPlacement (line ++ 0 :: tail) ⟨faithful e, m, printed⟩ ram ↔
      ∃ t, BeginsWith t line ∧ t.text.length < DATA_Size.toNat := by
  constructor
  · intro h
    obtain ⟨t, ht⟩ := (accepts_line_iff hnul).mp hacc
    exact ⟨t, ht, length_lt_of_roundTrip place e m ram printed hsize ht h⟩
  · rintro ⟨t, ht, hlt⟩
    exact roundTrip_of_length_lt place e m ram printed hsize ht hlt

end

/-- `Usart_Rx_Buf` with one line in it, cleared behind it. -/
def lineBuf (line : List UInt8) : List UInt8 :=
  line ++ 0 :: List.replicate (USART_RBUFF_SIZE - 1 - line.length) 0

theorem lineBuf_length {line : List UInt8} (h : line.length < USART_RBUFF_SIZE) :
    (lineBuf line).length = USART_RBUFF_SIZE := by
  simp only [lineBuf, List.length_append, List.length_cons, List.length_replicate]
  omega

/-- A numeral of digits alone. -/
def ofDigits (s : String) (h : ascii s ≠ [] ∧ (ascii s).all isdigit = true) : Numeral :=
  ⟨[], .none, ascii s, by simp, List.all_eq_true.mp h.2, h.1⟩

/-- A configuration of five numerals of digits alone. -/
def dotted (a b c d p : String)
    (h : ∀ s ∈ [a, b, c, d, p], ascii s ≠ [] ∧ (ascii s).all isdigit = true) : ConfigText :=
  ⟨ofDigits a (h a (by simp)), ofDigits b (h b (by simp)), ofDigits c (h c (by simp)),
    ofDigits d (h d (by simp)), ofDigits p (h p (by simp))⟩

/-- The configuration the firmware prints as its example makes the round trip. -/
theorem roundTrip_printed_example :
    RoundTrip shipped.toPlacement (lineBuf (ascii "192.168.2.187:5000"))
        ⟨faithful fun _ => 0xff, fun _ => 0, []⟩ (fun _ => 0) ↔
      ∃ t, BeginsWith t (ascii "192.168.2.187:5000") ∧ t.text.length < DATA_Size.toNat :=
  roundTrip_iff shipped (fun _ => 0xff) (fun _ => 0) (fun _ => 0) [] (by decide)
    (lineBuf_length (by decide))
    ((accepts_line_iff (by decide)).mpr
      ⟨dotted "192" "168" "2" "187" "5000" (by decide), [], by decide, rfl⟩)

/-- Twenty-one bytes for the widest address and port: accepted, stored short of its last digit, and
the parse of the next boot runs past the buffer looking for the end of the port. -/
theorem widest_configuration_lost :
    (0 : UInt8) ∉ ascii "255.255.255.255:65535" ∧
      (lineBuf (ascii "255.255.255.255:65535")).length = USART_RBUFF_SIZE ∧
      accepts (lineBuf (ascii "255.255.255.255:65535")) ∧
      ¬ RoundTrip shipped.toPlacement (lineBuf (ascii "255.255.255.255:65535"))
        ⟨faithful fun _ => 0xff, fun _ => 0, []⟩ (fun _ => 0) := by
  have hsize : (lineBuf (ascii "255.255.255.255:65535")).length = USART_RBUFF_SIZE :=
    lineBuf_length (by decide)
  have hbegin : BeginsWith (dotted "255" "255" "255" "255" "65535" (by decide))
      (ascii "255.255.255.255:65535") := ⟨[], by decide, rfl⟩
  refine ⟨by decide, hsize, (accepts_line_iff (by decide)).mpr ⟨_, hbegin⟩, ?_⟩
  intro h
  have hlt := length_lt_of_roundTrip shipped _ _ _ _ hsize hbegin h
  revert hlt
  decide

end EthIo.Config
