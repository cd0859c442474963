import EthIo.Base.Machine
import EthIo.Config.Reboot

/-!
# `I2ceeprom_Task` and the receiver it shares a buffer with

The DMA stores each byte of a line where the last one left off, from the start of `Usart_Rx_Buf`,
circularly; an IDLE on the line gives the task a notification and starts the DMA over. The task
takes the notification, scans the buffer twice (the first result is not used), writes three pages
of the EEPROM if the second scan has converted five integers, and clears the buffer. Each of these
reads or writes the buffer when it runs, so a byte can come between any two of them.

A line is what comes between two IDLEs. `StoredLines` is the promise: what a completed write has
left in the EEPROM is the start of one line, and of one the check has accepted. Nothing in the code
keeps bytes away from the buffer while the task works on it. `stored_lines_of_quiet` proves the
promise for the runs in which no byte changes what the task has still to read and no page write
fails: a byte of the next line does no harm once the last page is written, since the line it
belongs to then starts with a NUL and is refused.

The EEPROM is behind the scripted bus: a page whose write fails keeps what it had, and the task
never learns of it. `behind` is what stands behind the buffer in RAM: a buffer without a NUL is
scanned into it, and a scan that runs past its end does not return.
-/

namespace EthIo.Config

open EthIo.Base

/-- Where `I2ceeprom_Task` stands: before the take, the two scans, the three page writes of
`I2C_Write_EE_IP`, and the `memset`. -/
inductive TaskPc
  | ulTaskNotifyTake
  | unusedScan
  | check
  | page0
  | page1
  | page2
  | memset
  deriving DecidableEq, Repr

/-- The buffer, the DMA's position in it, the task with its notification count, and the EEPROM
behind its bus. -/
structure Serial where
  Usart_Rx_Buf : List UInt8
  dma : Nat
  ulNotifiedValue : UInt32
  pc : TaskPc
  bus : Bus

/-- A cleared buffer of `USART_RBUFF_SIZE` bytes. -/
def cleared : List UInt8 := List.replicate USART_RBUFF_SIZE 0

/-- The task at its start, with the DMA armed. -/
def Serial.start (bus : Bus) : Serial := ⟨cleared, 0, 0, .ulTaskNotifyTake, bus⟩

/-- A byte from the UART, an IDLE on its line, or a step of the task. -/
inductive SerialEvent
  | byte (b : UInt8)
  | idle
  | task
  deriving DecidableEq, Repr

/-- A byte that the DMA stores. -/
def Serial.byte (s : Serial) (b : UInt8) : Serial :=
  { s with
    Usart_Rx_Buf := s.Usart_Rx_Buf.set s.dma b
    dma := (s.dma + 1) % USART_RBUFF_SIZE }

/-- A page write of the task from the buffer as it stands. -/
def Serial.pageWrite (s : Serial) (offset n : UInt8) (pc : TaskPc) : Serial :=
  { s with
    bus := (I2C_EE_PageWrite (s.Usart_Rx_Buf.drop offset.toNat) offset n s.bus).2
    pc := pc }

/-- One step of `I2ceeprom_Task`. -/
def Serial.task (behind : List UInt8) (s : Serial) : Option Serial :=
  match s.pc with
  | .ulTaskNotifyTake =>
    if s.ulNotifiedValue = 0 then none
    -- the count goes through `uint16_t NotifyValue`
    else if s.ulNotifiedValue.toUInt16 ≠ 0 then
      some { s with ulNotifiedValue := 0, pc := .unusedScan }
    else some { s with ulNotifiedValue := 0 }
  | .unusedScan =>
    if (scan checkFormat (s.Usart_Rx_Buf ++ behind)).stop = .overrun then none
    else some { s with pc := .check }
  | .check =>
    if (scan checkFormat (s.Usart_Rx_Buf ++ behind)).stop = .overrun then none
    else if accepts (s.Usart_Rx_Buf ++ behind) then some { s with pc := .page0 }
    else some { s with pc := .memset }
  | .page0 => some (s.pageWrite 0 8 .page1)
  | .page1 => some (s.pageWrite 8 8 .page2)
  | .page2 => some (s.pageWrite 16 4 .memset)
  | .memset => some { s with Usart_Rx_Buf := cleared, pc := .ulTaskNotifyTake }

/-- The receiver and the task, one step at a time. -/
def Serial.step (behind : List UInt8) (s : Serial) : SerialEvent → Option Serial
  | .byte b => some (s.byte b)
  | .idle => some { s with ulNotifiedValue := s.ulNotifiedValue + 1, dma := 0 }
  | .task => s.task behind

/-- The receiver and the task as a machine. -/
def serial (behind : List UInt8) : Machine Serial SerialEvent := ⟨Serial.step behind⟩

/-- The three page writes of the task are those of `I2C_Write_EE_IP`. -/
theorem pageWrites_eq (s : Serial) (printed : List Report) (m : Mem) :
    (((s.pageWrite 0 8 .page1).pageWrite 8 8 .page2).pageWrite 16 4 .memset).bus =
      (I2C_Write_EE_IP s.Usart_Rx_Buf ⟨s.bus, m, printed⟩).2.bus := by
  rw [I2C_Write_EE_IP, I2C_EE_BufferWrite_firstpage, List.drop_drop]
  rfl

/-! ## What has been received, accepted and stored -/

/-- The bytes since the last IDLE, the lines before it, the buffers the check has accepted, and the
twenty cells after each completed write. -/
structure Lines where
  line : List UInt8
  received : List (List UInt8)
  accepted : List (List UInt8)
  stored : List (List UInt8)
  deriving DecidableEq, Repr

/-- Nothing received. -/
def Lines.nothing : Lines := ⟨[], [], [], []⟩

/-- The record of a step. -/
def Lines.see (behind : List UInt8) (s : Serial) : SerialEvent → Lines → Lines
  | .byte b, h => { h with line := h.line ++ [b] }
  | .idle, h => { h with line := [], received := h.line :: h.received }
  | .task, h =>
    if s.pc = .check ∧ accepts (s.Usart_Rx_Buf ++ behind) then
      { h with accepted := s.Usart_Rx_Buf :: h.accepted }
    else if s.pc = .page2 then
      { h with
        stored := (s.pageWrite 16 4 .memset).bus.eeprom.readCells EEP_Firstpage DATA_Size.toNat ::
          h.stored }
    else h

/-- The receiver and the task with that record. -/
def recorded (behind : List UInt8) : Machine (Serial × Lines) SerialEvent :=
  (serial behind).observe (Lines.see behind)

/-- The first twenty bytes of a line, zero padded. -/
def firstTwenty (line : List UInt8) : List UInt8 :=
  (line ++ List.replicate DATA_Size.toNat 0).take DATA_Size.toNat

/-- A buffer that holds one line and nothing else. -/
def holding (line : List UInt8) : List UInt8 :=
  line ++ List.replicate (USART_RBUFF_SIZE - line.length) 0

/-- **The stored configuration is always one received line**, and one the check has accepted. -/
def StoredLines (s : Serial × Lines) : Prop :=
  ∀ cells ∈ s.2.stored, ∃ line ∈ s.2.received,
    cells = firstTwenty line ∧ holding line ∈ s.2.accepted

/-- The page writes. -/
def TaskPc.writing : TaskPc → Bool
  | .page0 | .page1 | .page2 => true
  | _ => false

/-- The take and the scans. -/
def TaskPc.scanning : TaskPc → Bool
  | .ulTaskNotifyTake | .unusedScan | .check => true
  | _ => false

/-- Where the next page write starts. -/
def TaskPc.offset : TaskPc → Nat
  | .page1 => 8
  | .page2 => 16
  | _ => 0

/-- What the task has still to read of the buffer before it clears it: all of it up to the check,
then what is left of the first twenty bytes. -/
def Serial.unread (s : Serial) : List UInt8 :=
  match s.pc with
  | .ulTaskNotifyTake | .unusedScan | .check => s.Usart_Rx_Buf
  | .page0 | .page1 | .page2 => (s.Usart_Rx_Buf.take DATA_Size.toNat).drop s.pc.offset
  | .memset => []

/-- The task waits, and nothing is pending. -/
def Serial.waits (s : Serial) : Prop := s.pc = .ulTaskNotifyTake ∧ s.ulNotifiedValue = 0

/-- The buffer takes one more byte of its line: it holds that line alone and has room for the byte,
or it starts with a NUL, which the byte leaves there. -/
def Takes (s : Serial × Lines) : Prop :=
  (s.1.Usart_Rx_Buf = holding s.2.line ∧ s.2.line.length < USART_RBUFF_SIZE) ∨
    (s.1.dma ≠ 0 ∧ s.1.Usart_Rx_Buf.head? = some 0)

/-- While the task waits, a byte the buffer takes; at any other time, a byte that changes nothing
the task has still to read; and a page write that succeeds. -/
def Quiet (s : Serial × Lines) : SerialEvent → Prop
  | .byte b => (s.1.waits ∧ Takes s) ∨ (¬ s.1.waits ∧ (s.1.byte b).unread = s.1.unread)
  | .idle => True
  | .task => s.1.pc.writing = true → s.1.bus.answer.1.status = .HAL_OK

instance (s : Serial) : Decidable s.waits :=
  inferInstanceAs (Decidable (s.pc = .ulTaskNotifyTake ∧ s.ulNotifiedValue = 0))

instance (s : Serial × Lines) : Decidable (Takes s) :=
  inferInstanceAs (Decidable (_ ∧ s.2.line.length < USART_RBUFF_SIZE ∨ _ ∧ _))

instance : (s : Serial × Lines) → (a : SerialEvent) → Decidable (Quiet s a)
  | s, .byte b => inferInstanceAs
      (Decidable ((s.1.waits ∧ Takes s) ∨ (¬ s.1.waits ∧ (s.1.byte b).unread = s.1.unread)))
  | _, .idle => inferInstanceAs (Decidable True)
  | s, .task => inferInstanceAs
      (Decidable (s.1.pc.writing = true → s.1.bus.answer.1.status = .HAL_OK))

/-! ## The buffer -/

/-- A page write that succeeds stores the bytes of the buffer behind its offset. -/
theorem pageWrite_eeprom {s : Serial} (offset n : UInt8) (pc : TaskPc)
    (hok : s.bus.answer.1.status = .HAL_OK) :
    (s.pageWrite offset n pc).bus.eeprom =
      s.bus.eeprom.pageWrite offset ((s.Usart_Rx_Buf.drop offset.toNat).take n.toNat) :=
  I2C_EE_PageWrite_of_ok _ _ _ hok

/-- The next byte of a line goes behind the bytes before it. -/
theorem holding_set {line : List UInt8} (h : line.length < USART_RBUFF_SIZE) (b : UInt8) :
    (holding line).set line.length b = holding (line ++ [b]) := by
  obtain ⟨n, hn⟩ := Nat.exists_eq_add_of_lt h
  have hroom : USART_RBUFF_SIZE - line.length = n + 1 := by omega
  have hleft : USART_RBUFF_SIZE - (line ++ [b]).length = n := by
    rw [List.length_append, List.length_singleton]
    omega
  rw [holding, hroom, holding, hleft, List.set_append_right _ _ (Nat.le_refl _), Nat.sub_self,
    List.append_assoc]
  rfl

/-- The first twenty bytes of the buffer are those of its line. -/
theorem take_holding {line : List UInt8} (h : line.length ≤ USART_RBUFF_SIZE) :
    (holding line).take DATA_Size.toNat = firstTwenty line := by
  have hsize : USART_RBUFF_SIZE = 1024 := rfl
  have hdata : DATA_Size.toNat = 20 := rfl
  rw [holding, firstTwenty, hdata, List.take_append, List.take_append, List.take_replicate,
    List.take_replicate]
  congr 2
  omega

@[simp] theorem firstTwenty_length (line : List UInt8) : (firstTwenty line).length = 20 := by
  have hdata : DATA_Size.toNat = 20 := rfl
  rw [firstTwenty, hdata, List.length_take, List.length_append, List.length_replicate]
  omega

/-- A buffer that starts with a NUL is not accepted. -/
theorem not_accepts_zero {buf : List UInt8} (h : buf.head? = some 0) (behind : List UInt8) :
    ¬ accepts (buf ++ behind) := by
  obtain ⟨rest, rfl⟩ := List.head?_eq_some_iff.mp h
  have hscan : scan checkFormat (0 :: (rest ++ behind)) = ⟨[], .input, 0 :: (rest ++ behind)⟩ := by
    rw [checkFormat, ipFormat_eq]
    rfl
  rw [accepts, List.cons_append, hscan]
  show ¬ (-1 : Int) = 5
  decide

/-- A byte behind the first leaves the first. -/
theorem head?_set {buf : List UInt8} {i : Nat} (hi : i ≠ 0) (b : UInt8) :
    (buf.set i b).head? = buf.head? := by
  cases buf with
  | nil => rfl
  | cons c buf =>
    obtain ⟨i, rfl⟩ := Nat.exists_eq_succ_of_ne_zero hi
    rfl

theorem TaskPc.not_scanning_of_writing {pc : TaskPc} (h : pc.writing = true) :
    ¬ pc.scanning = true := by
  cases pc with
  | page0 | page1 | page2 => exact Bool.noConfusion
  | _ => cases h

theorem unread_of_scanning {s : Serial} (h : s.pc.scanning = true) :
    s.unread = s.Usart_Rx_Buf := by
  unfold Serial.unread
  cases hpc : s.pc <;> first | rfl | (rw [hpc] at h; cases h)

theorem unread_of_writing {s : Serial} (h : s.pc.writing = true) :
    s.unread = (s.Usart_Rx_Buf.take DATA_Size.toNat).drop s.pc.offset := by
  unfold Serial.unread
  cases hpc : s.pc <;> first | rfl | (rw [hpc] at h; cases h)

/-! ## The invariant -/

/-- The buffer holds one received line, or starts with a NUL and will not be accepted. -/
def Usable (s : Serial × Lines) : Prop :=
  (∃ line ∈ s.2.received, line.length ≤ USART_RBUFF_SIZE ∧ s.1.Usart_Rx_Buf = holding line) ∨
    s.1.Usart_Rx_Buf.head? = some 0

/-- The page writes before a position, of one text. -/
def pagesBefore (text : List UInt8) (e : Eeprom) : TaskPc → Eeprom
  | .page1 => e.pageWrite 0 (text.take 8)
  | .page2 => (e.pageWrite 0 (text.take 8)).pageWrite 8 ((text.drop 8).take 8)
  | _ => e

/-- The page writes are writing a line that has been received and accepted: it is in the pages
behind them, and what is left of it in the buffer. -/
def Writing (s : Serial × Lines) : Prop :=
  ∃ line ∈ s.2.received, holding line ∈ s.2.accepted ∧
    (s.1.Usart_Rx_Buf.take DATA_Size.toNat).drop s.1.pc.offset =
      (firstTwenty line).drop s.1.pc.offset ∧
    ∃ e, s.1.bus.eeprom = pagesBefore (firstTwenty line) e s.1.pc

/-- What the task reads is one received line, from the IDLE to the last page write. -/
structure LinesInv (s : Serial × Lines) : Prop where
  dma : s.1.dma = s.2.line.length % USART_RBUFF_SIZE
  waiting : s.1.waits →
    (s.1.Usart_Rx_Buf = holding s.2.line ∧ s.2.line.length ≤ USART_RBUFF_SIZE) ∨ Usable s
  scanning : s.1.pc.scanning = true → ¬ s.1.waits → Usable s
  writing : s.1.pc.writing = true → Writing s
  stored : StoredLines s

theorem linesInv_start (bus : Bus) : LinesInv (.start bus, .nothing) where
  dma := rfl
  waiting _ := .inl ⟨rfl, Nat.zero_le _⟩
  scanning _ h := absurd ⟨rfl, rfl⟩ h
  writing h := Bool.noConfusion h
  stored _ h := by cases h

/-- More lines received and more buffers accepted keep what has been stored. -/
theorem StoredLines.mono {s s' : Serial × Lines} (h : StoredLines s)
    (hs : s'.2.stored = s.2.stored) (hr : ∀ l ∈ s.2.received, l ∈ s'.2.received)
    (ha : ∀ b ∈ s.2.accepted, b ∈ s'.2.accepted) : StoredLines s' := by
  intro cells hcells
  obtain ⟨line, hline, hfirst, hacc⟩ := h cells (hs ▸ hcells)
  exact ⟨line, hr line hline, hfirst, ha _ hacc⟩

theorem Usable.mono {s s' : Serial × Lines} (h : Usable s)
    (hb : s'.1.Usart_Rx_Buf = s.1.Usart_Rx_Buf)
    (hr : ∀ l ∈ s.2.received, l ∈ s'.2.received) : Usable s' := by
  rcases h with ⟨line, hline, hsize, hbuf⟩ | hnul
  · exact .inl ⟨line, hr line hline, hsize, hb.trans hbuf⟩
  · exact .inr (hb ▸ hnul)

/-- What the task has still to read is the same, and so is what it is doing with it. -/
theorem Writing.mono {s s' : Serial × Lines} (h : Writing s) (hpc : s'.1.pc = s.1.pc)
    (hb : (s'.1.Usart_Rx_Buf.take DATA_Size.toNat).drop s.1.pc.offset =
      (s.1.Usart_Rx_Buf.take DATA_Size.toNat).drop s.1.pc.offset)
    (he : s'.1.bus = s.1.bus) (hr : ∀ l ∈ s.2.received, l ∈ s'.2.received)
    (ha : ∀ b ∈ s.2.accepted, b ∈ s'.2.accepted) : Writing s' := by
  obtain ⟨line, hline, hacc, hbuf, e, hpages⟩ := h
  refine ⟨line, hr line hline, ha _ hacc, ?_, e, ?_⟩
  · rw [hpc, hb]
    exact hbuf
  · rw [hpc, he]
    exact hpages

variable {behind : List UInt8}

/-- A quiet byte is taken by its line, or changes nothing that is read. -/
theorem linesInv_byte {s : Serial} {h : Lines} {b : UInt8} (hI : LinesInv (s, h))
    (hG : Quiet (s, h) (.byte b)) : LinesInv (s.byte b, Lines.see behind s (.byte b) h) where
  dma := by
    have hdma : s.dma = h.line.length % USART_RBUFF_SIZE := hI.dma
    show (s.dma + 1) % USART_RBUFF_SIZE = (h.line ++ [b]).length % USART_RBUFF_SIZE
    rw [hdma, List.length_append, Nat.mod_add_mod]
    rfl
  waiting hwaits := by
    have hwaits : s.waits := hwaits
    rcases hG with ⟨-, ⟨hbuf, hroom⟩ | ⟨hne, hnul⟩⟩ | ⟨hnot, -⟩
    · -- the line and the buffer grow by the same byte
      have hdma : s.dma = h.line.length := hI.dma.trans (Nat.mod_eq_of_lt hroom)
      have hbuf : s.Usart_Rx_Buf = holding h.line := hbuf
      refine .inl ⟨?_, ?_⟩
      · show s.Usart_Rx_Buf.set s.dma b = holding (h.line ++ [b])
        rw [hdma, hbuf]
        exact holding_set hroom b
      · show (h.line ++ [b]).length ≤ USART_RBUFF_SIZE
        rw [List.length_append]
        exact hroom
    · exact .inr (.inr ((head?_set hne b).trans hnul))
    · exact absurd hwaits hnot
  scanning hscan hnot := by
    rcases hG with ⟨hwaits, -⟩ | ⟨-, hsame⟩
    · exact absurd hwaits hnot
    · have hscan : s.pc.scanning = true := hscan
      have hbuf : (s.byte b).Usart_Rx_Buf = s.Usart_Rx_Buf := by
        rw [← unread_of_scanning (s := s.byte b) hscan, ← unread_of_scanning hscan]
        exact hsame
      exact (hI.scanning hscan hnot).mono hbuf fun _ hl => hl
  writing hwrite := by
    have hwrite : s.pc.writing = true := hwrite
    rcases hG with ⟨⟨hpc, -⟩, -⟩ | ⟨-, hsame⟩
    · have hpc : s.pc = .ulTaskNotifyTake := hpc
      rw [hpc] at hwrite
      cases hwrite
    · have hbuf : ((s.byte b).Usart_Rx_Buf.take DATA_Size.toNat).drop s.pc.offset =
          (s.Usart_Rx_Buf.take DATA_Size.toNat).drop s.pc.offset := by
        rw [← unread_of_writing hwrite]
        exact (unread_of_writing (s := s.byte b) hwrite).symm.trans hsame
      exact (hI.writing hwrite).mono rfl hbuf rfl (fun _ hl => hl) fun _ hb => hb
  stored := hI.stored

/-- An IDLE completes the line: what the buffer holds has been received. -/
theorem linesInv_idle {s : Serial} {h : Lines} (hI : LinesInv (s, h)) :
    LinesInv ({ s with ulNotifiedValue := s.ulNotifiedValue + 1, dma := 0 },
      Lines.see behind s .idle h) := by
  have husable : s.pc.scanning = true → Usable
      ({ s with ulNotifiedValue := s.ulNotifiedValue + 1, dma := 0 },
        Lines.see behind s .idle h) := by
    intro hscan
    by_cases hwaits : s.waits
    · rcases hI.waiting hwaits with ⟨hbuf, hsize⟩ | hold
      · exact .inl ⟨h.line, List.mem_cons_self, hsize, hbuf⟩
      · exact hold.mono rfl fun _ hl => List.mem_cons_of_mem _ hl
    · exact (hI.scanning hscan hwaits).mono rfl fun _ hl => List.mem_cons_of_mem _ hl
  exact
    { dma := rfl
      waiting := fun hwaits => .inr (husable (congrArg TaskPc.scanning hwaits.1))
      scanning := fun hscan _ => husable hscan
      writing := fun hwrite => (hI.writing hwrite).mono rfl rfl rfl
        (fun _ hl => List.mem_cons_of_mem _ hl) fun _ hb => hb
      stored := hI.stored.mono rfl (fun _ hl => List.mem_cons_of_mem _ hl) fun _ hb => hb }

/-- The record of a step that is neither the check nor the last page write. -/
theorem Lines.see_task_of_ne {s : Serial} (h : Lines) (hcheck : s.pc ≠ .check)
    (hpage : s.pc ≠ .page2) : Lines.see behind s .task h = h := by
  rw [Lines.see, if_neg fun hand => hcheck hand.1, if_neg hpage]

/-- A step to a scan, or back to the take, keeps a usable buffer. -/
theorem linesInv_of_usable {s s' : Serial} {h h' : Lines} (hI : LinesInv (s, h))
    (hdma : s'.dma = s.dma) (hline : h'.line = h.line) (hstored : StoredLines (s', h'))
    (hscan : s'.pc.scanning = true) (husable : Usable (s', h')) : LinesInv (s', h') where
  dma := by
    show s'.dma = h'.line.length % USART_RBUFF_SIZE
    rw [hdma, hline]
    exact hI.dma
  waiting _ := .inr husable
  scanning _ _ := husable
  writing hwrite := by
    exact absurd hscan (TaskPc.not_scanning_of_writing hwrite)
  stored := hstored

/-- A step to a page write. -/
theorem linesInv_of_writing {s s' : Serial} {h h' : Lines} (hI : LinesInv (s, h))
    (hdma : s'.dma = s.dma) (hline : h'.line = h.line) (hstored : StoredLines (s', h'))
    (hwrite : s'.pc.writing = true) (hwriting : Writing (s', h')) : LinesInv (s', h') where
  dma := by
    show s'.dma = h'.line.length % USART_RBUFF_SIZE
    rw [hdma, hline]
    exact hI.dma
  waiting hwaits := by
    have hpc : s'.pc = .ulTaskNotifyTake := hwaits.1
    rw [hpc] at hwrite
    cases hwrite
  scanning hscan := by
    exact absurd hscan (TaskPc.not_scanning_of_writing hwrite)
  writing _ := hwriting
  stored := hstored

/-- A step to the `memset`. -/
theorem linesInv_of_memset {s s' : Serial} {h h' : Lines} (hI : LinesInv (s, h))
    (hdma : s'.dma = s.dma) (hline : h'.line = h.line) (hstored : StoredLines (s', h'))
    (hpc : s'.pc = .memset) : LinesInv (s', h') where
  dma := by
    show s'.dma = h'.line.length % USART_RBUFF_SIZE
    rw [hdma, hline]
    exact hI.dma
  waiting hwaits := TaskPc.noConfusion (hwaits.1.symm.trans hpc)
  scanning hscan := by
    have hscan : s'.pc.scanning = true := hscan
    rw [hpc] at hscan
    cases hscan
  writing hwrite := by
    have hwrite : s'.pc.writing = true := hwrite
    rw [hpc] at hwrite
    cases hwrite
  stored := hstored

/-- The take: work begins, unless the count is lost on its way through `uint16_t`. -/
theorem linesInv_take {s s' : Serial} {h : Lines} (hI : LinesInv (s, h))
    (hpc : s.pc = .ulTaskNotifyTake) (hstep : s.task behind = some s') :
    LinesInv (s', Lines.see behind s .task h) := by
  rw [Lines.see_task_of_ne h (hpc ▸ TaskPc.noConfusion) (hpc ▸ TaskPc.noConfusion)]
  simp only [Serial.task, hpc] at hstep
  split_ifs at hstep with hzero hcount
  all_goals
    have hold : Usable (s, h) := hI.scanning (congrArg TaskPc.scanning hpc) fun hw => hzero hw.2
    cases hstep
  · exact linesInv_of_usable hI rfl rfl hI.stored rfl hold
  · exact linesInv_of_usable hI rfl rfl hI.stored rfl hold

/-- The first scan changes nothing. -/
theorem linesInv_unusedScan {s s' : Serial} {h : Lines} (hI : LinesInv (s, h))
    (hpc : s.pc = .unusedScan) (hstep : s.task behind = some s') :
    LinesInv (s', Lines.see behind s .task h) := by
  have hold : Usable (s, h) := hI.scanning (congrArg TaskPc.scanning hpc) fun hw =>
    TaskPc.noConfusion (hw.1.symm.trans hpc)
  rw [Lines.see_task_of_ne h (hpc ▸ TaskPc.noConfusion) (hpc ▸ TaskPc.noConfusion)]
  simp only [Serial.task, hpc] at hstep
  split_ifs at hstep
  cases hstep
  exact linesInv_of_usable hI rfl rfl hI.stored rfl hold

/-- The second scan: what it accepts is a received line, and goes to the page writes. -/
theorem linesInv_check {s s' : Serial} {h : Lines} (hI : LinesInv (s, h))
    (hpc : s.pc = .check) (hstep : s.task behind = some s') :
    LinesInv (s', Lines.see behind s .task h) := by
  have hold : Usable (s, h) := hI.scanning (congrArg TaskPc.scanning hpc) fun hw =>
    TaskPc.noConfusion (hw.1.symm.trans hpc)
  simp only [Serial.task, hpc] at hstep
  split_ifs at hstep with hover hacc
  all_goals cases hstep
  · rw [Lines.see, if_pos ⟨hpc, hacc⟩]
    refine linesInv_of_writing hI rfl rfl ?_ rfl ?_
    · exact hI.stored.mono rfl (fun _ hl => hl) fun _ hb => List.mem_cons_of_mem _ hb
    · rcases hold with ⟨line, hline, hsize, hbuf⟩ | hnul
      · have hbuf : s.Usart_Rx_Buf = holding line := hbuf
        refine ⟨line, hline, hbuf ▸ List.mem_cons_self, ?_, s.bus.eeprom, rfl⟩
        show (s.Usart_Rx_Buf.take DATA_Size.toNat).drop 0 = (firstTwenty line).drop 0
        rw [hbuf, take_holding hsize]
      · exact absurd hacc (not_accepts_zero hnul behind)
  · rw [Lines.see, if_neg fun hand => hacc hand.2, if_neg (hpc ▸ TaskPc.noConfusion)]
    exact linesInv_of_memset hI rfl rfl hI.stored rfl

/-- What a page write takes from the buffer is what is left of the line. -/
theorem take_unread {buf text : List UInt8} {offset n : Nat} (hn : offset + n ≤ DATA_Size.toNat)
    (h : (buf.take DATA_Size.toNat).drop offset = text.drop offset) :
    (buf.drop offset).take n = (text.drop offset).take n := by
  rw [← h, List.drop_take, List.take_take, Nat.min_eq_left (by omega)]

/-- The first two page writes: a page of the line goes from the buffer to the EEPROM. -/
theorem linesInv_page {s s' : Serial} {h : Lines} (hI : LinesInv (s, h)) (hG : Quiet (s, h) .task)
    (hpc : s.pc = .page0 ∨ s.pc = .page1) (hstep : s.task behind = some s') :
    LinesInv (s', Lines.see behind s .task h) := by
  rcases hpc with hpc | hpc
  all_goals
    have hwrite : s.pc.writing = true := congrArg TaskPc.writing hpc
    have hok : s.bus.answer.1.status = .HAL_OK := hG hwrite
    obtain ⟨line, hline, hacc, hbuf, e, hpages⟩ := hI.writing hwrite
    have hbuf : (s.Usart_Rx_Buf.take DATA_Size.toNat).drop s.pc.offset =
      (firstTwenty line).drop s.pc.offset := hbuf
    have hpages : s.bus.eeprom = pagesBefore (firstTwenty line) e s.pc := hpages
    rw [hpc] at hbuf hpages
    rw [Lines.see_task_of_ne h (hpc ▸ TaskPc.noConfusion) (hpc ▸ TaskPc.noConfusion)]
    simp only [Serial.task, hpc] at hstep
    cases hstep
    refine linesInv_of_writing hI rfl rfl hI.stored rfl ⟨line, hline, hacc, ?_, e, ?_⟩
  · show (s.Usart_Rx_Buf.take DATA_Size.toNat).drop 8 = (firstTwenty line).drop 8
    exact congrArg (List.drop 8) hbuf
  · rw [pageWrite_eeprom 0 8 .page1 hok, hpages]
    exact congrArg (Eeprom.pageWrite e 0) (take_unread (by decide) hbuf)
  · show (s.Usart_Rx_Buf.take DATA_Size.toNat).drop 16 = (firstTwenty line).drop 16
    have hrest := congrArg (List.drop 8) hbuf
    rw [List.drop_drop, List.drop_drop] at hrest
    exact hrest
  · rw [pageWrite_eeprom 8 8 .page2 hok, hpages]
    exact congrArg (Eeprom.pageWrite _ 8) (take_unread (by decide) hbuf)

/-- The last page write leaves the first twenty bytes of the line that was accepted. -/
theorem linesInv_page2 {s s' : Serial} {h : Lines} (hI : LinesInv (s, h))
    (hG : Quiet (s, h) .task) (hpc : s.pc = .page2) (hstep : s.task behind = some s') :
    LinesInv (s', Lines.see behind s .task h) := by
  have hwrite : s.pc.writing = true := congrArg TaskPc.writing hpc
  have hok : s.bus.answer.1.status = .HAL_OK := hG hwrite
  obtain ⟨line, hline, hacc, hbuf, e, hpages⟩ := hI.writing hwrite
  have hbuf : (s.Usart_Rx_Buf.take DATA_Size.toNat).drop s.pc.offset =
    (firstTwenty line).drop s.pc.offset := hbuf
  have hpages : s.bus.eeprom = pagesBefore (firstTwenty line) e s.pc := hpages
  rw [hpc] at hbuf hpages
  simp only [Serial.task, hpc] at hstep
  cases hstep
  rw [Lines.see, if_neg fun hand => TaskPc.noConfusion (hpc.symm.trans hand.1), if_pos hpc]
  refine linesInv_of_memset hI rfl rfl (fun cells hcells => ?_) rfl
  rcases List.mem_cons.mp hcells with rfl | hold
  · refine ⟨line, hline, ?_, hacc⟩
    have hthree : (s.pageWrite 16 4 .memset).bus.eeprom =
        threePages e (firstTwenty line) (firstTwenty line) (firstTwenty line) := by
      rw [pageWrite_eeprom 16 4 .memset hok, hpages]
      exact congrArg (Eeprom.pageWrite _ 16) (take_unread (by decide) hbuf)
    rw [hthree]
    show (threePages e (firstTwenty line) (firstTwenty line) (firstTwenty line)).readCells 0 20 = _
    rw [readCells_threePages e (by simp) (by simp) (by simp), take_twenty,
      List.take_of_length_le (by simp)]
  · exact hI.stored cells hold

/-- The `memset` leaves a buffer that starts with a NUL. -/
theorem linesInv_memset {s s' : Serial} {h : Lines} (hI : LinesInv (s, h))
    (hpc : s.pc = .memset) (hstep : s.task behind = some s') :
    LinesInv (s', Lines.see behind s .task h) := by
  rw [Lines.see_task_of_ne h (hpc ▸ TaskPc.noConfusion) (hpc ▸ TaskPc.noConfusion)]
  simp only [Serial.task, hpc] at hstep
  cases hstep
  exact linesInv_of_usable hI rfl rfl hI.stored rfl (.inr rfl)

/-- Every quiet step keeps the invariant. -/
theorem linesInv_keep (s : Serial) (h : Lines) (a : SerialEvent) (s' : Serial)
    (hI : LinesInv (s, h)) (hG : Quiet (s, h) a) (hstep : s.step behind a = some s') :
    LinesInv (s', Lines.see behind s a h) := by
  cases a with
  | byte b =>
    cases hstep
    exact linesInv_byte hI hG
  | idle =>
    cases hstep
    exact linesInv_idle hI
  | task =>
    cases hpc : s.pc with
    | ulTaskNotifyTake => exact linesInv_take hI hpc hstep
    | unusedScan => exact linesInv_unusedScan hI hpc hstep
    | check => exact linesInv_check hI hpc hstep
    | page0 => exact linesInv_page hI hG (.inl hpc) hstep
    | page1 => exact linesInv_page hI hG (.inr hpc) hstep
    | page2 => exact linesInv_page2 hI hG hpc hstep
    | memset => exact linesInv_memset hI hpc hstep

/-- **What is stored is one received line**, on every run on which a byte that comes while the task
waits is taken by its line, any other changes nothing the task has still to read, and each page
write succeeds. -/
theorem stored_lines_of_quiet (bus : Bus) (es : List SerialEvent)
    (hG : (recorded behind).Guarded Quiet (.start bus, .nothing) es) :
    (recorded behind).Always StoredLines (.start bus, .nothing) es :=
  (Machine.always_of_guarded (Machine.observe_rule linesInv_keep) (linesInv_start bus) hG).mono
    fun _ hI => hI.stored

/-- A configuration that the task stores, and a byte of the next line before the `memset`. -/
theorem stored_lines_of_quiet_one_line :
    (recorded []).Always StoredLines (.start (faithful fun _ => 0xff), .nothing)
      ((ascii "1.2.3.4:5").map .byte ++
        (.idle :: (List.replicate 6 .task ++ [.byte 0x39, .task]))) :=
  stored_lines_of_quiet (faithful fun _ => 0xff) _ (by decide +kernel)

/-- A byte of the next line comes between the check and the first page write: the check has accepted
`1.2.3.4:5`, and `9.2.3.4:5` is stored. -/
theorem unchecked_byte_stored :
    ∃ s, (recorded []).exec (.start (faithful fun _ => 0xff), .nothing)
        ((ascii "1.2.3.4:5").map .byte ++
          [.idle, .task, .task, .task, .byte 0x39, .task, .task, .task]) = some s ∧
      ¬ StoredLines s := by
  have hrun : ((recorded []).exec (.start (faithful fun _ => 0xff), .nothing)
      ((ascii "1.2.3.4:5").map .byte ++
        [.idle, .task, .task, .task, .byte 0x39, .task, .task, .task])).map
      (fun s => (s.2.stored, s.2.received)) =
      some ([firstTwenty (ascii "9.2.3.4:5")], [ascii "1.2.3.4:5"]) := by
    decide +kernel
  obtain ⟨s, hexec, hs⟩ := Option.map_eq_some_iff.mp hrun
  obtain ⟨hstored, hreceived⟩ := Prod.mk.inj hs
  refine ⟨s, hexec, ?_⟩
  intro h
  obtain ⟨line, hline, hcells, _⟩ := h _ (hstored ▸ List.mem_cons_self)
  rw [hreceived, List.mem_singleton] at hline
  rw [hline] at hcells
  revert hcells
  decide

end EthIo.Config
