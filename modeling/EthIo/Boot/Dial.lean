import EthIo.Boot.Startup
import EthIo.Client.Task
import EthIo.Config.Reboot
import Mathlib.Tactic.IntervalCases

/-!
# From the EEPROM to the address that is dialled

The whole path of a configuration: `BSP_Init` reads it into the five variables and drops what
`I2C_Read_EE_IP` returned, the start-up goes on, and `client` hands the variables to `IP4_ADDR` and
`netconn_connect` each time it connects. `Firmware` is the start-up, the board and the task
together, with every dial recorded beside what the read had returned.

Nothing writes the variables after the read, so every run dials what the one read has left
(`dialled_of_read`). Whether that is a configuration is decided by the text in the buffer, and by
nothing on the way: `only_complete_used_iff` and `dials_configured_iff` are the two claims on it.
-/

namespace EthIo.Boot

open EthIo.Base EthIo.Config

/-! ## `IP4_ADDR` -/

/-- `LWIP_MAKEU32`. -/
def LWIP_MAKEU32 (a b c d : UInt16) : UInt32 :=
  (a &&& 0xff).toUInt32 <<< 24 ||| (b &&& 0xff).toUInt32 <<< 16 ||| (c &&& 0xff).toUInt32 <<< 8 |||
    (d &&& 0xff).toUInt32

/-- `PP_HTONL` on a little-endian core. -/
def PP_HTONL (x : UInt32) : UInt32 :=
  (x &&& 0x000000ff) <<< 24 ||| (x &&& 0x0000ff00) <<< 8 ||| (x &&& 0x00ff0000) >>> 8 |||
    (x &&& 0xff000000) >>> 24

/-- `IP4_ADDR`: the address word, in network order. -/
def IP4_ADDR (a b c d : UInt16) : UInt32 := PP_HTONL (LWIP_MAKEU32 a b c d)

/-- `ip4_addr_get_byte`. -/
def octet (addr k : UInt32) : UInt8 := (addr >>> (8 * k)).toUInt8

/-- The octets of an address in the order they are written. -/
def octets (addr : UInt32) : List UInt8 := [octet addr 0, octet addr 1, octet addr 2, octet addr 3]

private theorem octet_zero (a b c d : UInt16) : octet (IP4_ADDR a b c d) 0 = a.toUInt8 := by
  apply UInt8.toBitVec_inj.mp
  ext i hi
  simp only [octet, IP4_ADDR, PP_HTONL, LWIP_MAKEU32]
  interval_cases i <;> simp

private theorem octet_one (a b c d : UInt16) : octet (IP4_ADDR a b c d) 1 = b.toUInt8 := by
  apply UInt8.toBitVec_inj.mp
  ext i hi
  simp only [octet, IP4_ADDR, PP_HTONL, LWIP_MAKEU32]
  interval_cases i <;> simp

private theorem octet_two (a b c d : UInt16) : octet (IP4_ADDR a b c d) 2 = c.toUInt8 := by
  apply UInt8.toBitVec_inj.mp
  ext i hi
  simp only [octet, IP4_ADDR, PP_HTONL, LWIP_MAKEU32]
  interval_cases i <;> simp

private theorem octet_three (a b c d : UInt16) : octet (IP4_ADDR a b c d) 3 = d.toUInt8 := by
  apply UInt8.toBitVec_inj.mp
  ext i hi
  simp only [octet, IP4_ADDR, PP_HTONL, LWIP_MAKEU32]
  interval_cases i <;> simp

/-- The octets of `IP4_ADDR` are its arguments, in order, each without its upper byte. -/
theorem octets_IP4_ADDR (a b c d : UInt16) :
    octets (IP4_ADDR a b c d) = [a.toUInt8, b.toUInt8, c.toUInt8, d.toUInt8] := by
  rw [octets, octet_zero, octet_one, octet_two, octet_three]

/-! ## The firmware -/

/-- What `netconn_connect` is called with. -/
structure Dial where
  addr : UInt32
  port : UInt16
  deriving DecidableEq, Repr

/-- A 16-bit variable. -/
def var (m : Mem) (a : Nat) : UInt16 := UInt16.ofNat (m.loadHalf a)

/-- The address and port `client` takes from the five variables. -/
def dialOf (place : Placement) (m : Mem) : Dial where
  addr := IP4_ADDR (var m place.ip_addr0) (var m place.ip_addr1) (var m place.ip_addr2)
    (var m place.ip_addr3)
  port := var m place.ip_port

/-- The start-up, the board, the task `client`, and every dial so far with what
`I2C_Read_EE_IP` had returned by then. -/
structure Firmware where
  boot : Startup
  board : Board
  readRet : Option UInt8
  client : Client.State
  dialled : List (Dial × Option UInt8)

/-- The firmware out of reset. -/
def Firmware.reset (b : Board) (input1 input2 : Bool) : Firmware :=
  ⟨.reset, b, none, Client.start input1 input2, []⟩

/-- A step of the start-up, an interrupt or a give; or a step of `client`. -/
inductive Step
  | boot (e : Event)
  | client (a : Client.Label)
  deriving DecidableEq, Repr

/-- What a step of the start-up does to the board: the one read of the configuration. -/
def Firmware.load (place : Placement) (s : Firmware) (e : Event) : Option Firmware :=
  match e with
  | .call _ =>
    if s.boot.pos = .I2C_Read_EE_IP then
      (I2C_Read_EE_IP place s.board).map fun r => { s with board := r.2, readRet := some r.1 }
    else some s
  | _ =>
    -- a give reaches the task if its handle is set
    if s.boot.target e = some (some .client) then
      (Client.step s.client .give).map fun c => { s with client := c }
    else some s

/-- Whether a step of `client` is a call of its own. -/
def ownCall : Client.Label → Bool
  | .give => false
  | _ => true

/-- The dials after a step of `client`. -/
def Firmware.record (place : Placement) (s : Firmware) : Client.Label → List (Dial × Option UInt8)
  | .netconn_connect _ => s.dialled ++ [(dialOf place s.board.mem, s.readRet)]
  | _ => s.dialled

/-- The firmware, one step at a time. `client` runs once it exists, outside critical sections. -/
def Firmware.step (place : Placement) (s : Firmware) : Step → Option Firmware
  | .boot e =>
    (s.boot.step e).bind fun boot => (s.load place e).map fun s' => { s' with boot := boot }
  | .client a =>
    if .client ∈ s.boot.tasks ∧ s.boot.masked = false ∧ ownCall a = true then
      (Client.step s.client a).map fun c =>
        { s with client := c, dialled := s.record place a }
    else none

/-- The firmware as a machine. -/
def firmware (place : Placement) : Machine Firmware Step := ⟨Firmware.step place⟩

/-! ## Every run dials what the read has left -/

/-- The start-up has not read the configuration yet. -/
def Pos.beforeRead : Pos → Bool
  | .INPUT_EXTI_Init | .INPUT2_INT_EXTI | .USART_Init | .I2C_Read_EE_IP => true
  | _ => false

/-- Before the read the board is as at reset and nothing has been dialled; after it the board is
what the read has left, and so is every dial. -/
structure DialInv (place : Placement) (b : Board) (ret : UInt8) (b' : Board) (s : Firmware) :
    Prop where
  handles : HandlesInv s.boot
  before : s.boot.pos.beforeRead = true → s.board = b ∧ s.dialled = []
  after : s.boot.pos.beforeRead = false → s.board = b' ∧ s.readRet = some ret
  dials : ∀ d ∈ s.dialled, d = (dialOf place b'.mem, some ret)

variable {place : Placement} {b b' : Board} {ret : UInt8}

theorem dialInv_reset (input1 input2 : Bool) :
    DialInv place b ret b' (.reset b input1 input2) where
  handles := handlesInv_reset
  before _ := ⟨rfl, rfl⟩
  after h := Bool.noConfusion h
  dials _ h := by cases h

/-- Only the read itself moves the start-up past it. -/
theorem beforeRead_call {s s' : Startup} {ok : Bool} (hpos : s.pos ≠ .I2C_Read_EE_IP)
    (hcall : s.call ok = some s') : s'.pos.beforeRead = s.pos.beforeRead := by
  cases h : s.pos <;> simp only [Startup.call, h] at hcall
  case I2C_Read_EE_IP => exact absurd h hpos
  case running => cases hcall
  case stopped => cases hcall
  all_goals
    try split_ifs at hcall
    all_goals
      cases hcall
      rfl

/-- `client` does not run before the read. -/
theorem DialInv.read_done {s : Firmware} (hI : DialInv place b ret b' s)
    (hclient : .client ∈ s.boot.tasks) : s.boot.pos.beforeRead = false := by
  rcases hI.handles.created hclient with h | h
  · rw [h]
    rfl
  · cases hpos : s.boot.pos <;> rw [hpos] at h <;> first | rfl | cases h

/-- A step of the start-up other than the read leaves the board and the dials alone. -/
theorem dialInv_boot {s s' : Firmware} {boot : Startup} {e : Event} (hI : DialInv place b ret b' s)
    (hstep : s.boot.step e = some boot) (hbefore : boot.pos.beforeRead = s.boot.pos.beforeRead)
    (hboard : s'.board = s.board) (hret : s'.readRet = s.readRet)
    (hdialled : s'.dialled = s.dialled) : DialInv place b ret b' { s' with boot := boot } where
  handles := handlesInv_step hI.handles hstep
  before h := by
    obtain ⟨hb, hd⟩ := hI.before (hbefore ▸ h)
    exact ⟨hboard.trans hb, hdialled.trans hd⟩
  after h := by
    obtain ⟨hb, hr⟩ := hI.after (hbefore ▸ h)
    exact ⟨hboard.trans hb, hret.trans hr⟩
  dials d hd := hI.dials d (hdialled ▸ hd)

theorem dialInv_step (hread : I2C_Read_EE_IP place b = some (ret, b')) (s : Firmware) (a : Step)
    (s' : Firmware) (hI : DialInv place b ret b' s) (hstep : s.step place a = some s') :
    DialInv place b ret b' s' := by
  cases a with
  | client a =>
    simp only [Firmware.step] at hstep
    split_ifs at hstep with hrun
    obtain ⟨c, -, rfl⟩ := Option.map_eq_some_iff.mp hstep
    have hdone := hI.read_done hrun.1
    obtain ⟨hboard, hret⟩ := hI.after hdone
    refine ⟨hI.handles, fun h => Bool.noConfusion (hdone.symm.trans h), hI.after, ?_⟩
    intro d hd
    cases a with
    | netconn_connect err =>
      rcases List.mem_append.mp hd with hd | hd
      · exact hI.dials d hd
      · rw [List.mem_singleton.mp hd, hboard, hret]
    | _ => exact hI.dials d hd
  | boot e =>
    obtain ⟨boot, hboot, hload⟩ := Option.bind_eq_some_iff.mp hstep
    obtain ⟨t, ht, rfl⟩ := Option.map_eq_some_iff.mp hload
    by_cases he : ∃ ok, e = .call ok
    · obtain ⟨ok, rfl⟩ := he
      simp only [Firmware.load] at ht
      split_ifs at ht with hpos
      · -- the read: the board of reset goes in, and what it leaves comes out
        obtain ⟨hboard, hdialled⟩ := hI.before (by rw [hpos]; rfl)
        rw [hboard, hread] at ht
        cases ht
        have hnext : boot.pos.beforeRead = false := by
          simp only [Startup.step, Startup.call, hpos, Option.some.injEq] at hboot
          subst hboot
          rfl
        refine ⟨handlesInv_step hI.handles hboot, ?_, fun _ => ⟨rfl, rfl⟩, ?_⟩
        · intro h
          exact Bool.noConfusion (hnext.symm.trans h)
        · intro d hd
          exact hI.dials d hd
      · cases ht
        exact dialInv_boot hI hboot (beforeRead_call hpos hboot) rfl rfl rfl
    · have hgive : ∀ ok, e ≠ .call ok := fun ok h => he ⟨ok, h⟩
      have hsame : t.board = s.board ∧ t.readRet = s.readRet ∧ t.dialled = s.dialled := by
        cases e with
        | call ok => exact absurd rfl (hgive ok)
        | _ =>
          simp only [Firmware.load] at ht
          split_ifs at ht
          · obtain ⟨c, -, rfl⟩ := Option.map_eq_some_iff.mp ht
            exact ⟨rfl, rfl, rfl⟩
          · cases ht
            exact ⟨rfl, rfl, rfl⟩
      obtain rfl := step_give hgive hboot
      exact dialInv_boot hI hboot rfl hsame.1 hsame.2.1 hsame.2.2

/-- **Every dial of every run is taken from what the one read has left**, whatever it returned. -/
theorem dialled_of_read (hread : I2C_Read_EE_IP place b = some (ret, b')) {input1 input2 : Bool}
    {as : List Step} {s : Firmware}
    (hrun : (firmware place).exec (.reset b input1 input2) as = some s) :
    ∀ d ∈ s.dialled, d = (dialOf place b'.mem, some ret) :=
  (Machine.invariant (dialInv_step hread) (dialInv_reset input1 input2) ⟨as, hrun⟩).dials

/-- The calls from reset to the first connect of `client`, all successful. -/
def bootAndConnect : List Step :=
  List.replicate 8 (.boot (.call true)) ++
    [.client (.netconn_new true), .client (.netconn_connect Client.ERR_OK)]

/-- Whatever the read returned, there is a run that dials. -/
theorem exec_bootAndConnect (hread : I2C_Read_EE_IP place b = some (ret, b'))
    (input1 input2 : Bool) :
    ∃ s, (firmware place).exec (.reset b input1 input2) bootAndConnect = some s ∧
      s.dialled = [(dialOf place b'.mem, some ret)] := by
  refine ⟨⟨⟨.sys_thread_new_return, false, true, true, true, [.client], none, none, false, false⟩,
    b', some ret, ⟨.ulTaskNotifyTake, some 0, 1, 0, input1, input2⟩,
    [(dialOf place b'.mem, some ret)]⟩, ?_, rfl⟩
  simp [bootAndConnect, Machine.exec_cons, firmware, Firmware.step, Firmware.reset, Firmware.load,
    Startup.reset, Startup.step, Startup.call, List.replicate, hread, Client.step, Client.start,
    Firmware.record, ownCall, Client.ERR_OK]

/-! ## Only a complete configuration is used -/

/-- The five variables, as the program reads them. -/
def ipVars (place : Placement) (m : Mem) : List Nat := place.vars.map m.loadHalf

/-- What a 16-bit variable keeps of an `int`. -/
def low16 (z : Int) : Nat := (z % 65536).toNat

/-- **One call**: it returns 1 with all five variables set from its one parse, or 0 with all five as
they were. -/
def AllOrNothing (place : Placement) (b : Board) : Prop :=
  ∃ ret b', I2C_Read_EE_IP place b = some (ret, b') ∧
    ((ret = 1 ∧ (converted (scanI2cBuf place (loaded place b)).1).length = 5 ∧
        ipVars place b'.mem = (converted (scanI2cBuf place (loaded place b)).1).map low16) ∨
      (ret = 0 ∧ ipVars place b'.mem = ipVars place b.mem))

/-- **Every run**: `netconn_connect` is called only with what a read that returned 1 has set. -/
def OnlyLoaded (place : Placement) (b : Board) : Prop :=
  ∀ input1 input2 as s, (firmware place).exec (.reset b input1 input2) as = some s →
    ∀ d ∈ s.dialled, d.2 = some 1

theorem loadHalf_eq_low16 {m : Mem} {a : Nat} {z : Int} (h : (m.loadHalf a : Int) = z % 65536) :
    m.loadHalf a = low16 z := by
  rw [low16, ← h, Int.toNat_natCast]

/-- After a complete parse each variable holds the low half of its own integer. -/
theorem ipVars_storeInts (place : Linked) (m : Mem) (t : ConfigText) :
    ipVars place.toPlacement (m.storeInts (place.vars.zip t.values)) = t.values.map low16 := by
  have hfst : (place.vars.zip t.values).map Prod.fst = place.vars := rfl
  have hsnd : (place.vars.zip t.values).map Prod.snd = t.values := rfl
  have asc : (place.vars.zip t.values).Pairwise fun s u => s.1 + 2 ≤ u.1 := by
    have := place.ascending
    rwa [← hfst, List.pairwise_map] at this
  calc place.vars.map (m.storeInts (place.vars.zip t.values)).loadHalf
      = (place.vars.zip t.values).map
          fun s => (m.storeInts (place.vars.zip t.values)).loadHalf s.1 := rfl
    _ = (place.vars.zip t.values).map fun s => low16 s.2 :=
        List.map_congr_left fun s hs => loadHalf_eq_low16 (Mem.loadHalf_storeInts asc s hs)
    _ = t.values.map low16 := rfl

/-- A complete text is loaded, all of it. -/
theorem allOrNothing_of_complete (place : Linked) (b : Board)
    (h : Complete (textOf place.toPlacement (loaded place.toPlacement b))) :
    AllOrNothing place.toPlacement b := by
  obtain ⟨t, r, hs, hne, hnd⟩ := h
  have hscan : converted (scanI2cBuf place.toPlacement (loaded place.toPlacement b)).1 =
      t.values := by
    rw [scanI2cBuf_eq, hs]
    exact converted_zip t (congrArg ScanResult.assigned (scan_ipFormat_text hne hnd))
  refine ⟨1, _, I2C_Read_EE_IP_complete place b hs hne hnd, .inl ⟨rfl, ?_, ?_⟩⟩
  · rw [hscan]
    rfl
  · rw [hscan]
    exact ipVars_storeInts place _ t

/-- A run that dials shows what the read has returned, so no other text will do. -/
theorem complete_of_used (place : Linked) (b : Board) (hcall : AllOrNothing place.toPlacement b)
    (hruns : OnlyLoaded place.toPlacement b) :
    Complete (textOf place.toPlacement (loaded place.toPlacement b)) := by
  obtain ⟨ret, b', hread, -⟩ := hcall
  obtain ⟨s, hrun, hdialled⟩ := exec_bootAndConnect hread false false
  have hone : some ret = some 1 :=
    hruns false false _ s hrun (dialOf place.toPlacement b'.mem, some ret) (by simp [hdialled])
  cases hone
  exact (I2C_Read_EE_IP_eq_one_iff place b).mp ⟨b', hread⟩

/-- **When only a complete configuration is used**: exactly when the text in the buffer, after the
read, begins with one. -/
theorem only_complete_used_iff (place : Linked) (b : Board) :
    (AllOrNothing place.toPlacement b ∧ OnlyLoaded place.toPlacement b) ↔
      Complete (textOf place.toPlacement (loaded place.toPlacement b)) := by
  constructor
  · rintro ⟨hcall, hruns⟩
    exact complete_of_used place b hcall hruns
  · intro h
    refine ⟨allOrNothing_of_complete place b h, ?_⟩
    intro input1 input2 as s hrun d hd
    obtain ⟨b', hread⟩ := (I2C_Read_EE_IP_eq_one_iff place b).mpr h
    rw [dialled_of_read hread hrun d hd]

/-- A chip that has never been written: `0xff` in every cell. -/
theorem blank_text (m : Mem) :
    ∃ rest, textOf shipped.toPlacement
      (loaded shipped.toPlacement ⟨faithful fun _ => 0xff, m, []⟩) = 0xff :: rest := by
  have hbuf : (loaded shipped.toPlacement ⟨faithful fun _ => 0xff, m, []⟩).read
      shipped.I2c_Buf_Read DATA_Size.toNat = List.replicate 20 0xff :=
    loaded_read_faithful shipped.toPlacement (fun _ => 0xff) m []
  rw [textOf_eq, hbuf]
  exact ⟨_, rfl⟩

/-- A text that begins with `0xff` holds no configuration. -/
theorem not_complete_blank (rest : List UInt8) : ¬ Complete (0xff :: rest) := by
  rw [complete_iff_ret shipped.toPlacement]
  have : scan (readFormat shipped.toPlacement) (0xff :: rest) =
      ⟨[], .matching, 0xff :: rest⟩ := by
    rw [readFormat, ipFormat_eq]
    rfl
  rw [this]
  show ¬(0 : Int) = 5
  decide

/-- A blank chip: the read returns 0, and `client` dials the zeros the variables start as. -/
theorem blank_chip_dialled :
    ¬(AllOrNothing shipped.toPlacement ⟨faithful fun _ => 0xff, fun _ => 0, []⟩ ∧
      OnlyLoaded shipped.toPlacement ⟨faithful fun _ => 0xff, fun _ => 0, []⟩) := by
  rintro ⟨hcall, hruns⟩
  have hcomplete := complete_of_used shipped _ hcall hruns
  obtain ⟨rest, hrest⟩ := blank_text fun _ => 0
  rw [hrest] at hcomplete
  exact not_complete_blank rest hcomplete

/-! ## What is accepted and what is dialled -/

/-- Five integers that are the octets of an address and a port. -/
def AddressAndPort (vs : List Int) : Prop :=
  ∃ v0 v1 v2 v3 v4 : Int, vs = [v0, v1, v2, v3, v4] ∧
    (0 ≤ v0 ∧ v0 ≤ 255) ∧ (0 ≤ v1 ∧ v1 ≤ 255) ∧ (0 ≤ v2 ∧ v2 ≤ 255) ∧ (0 ≤ v3 ∧ v3 ≤ 255) ∧
    (1 ≤ v4 ∧ v4 ≤ 65535)

/-- The integers a dial is to: the four octets of its address and its port. -/
def Dial.integers (d : Dial) : List Int :=
  (octets d.addr).map (fun o => (o.toNat : Int)) ++ [(d.port.toNat : Int)]

/-- **Validation is sound for what is dialled.** The integers the check converted are an address and
a port; and after the write and a reset every dial of every run is to them. -/
def DialsConfigured (place : Placement) (Usart_Rx_Buf : List UInt8) (b : Board) (m : Mem) : Prop :=
  AddressAndPort (converted (scan checkFormat Usart_Rx_Buf)) ∧
    ∀ input1 input2 as s,
      (firmware place).exec
        (.reset (Config.reset (I2C_Write_EE_IP Usart_Rx_Buf b).2 m) input1 input2) as = some s →
      ∀ d ∈ s.dialled, d.1.integers = converted (scan checkFormat Usart_Rx_Buf)

/-- The numeral of an octet, as text: leading zeros dropped, not above 255 digit by digit, and no
minus sign before a digit other than zero; or one too large for an `int` that wraps to an octet. -/
def Octet (n : Numeral) : Bool := n.upTo (ascii "255") || n.wrapsInto 0 255

/-- The numeral of a port, likewise. -/
def Port (n : Numeral) : Bool := n.fromOneUpTo (ascii "65535") || n.wrapsInto 1 65535

/-- A configuration whose numerals are in the range of octets and ports. -/
def InRange (t : ConfigText) : Bool := Octet t.a && Octet t.b && Octet t.c && Octet t.d && Port t.p

theorem octet_iff (n : Numeral) : Octet n = true ↔ 0 ≤ n.value ∧ n.value ≤ 255 := by
  have htext : n.upTo (ascii "255") = true ↔ 0 ≤ n.integer ∧ n.integer ≤ 255 :=
    n.upTo_iff (List.all_eq_true.mp rfl) (by decide) (by decide)
  rw [Octet, Bool.or_eq_true, htext]
  exact (n.value_iff (by decide) (by decide)).symm

theorem port_iff (n : Numeral) : Port n = true ↔ 1 ≤ n.value ∧ n.value ≤ 65535 := by
  have htext : n.fromOneUpTo (ascii "65535") = true ↔ 1 ≤ n.integer ∧ n.integer ≤ 65535 :=
    n.fromOneUpTo_iff (List.all_eq_true.mp rfl) (by decide) (by decide)
  rw [Port, Bool.or_eq_true, htext]
  exact (n.value_iff (by decide) (by decide)).symm

/-- The range of the text is the range of the values. -/
theorem inRange_iff (t : ConfigText) : InRange t = true ↔ AddressAndPort t.values := by
  simp only [InRange, Bool.and_eq_true, octet_iff, port_iff]
  constructor
  · rintro ⟨⟨⟨⟨ha, hb⟩, hc⟩, hd⟩, hp⟩
    exact ⟨_, _, _, _, _, rfl, ha, hb, hc, hd, hp⟩
  · rintro ⟨_, _, _, _, _, hvs, ha, hb, hc, hd, hp⟩
    simp only [ConfigText.values, List.cons.injEq, and_true] at hvs
    obtain ⟨rfl, rfl, rfl, rfl, rfl⟩ := hvs
    exact ⟨⟨⟨⟨ha, hb⟩, hc⟩, hd⟩, hp⟩

/-- A configuration that makes the round trip is what the variables hold after it. -/
theorem ipVars_of_roundTrip {place : Linked} {buf : List UInt8} {b : Board} {m : Mem}
    (h : RoundTrip place.toPlacement buf b m) :
    ∃ b', I2C_Read_EE_IP place.toPlacement (Config.reset (I2C_Write_EE_IP buf b).2 m) =
        some (1, b') ∧
      ipVars place.toPlacement b'.mem = (converted (scan checkFormat buf)).map low16 := by
  obtain ⟨hone, hconverted, -⟩ := h
  obtain ⟨t, r, hs, hne, hnd⟩ := (I2C_Read_EE_IP_eq_one_iff place _).mp hone
  have hvalues : converted (scanI2cBuf place.toPlacement (loaded place.toPlacement
      (Config.reset (I2C_Write_EE_IP buf b).2 m))).1 = t.values := by
    rw [scanI2cBuf_eq, hs]
    exact converted_zip t (congrArg ScanResult.assigned (scan_ipFormat_text hne hnd))
  refine ⟨_, I2C_Read_EE_IP_complete place _ hs hne hnd, ?_⟩
  rw [← hconverted, hvalues]
  exact ipVars_storeInts place _ t

private theorem octet_toNat {m : Mem} {a : Nat} {z : Int} (hload : m.loadHalf a = low16 z)
    (hlo : 0 ≤ z) (hhi : z ≤ 255) : ((var m a).toUInt8.toNat : Int) = z := by
  rw [var, UInt16.toNat_toUInt8, UInt16.toNat_ofNat', hload, low16]
  omega

private theorem port_toNat {m : Mem} {a : Nat} {z : Int} (hload : m.loadHalf a = low16 z)
    (hlo : 1 ≤ z) (hhi : z ≤ 65535) : ((var m a).toNat : Int) = z := by
  rw [var, UInt16.toNat_ofNat', hload, low16]
  omega

/-- What is dialled from variables that hold an address and a port. -/
theorem dialOf_integers {place : Placement} {m : Mem} {vs : List Int}
    (hvars : ipVars place m = vs.map low16) (hrange : AddressAndPort vs) :
    (dialOf place m).integers = vs := by
  obtain ⟨v0, v1, v2, v3, v4, rfl, h0, h1, h2, h3, h4⟩ := hrange
  simp only [ipVars, Placement.vars, List.map_cons, List.map_nil, List.cons.injEq, and_true]
    at hvars
  obtain ⟨l0, l1, l2, l3, l4⟩ := hvars
  simp only [Dial.integers, dialOf, octets_IP4_ADDR, List.map_cons, List.map_nil,
    octet_toNat l0 h0.1 h0.2, octet_toNat l1 h1.1 h1.2, octet_toNat l2 h2.1 h2.2,
    octet_toNat l3 h3.1 h3.2, port_toNat l4 h4.1 h4.2, List.cons_append, List.nil_append]

section

variable (place : Linked) (e : Eeprom) (m ram : Mem) (printed : List Report)
  {line tail : List UInt8}

/-- The integers of an accepted line are in range exactly when its text is. -/
theorem inRange_of_dialsConfigured {t : ConfigText} (ht : BeginsWith t line)
    (h : DialsConfigured place.toPlacement (line ++ 0 :: tail) ⟨faithful e, m, printed⟩ ram) :
    InRange t = true := by
  rw [inRange_iff, ← converted_zip t (scan_line_text ht tail)]
  exact h.1

/-- **When validation is sound for what is dialled**: exactly when the numerals of the line are in
the range of octets and ports. -/
theorem dials_configured_iff (hnul : (0 : UInt8) ∉ line)
    (hsize : (line ++ 0 :: tail).length = USART_RBUFF_SIZE)
    (hfit : line.length < DATA_Size.toNat) (hacc : accepts (line ++ 0 :: tail)) :
    DialsConfigured place.toPlacement (line ++ 0 :: tail) ⟨faithful e, m, printed⟩ ram ↔
      ∃ t, BeginsWith t line ∧ InRange t = true := by
  constructor
  · intro h
    obtain ⟨t, ht⟩ := (accepts_line_iff hnul).mp hacc
    exact ⟨t, ht, inRange_of_dialsConfigured place e m ram printed ht h⟩
  · rintro ⟨t, ht, hin⟩
    have hvalues : converted (scan checkFormat (line ++ 0 :: tail)) = t.values :=
      converted_zip t (scan_line_text ht tail)
    have hrange : AddressAndPort (converted (scan checkFormat (line ++ 0 :: tail))) := by
      rw [hvalues]
      exact (inRange_iff t).mp hin
    have hlt : t.text.length < DATA_Size.toNat := (length_le_of_beginsWith ht).trans_lt hfit
    obtain ⟨b', hread, hvars⟩ := ipVars_of_roundTrip
      (roundTrip_of_length_lt place e m ram printed hsize ht hlt)
    refine ⟨hrange, ?_⟩
    intro input1 input2 as s hrun d hd
    rw [dialled_of_read hread hrun d hd]
    exact dialOf_integers hvars hrange

end

/-- The shortest configuration there is. -/
theorem dials_configured_shortest :
    DialsConfigured shipped.toPlacement (lineBuf (ascii "1.2.3.4:5"))
        ⟨faithful fun _ => 0xff, fun _ => 0, []⟩ (fun _ => 0) ↔
      ∃ t, BeginsWith t (ascii "1.2.3.4:5") ∧ InRange t = true :=
  dials_configured_iff shipped (fun _ => 0xff) (fun _ => 0) (fun _ => 0) [] (by decide)
    (lineBuf_length (by decide)) (by decide)
    ((accepts_line_iff (by decide)).mpr
      ⟨dotted "1" "2" "3" "4" "5" (by decide), [], by decide, rfl⟩)

/-- The check counts conversions and never looks at what they gave. -/
theorem out_of_range_accepted :
    (0 : UInt8) ∉ ascii "999.1.1.1:5" ∧
      (lineBuf (ascii "999.1.1.1:5")).length = USART_RBUFF_SIZE ∧
      (ascii "999.1.1.1:5").length < DATA_Size.toNat ∧
      accepts (lineBuf (ascii "999.1.1.1:5")) ∧
      ¬ DialsConfigured shipped.toPlacement (lineBuf (ascii "999.1.1.1:5"))
        ⟨faithful fun _ => 0xff, fun _ => 0, []⟩ (fun _ => 0) := by
  have hbegin : BeginsWith (dotted "999" "1" "1" "1" "5" (by decide)) (ascii "999.1.1.1:5") :=
    ⟨[], by decide, rfl⟩
  refine ⟨by decide, lineBuf_length (by decide), by decide,
    (accepts_line_iff (by decide)).mpr ⟨_, hbegin⟩, fun h => ?_⟩
  have hin := inRange_of_dialsConfigured shipped _ _ _ _ hbegin h
  revert hin
  decide

end EthIo.Boot
