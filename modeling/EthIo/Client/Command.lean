import EthIo.Base.CString
import EthIo.Base.Chunks
import EthIo.Base.Numeral

/-!
# Commands in a byte stream

`clientrecv` compares the first bytes of a pbuf with four command names and does what the one it
finds says. It keeps nothing of a pbuf once it has looked at it, so of the commands TCP delivers it
sees those that open a pbuf and lie whole in it, and no others.

What the stream asks for is told by the words alone, and does not depend on how TCP has cut it:
each `LEDk` toggles its bit and each `query` is one give. `segmentation_free_iff` says for which
cuttings the receiver does that: no `query` may be missed, and of each `LEDk` an even number.

The loop over the pbufs of one netbuf moves `ptr` and reads `p`, so it looks at the first pbuf again
each time; with one pbuf for each netbuf the two are the same.
-/

namespace EthIo.Client

open EthIo.Base

/-- The commands. -/
inductive Command
  | LED1
  | LED2
  | LED3
  | query
  deriving DecidableEq, Repr

/-- `LED1recv` … `queryrecv`, without the NUL. -/
def Command.name : Command → List UInt8
  | .LED1 => ascii "LED1"
  | .LED2 => ascii "LED2"
  | .LED3 => ascii "LED3"
  | .query => ascii "query"

/-- The names mark their own beginning: `L` and `q` occur at the head of a name only. -/
def names : Code Command UInt8 where
  word := Command.name
  word_ne := by intro c; cases c <;> decide
  head_only c d b hb := by
    have hall : (d.name.tail.all fun b => c.name.head? != some b) = true := by
      cases c <;> cases d <;> rfl
    exact bne_iff_ne.mp (List.all_eq_true.mp hall b hb)
  separate := by intro c d; cases c <;> cases d <;> decide

/-- `GPIO_PIN_6`, `GPIO_PIN_7` and `GPIO_PIN_8` of port F. -/
def LED1_PIN : UInt32 := 0x0040
def LED2_PIN : UInt32 := 0x0080
def LED3_PIN : UInt32 := 0x0100

/-- The local `msg` of `clientrecv`, `GPIOF->ODR`, and the gives made to `Ethsend_Task_Handle`. -/
structure Recv where
  msg : List UInt8
  odr : UInt32
  gives : Nat
  deriving DecidableEq, Repr

/-- A local that is all zero. -/
def zeroMsg : List UInt8 := List.replicate 100 0

/-- The comparisons of one round, and what the one that succeeds does. -/
def dispatch (msg : List UInt8) (s : Recv) : Recv :=
  if strncmp msg (ascii "LED1" ++ [0]) 4 = some 0 then { s with odr := s.odr ^^^ LED1_PIN }
  else if strncmp msg (ascii "LED2" ++ [0]) 4 = some 0 then { s with odr := s.odr ^^^ LED2_PIN }
  else if strncmp msg (ascii "LED3" ++ [0]) 4 = some 0 then { s with odr := s.odr ^^^ LED3_PIN }
  else if strncmp msg (ascii "query" ++ [0]) 5 = some 0 then { s with gives := s.gives + 1 }
  else s

/-- One round of the `do` loop: copy, compare, clear. -/
def interpret (payload : List UInt8) (s : Recv) : Option Recv :=
  (strncpy s.msg payload payload.length).bind fun msg =>
    (memset msg 0 100).map fun cleared => { dispatch msg s with msg := cleared }

/-- The payloads of a netbuf: of its first pbuf, and of the others in the chain. -/
structure Netbuf where
  p : List UInt8
  next : List (List UInt8)
  deriving DecidableEq, Repr

/-- `do … while (netbuf_next(recv_buf) >= 0)`; the list is what follows `ptr` in the chain. -/
def rounds (p : List UInt8) : List (List UInt8) → Recv → Option Recv
  | [], s => interpret p s
  | _ :: next, s => (interpret p s).bind (rounds p next)

/-- The body of the receive loop. -/
def receive (s : Recv) (buf : Netbuf) : Option Recv := rounds buf.p buf.next s

/-- The receive loop over the netbufs it is handed. -/
def clientrecv (s : Recv) (bufs : List Netbuf) : Option Recv := bufs.foldlM receive s

/-- Netbufs of one pbuf each. -/
def single (payloads : List (List UInt8)) : List Netbuf := payloads.map fun p => ⟨p, []⟩

/-! ## What a stream asks for -/

/-- What one command asks for. -/
def Command.ask (s : Recv) : Command → Recv
  | .LED1 => { s with odr := s.odr ^^^ LED1_PIN }
  | .LED2 => { s with odr := s.odr ^^^ LED2_PIN }
  | .LED3 => { s with odr := s.odr ^^^ LED3_PIN }
  | .query => { s with gives := s.gives + 1 }

/-- What a stream of commands asks for, command by command. -/
def ask (s : Recv) (ws : List Command) : Recv := ws.foldl Command.ask s

/-- A cutting of a stream: non-empty pbufs of at most 100 bytes that make it up. -/
structure Cutting (ws : List Command) where
  payloads : List (List UInt8)
  nonempty : ∀ p ∈ payloads, p ≠ []
  fits : ∀ p ∈ payloads, p.length ≤ 100
  whole : payloads.flatten = names.text ws

/-- **The effect of a stream does not depend on how it is cut.** -/
def SegmentationFree (s : Recv) {ws : List Command} (first second : Cutting ws) : Prop :=
  clientrecv s (single first.payloads) = some (ask s ws) ∧
    clientrecv s (single second.payloads) = some (ask s ws)

/-- A cutting that spares every `query`, and all but an even number of each `LEDk`: the others open
a pbuf and lie whole in it. -/
def Spares {ws : List Command} (cut : Cutting ws) : Prop :=
  names.missed .query ws cut.payloads = 0 ∧
    ∀ c, c ≠ .query → names.missed c ws cut.payloads % 2 = 0

/-! ## One round -/

/-- A pbuf begins with one command at most. -/
theorem command_unique {c d : Command} {p : List UInt8} (hc : c.name <+: p) (hd : d.name <+: p) :
    c = d := by
  rcases List.prefix_or_prefix_of_prefix hc hd with h | h
  · exact names.separate c d h
  · exact (names.separate d c h).symm

theorem zero_not_mem_name (c : Command) : (0 : UInt8) ∉ c.name := by
  cases c <;> decide

/-- The comparison with a name finds it exactly in the payloads that begin with it. -/
theorem strncmp_name_iff (c : Command) {p z : List UInt8} (hlen : (p ++ z).length = 100)
    (hz : ∀ b ∈ z, b = 0) :
    strncmp (p ++ z) (c.name ++ [0]) c.name.length = some 0 ↔ c.name <+: p := by
  have hshort : c.name.length ≤ (p ++ z).length := by
    rw [hlen]
    cases c <;> decide
  rw [strncmp_eq_zero_iff (zero_not_mem_name c) hshort,
    prefix_append_zeros_iff (zero_not_mem_name c) hz]

/-- What a pbuf does: what the command it begins with asks for, if it begins with one. -/
def act (s : Recv) (p : List UInt8) : Recv :=
  if Command.LED1.name <+: p then Command.LED1.ask s
  else if Command.LED2.name <+: p then Command.LED2.ask s
  else if Command.LED3.name <+: p then Command.LED3.ask s
  else if Command.query.name <+: p then Command.query.ask s
  else s

theorem act_of_begins {c : Command} {p : List UInt8} (s : Recv) (h : c.name <+: p) :
    act s p = c.ask s := by
  have other : ∀ d, d ≠ c → ¬ d.name <+: p := fun d hd hp => hd (command_unique hp h)
  cases c with
  | LED1 => rw [act, if_pos h]
  | LED2 => rw [act, if_neg (other .LED1 (by decide)), if_pos h]
  | LED3 =>
    rw [act, if_neg (other .LED1 (by decide)), if_neg (other .LED2 (by decide)), if_pos h]
  | query =>
    rw [act, if_neg (other .LED1 (by decide)), if_neg (other .LED2 (by decide)),
      if_neg (other .LED3 (by decide)), if_pos h]

theorem act_of_begins_none {p : List UInt8} (s : Recv) (h : ∀ c : Command, ¬ c.name <+: p) :
    act s p = s := by
  rw [act, if_neg (h .LED1), if_neg (h .LED2), if_neg (h .LED3), if_neg (h .query)]

theorem act_msg (s : Recv) (p : List UInt8) : (act s p).msg = s.msg := by
  unfold act
  split_ifs <;> rfl

/-- **One round**: a payload without a NUL that fits `msg` does what it begins with. -/
theorem interpret_eq {p : List UInt8} {s : Recv} (hmsg : s.msg = zeroMsg)
    (hnul : (0 : UInt8) ∉ p) (hfit : p.length ≤ 100) : interpret p s = some (act s p) := by
  have hlen : p.length ≤ s.msg.length := by rw [hmsg]; exact hfit
  have hz : ∀ b ∈ s.msg.drop p.length, b = 0 := fun b hb =>
    List.eq_of_mem_replicate (hmsg ▸ List.mem_of_mem_drop hb)
  have hwhole : (p ++ s.msg.drop p.length).length = 100 := by
    rw [hmsg, zeroMsg, List.length_append, List.length_drop, List.length_replicate]
    omega
  have hdispatch : dispatch (p ++ s.msg.drop p.length) s = act s p := by
    have hcmp := fun c => strncmp_name_iff c hwhole hz
    exact if_congr (hcmp .LED1) rfl <| if_congr (hcmp .LED2) rfl <|
      if_congr (hcmp .LED3) rfl <| if_congr (hcmp .query) rfl rfl
  have hclear : memset (p ++ s.msg.drop p.length) 0 100 = some s.msg := by
    rw [← hwhole, memset_whole, hwhole, hmsg]
    rfl
  rw [interpret, strncpy_text hnul hlen, Option.bind_some, hclear, hdispatch, Option.map_some,
    ← act_msg s p]

/-- The receive loop over netbufs of one pbuf each. -/
theorem clientrecv_single {ps : List (List UInt8)} {s : Recv} (hmsg : s.msg = zeroMsg)
    (hnul : ∀ p ∈ ps, (0 : UInt8) ∉ p) (hfit : ∀ p ∈ ps, p.length ≤ 100) :
    clientrecv s (single ps) = some (ps.foldl act s) := by
  induction ps generalizing s with
  | nil => rfl
  | cons p ps ih =>
    have hone : receive s ⟨p, []⟩ = some (act s p) :=
      interpret_eq hmsg (hnul p List.mem_cons_self) (hfit p List.mem_cons_self)
    have hrest := ih (s := act s p) ((act_msg s p).trans hmsg)
      (fun q hq => hnul q (List.mem_cons_of_mem _ hq))
      fun q hq => hfit q (List.mem_cons_of_mem _ hq)
    rw [clientrecv, single, List.map_cons, List.foldlM_cons, hone]
    exact hrest

/-! ## Counting -/

/-- A mask as often as it is asked for: twice is not at all. -/
def parityMask (n : Nat) (mask : UInt32) : UInt32 := if n % 2 = 1 then mask else 0

/-- The state after each command has been obeyed `n` of it times. -/
def tally (n : Command → Nat) (s : Recv) : Recv :=
  { s with
    odr := s.odr ^^^ (parityMask (n .LED1) LED1_PIN ^^^ parityMask (n .LED2) LED2_PIN ^^^
      parityMask (n .LED3) LED3_PIN)
    gives := s.gives + n .query }

theorem parityMask_succ (n : Nat) (mask : UInt32) :
    parityMask (1 + n) mask = mask ^^^ parityMask n mask := by
  rcases Nat.mod_two_eq_zero_or_one n with h | h
  · have h1 : (1 + n) % 2 = 1 := by omega
    rw [parityMask, parityMask, if_pos h1, if_neg (by omega), UInt32.xor_zero]
  · have h1 : ¬ (1 + n) % 2 = 1 := by omega
    rw [parityMask, parityMask, if_neg h1, if_pos h, UInt32.xor_self]

/-- One command more. -/
theorem tally_ask (c : Command) (n : Command → Nat) (s : Recv) :
    tally (fun d => (if c = d then 1 else 0) + n d) s = tally n (c.ask s) := by
  cases c with
  | query => simp [tally, Command.ask, Nat.add_assoc]
  | LED1 =>
    simp only [tally, Command.ask, ↓reduceIte, reduceCtorEq, parityMask_succ, Nat.zero_add]
    ac_rfl
  | LED2 =>
    simp only [tally, Command.ask, ↓reduceIte, reduceCtorEq, parityMask_succ, Nat.zero_add]
    ac_rfl
  | LED3 =>
    simp only [tally, Command.ask, ↓reduceIte, reduceCtorEq, parityMask_succ, Nat.zero_add]
    ac_rfl

theorem tally_zero (s : Recv) : tally (fun _ => 0) s = s := by
  simp [tally, parityMask]

/-- What a stream asks for is told by how often each command occurs in it. -/
theorem ask_eq_tally (s : Recv) (ws : List Command) : ask s ws = tally (fun c => ws.count c) s := by
  induction ws generalizing s with
  | nil => exact (tally_zero s).symm
  | cons c ws ih =>
    have hcount : (fun d => (c :: ws).count d) =
      fun d => (if c = d then 1 else 0) + ws.count d := by
      funext d
      rw [List.count_cons, Nat.add_comm]
      simp only [beq_iff_eq]
    rw [hcount, tally_ask]
    exact ih (c.ask s)

/-- What the receiver does is told by how many pbufs begin with each command. -/
theorem foldl_act (s : Recv) (ps : List (List UInt8)) :
    ps.foldl act s = tally (fun c => names.heads c ps) s := by
  induction ps generalizing s with
  | nil => exact (tally_zero s).symm
  | cons p ps ih =>
    have hcons : ∀ d, names.heads d (p :: ps) =
        (if d.name <+: p then 1 else 0) + names.heads d ps := by
      intro d
      rw [Code.heads, List.countP_cons, Nat.add_comm]
      simp only [decide_eq_true_eq]
      rfl
    rw [List.foldl_cons, ih]
    by_cases h : ∃ c : Command, c.name <+: p
    · obtain ⟨c, hc⟩ := h
      have hheads : (fun d => names.heads d (p :: ps)) =
          fun d => (if c = d then 1 else 0) + names.heads d ps := by
        funext d
        rw [hcons, if_congr ⟨command_unique hc, fun h => h ▸ hc⟩ rfl rfl]
      rw [hheads, tally_ask, act_of_begins s hc]
    · have hnone := not_exists.mp h
      have hheads : (fun d => names.heads d (p :: ps)) = fun d => names.heads d ps := by
        funext d
        rw [hcons, if_neg (hnone d), Nat.zero_add]
      rw [hheads, act_of_begins_none s hnone]

/-- The three bits of a port are told apart by their masks. -/
private theorem masks_inj : ∀ a b c a' b' c' : Bool,
    ((if a then LED1_PIN else 0) ^^^ (if b then LED2_PIN else 0) ^^^
        (if c then LED3_PIN else 0)) =
      ((if a' then LED1_PIN else 0) ^^^ (if b' then LED2_PIN else 0) ^^^
        (if c' then LED3_PIN else 0)) →
    a = a' ∧ b = b' ∧ c = c' := by
  decide

private theorem decide_odd_inj {n m : Nat} (h : decide (n % 2 = 1) = decide (m % 2 = 1)) :
    n % 2 = m % 2 := by
  have := decide_eq_decide.mp h
  omega

/-- Two tallies agree when the gives agree and the toggles agree up to an even number. -/
theorem tally_eq_iff (n m : Command → Nat) (s : Recv) :
    tally n s = tally m s ↔
      n .query = m .query ∧ ∀ c, c ≠ .query → n c % 2 = m c % 2 := by
  constructor
  · intro h
    simp only [tally, Recv.mk.injEq, true_and, UInt32.xor_right_inj, Nat.add_left_cancel_iff] at h
    obtain ⟨hodr, hgives⟩ := h
    have hbits := masks_inj (decide (n .LED1 % 2 = 1)) (decide (n .LED2 % 2 = 1))
      (decide (n .LED3 % 2 = 1)) (decide (m .LED1 % 2 = 1)) (decide (m .LED2 % 2 = 1))
      (decide (m .LED3 % 2 = 1)) (by simpa only [decide_eq_true_eq, parityMask] using hodr)
    refine ⟨hgives, ?_⟩
    intro c hc
    cases c with
    | LED1 => exact decide_odd_inj hbits.1
    | LED2 => exact decide_odd_inj hbits.2.1
    | LED3 => exact decide_odd_inj hbits.2.2
    | query => exact absurd rfl hc
  · rintro ⟨hquery, hled⟩
    simp only [tally, parityMask, hquery, hled .LED1 (by decide), hled .LED2 (by decide),
      hled .LED3 (by decide)]

/-! ## Cuttings -/

variable {ws : List Command}

theorem Cutting.zero_not_mem (cut : Cutting ws) : ∀ p ∈ cut.payloads, (0 : UInt8) ∉ p := by
  intro p hp hzero
  have hstream : (0 : UInt8) ∈ names.text ws :=
    cut.whole ▸ List.mem_flatten.mpr ⟨p, hp, hzero⟩
  obtain ⟨c, -, hc⟩ := List.mem_flatMap.mp hstream
  exact zero_not_mem_name c hc

/-- **One cutting**: the receiver does what the stream asks for exactly if the cutting spares it. -/
theorem clientrecv_eq_ask_iff {s : Recv} (hmsg : s.msg = zeroMsg) (cut : Cutting ws) :
    clientrecv s (single cut.payloads) = some (ask s ws) ↔ Spares cut := by
  have hsum := fun c => names.heads_add_missed c cut.nonempty cut.whole
  rw [clientrecv_single hmsg cut.zero_not_mem cut.fits, Option.some_inj, foldl_act, ask_eq_tally,
    tally_eq_iff, Spares]
  refine and_congr ?_ (forall_congr' fun c => imp_congr_right fun _ => ?_)
  · have := hsum .query
    omega
  · have := hsum c
    omega

/-- **When the effect does not depend on the cutting**: exactly when both cuttings spare every
`query` and all but an even number of each `LEDk`. -/
theorem segmentation_free_iff {s : Recv} (hmsg : s.msg = zeroMsg) (first second : Cutting ws) :
    SegmentationFree s first second ↔ Spares first ∧ Spares second :=
  and_congr (clientrecv_eq_ask_iff hmsg first) (clientrecv_eq_ask_iff hmsg second)

/-- Each command in a pbuf of its own. -/
def twoPbufs : Cutting [.LED1, .query] :=
  ⟨[ascii "LED1", ascii "query"], by decide, by decide, by decide⟩

/-- Both commands in one pbuf. -/
def onePbuf : Cutting [.LED1, .query] :=
  ⟨[ascii "LED1query"], by decide, by decide, by decide⟩

theorem segmentation_free_twoPbufs :
    SegmentationFree ⟨zeroMsg, 0, 0⟩ twoPbufs twoPbufs ↔ Spares twoPbufs ∧ Spares twoPbufs :=
  segmentation_free_iff rfl twoPbufs twoPbufs

/-- Two commands that TCP delivers in one pbuf: the second is not obeyed. -/
theorem coalesced_command_missed : ¬ SegmentationFree ⟨zeroMsg, 0, 0⟩ twoPbufs onePbuf := by
  intro h
  have hlost : clientrecv ⟨zeroMsg, 0, 0⟩ (single onePbuf.payloads) =
      some ⟨zeroMsg, 0x0040, 0⟩ := by decide +kernel
  have hgives := congrArg (Option.map Recv.gives) (hlost.symm.trans h.2)
  revert hgives
  decide

end EthIo.Client
