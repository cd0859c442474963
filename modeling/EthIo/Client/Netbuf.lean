import EthIo.Client.Command

/-!
# What `clientrecv` makes of a netbuf

The `do` loop walks the pbufs of a netbuf with `netbuf_next`, which moves the field `ptr`; its body
reads the field `p`, which stays. So the first pbuf is interpreted as often as the chain is long,
and the others never: `rounds`, which the stream results rest on, is the loop with its cursor left
out (`doWhile_eq`), and `interpreted_in_order_iff` says on which chains that does not show.

One pbuf is interpreted in the local `msg`, which is as long as it is and holds what the stack held
before the first `memset`. `history_free_iff` says which payloads stay inside it and are not mixed
up with what stands behind them.
-/

namespace EthIo.Client

open EthIo.Base

/-! ## The cursor -/

/-- A pbuf: its own bytes, and those of the pbufs it is chained to. -/
structure Pbuf where
  payload : List UInt8
  next : List (List UInt8)
  deriving DecidableEq, Repr

/-- The two fields of `struct netbuf`. -/
structure RecvBuf where
  p : Pbuf
  ptr : Pbuf
  deriving DecidableEq, Repr

/-- A netbuf as `netconn_recv` hands it over: both fields at the first pbuf. -/
def Netbuf.handed (buf : Netbuf) : RecvBuf := ⟨⟨buf.p, buf.next⟩, ⟨buf.p, buf.next⟩⟩

/-- `netbuf_next`. -/
def netbuf_next (buf : RecvBuf) : Int8 × RecvBuf :=
  match buf.ptr.next with
  | [] => (-1, buf)
  | q :: qs => (if qs = [] then 1 else 0, { buf with ptr := ⟨q, qs⟩ })

/-- `netbuf_next` succeeds only by moving on in the chain. -/
theorem netbuf_next_shorter {buf : RecvBuf} (h : 0 ≤ (netbuf_next buf).1) :
    (netbuf_next buf).2.ptr.next.length < buf.ptr.next.length := by
  obtain ⟨p, payload, next⟩ := buf
  cases next with
  | nil =>
    have hlast : (0 : Int8) ≤ -1 := h
    exact absurd hlast (by decide)
  | cons q qs => exact Nat.lt_succ_self _

/-- `do … while (netbuf_next(recv_buf) >= 0)`, with the payloads it has compared. -/
def doWhile (buf : RecvBuf) (s : Recv) : Option (Recv × List (List UInt8)) :=
  (interpret buf.p.payload s).bind fun s =>
    if _h : 0 ≤ (netbuf_next buf).1 then
      (doWhile (netbuf_next buf).2 s).map fun r => (r.1, buf.p.payload :: r.2)
    else some (s, [buf.p.payload])
termination_by buf.ptr.next.length
decreasing_by exact netbuf_next_shorter _h

/-- The loop is `rounds`, and compares the first payload once for each pbuf of the chain. -/
theorem doWhile_eq (p q : Pbuf) (s : Recv) :
    doWhile ⟨p, q⟩ s = (rounds p.payload q.next s).map fun s =>
      (s, List.replicate (q.next.length + 1) p.payload) := by
  obtain ⟨payload, next⟩ := q
  induction next generalizing payload s with
  | nil =>
    rw [doWhile]
    simp [netbuf_next, rounds, Option.map_eq_bind]
  | cons r rs ih =>
    have hmoved : 0 ≤ (netbuf_next ⟨p, ⟨payload, r :: rs⟩⟩).1 := by
      simp only [netbuf_next]
      split_ifs <;> decide
    rw [doWhile, rounds]
    simp only [dif_pos hmoved]
    cases interpret p.payload s with
    | none => rfl
    | some s' =>
      show (doWhile ⟨p, ⟨r, rs⟩⟩ s').map _ = (rounds p.payload rs s').map _
      rw [ih s' r, Option.map_map]
      rfl

/-! ## The order of the payloads -/

/-- **The pbufs are interpreted once each, in order**: the loop ends, and the payloads it compares
are those of the chain. -/
def InOrder (s : Recv) (buf : Netbuf) : Prop :=
  ∃ s', doWhile buf.handed s = some (s', buf.p :: buf.next)

/-- A round on a payload that fits `msg` ends, and leaves `msg` all zero. -/
theorem interpret_some {p : List UInt8} {s : Recv} (hmsg : s.msg.length = 100)
    (hfit : p.length ≤ 100) : ∃ s', interpret p s = some s' ∧ s'.msg = zeroMsg := by
  obtain ⟨copied, hcopied⟩ : ∃ copied, strncpy s.msg p p.length = some copied :=
    ⟨_, strncpy_whole (hmsg ▸ hfit)⟩
  have hlen : copied.length = 100 := (length_strncpy hcopied).trans hmsg
  have hclear : memset copied 0 100 = some zeroMsg := by
    rw [← hlen, memset_whole, hlen]
    rfl
  refine ⟨{ dispatch copied s with msg := zeroMsg }, ?_, rfl⟩
  rw [interpret, hcopied, Option.bind_some, hclear, Option.map_some]

theorem rounds_some {p : List UInt8} {s : Recv} (next : List (List UInt8))
    (hmsg : s.msg.length = 100) (hfit : p.length ≤ 100) : ∃ s', rounds p next s = some s' := by
  induction next generalizing s with
  | nil =>
    obtain ⟨s', hs', -⟩ := interpret_some hmsg hfit
    exact ⟨s', hs'⟩
  | cons q next ih =>
    obtain ⟨s', hs', hzero⟩ := interpret_some hmsg hfit
    rw [rounds, hs', Option.bind_some]
    exact ih (by rw [hzero]; rfl)

/-- **When the pbufs are interpreted in order**: exactly when each holds the bytes of the first. -/
theorem interpreted_in_order_iff {s : Recv} {buf : Netbuf} (hmsg : s.msg.length = 100)
    (hfit : ∀ q ∈ buf.p :: buf.next, 1 ≤ q.length ∧ q.length ≤ 100) :
    InOrder s buf ↔ ∀ q ∈ buf.next, q = buf.p := by
  obtain ⟨s', hs'⟩ := rounds_some buf.next hmsg (hfit buf.p List.mem_cons_self).2
  have hloop : doWhile buf.handed s =
      some (s', List.replicate (buf.next.length + 1) buf.p) := by
    rw [Netbuf.handed, doWhile_eq, hs', Option.map_some]
  simp only [InOrder, hloop, Option.some_inj, Prod.mk.injEq, exists_and_right, exists_eq',
    true_and, List.replicate_succ, List.cons.injEq]
  rw [eq_comm, List.eq_replicate_iff]
  exact and_iff_right rfl

/-- Two pbufs that hold the same command. -/
theorem interpreted_in_order_twice :
    InOrder ⟨zeroMsg, 0, 0⟩ ⟨ascii "LED1", [ascii "LED1"]⟩ ↔
      ∀ q ∈ [ascii "LED1"], q = ascii "LED1" :=
  interpreted_in_order_iff rfl (by decide)

/-- Two commands in the two pbufs of one netbuf: the first is compared twice, the second never. -/
theorem second_pbuf_skipped : ¬ InOrder ⟨zeroMsg, 0, 0⟩ ⟨ascii "LED1", [ascii "LED2"]⟩ := by
  rintro ⟨s', h⟩
  rw [Netbuf.handed, doWhile_eq] at h
  obtain ⟨_, -, hpair⟩ := Option.map_eq_some_iff.mp h
  have hsecond : [ascii "LED1", ascii "LED1"] = [ascii "LED1", ascii "LED2"] :=
    congrArg Prod.snd hpair
  exact absurd hsecond (by decide)

/-! ## One payload and what `msg` held -/

/-- Every byte of `msg` that a round on `p` touches is one of its own: the copy, the comparisons and
the `memset` have a result. -/
def InBounds (p msg : List UInt8) : Prop :=
  ∃ copied, strncpy msg p p.length = some copied ∧
    (∀ c : Command, strncmp copied (c.name ++ [0]) c.name.length ≠ none) ∧
    memset copied 0 100 ≠ none

/-- A payload is served: inside `msg`, and with the action it asks for itself. -/
structure Served (before : Recv) (p : List UInt8) (after : Recv) : Prop where
  inBounds : InBounds p before.msg
  action : after = { act before p with msg := after.msg }

/-- **Decoding is in bounds and free of history**: each payload in turn is served. -/
def HistoryFree : Recv → List (List UInt8) → Prop
  | _, [] => True
  | s, p :: ps => ∃ after, receive s ⟨p, []⟩ = some after ∧ Served s p after ∧ HistoryFree after ps

/-- What stands in `msg` behind the first payload does not complete a command that the payload only
begins. -/
def Unmixed (msg : List UInt8) (ps : List (List UInt8)) : Prop :=
  ∀ p ∈ ps.head?, ∀ c : Command, c.name <+: p ++ msg.drop p.length → c.name <+: p

/-- The comparisons see the payload and what stands behind it. -/
theorem dispatch_copied {p copied : List UInt8} {s : Recv} (hmsg : s.msg.length = 100)
    (h : strncpy s.msg p p.length = some copied) :
    dispatch copied s = act s (p ++ s.msg.drop p.length) := by
  have hlen : copied.length = 100 := (length_strncpy h).trans hmsg
  have hcmp : ∀ c : Command, strncmp copied (c.name ++ [0]) c.name.length = some 0 ↔
      c.name <+: p ++ s.msg.drop p.length := by
    intro c
    rw [strncmp_eq_zero_iff (zero_not_mem_name c), prefix_strncpy_iff (zero_not_mem_name c) h]
    rw [hlen]
    cases c <;> decide
  exact if_congr (hcmp .LED1) rfl <| if_congr (hcmp .LED2) rfl <|
    if_congr (hcmp .LED3) rfl <| if_congr (hcmp .query) rfl rfl

/-- **One round, whatever `msg` held**: what the payload and the bytes behind it begin with is done,
and `msg` is zero. -/
theorem receive_eq {p : List UInt8} {s : Recv} (hmsg : s.msg.length = 100)
    (hfit : p.length ≤ 100) :
    receive s ⟨p, []⟩ = some { act s (p ++ s.msg.drop p.length) with msg := zeroMsg } := by
  obtain ⟨copied, hcopied⟩ : ∃ copied, strncpy s.msg p p.length = some copied :=
    ⟨_, strncpy_whole (hmsg ▸ hfit)⟩
  have hlen : copied.length = 100 := (length_strncpy hcopied).trans hmsg
  have hclear : memset copied 0 100 = some zeroMsg := by
    rw [← hlen, memset_whole, hlen]
    rfl
  show interpret p s = _
  rw [interpret, hcopied, Option.bind_some, hclear, Option.map_some, dispatch_copied hmsg hcopied]

theorem inBounds_iff {p msg : List UInt8} (hmsg : msg.length = 100) :
    InBounds p msg ↔ p.length ≤ 100 := by
  constructor
  · rintro ⟨copied, hcopied, -, -⟩
    by_contra hlong
    rw [strncpy, if_neg (by omega)] at hcopied
    cases hcopied
  · intro hfit
    obtain ⟨copied, hcopied⟩ : ∃ copied, strncpy msg p p.length = some copied :=
      ⟨_, strncpy_whole (hmsg ▸ hfit)⟩
    have hlen : copied.length = 100 := (length_strncpy hcopied).trans hmsg
    refine ⟨copied, hcopied, ?_, ?_⟩
    · intro c
      have hname : c.name.length ≤ 100 := by cases c <;> decide
      exact strncmp_ne_none (by omega) (by simp)
    · rw [memset, if_pos (by omega)]
      exact Option.some_ne_none _

/-- A toggle is never nothing. -/
theorem xor_ne (odr : UInt32) {mask : UInt32} (h : mask ≠ 0) : odr ^^^ mask ≠ odr := by
  intro hodr
  have hzero : odr ^^^ mask = odr ^^^ 0 := hodr.trans (UInt32.xor_zero).symm
  exact h ((UInt32.xor_right_inj odr).mp hzero)

/-- Every command asks for something. -/
theorem ask_ne (s : Recv) (c : Command) : c.ask s ≠ s := by
  intro h
  cases c with
  | LED1 => exact xor_ne s.odr (by decide) (congrArg Recv.odr h)
  | LED2 => exact xor_ne s.odr (by decide) (congrArg Recv.odr h)
  | LED3 => exact xor_ne s.odr (by decide) (congrArg Recv.odr h)
  | query => exact Nat.succ_ne_self _ (congrArg Recv.gives h)

theorem act_with_msg (s : Recv) (p : List UInt8) : { act s p with msg := s.msg } = act s p := by
  have hmsg := act_msg s p
  generalize act s p = r at hmsg ⊢
  cases r
  cases hmsg
  rfl

/-- Bytes behind a payload change what is done only by completing a command. -/
theorem act_append_iff (s : Recv) (p t : List UInt8) :
    act s (p ++ t) = act s p ↔ ∀ c : Command, c.name <+: p ++ t → c.name <+: p := by
  constructor
  · intro h c hc
    rw [act_of_begins s hc] at h
    by_cases hp : ∃ d : Command, d.name <+: p
    · obtain ⟨d, hd⟩ := hp
      exact command_unique hc (hd.trans (List.prefix_append p t)) ▸ hd
    · rw [act_of_begins_none s (not_exists.mp hp)] at h
      exact absurd h (ask_ne s c)
  · intro h
    by_cases hp : ∃ d : Command, d.name <+: p
    · obtain ⟨d, hd⟩ := hp
      rw [act_of_begins s hd, act_of_begins s (hd.trans (List.prefix_append p t))]
    · have hnone := not_exists.mp hp
      rw [act_of_begins_none s hnone, act_of_begins_none s fun c hc => hnone c (h c hc)]

/-- A payload that fits is served if what stands behind it completes no command. -/
theorem served_iff {p : List UInt8} {s after : Recv} (hmsg : s.msg.length = 100)
    (hreceive : receive s ⟨p, []⟩ = some after) :
    Served s p after ↔
      p.length ≤ 100 ∧ ∀ c : Command, c.name <+: p ++ s.msg.drop p.length → c.name <+: p := by
  constructor
  · rintro ⟨hbounds, haction⟩
    have hfit := (inBounds_iff hmsg).mp hbounds
    refine ⟨hfit, (act_append_iff s p _).mp ?_⟩
    rw [receive_eq hmsg hfit] at hreceive
    have hsame : { act s (p ++ s.msg.drop p.length) with msg := s.msg } =
        { act s p with msg := s.msg } := by
      cases hreceive
      exact congrArg (fun r : Recv => { r with msg := s.msg }) haction
    exact (act_with_msg s _).symm.trans (hsame.trans (act_with_msg s p))
  · rintro ⟨hfit, hunmixed⟩
    refine ⟨(inBounds_iff hmsg).mpr hfit, ?_⟩
    rw [receive_eq hmsg hfit, (act_append_iff s p _).mpr hunmixed] at hreceive
    cases hreceive
    rfl

/-- Once `msg` is zero nothing stands behind a payload. -/
theorem unmixed_zeroMsg (ps : List (List UInt8)) : Unmixed zeroMsg ps := by
  intro p _ c hc
  refine (prefix_append_zeros_iff (zero_not_mem_name c) ?_).mp hc
  exact fun b hb => List.eq_of_mem_replicate (List.mem_of_mem_drop hb)

/-- **When decoding is in bounds and free of history**: exactly when every payload fits `msg`, and
what `msg` held at the start completes no command behind the first. -/
theorem history_free_iff {s : Recv} {ps : List (List UInt8)} (hmsg : s.msg.length = 100) :
    HistoryFree s ps ↔ (∀ p ∈ ps, p.length ≤ 100) ∧ Unmixed s.msg ps := by
  induction ps generalizing s with
  | nil => exact iff_of_true trivial ⟨fun _ h => absurd h List.not_mem_nil, fun _ h => by cases h⟩
  | cons p ps ih =>
    constructor
    · rintro ⟨after, hreceive, hserved, hrest⟩
      obtain ⟨hfit, hunmixed⟩ := (served_iff hmsg hreceive).mp hserved
      have hzero : after.msg = zeroMsg := by
        rw [receive_eq hmsg hfit] at hreceive
        cases hreceive
        rfl
      have hrest := (ih (by rw [hzero]; rfl)).mp hrest
      refine ⟨List.forall_mem_cons.mpr ⟨hfit, hrest.1⟩, ?_⟩
      rintro q hq
      cases hq
      exact hunmixed
    · rintro ⟨hfits, hunmixed⟩
      obtain ⟨hfit, hfits⟩ := List.forall_mem_cons.mp hfits
      have hreceive := receive_eq hmsg hfit
      refine ⟨_, hreceive, (served_iff hmsg hreceive).mpr ⟨hfit, hunmixed p rfl⟩, ?_⟩
      exact (ih rfl).mpr ⟨hfits, unmixed_zeroMsg ps⟩

/-- A fragment of a command, and a command after it. -/
theorem history_free_two_payloads :
    HistoryFree ⟨zeroMsg, 0, 0⟩ [ascii "LED", ascii "1query"] ↔
      (∀ p ∈ [ascii "LED", ascii "1query"], p.length ≤ 100) ∧
        Unmixed zeroMsg [ascii "LED", ascii "1query"] :=
  history_free_iff rfl

/-- A payload of 101 bytes, well within a TCP segment: the copy leaves `msg`. -/
theorem long_payload_overruns :
    ¬ HistoryFree ⟨zeroMsg, 0, 0⟩ [List.replicate 101 0x41] := by
  rintro ⟨after, hreceive, -⟩
  revert hreceive
  rw [show receive ⟨zeroMsg, 0, 0⟩ ⟨List.replicate 101 0x41, []⟩ = none by decide +kernel]
  exact fun h => Option.noConfusion rfl (heq_of_eq h)

end EthIo.Client
