import EthIo.Base.Scanf

/-!
# The configuration text `a.b.c.d:p`

The one format string of the firmware, `"%d.%d.%d.%d:%d"`, is used three times: twice by the check
in `I2ceeprom_Task` and once by `I2C_Read_EE_IP`. `ConfigText` is what it describes, five numerals
with the separators between them, stated without the scanner; `scan_ipFormat_iff` says that a call
returns 5 exactly on the texts that begin with one.

The text of a `ConfigText` ends with the last digit of the port, so its length is the number of
bytes the format consumes; the byte after it is read as well, to find that the port has ended.
-/

namespace EthIo.Config

open EthIo.Base

variable {α : Type*}

/-- The directives of `"%d.%d.%d.%d:%d"` with its five destinations. -/
def ipFormat (a b c d p : α) : List (Directive α) :=
  directives "%d.%d.%d.%d:%d".toList [a, b, c, d, p]

theorem ipFormat_eq (a b c d p : α) : ipFormat a b c d p =
    [.decimal a, .literal 46, .decimal b, .literal 46, .decimal c, .literal 46, .decimal d,
      .literal 58, .decimal p] := by
  have h : "%d.%d.%d.%d:%d".toList =
      ['%', 'd', '.', '%', 'd', '.', '%', 'd', '.', '%', 'd', ':', '%', 'd'] := by decide
  rw [ipFormat, h]
  rfl

theorem conversions_ipFormat (a b c d p : α) : conversions (ipFormat a b c d p) = 5 := by
  rw [ipFormat_eq]
  rfl

theorem closed_ipFormat (a b c d p : α) : closed (ipFormat a b c d p) = true := by
  rw [ipFormat_eq]
  rfl

/-- Five numerals: an address in dotted form and a port. -/
structure ConfigText where
  a : Numeral
  b : Numeral
  c : Numeral
  d : Numeral
  p : Numeral

namespace ConfigText

/-- The bytes of the text, up to the last digit of the port. -/
def text (t : ConfigText) : List UInt8 :=
  t.a.text ++ 46 :: (t.b.text ++ 46 :: (t.c.text ++ 46 :: (t.d.text ++ 58 :: t.p.text)))

/-- What stands behind the first numeral. -/
def rest (t : ConfigText) : List UInt8 :=
  46 :: (t.b.text ++ 46 :: (t.c.text ++ 46 :: (t.d.text ++ 58 :: t.p.text)))

theorem text_eq (t : ConfigText) : t.text = t.a.text ++ t.rest := rfl

/-- The five integers, in order. -/
def values (t : ConfigText) : List Int :=
  [t.a.value, t.b.value, t.c.value, t.d.value, t.p.value]

theorem zero_not_mem_text (t : ConfigText) : (0 : UInt8) ∉ t.text := by
  have hsep : (0 : UInt8) ≠ 46 ∧ (0 : UInt8) ≠ 58 := by decide
  simp only [text, List.mem_append, List.mem_cons, not_or]
  exact ⟨t.a.zero_not_mem_text, hsep.1, t.b.zero_not_mem_text, hsep.1, t.c.zero_not_mem_text,
    hsep.1, t.d.zero_not_mem_text, hsep.2, t.p.zero_not_mem_text⟩

end ConfigText

private theorem noDigit_dot (s : List UInt8) : noDigit (46 :: s) = true := rfl

private theorem noDigit_colon (s : List UInt8) : noDigit (58 :: s) = true := rfl

/-- The format behind its first conversion describes what stands behind the first numeral. -/
theorem ConfigText.scans_rest (t : ConfigText) {b c d p : α} {r : List UInt8} (hne : r ≠ [])
    (hnd : noDigit r = true) :
    Scans [.literal 46, .decimal b, .literal 46, .decimal c, .literal 46, .decimal d, .literal 58,
        .decimal p] (t.rest ++ r)
      [(b, t.b.value), (c, t.c.value), (d, t.d.value), (p, t.p.value)] r := by
  have hport := @Scans.decimal α p _ _ _ _ t.p hne hnd (.nil r)
  have hd := @Scans.decimal α d _ _ _ _ t.d (List.cons_ne_nil _ _) (noDigit_colon _)
    (.literal (by decide) hport)
  have hc := @Scans.decimal α c _ _ _ _ t.c (List.cons_ne_nil _ _) (noDigit_dot _)
    (.literal (by decide) hd)
  have hb := @Scans.decimal α b _ _ _ _ t.b (List.cons_ne_nil _ _) (noDigit_dot _)
    (.literal (by decide) hc)
  simpa only [ConfigText.rest, List.append_assoc, List.cons_append] using
    Scans.literal (by decide) hb

/-- The format describes exactly the texts that begin with a `ConfigText` no digit follows. -/
theorem scans_ipFormat_iff {a b c d p : α} {s r : List UInt8} {vs : List (α × Int)} :
    Scans (ipFormat a b c d p) s vs r ↔
      ∃ t : ConfigText, s = t.text ++ r ∧ r ≠ [] ∧ noDigit r = true ∧
        vs = [a, b, c, d, p].zip t.values := by
  rw [ipFormat_eq]
  constructor
  · intro h
    cases h with
    | decimal na _ _ h => cases h with
    | literal _ h => cases h with
    | decimal nb _ _ h => cases h with
    | literal _ h => cases h with
    | decimal nc _ _ h => cases h with
    | literal _ h => cases h with
    | decimal nd _ _ h => cases h with
    | literal _ h => cases h with
    | decimal np hne hnd h =>
      cases h
      exact ⟨⟨na, nb, nc, nd, np⟩, by simp [ConfigText.text], hne, hnd, rfl⟩
  · rintro ⟨t, rfl, hne, hnd, rfl⟩
    rw [t.text_eq, List.append_assoc]
    exact .decimal t.a (List.cons_ne_nil _ _) (noDigit_dot _) (t.scans_rest hne hnd)

theorem ret_eq_five_iff {a b c d p : α} {s : List UInt8} :
    (scan (ipFormat a b c d p) s).ret = 5 ↔ (scan (ipFormat a b c d p) s).stop = .done := by
  rw [scan_done_iff_assigned (closed_ipFormat a b c d p), conversions_ipFormat, ScanResult.ret]
  split_ifs with h
  · simp [h.2]
  · omega

/-- **`sscanf` returns 5 exactly on the texts that begin with a configuration.** -/
theorem scan_ipFormat_iff {a b c d p : α} {s : List UInt8} :
    (scan (ipFormat a b c d p) s).ret = 5 ↔
      ∃ (t : ConfigText) (r : List UInt8), s = t.text ++ r ∧ r ≠ [] ∧ noDigit r = true := by
  rw [ret_eq_five_iff]
  constructor
  · intro h
    have hscan : scan (ipFormat a b c d p) s =
        ⟨(scan (ipFormat a b c d p) s).assigned, .done, (scan (ipFormat a b c d p) s).rest⟩ := by
      rw [← h]
    obtain ⟨t, hs, hne, hnd, _⟩ := scans_ipFormat_iff.mp (scan_done_iff.mp hscan)
    exact ⟨t, _, hs, hne, hnd⟩
  · rintro ⟨t, r, rfl, hne, hnd⟩
    rw [scan_done_iff.mpr (scans_ipFormat_iff.mpr ⟨t, rfl, hne, hnd, rfl⟩)]

/-- What the call stores when it returns 5, and where it stops. -/
theorem scan_ipFormat_text {a b c d p : α} {t : ConfigText} {r : List UInt8} (hne : r ≠ [])
    (hnd : noDigit r = true) :
    scan (ipFormat a b c d p) (t.text ++ r) = ⟨[a, b, c, d, p].zip t.values, .done, r⟩ :=
  scan_done_iff.mpr (scans_ipFormat_iff.mpr ⟨t, rfl, hne, hnd, rfl⟩)

/-- Two readings of one text as a configuration consume the same bytes and mean the same values. -/
theorem ConfigText.unique {t u : ConfigText} {r q : List UInt8} (h : t.text ++ r = u.text ++ q)
    (hr : r ≠ []) (hrd : noDigit r = true) (hq : q ≠ []) (hqd : noDigit q = true) :
    t.values = u.values ∧ t.text = u.text ∧ r = q := by
  have ht := scan_ipFormat_text (a := 0) (b := 1) (c := 2) (d := 3) (p := 4) (t := t) hr hrd
  have hu := scan_ipFormat_text (a := 0) (b := 1) (c := 2) (d := 3) (p := 4) (t := u) hq hqd
  rw [h, hu] at ht
  simp only [ScanResult.mk.injEq, ConfigText.values, List.zip_cons_cons, List.cons.injEq,
    Prod.mk.injEq, true_and] at ht
  obtain ⟨⟨ha, hb, hc, hd, hp, -⟩, hrq⟩ := ht
  subst hrq
  exact ⟨by simp only [ConfigText.values, ha, hb, hc, hd, hp], List.append_cancel_right h, rfl⟩

/-! ## Lines

A line is what the serial port delivered: bytes without a NUL, with a NUL behind them. -/

/-- A line begins with a configuration. -/
def BeginsWith (t : ConfigText) (line : List UInt8) : Prop :=
  ∃ rest, line = t.text ++ rest ∧ noDigit rest = true

theorem length_le_of_beginsWith {t : ConfigText} {line : List UInt8} (h : BeginsWith t line) :
    t.text.length ≤ line.length := by
  obtain ⟨rest, rfl, -⟩ := h
  rw [List.length_append]
  exact Nat.le_add_right _ _

/-- The check accepts a NUL-terminated line exactly when the line begins with a configuration; what
stands behind the NUL does not matter. -/
theorem scan_line_iff {a b c d p : α} {line tail : List UInt8} (hnul : (0 : UInt8) ∉ line) :
    (scan (ipFormat a b c d p) (line ++ 0 :: tail)).ret = 5 ↔ ∃ t, BeginsWith t line := by
  rw [scan_ipFormat_iff]
  constructor
  · rintro ⟨t, r, h, hne, hnd⟩
    refine ⟨t, ?_⟩
    rcases List.append_eq_append_iff.mp h with ⟨u, htext, hr⟩ | ⟨u, hline, hr⟩
    · cases u with
      | nil =>
        rw [List.append_nil] at htext
        exact ⟨[], by rw [htext, List.append_nil], rfl⟩
      | cons x u =>
        have hx : x = 0 := (List.cons.inj hr).1.symm
        subst hx
        exact absurd (htext ▸ List.mem_append_right _ List.mem_cons_self) t.zero_not_mem_text
    · refine ⟨u, hline, ?_⟩
      rw [hr] at hnd
      cases u with
      | nil => rfl
      | cons x u => exact hnd
  · rintro ⟨t, rest, rfl, hnd⟩
    refine ⟨t, rest ++ 0 :: tail, by rw [List.append_assoc], by simp, ?_⟩
    cases rest with
    | nil => rfl
    | cons x rest => exact hnd

/-- The five integers converted from a line that begins with `t` are the values of `t`. -/
theorem scan_line_text {a b c d p : α} {t : ConfigText} {line : List UInt8}
    (h : BeginsWith t line) (tail : List UInt8) :
    (scan (ipFormat a b c d p) (line ++ 0 :: tail)).assigned = [a, b, c, d, p].zip t.values := by
  obtain ⟨rest, rfl, hnd⟩ := h
  rw [List.append_assoc, scan_ipFormat_text (by simp)]
  cases rest with
  | nil => rfl
  | cons x rest => exact hnd

end EthIo.Config
