import EthIo.Base.Numeral

/-!
# `sscanf` over bytes

The part of C's `sscanf` that `%d` and ordinary characters need. The text is a list of bytes that
stands for the object the pointer addresses: a NUL in it is the end of the input, and its end is the
end of the object. `%d` has to see the byte after the last digit before it can stop, so a text may
end while the function still needs a byte; that outcome is `overrun`, apart from the two failures C
names (a matching failure and an input failure).

`Scans` is the specification: which numerals and characters the directives consumed, and what is
left. `scan_done_iff` says that the function finishes with it and with nothing else, so a text is
parsed completely exactly when it begins with what the format describes.

`ret` is the value of the call, with `EOF` for an input failure before the first conversion. What
`%d` does with a numeral outside the range of `int` is undefined in C. `Numeral.value` is what the
`_scanf_int` that is linked into the image does: ten times the number so far and the next digit in a
32-bit register, which it negates behind a minus sign and stores, so that the numeral wraps.
-/

namespace EthIo.Base

/-- A directive of a format, a conversion together with the destination it stores to. -/
inductive Directive (α : Type*)
  | decimal (dst : α)
  | literal (c : UInt8)
  deriving DecidableEq, Repr

/-- The directives of a format string, its conversions paired with the arguments in order. -/
def directives {α : Type*} : List Char → List α → List (Directive α)
  | '%' :: 'd' :: cs, dst :: args => .decimal dst :: directives cs args
  | '%' :: 'd' :: _, [] => []
  | c :: cs, args => .literal c.toUInt8 :: directives cs args
  | [], _ => []

/-- How a call ended. -/
inductive ScanStop
  | done
  | matching
  | input
  | overrun
  deriving DecidableEq, Repr

/-- What a call did: the conversions stored, in order, how it ended, and the unread text. -/
structure ScanResult (α : Type*) where
  assigned : List (α × Int)
  stop : ScanStop
  rest : List UInt8
  deriving DecidableEq, Repr

/-- The value of the call. -/
def ScanResult.ret {α : Type*} (r : ScanResult α) : Int :=
  if r.stop = .input ∧ r.assigned = [] then -1 else r.assigned.length

/-- A text without an optional sign at its head. -/
def skipSign : List UInt8 → List UInt8
  | b :: r => if b = 43 ∨ b = 45 then r else b :: r
  | [] => []

/-- Whether a text starts with a minus sign. -/
def isMinus : List UInt8 → Bool
  | b :: _ => b = 45
  | [] => false

/-- One `%d`: its value and the text after it, or how it failed. -/
def scanDecimal (s : List UInt8) : Except ScanStop (Int × List UInt8) :=
  match s.dropWhile isspace with
  | [] => .error .overrun
  | b :: r =>
    if b = 0 then .error .input
    else
      match (skipSign (b :: r)).dropWhile isdigit with
      | [] => .error .overrun
      | c :: t =>
        if (skipSign (b :: r)).takeWhile isdigit = [] then .error .matching
        else .ok (signedVal (isMinus (b :: r)) ((skipSign (b :: r)).takeWhile isdigit), c :: t)

/-- One ordinary character of the format: the text after it, or how it failed. -/
def scanLiteral (c : UInt8) : List UInt8 → Except ScanStop (List UInt8)
  | [] => .error .overrun
  | b :: r => if b = 0 then .error .input else if b = c then .ok r else .error .matching

/-- The directives in turn, until one fails. -/
def scan {α : Type*} : List (Directive α) → List UInt8 → ScanResult α
  | [], s => ⟨[], .done, s⟩
  | .literal c :: fs, s =>
    match scanLiteral c s with
    | .error stop => ⟨[], stop, s⟩
    | .ok r => scan fs r
  | .decimal dst :: fs, s =>
    match scanDecimal s with
    | .error stop => ⟨[], stop, s⟩
    | .ok (v, r) => { scan fs r with assigned := (dst, v) :: (scan fs r).assigned }

/-! ## One conversion -/

theorem Sign.skipSign_text (sg : Sign) {ds r : List UInt8} (h : ∀ b ∈ ds, isdigit b = true)
    (hne : ds ≠ []) : skipSign (sg.text ++ (ds ++ r)) = ds ++ r := by
  cases sg with
  | none =>
    cases ds with
    | nil => exact absurd rfl hne
    | cons d ds =>
      have hd := isdigit_iff.mp (h d List.mem_cons_self)
      have h43 : d ≠ 43 := fun hc => by subst hc; revert hd; decide
      have h45 : d ≠ 45 := fun hc => by subst hc; revert hd; decide
      simp [Sign.text, skipSign, h43, h45]
  | plus => rfl
  | minus => rfl

theorem Sign.isMinus_text (sg : Sign) {ds r : List UInt8} (h : ∀ b ∈ ds, isdigit b = true)
    (hne : ds ≠ []) : isMinus (sg.text ++ (ds ++ r)) = decide (sg = .minus) := by
  cases sg with
  | none =>
    cases ds with
    | nil => exact absurd rfl hne
    | cons d ds =>
      have hd := isdigit_iff.mp (h d List.mem_cons_self)
      have h45 : d ≠ 45 := fun hc => by subst hc; revert hd; decide
      simp [Sign.text, isMinus, h45]
  | plus => rfl
  | minus => rfl

/-- What follows the white space of a numeral starts with neither white space nor a NUL. -/
theorem Numeral.signed_head (n : Numeral) (r : List UInt8) :
    ∃ b t, n.sign.text ++ (n.digits ++ r) = b :: t ∧ isspace b = false ∧ b ≠ 0 := by
  obtain ⟨d, ds, hds⟩ := List.exists_cons_of_ne_nil n.digits_ne
  cases hs : n.sign with
  | none =>
    have hd := isdigit_iff.mp (n.digits_digit d (by rw [hds]; exact List.mem_cons_self))
    refine ⟨d, ds ++ r, by rw [hds]; rfl, ?_, fun hc => by subst hc; revert hd; decide⟩
    by_contra hsp
    have := isspace_iff.mp (Bool.eq_true_of_not_eq_false hsp)
    omega
  | plus => exact ⟨43, n.digits ++ r, rfl, by decide, by decide⟩
  | minus => exact ⟨45, n.digits ++ r, rfl, by decide, by decide⟩

/-- A numeral and a byte that is no digit are read as that numeral. -/
theorem scanDecimal_text (n : Numeral) {c : UInt8} {t : List UInt8} (hc : isdigit c = false) :
    scanDecimal (n.text ++ c :: t) = .ok (n.value, c :: t) := by
  obtain ⟨b, u, hbu, hsp, hb0⟩ := n.signed_head (c :: t)
  have hskip : (n.text ++ c :: t).dropWhile isspace = b :: u := by
    rw [Numeral.text, List.append_assoc, List.append_assoc, hbu,
      List.dropWhile_append_of_pos n.blanks_space,
      List.dropWhile_cons_of_neg (by simpa using hsp)]
  have hdigits := n.digits_digit
  unfold scanDecimal
  rw [hskip]
  dsimp only
  rw [if_neg hb0, ← hbu, n.sign.skipSign_text hdigits n.digits_ne,
    n.sign.isMinus_text hdigits n.digits_ne, List.dropWhile_append_of_pos hdigits,
    List.dropWhile_cons_of_neg (by simpa using hc), List.takeWhile_append_of_pos hdigits,
    List.takeWhile_cons_of_neg (by simpa using hc), List.append_nil]
  exact if_neg n.digits_ne

/-- The sign a text starts with. -/
private def signOf : List UInt8 → Sign
  | b :: _ => if b = 43 then .plus else if b = 45 then .minus else .none
  | [] => .none

private theorem signOf_text (b : UInt8) (r : List UInt8) :
    (signOf (b :: r)).text ++ skipSign (b :: r) = b :: r := by
  by_cases h43 : b = 43
  · subst h43; rfl
  by_cases h45 : b = 45
  · subst h45; rfl
  simp [signOf, skipSign, h43, h45, Sign.text]

private theorem signOf_minus (b : UInt8) (r : List UInt8) :
    decide (signOf (b :: r) = .minus) = isMinus (b :: r) := by
  by_cases h43 : b = 43
  · subst h43; rfl
  by_cases h45 : b = 45
  · subst h45; rfl
  simp [signOf, isMinus, h43, h45]

/-- Whatever `%d` reads is a numeral, and a byte that is no digit follows it. -/
theorem scanDecimal_ok {s r : List UInt8} {v : Int} (h : scanDecimal s = .ok (v, r)) :
    ∃ n : Numeral, s = n.text ++ r ∧ v = n.value ∧ r ≠ [] ∧ noDigit r = true := by
  unfold scanDecimal at h
  split at h
  · cases h
  · next b u hskip =>
    split at h
    · cases h
    split at h
    · cases h
    next c t hrest =>
    split at h
    · cases h
    next hne =>
    simp only [Except.ok.injEq, Prod.mk.injEq] at h
    obtain ⟨rfl, rfl⟩ := h
    have hcd : isdigit c = false := by
      have := List.head?_dropWhile_not isdigit (skipSign (b :: u))
      rw [hrest] at this
      exact this
    let n : Numeral :=
      { blanks := s.takeWhile isspace
        sign := signOf (b :: u)
        digits := (skipSign (b :: u)).takeWhile isdigit
        blanks_space := fun _ hx => List.mem_takeWhile_imp hx
        digits_digit := fun _ hx => List.mem_takeWhile_imp hx
        digits_ne := hne }
    refine ⟨n, ?_, ?_, List.cons_ne_nil _ _, by simp [noDigit, hcd]⟩
    · calc s = s.takeWhile isspace ++ s.dropWhile isspace := List.takeWhile_append_dropWhile.symm
        _ = s.takeWhile isspace ++ (b :: u) := by rw [hskip]
        _ = s.takeWhile isspace ++ ((signOf (b :: u)).text ++
              ((skipSign (b :: u)).takeWhile isdigit ++
                (skipSign (b :: u)).dropWhile isdigit)) := by
            rw [List.takeWhile_append_dropWhile, signOf_text]
        _ = n.text ++ (c :: t) := by
            rw [hrest]
            simp only [n, Numeral.text, List.append_assoc]
    · simp only [n, Numeral.value, signOf_minus]

/-- A failed directive has not finished the format. -/
theorem scanDecimal_ne_done {s : List UInt8} {stop : ScanStop}
    (h : scanDecimal s = .error stop) : stop ≠ .done := by
  rintro rfl
  unfold scanDecimal at h
  repeat' (split at h)
  all_goals cases h

theorem scanLiteral_ne_done {c : UInt8} {s : List UInt8} {stop : ScanStop}
    (h : scanLiteral c s = .error stop) : stop ≠ .done := by
  rintro rfl
  unfold scanLiteral at h
  repeat' (split at h)
  all_goals cases h

/-! ## The whole format -/

/-- **What a complete parse is.** The directives consume a prefix of the text: each conversion a
numeral that no digit follows, each ordinary character itself. -/
inductive Scans {α : Type*} : List (Directive α) → List UInt8 → List (α × Int) → List UInt8 → Prop
  | nil (s : List UInt8) : Scans [] s [] s
  | literal {c : UInt8} {fs : List (Directive α)} {s r : List UInt8} {vs : List (α × Int)} :
      c ≠ 0 → Scans fs s vs r → Scans (.literal c :: fs) (c :: s) vs r
  | decimal {dst : α} {fs : List (Directive α)} {s r : List UInt8} {vs : List (α × Int)}
      (n : Numeral) : s ≠ [] → noDigit s = true → Scans fs s vs r →
      Scans (.decimal dst :: fs) (n.text ++ s) ((dst, n.value) :: vs) r

variable {α : Type*}

theorem scan_of_scans {fs : List (Directive α)} {s r : List UInt8} {vs : List (α × Int)}
    (h : Scans fs s vs r) : scan fs s = ⟨vs, .done, r⟩ := by
  induction h with
  | nil => rfl
  | literal hc _ ih =>
    simp only [scan, scanLiteral, if_neg hc, ↓reduceIte]
    exact ih
  | @decimal dst fs s r vs n hne hnd _ ih =>
    obtain ⟨c, t, rfl⟩ := List.exists_cons_of_ne_nil hne
    have hc : isdigit c = false := by simpa [noDigit] using hnd
    simp only [scan, scanDecimal_text n hc, ih]

theorem scans_of_scan {fs : List (Directive α)} {s r : List UInt8} {vs : List (α × Int)}
    (h : scan fs s = ⟨vs, .done, r⟩) : Scans fs s vs r := by
  induction fs generalizing s vs with
  | nil =>
    cases h
    exact .nil _
  | cons f fs ih =>
    cases f with
    | literal c =>
      simp only [scan] at h
      cases s with
      | nil => simp [scanLiteral] at h
      | cons b s =>
        by_cases hb : b = 0
        · simp [scanLiteral, hb] at h
        by_cases hbc : b = c
        · simp only [scanLiteral, if_neg hb, if_pos hbc] at h
          exact hbc ▸ .literal hb (ih h)
        · simp [scanLiteral, hb, hbc] at h
    | decimal dst =>
      simp only [scan] at h
      cases hd : scanDecimal s with
      | error stop =>
        rw [hd] at h
        simp only [ScanResult.mk.injEq] at h
        exact absurd h.2.1 (scanDecimal_ne_done hd)
      | ok p =>
        obtain ⟨v, t⟩ := p
        rw [hd] at h
        obtain ⟨n, rfl, rfl, hne, hnd⟩ := scanDecimal_ok hd
        simp only [ScanResult.mk.injEq] at h
        obtain ⟨rfl, hstop, hrest⟩ := h
        refine .decimal n hne hnd (ih ?_)
        rw [← hstop, ← hrest]

/-- **`sscanf` finishes exactly on the texts its format describes.** -/
theorem scan_done_iff {fs : List (Directive α)} {s r : List UInt8} {vs : List (α × Int)} :
    scan fs s = ⟨vs, .done, r⟩ ↔ Scans fs s vs r :=
  ⟨scans_of_scan, scan_of_scans⟩

/-- The conversions of a format. -/
def conversions : List (Directive α) → Nat
  | [] => 0
  | .decimal _ :: fs => conversions fs + 1
  | .literal _ :: fs => conversions fs

/-- Whether a format is empty or ends in a conversion. -/
def closed : List (Directive α) → Bool
  | [] => true
  | [.literal _] => false
  | _ :: fs => closed fs

theorem conversions_pos {fs : List (Directive α)} (h : closed fs = true) (hne : fs ≠ []) :
    0 < conversions fs := by
  induction fs with
  | nil => exact absurd rfl hne
  | cons f fs ih =>
    cases f with
    | decimal dst => exact Nat.succ_pos _
    | literal c =>
      cases fs with
      | nil => cases h
      | cons g fs => exact ih h (List.cons_ne_nil _ _)

/-- A format that ends in a conversion is finished exactly when its last conversion is stored. -/
theorem scan_done_iff_assigned {fs : List (Directive α)} (hclosed : closed fs = true)
    (s : List UInt8) :
    (scan fs s).stop = .done ↔ (scan fs s).assigned.length = conversions fs := by
  induction fs generalizing s with
  | nil => simp [scan, conversions]
  | cons f fs ih =>
    cases f with
    | literal c =>
      cases fs with
      | nil => cases hclosed
      | cons g fs =>
        have hpos : 0 < conversions (g :: fs) :=
          conversions_pos (show closed (g :: fs) = true from hclosed) (List.cons_ne_nil g fs)
        rw [scan, conversions]
        cases hl : scanLiteral c s with
        | error stop =>
          constructor
          · intro h
            exact absurd h (scanLiteral_ne_done hl)
          · intro h
            exact absurd (h ▸ hpos) (lt_irrefl 0)
        | ok r => exact ih hclosed r
    | decimal dst =>
      have htail : closed fs = true := by
        cases fs with
        | nil => rfl
        | cons g fs => exact hclosed
      simp only [scan, conversions]
      cases hd : scanDecimal s with
      | error stop =>
        constructor
        · intro h
          exact absurd h (scanDecimal_ne_done hd)
        · intro h
          simp at h
      | ok p =>
        simp only [List.length_cons, Nat.add_right_cancel_iff]
        exact ih htail p.2

/-! ## Longer texts

A scan that ends inside its text ends the same way on every longer text. -/

private theorem skipSign_append (b : UInt8) (r x : List UInt8) :
    skipSign (b :: r ++ x) = skipSign (b :: r) ++ x := by
  simp only [List.cons_append, skipSign]
  split_ifs <;> rfl

private theorem dropWhile_append_of_cons {p : UInt8 → Bool} {s t x : List UInt8} {b : UInt8}
    (h : s.dropWhile p = b :: t) : (s ++ x).dropWhile p = b :: t ++ x := by
  rw [List.dropWhile_append, h]
  rfl

private theorem takeWhile_append_of_cons {p : UInt8 → Bool} {s t x : List UInt8} {b : UInt8}
    (h : s.dropWhile p = b :: t) : (s ++ x).takeWhile p = s.takeWhile p := by
  rw [List.takeWhile_append, if_neg]
  intro hlen
  have := congrArg List.length (List.takeWhile_append_dropWhile (p := p) (l := s))
  rw [List.length_append, h, List.length_cons] at this
  omega

theorem scanDecimal_append {s : List UInt8} (x : List UInt8)
    (h : scanDecimal s ≠ .error .overrun) :
    scanDecimal (s ++ x) = (scanDecimal s).map fun p => (p.1, p.2 ++ x) := by
  unfold scanDecimal at h ⊢
  cases hskip : s.dropWhile isspace with
  | nil => simp [hskip] at h
  | cons b r =>
    rw [hskip] at h
    rw [dropWhile_append_of_cons hskip]
    dsimp only [List.cons_append] at h ⊢
    by_cases hb : b = 0
    · simp [hb, Except.map]
    rw [if_neg hb] at h
    rw [if_neg hb, if_neg hb]
    cases hdig : (skipSign (b :: r)).dropWhile isdigit with
    | nil => simp [hdig] at h
    | cons c t =>
      rw [← List.cons_append, skipSign_append, dropWhile_append_of_cons hdig,
        takeWhile_append_of_cons hdig]
      dsimp only [List.cons_append]
      split_ifs <;> rfl

/-- **A scan that is not overrun is decided by its text.** -/
theorem scan_append {fs : List (Directive α)} {s : List UInt8} (x : List UInt8)
    (h : (scan fs s).stop ≠ .overrun) :
    scan fs (s ++ x) = { scan fs s with rest := (scan fs s).rest ++ x } := by
  induction fs generalizing s with
  | nil => rfl
  | cons f fs ih =>
    cases f with
    | literal c =>
      simp only [scan] at h ⊢
      cases s with
      | nil => simp [scanLiteral] at h
      | cons b s =>
        simp only [List.cons_append, scanLiteral] at h ⊢
        split_ifs at h ⊢ with hb hbc
        · rfl
        · exact ih h
        · rfl
    | decimal dst =>
      simp only [scan] at h ⊢
      have hne : scanDecimal s ≠ .error .overrun := fun he => by simp [he] at h
      rw [scanDecimal_append x hne]
      cases hd : scanDecimal s with
      | error stop => rfl
      | ok p =>
        simp only [hd] at h
        simp only [Except.map, ih h]

end EthIo.Base
