import Mathlib.Data.List.Basic
import Mathlib.Data.List.TakeWhile
import Mathlib.Tactic.Linarith
import Mathlib.Tactic.Ring

/-!
# Decimal numerals over bytes

The text of a decimal integer as the C library reads it: optional white space, an optional sign, and
one or more digits. `Numeral` carries the three parts with the proofs that they are what they claim
to be, so a numeral that exists is well formed. Its value is what is left in a 32-bit `int` of the
integer the text denotes.

A numeral is compared with a bound **as text**: leading zeros dropped, a shorter numeral is smaller,
and of two equally long ones the first differing digit decides. `notAbove_iff` says that this
comparison of digits is the comparison of the integers, and `Numeral.value_iff` what else has its
value in the range: a numeral too large for an `int` whose low 32 bits are there.
-/

namespace EthIo.Base

/-- The bytes of an ASCII string, without a terminating NUL. -/
def ascii (s : String) : List UInt8 := s.toList.map Char.toUInt8

/-- C's `isspace` in the "C" locale. -/
def isspace (b : UInt8) : Bool := b = 32 || (9 ≤ b && b ≤ 13)

/-- C's `isdigit`. -/
def isdigit (b : UInt8) : Bool := 48 ≤ b && b ≤ 57

theorem isdigit_iff {b : UInt8} : isdigit b = true ↔ 48 ≤ b.toNat ∧ b.toNat ≤ 57 := by
  simp only [isdigit, Bool.and_eq_true, decide_eq_true_eq, UInt8.le_iff_toNat_le]
  rfl

theorem isspace_iff {b : UInt8} :
    isspace b = true ↔ b.toNat = 32 ∨ (9 ≤ b.toNat ∧ b.toNat ≤ 13) := by
  simp only [isspace, Bool.or_eq_true, Bool.and_eq_true, decide_eq_true_eq, UInt8.le_iff_toNat_le,
    ← UInt8.toNat_inj]
  rfl

/-- A text that does not go on with a digit, empty texts included. -/
def noDigit : List UInt8 → Bool
  | [] => true
  | b :: _ => !isdigit b

/-! ## Digit strings -/

/-- The number a digit denotes. -/
def digitVal (b : UInt8) : Nat := b.toNat - 48

/-- The number a string of digits denotes, most significant digit first. -/
def digitsVal (ds : List UInt8) : Nat := ds.foldl (fun acc b => 10 * acc + digitVal b) 0

theorem foldl_digits (ds : List UInt8) (acc : Nat) :
    ds.foldl (fun acc b => 10 * acc + digitVal b) acc = acc * 10 ^ ds.length + digitsVal ds := by
  induction ds generalizing acc with
  | nil => simp [digitsVal]
  | cons d ds ih =>
    have h := ih (digitVal d)
    have hd : digitsVal (d :: ds) = digitVal d * 10 ^ ds.length + digitsVal ds := by
      rw [← h, digitsVal, List.foldl_cons, Nat.mul_zero, Nat.zero_add]
    rw [List.foldl_cons, ih, hd, List.length_cons, Nat.pow_succ]
    ring

theorem digitsVal_cons (d : UInt8) (ds : List UInt8) :
    digitsVal (d :: ds) = digitVal d * 10 ^ ds.length + digitsVal ds := by
  rw [digitsVal, List.foldl_cons, foldl_digits, Nat.mul_zero, Nat.zero_add]

theorem digitVal_lt {d : UInt8} (h : isdigit d = true) : digitVal d < 10 := by
  have := isdigit_iff.mp h
  unfold digitVal
  omega

theorem digitsVal_lt {ds : List UInt8} (h : ∀ d ∈ ds, isdigit d = true) :
    digitsVal ds < 10 ^ ds.length := by
  induction ds with
  | nil => simp [digitsVal]
  | cons d ds ih =>
    have hd := digitVal_lt (h d List.mem_cons_self)
    have ht := ih fun x hx => h x (List.mem_cons_of_mem _ hx)
    rw [digitsVal_cons, List.length_cons, Nat.pow_succ]
    nlinarith

/-! ## Comparing digit strings as text -/

/-- A digit string without its leading zeros. -/
def significant (ds : List UInt8) : List UInt8 := ds.dropWhile (· = 48)

theorem digitsVal_significant (ds : List UInt8) : digitsVal (significant ds) = digitsVal ds := by
  induction ds with
  | nil => rfl
  | cons d ds ih =>
    by_cases hd : d = 48
    · have hzero : digitVal d = 0 := by rw [hd]; rfl
      rw [significant, List.dropWhile_cons_of_pos (by simpa using hd), digitsVal_cons, hzero,
        Nat.zero_mul, Nat.zero_add]
      exact ih
    · rw [significant, List.dropWhile_cons_of_neg (by simpa using hd)]

theorem significant_digit {ds : List UInt8} (h : ∀ d ∈ ds, isdigit d = true) :
    ∀ d ∈ significant ds, isdigit d = true :=
  fun d hd => h d (List.dropWhile_sublist _ |>.mem hd)

/-- A digit string that keeps a significant digit is at least the power of ten of its length. -/
theorem le_digitsVal_significant {ds : List UInt8} (h : ∀ d ∈ ds, isdigit d = true)
    (hne : significant ds ≠ []) : 10 ^ ((significant ds).length - 1) ≤ digitsVal ds := by
  rw [← digitsVal_significant]
  cases hs : significant ds with
  | nil => exact absurd hs hne
  | cons d rest =>
    have hd : isdigit d = true := significant_digit h d (by rw [hs]; exact List.mem_cons_self)
    have hnot : d ≠ 48 := by
      have hhead := List.head?_dropWhile_not (fun b : UInt8 => decide (b = 48)) ds
      rw [show ds.dropWhile (fun b => decide (b = 48)) = d :: rest from hs] at hhead
      simpa using hhead
    have hpos : 1 ≤ digitVal d := by
      have := isdigit_iff.mp hd
      have hn : d.toNat ≠ 48 := fun h48 => hnot (UInt8.toNat_inj.mp h48)
      unfold digitVal
      omega
    rw [digitsVal_cons, List.length_cons, Nat.add_sub_cancel]
    nlinarith [Nat.zero_le (digitsVal rest), Nat.pow_pos (n := rest.length) (show 0 < 10 by decide)]

/-- Of two equally long digit strings, the first is not above the second: the first digit in which
they differ is the smaller one. -/
def notAfter : List UInt8 → List UInt8 → Bool
  | a :: as, b :: bs => a < b || (a = b && notAfter as bs)
  | _, _ => true

theorem notAfter_iff {as bs : List UInt8} (ha : ∀ d ∈ as, isdigit d = true)
    (hb : ∀ d ∈ bs, isdigit d = true) (hlen : as.length = bs.length) :
    notAfter as bs = true ↔ digitsVal as ≤ digitsVal bs := by
  induction as generalizing bs with
  | nil =>
    have : bs = [] := List.eq_nil_of_length_eq_zero hlen.symm
    subst this
    simp [notAfter]
  | cons a as ih =>
    cases bs with
    | nil => simp at hlen
    | cons b bs =>
      have ha' : ∀ d ∈ as, isdigit d = true := fun d hd => ha d (List.mem_cons_of_mem _ hd)
      have hb' : ∀ d ∈ bs, isdigit d = true := fun d hd => hb d (List.mem_cons_of_mem _ hd)
      have hlen' : as.length = bs.length := by simpa using hlen
      have hA := digitsVal_lt ha'
      have hB := digitsVal_lt hb'
      have da := isdigit_iff.mp (ha a List.mem_cons_self)
      have db := isdigit_iff.mp (hb b List.mem_cons_self)
      rw [digitsVal_cons, digitsVal_cons, hlen', notAfter]
      rw [hlen'] at hA
      simp only [Bool.or_eq_true, decide_eq_true_eq, Bool.and_eq_true, UInt8.lt_iff_toNat_lt,
        ih ha' hb' hlen', ← UInt8.toNat_inj, digitVal]
      -- the first digits decide, and only if they agree do the rests
      rcases Nat.lt_trichotomy a.toNat b.toNat with hlt | heq | hgt
      · have : (a.toNat - 48 + 1) * 10 ^ bs.length ≤ (b.toNat - 48) * 10 ^ bs.length :=
          Nat.mul_le_mul_right _ (by omega)
        constructor
        · intro _
          linarith [Nat.succ_mul (a.toNat - 48) (10 ^ bs.length)]
        · intro _
          exact .inl hlt
      · rw [heq]
        simp
      · have : (b.toNat - 48 + 1) * 10 ^ bs.length ≤ (a.toNat - 48) * 10 ^ bs.length :=
          Nat.mul_le_mul_right _ (by omega)
        constructor
        · rintro (h | ⟨h, _⟩) <;> omega
        · intro h
          linarith [Nat.succ_mul (b.toNat - 48) (10 ^ bs.length)]

/-- `ds` is not above `bound`, compared as text. -/
def notAbove (ds bound : List UInt8) : Bool :=
  (significant ds).length < bound.length ||
    ((significant ds).length = bound.length && notAfter (significant ds) bound)

/-- **Text order is value order**, for a bound written without leading zeros. -/
theorem notAbove_iff {ds bound : List UInt8} (h : ∀ d ∈ ds, isdigit d = true)
    (hb : ∀ d ∈ bound, isdigit d = true) (hlead : significant bound = bound) (hne : bound ≠ []) :
    notAbove ds bound = true ↔ digitsVal ds ≤ digitsVal bound := by
  have hsig := significant_digit h
  simp only [notAbove, Bool.or_eq_true, Bool.and_eq_true, decide_eq_true_eq]
  have hbound : 10 ^ (bound.length - 1) ≤ digitsVal bound := by
    have := le_digitsVal_significant hb (hlead.symm ▸ hne)
    rwa [hlead] at this
  rcases Nat.lt_trichotomy (significant ds).length bound.length with hlt | heq | hgt
  · have hlow : digitsVal ds < 10 ^ (significant ds).length :=
      digitsVal_significant ds ▸ digitsVal_lt hsig
    have hpow : 10 ^ (significant ds).length ≤ 10 ^ (bound.length - 1) :=
      Nat.pow_le_pow_right (by decide) (by omega)
    constructor
    · intro _
      omega
    · intro _
      exact .inl hlt
  · rw [notAfter_iff hsig hb heq, digitsVal_significant]
    constructor
    · rintro (h' | ⟨_, h'⟩)
      · omega
      · exact h'
    · intro h'
      exact .inr ⟨heq, h'⟩
  · have hlow : 10 ^ ((significant ds).length - 1) ≤ digitsVal ds :=
      le_digitsVal_significant h (by intro hnil; simp [hnil] at hgt)
    have hpow : 10 ^ bound.length ≤ 10 ^ ((significant ds).length - 1) :=
      Nat.pow_le_pow_right (by decide) (by omega)
    have hup : digitsVal bound < 10 ^ bound.length := digitsVal_lt hb
    constructor
    · rintro (h' | ⟨h', _⟩) <;> omega
    · intro h'
      omega

/-! ## Numerals -/

/-- The sign of a numeral, as written. -/
inductive Sign
  | none
  | plus
  | minus
  deriving DecidableEq, Repr

/-- The bytes of a sign. -/
def Sign.text : Sign → List UInt8
  | .none => []
  | .plus => ascii "+"
  | .minus => ascii "-"

/-- What is left of an integer in an `int`: the low 32 bits. -/
def toInt (z : Int) : Int := z.bmod (2 ^ 32)

theorem toInt_of_fits {z : Int} (hlo : -2147483648 ≤ z) (hhi : z ≤ 2147483647) : toInt z = z :=
  Int.bmod_eq_of_le (by omega) (by omega)

/-- In a range of an `int` without negative numbers the low 32 bits decide. -/
theorem toInt_iff {z lo hi : Int} (hlo : 0 ≤ lo) (hhi : hi ≤ 2147483647) :
    (lo ≤ toInt z ∧ toInt z ≤ hi) ↔ lo ≤ z % 4294967296 ∧ z % 4294967296 ≤ hi := by
  have hmod : toInt z % 4294967296 = z % 4294967296 := Int.bmod_emod
  have hle : -2147483648 ≤ toInt z := Int.le_bmod (by decide)
  have hlt : toInt z < 2147483648 := Int.bmod_lt (by decide)
  omega

/-- The integer a sign and a digit string denote. -/
def signedInt (minus : Bool) (ds : List UInt8) : Int :=
  if minus then -(digitsVal ds : Int) else digitsVal ds

/-- The `int` that is stored for them. -/
def signedVal (minus : Bool) (ds : List UInt8) : Int := toInt (signedInt minus ds)

/-- The text of one decimal integer. -/
@[ext] structure Numeral where
  blanks : List UInt8
  sign : Sign
  digits : List UInt8
  blanks_space : ∀ b ∈ blanks, isspace b = true
  digits_digit : ∀ b ∈ digits, isdigit b = true
  digits_ne : digits ≠ []

namespace Numeral

/-- The bytes of a numeral. -/
def text (n : Numeral) : List UInt8 := n.blanks ++ (n.sign.text ++ n.digits)

/-- The integer it denotes. -/
def integer (n : Numeral) : Int := signedInt (n.sign = .minus) n.digits

/-- The `int` that is stored for it. -/
def value (n : Numeral) : Int := signedVal (n.sign = .minus) n.digits

/-- A numeral has no NUL in it. -/
theorem text_length_pos (n : Numeral) : 0 < n.text.length := by
  have := List.length_pos_of_ne_nil n.digits_ne
  simp only [text, List.length_append]
  omega

theorem zero_not_mem_text (n : Numeral) : (0 : UInt8) ∉ n.text := by
  intro h
  rcases List.mem_append.mp h with h | h
  · exact absurd (n.blanks_space 0 h) (by decide)
  rcases List.mem_append.mp h with h | h
  · revert h
    cases n.sign <;> decide
  · exact absurd (n.digits_digit 0 h) (by decide)

/-- An integer in a range that starts at zero, as text: not above the bound, and a minus sign only
before zeros. -/
def upTo (bound : List UInt8) (n : Numeral) : Bool :=
  notAbove n.digits bound && (n.sign ≠ .minus || significant n.digits = [])

/-- An integer in a range that starts at one, as text. -/
def fromOneUpTo (bound : List UInt8) (n : Numeral) : Bool :=
  notAbove n.digits bound && n.sign ≠ .minus && significant n.digits ≠ []

/-- An integer that an `int` holds. -/
def fits (n : Numeral) : Bool := -2147483648 ≤ n.integer && n.integer ≤ 2147483647

/-- One that does not, and is a multiple of `2 ^ 32` away from the range. -/
def wrapsInto (lo hi : Int) (n : Numeral) : Bool :=
  !n.fits && lo ≤ n.integer % 4294967296 && n.integer % 4294967296 ≤ hi

/-- **The values in a range without negative numbers** are the integers in it and those that wrap
into it. -/
theorem value_iff (n : Numeral) {lo hi : Int} (hlo : 0 ≤ lo) (hhi : hi ≤ 2147483647) :
    (lo ≤ n.value ∧ n.value ≤ hi) ↔
      (lo ≤ n.integer ∧ n.integer ≤ hi) ∨ n.wrapsInto lo hi = true := by
  have hvalue : n.value = toInt n.integer := rfl
  cases hfits : n.fits with
  | true =>
    have hin := hfits
    simp only [fits, Bool.and_eq_true, decide_eq_true_eq] at hin
    have hsame : n.value = n.integer := hvalue.trans (toInt_of_fits hin.1 hin.2)
    simp only [hsame, wrapsInto, hfits, Bool.not_true, Bool.false_and, Bool.false_eq_true, or_false]
  | false =>
    have hout := hfits
    simp only [fits, Bool.and_eq_false_iff, decide_eq_false_iff_not] at hout
    have hnot : ¬ (lo ≤ n.integer ∧ n.integer ≤ hi) := by omega
    simp only [hvalue, toInt_iff hlo hhi, wrapsInto, hfits, Bool.not_false, Bool.true_and,
      Bool.and_eq_true, decide_eq_true_eq, or_iff_right hnot]

theorem significant_eq_nil_iff {ds : List UInt8} (h : ∀ d ∈ ds, isdigit d = true) :
    significant ds = [] ↔ digitsVal ds = 0 := by
  constructor
  · intro hnil
    rw [← digitsVal_significant, hnil]
    rfl
  · intro hzero
    by_contra hne
    have := le_digitsVal_significant h hne
    have : 0 < 10 ^ ((significant ds).length - 1) := Nat.pow_pos (by decide)
    omega

variable {bound : List UInt8} (hb : ∀ d ∈ bound, isdigit d = true)
  (hlead : significant bound = bound) (hne : bound ≠ [])

include hb hlead hne

theorem upTo_iff (n : Numeral) :
    n.upTo bound = true ↔ 0 ≤ n.integer ∧ n.integer ≤ digitsVal bound := by
  simp only [upTo, Bool.and_eq_true, Bool.or_eq_true, decide_eq_true_eq, ne_eq, decide_not,
    notAbove_iff n.digits_digit hb hlead hne, significant_eq_nil_iff n.digits_digit, integer,
    signedInt, Bool.not_eq_true', decide_eq_false_iff_not]
  by_cases hs : n.sign = .minus
  · rw [if_pos hs]
    simp only [hs, not_true_eq_false, false_or]
    omega
  · rw [if_neg hs]
    simp only [hs, not_false_eq_true, true_or, and_true]
    omega

theorem fromOneUpTo_iff (n : Numeral) :
    n.fromOneUpTo bound = true ↔ 1 ≤ n.integer ∧ n.integer ≤ digitsVal bound := by
  simp only [fromOneUpTo, Bool.and_eq_true, decide_eq_true_eq, ne_eq, decide_not,
    notAbove_iff n.digits_digit hb hlead hne, significant_eq_nil_iff n.digits_digit, integer,
    signedInt, Bool.not_eq_true', decide_eq_false_iff_not]
  by_cases hs : n.sign = .minus
  · rw [if_pos hs]
    simp only [hs, not_true_eq_false, and_false, false_and, false_iff]
    omega
  · rw [if_neg hs]
    simp only [hs, not_false_eq_true, and_true]
    omega

end Numeral

end EthIo.Base
