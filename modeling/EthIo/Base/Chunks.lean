import Mathlib.Data.List.Basic
import Mathlib.Data.List.Count

/-!
# Words in a stream cut into chunks

A `Code` is a family of words that mark their own beginning: the first letter of a word occurs in
words at their head only, and no word begins another. In a concatenation of such words a word is
therefore found exactly where it was put.

A stream of words can be cut into chunks anywhere. `opens` says that a place of the stream is the
start of a chunk that reaches a given length further. The theorem of this module counts: the chunks
that begin with a word are the occurrences of the word that open a chunk whole
(`heads_eq_countP`), and the occurrences that do not are `missed`, so that the two add up to
all occurrences of the word (`heads_add_missed`), however the stream is cut.
-/

namespace EthIo.Base

/-- A family of words that mark their own beginning. -/
structure Code (κ α : Type*) where
  word : κ → List α
  word_ne : ∀ c, word c ≠ []
  head_only : ∀ c d, ∀ b ∈ (word d).tail, (word c).head? ≠ some b
  separate : ∀ c d, word c <+: word d → c = d

/-- `n` letters from place `x` of the chunks on lie at the start of one chunk. -/
def opens {α : Type*} : List (List α) → Nat → Nat → Bool
  | [], _, _ => false
  | p :: ps, x, n =>
    if x = 0 then n ≤ p.length else p.length ≤ x && opens ps (x - p.length) n

/-- A count over an initial stretch and a further one. -/
private theorem countP_range_add (f : Nat → Bool) (n m : Nat) :
    (List.range (n + m)).countP f =
      (List.range n).countP f + (List.range m).countP fun y => f (n + y) := by
  rw [List.range_add, List.countP_append, List.countP_map]
  rfl

/-- A count over a stretch in which only the first place can count. -/
private theorem countP_range_first {f : Nat → Bool} {n : Nat} (hn : 0 < n)
    (h : ∀ y, 0 < y → y < n → f y = false) :
    (List.range n).countP f = if f 0 = true then 1 else 0 := by
  obtain ⟨m, rfl⟩ := Nat.exists_eq_add_of_lt hn
  rw [Nat.zero_add, Nat.add_comm, countP_range_add]
  have rest : (List.range m).countP (fun y => f (1 + y)) = 0 := by
    apply List.countP_eq_zero.mpr
    intro y hy
    have := List.mem_range.mp hy
    rw [h (1 + y) (by omega) (by omega)]
    exact Bool.noConfusion
  rw [rest, Nat.add_zero, List.range_one, List.countP_singleton]

namespace Code

variable {κ α : Type*} (C : Code κ α)

/-- A stream of words. -/
def text (ws : List κ) : List α := ws.flatMap C.word

theorem text_cons (d : κ) (ws : List κ) : C.text (d :: ws) = C.word d ++ C.text ws :=
  List.flatMap_cons

variable {C}

/-- At the head of a stream of words stands the first of them. -/
theorem prefix_text_iff {c d : κ} {s : List α} : C.word c <+: C.word d ++ s ↔ c = d := by
  constructor
  · intro h
    rcases List.prefix_or_prefix_of_prefix h (List.prefix_append _ _) with hcd | hdc
    · exact C.separate c d hcd
    · exact (C.separate d c hdc).symm
  · rintro rfl
    exact List.prefix_append _ _

/-- Inside a word no word begins. -/
theorem not_prefix_inside {c d : κ} {x : Nat} {s : List α} (hpos : 0 < x)
    (hx : x < (C.word d).length) : ¬ C.word c <+: ((C.word d ++ s).drop x) := by
  intro h
  obtain ⟨b, t, hc⟩ := List.exists_cons_of_ne_nil (C.word_ne c)
  obtain ⟨k, rfl⟩ := Nat.exists_eq_succ_of_ne_zero (Nat.ne_of_gt hpos)
  have htail : k < (C.word d).tail.length := by
    rw [List.length_tail]
    omega
  have hb : (C.word d ++ s).drop (k + 1) =
      (C.word d).tail[k] :: (C.word d ++ s).drop (k + 1 + 1) := by
    rw [List.drop_eq_getElem_cons (by rw [List.length_append]; omega)]
    congr 1
    rw [List.getElem_append_left hx, List.getElem_tail]
  rw [hc, hb] at h
  obtain ⟨rfl, -⟩ := List.cons_prefix_cons.mp h
  exact C.head_only c d _ (List.getElem_mem htail) (by rw [hc]; rfl)

section

variable [DecidableEq κ] [DecidableEq α]

variable (C) in
/-- The occurrences of `c` in a stream, from place `x` on, whose place is good. -/
def countAt (good : Nat → Bool) (c : κ) : Nat → List κ → Nat
  | _, [] => 0
  | x, d :: ws =>
    (if d = c ∧ good x = true then 1 else 0) + countAt good c (x + (C.word d).length) ws

variable (C) in
/-- The chunks that begin with a word. -/
def heads (c : κ) (chunks : List (List α)) : Nat := chunks.countP fun p => C.word c <+: p

variable (C) in
/-- The occurrences of a word that do not open a chunk whole. -/
def missed (c : κ) (ws : List κ) (chunks : List (List α)) : Nat :=
  C.countAt (fun x => !opens chunks x (C.word c).length) c 0 ws

omit [DecidableEq α] in
theorem countAt_add_not (good : Nat → Bool) (c : κ) (x : Nat) (ws : List κ) :
    C.countAt good c x ws + C.countAt (fun y => !good y) c x ws = ws.count c := by
  induction ws generalizing x with
  | nil => rfl
  | cons d ws ih =>
    have := ih (x + (C.word d).length)
    simp only [countAt, List.count_cons, beq_iff_eq]
    by_cases hd : d = c
    · by_cases hg : good x = true <;> simp [hd, hg] at this ⊢ <;> omega
    · simp only [hd, false_and, ↓reduceIte]
      omega

/-- **A word is found where it was put, and nowhere else.** -/
theorem countAt_eq_countP (good : Nat → Bool) (c : κ) (x : Nat) (ws : List κ) :
    C.countAt good c x ws =
      (List.range (C.text ws).length).countP fun y =>
        decide (C.word c <+: (C.text ws).drop y) && good (x + y) := by
  induction ws generalizing x with
  | nil => rfl
  | cons d ws ih =>
    have hpos : 0 < (C.word d).length := List.length_pos_of_ne_nil (C.word_ne d)
    rw [text_cons, List.length_append, countP_range_add, countP_range_first hpos, countAt, ih]
    · congr 1
      · refine if_congr ?_ rfl rfl
        rw [List.drop_zero, Nat.add_zero, Bool.and_eq_true, decide_eq_true_iff, prefix_text_iff,
          @eq_comm κ c]
      · apply List.countP_congr
        intro y _
        rw [List.drop_append, List.drop_eq_nil_of_le (Nat.le_add_right _ _), List.nil_append,
          Nat.add_sub_cancel_left, Nat.add_assoc]
    · intro y hy hlt
      rw [decide_eq_false (not_prefix_inside hy hlt), Bool.false_and]

/-! ## Chunks -/

omit [DecidableEq κ] in
/-- The chunks that begin with a word are the places where it is found that open a chunk. -/
theorem heads_eq_countP (c : κ) {chunks : List (List α)} (hne : ∀ p ∈ chunks, p ≠ []) :
    C.heads c chunks =
      (List.range chunks.flatten.length).countP fun x =>
        decide (C.word c <+: chunks.flatten.drop x) && opens chunks x (C.word c).length := by
  induction chunks with
  | nil => rfl
  | cons p ps ih =>
    have hpos : 0 < p.length := List.length_pos_of_ne_nil (hne p List.mem_cons_self)
    have htail := ih fun q hq => hne q (List.mem_cons_of_mem _ hq)
    rw [heads, List.countP_cons, Nat.add_comm, List.flatten_cons, List.length_append,
      countP_range_add, countP_range_first hpos]
    · congr 1
      · simp only [List.drop_zero, opens, ↓reduceIte, Bool.and_eq_true, decide_eq_true_eq]
        congr 1
        refine propext ⟨fun h => ⟨h.trans (List.prefix_append _ _), h.length_le⟩, ?_⟩
        intro h
        exact List.prefix_of_prefix_length_le h.1 (List.prefix_append _ _) h.2
      · refine htail.trans (List.countP_congr fun y _ => ?_)
        rw [List.drop_append, List.drop_eq_nil_of_le (Nat.le_add_right _ _), List.nil_append,
          Nat.add_sub_cancel_left, opens, if_neg (by omega), Nat.add_sub_cancel_left]
        simp
    · intro y hy hlt
      have hnot : ¬ p.length ≤ y := by omega
      rw [opens, if_neg (Nat.ne_of_gt hy), decide_eq_false hnot, Bool.false_and, Bool.and_false]

/-- **However a stream is cut**, the chunks that begin with a word and its occurrences that do not
open a chunk whole make up all its occurrences. -/
theorem heads_add_missed (c : κ) {ws : List κ} {chunks : List (List α)}
    (hne : ∀ p ∈ chunks, p ≠ []) (hcut : chunks.flatten = C.text ws) :
    C.heads c chunks + C.missed c ws chunks = ws.count c := by
  have hheads : C.heads c chunks =
      C.countAt (fun x => opens chunks x (C.word c).length) c 0 ws := by
    rw [heads_eq_countP c hne, countAt_eq_countP, hcut]
    simp only [Nat.zero_add]
  rw [hheads]
  exact countAt_add_not _ c 0 ws

end

end Code

end EthIo.Base
