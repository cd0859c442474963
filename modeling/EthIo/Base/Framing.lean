import Mathlib.Data.List.Induction

/-!
# A stream cut into frames

A stream of pieces, some of which are the last of their frame. `cut` is the complete frames, in
order, and the pieces of the frame still open. Nothing of the stream is lost (`cut_flatten`), and
between two frames it can be cut in two (`cut_append`).
-/

namespace EthIo.Base

variable {α : Type*} (last : α → Bool)

/-- One piece more: it completes the open frame, or stays with it. -/
def cutStep (fs : List (List α) × List α) (a : α) : List (List α) × List α :=
  if last a then (fs.1 ++ [fs.2 ++ [a]], []) else (fs.1, fs.2 ++ [a])

/-- The complete frames of a stream, and the one that is open. -/
def cut (l : List α) : List (List α) × List α := l.foldl (cutStep last) ([], [])

variable {last} {l : List α} {a : α}

@[simp] theorem cut_nil : cut last [] = ([], []) := rfl

theorem cut_snoc (l : List α) (a : α) : cut last (l ++ [a]) = cutStep last (cut last l) a := by
  rw [cut, List.foldl_append]
  rfl

theorem cut_snoc_last (ha : last a = true) :
    cut last (l ++ [a]) = ((cut last l).1 ++ [(cut last l).2 ++ [a]], []) := by
  rw [cut_snoc, cutStep, if_pos ha]

theorem cut_snoc_open (ha : last a = false) :
    cut last (l ++ [a]) = ((cut last l).1, (cut last l).2 ++ [a]) := by
  rw [cut_snoc, cutStep, ha]
  rfl

/-- Every piece is in a frame, or in the open one. -/
theorem cut_flatten (l : List α) : (cut last l).1.flatten ++ (cut last l).2 = l := by
  induction l using List.reverseRecOn with
  | nil => rfl
  | append_singleton l a ih =>
    cases ha : last a with
    | true =>
      rw [cut_snoc_last ha, List.flatten_append, List.flatten_singleton, List.append_nil,
        ← List.append_assoc, ih]
    | false => rw [cut_snoc_open ha, ← List.append_assoc, ih]

/-- **Between two frames** a stream can be cut in two. -/
theorem cut_append (h : (cut last l).2 = []) (k : List α) :
    cut last (l ++ k) = ((cut last l).1 ++ (cut last k).1, (cut last k).2) := by
  induction k using List.reverseRecOn with
  | nil => rw [List.append_nil, cut_nil, List.append_nil, ← h]
  | append_singleton k a ih =>
    rw [← List.append_assoc]
    cases ha : last a with
    | true => rw [cut_snoc_last ha, cut_snoc_last ha, ih, List.append_assoc]
    | false => rw [cut_snoc_open ha, cut_snoc_open ha, ih]

/-- Pieces none of which is the last stay open. -/
theorem cut_open {k : List α} (h : ∀ a ∈ k, last a = false) (l : List α) :
    cut last (l ++ k) = ((cut last l).1, (cut last l).2 ++ k) := by
  induction k using List.reverseRecOn with
  | nil => rw [List.append_nil, List.append_nil]
  | append_singleton k a ih =>
    have ha := h a (List.mem_append_right _ (List.mem_singleton_self a))
    rw [← List.append_assoc, cut_snoc_open ha,
      ih fun b hb => h b (List.mem_append_left _ hb), List.append_assoc]

/-- A stream with no last piece is one open frame. -/
theorem cut_of_open {k : List α} (h : ∀ a ∈ k, last a = false) : cut last k = ([], k) := by
  have hopen := cut_open h []
  rwa [List.nil_append, cut_nil, List.nil_append] at hopen

/-- One frame, and the stream behind it. -/
theorem cut_frame {f : List α} (h : ∀ b ∈ f, last b = false) (ha : last a = true) (k : List α) :
    cut last (f ++ [a] ++ k) = ((f ++ [a]) :: (cut last k).1, (cut last k).2) := by
  have hframe : cut last (f ++ [a]) = ([f ++ [a]], []) := by
    rw [cut_snoc_last ha, cut_of_open h, List.nil_append]
  rw [cut_append (by rw [hframe]), hframe, List.singleton_append]

end EthIo.Base
