import Mathlib.Data.List.Perm.Basic
import EthIo.Base.Machine

/-!
# Bounded deques

A deque has at most `cap` items. Its users push at either end, pop and look at the front, and are
told where there is no room or nothing to pop; a deque for one item also lets it be replaced. What
they did and were told, in order, is a list of events, and `deque` accepts the lists that can come
of a deque.

Along an accepted list nothing is lost or made up: what was pushed is what was popped and what is
left (`deque_perm`), in that order if all pushes were to the back (`deque_fifo`).
-/

namespace EthIo.Base

/-- What a user of a deque has done or been told. -/
inductive DequeEvent (α : Type*)
  | pushedBack (x : α)
  | pushedFront (x : α)
  | replaced (x : α)
  | popped (x : α)
  | looked (x : α)
  | full
  | empty

variable {α : Type*}

namespace DequeEvent

/-- The item of a push. -/
def pushed? : DequeEvent α → Option α
  | .pushedBack x | .pushedFront x | .replaced x => some x
  | _ => none

/-- The item of a pop. -/
def popped? : DequeEvent α → Option α
  | .popped x => some x
  | _ => none

/-- Not a push to the front, and not a replacement. -/
def backed : DequeEvent α → Bool
  | .pushedFront _ | .replaced _ => false
  | _ => true

/-- Not a replacement. -/
def keeping : DequeEvent α → Bool
  | .replaced _ => false
  | _ => true

end DequeEvent

/-- A deque of at most `cap` items, the front one first. -/
def deque [DecidableEq α] (cap : Nat) : Machine (List α) (DequeEvent α) where
  step := fun xs e =>
    match e with
    | .pushedBack x => if xs.length < cap then some (xs ++ [x]) else none
    | .pushedFront x => if xs.length < cap then some (x :: xs) else none
    | .replaced x => if cap = 1 then some [x] else none
    | .popped x => if xs.head? = some x then some xs.tail else none
    | .looked x => if xs.head? = some x then some xs else none
    | .full => if xs.length = cap then some xs else none
    | .empty => if xs.length = 0 then some xs else none

/-- The items pushed, in order. -/
def pushes (es : List (DequeEvent α)) : List α := es.filterMap DequeEvent.pushed?

/-- The items popped, in order. -/
def pops (es : List (DequeEvent α)) : List α := es.filterMap DequeEvent.popped?

theorem cons_tail_of_head {xs : List α} {x : α} (h : xs.head? = some x) : x :: xs.tail = xs :=
  List.cons_head?_tail (Option.mem_def.mpr h)

theorem filterMap_cons_toList {β : Type*} (f : α → Option β) (a : α) (l : List α) :
    (a :: l).filterMap f = (f a).toList ++ l.filterMap f := by
  cases h : f a with
  | none => rw [List.filterMap_cons_none h, Option.toList_none, List.nil_append]
  | some b => rw [List.filterMap_cons_some h, Option.toList_some, List.singleton_append]

section Deque

variable [DecidableEq α] {cap : Nat} {xs ys : List α} {e : DequeEvent α}
  {es : List (DequeEvent α)}

/-- One more event at the end. -/
theorem deque_snoc {xs₀ : List α} (h : (deque cap).exec xs₀ es = some xs)
    (hstep : (deque cap).step xs e = some ys) : (deque cap).exec xs₀ (es ++ [e]) = some ys := by
  rw [Machine.exec_append, h]
  change (deque cap).exec xs [e] = some ys
  rw [Machine.exec_cons, hstep]
  rfl

/-- What one event does to the items, up to their order. -/
theorem deque_step_perm (hstep : (deque cap).step xs e = some ys) (he : e.keeping = true) :
    (xs ++ e.pushed?.toList).Perm (e.popped?.toList ++ ys) := by
  cases e <;> simp only [deque] at hstep
  case replaced x => cases he
  all_goals
    split at hstep
    next hcond =>
      cases hstep
      simp only [DequeEvent.pushed?, DequeEvent.popped?, Option.toList_none, Option.toList_some,
        List.nil_append, List.append_nil, List.singleton_append]
      first
        | exact List.Perm.refl _
        | exact List.perm_append_singleton _ _
        | rw [cons_tail_of_head hcond]
    next => cases hstep

/-- What one event does to them, in order. -/
theorem deque_step_fifo (hstep : (deque cap).step xs e = some ys) (he : e.backed = true) :
    xs ++ e.pushed?.toList = e.popped?.toList ++ ys := by
  cases e <;> simp only [deque] at hstep
  case pushedFront x => cases he
  case replaced x => cases he
  all_goals
    split at hstep
    next hcond =>
      cases hstep
      simp only [DequeEvent.pushed?, DequeEvent.popped?, Option.toList_none, Option.toList_some,
        List.nil_append, List.append_nil, List.singleton_append]
      try rw [cons_tail_of_head hcond]
    next => cases hstep

/-- **First in, first out.** -/
theorem deque_fifo (h : (deque cap).exec xs es = some ys) (hes : ∀ e ∈ es, e.backed = true) :
    xs ++ pushes es = pops es ++ ys := by
  induction es generalizing xs with
  | nil =>
    cases h
    exact List.append_nil _
  | cons e es ih =>
    obtain ⟨zs, hstep, hrest⟩ := Machine.exec_cons_some h
    obtain ⟨he, hes⟩ := List.forall_mem_cons.mp hes
    calc xs ++ pushes (e :: es)
        = xs ++ e.pushed?.toList ++ pushes es := by
          rw [pushes, filterMap_cons_toList, ← List.append_assoc, ← pushes]
      _ = e.popped?.toList ++ (zs ++ pushes es) := by
          rw [deque_step_fifo hstep he, List.append_assoc]
      _ = pops (e :: es) ++ ys := by
          rw [ih hrest hes, pops, pops, filterMap_cons_toList, List.append_assoc]

/-- **Nothing is lost, and nothing comes twice.** -/
theorem deque_perm (h : (deque cap).exec xs es = some ys) (hes : ∀ e ∈ es, e.keeping = true) :
    (xs ++ pushes es).Perm (pops es ++ ys) := by
  induction es generalizing xs with
  | nil =>
    cases h
    exact .of_eq (List.append_nil _)
  | cons e es ih =>
    obtain ⟨zs, hstep, hrest⟩ := Machine.exec_cons_some h
    obtain ⟨he, hes⟩ := List.forall_mem_cons.mp hes
    have hfirst := (deque_step_perm hstep he).append_right (pushes es)
    have hlater := (ih hrest hes).append_left e.popped?.toList
    rw [List.append_assoc, List.append_assoc] at hfirst
    rw [pushes, pops, filterMap_cons_toList, filterMap_cons_toList, List.append_assoc]
    exact hfirst.trans hlater

end Deque

end EthIo.Base
