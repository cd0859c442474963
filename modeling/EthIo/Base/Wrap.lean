import Mathlib.Data.List.Sort
import Mathlib.Data.Nat.ModEq

/-!
# Agendas and clocks that wrap

A clock of modulus `M` shows `T % M` of the time `T`. The difference of two times it shows is that
of the times themselves modulo `M` (`modSub_eq`), and where these are close their order is read off
it: one lies before the other exactly where the difference is half the modulus or more
(`half_le_modSub_iff`).

An agenda is a list of what is due, sooner first, and of what is due at one time the earlier entry
first. A new entry goes before the first that is due later, so `List.orderedInsert` by a strict
order keeps it (`pairwise_orderedInsert`), and the earlier entries stay in front of it.
-/

namespace EthIo.Base

/-! ## Differences modulo `M` -/

variable {M T C : Nat}

/-- The difference, as it is computed, and what it was taken from. -/
theorem modSub_add (M T C : Nat) (hM : 0 < M) : M - C % M + T % M + C ≡ T [MOD M] := by
  have hC : C % M < M := Nat.mod_lt C hM
  have hwhole : M - C % M + T % M + C % M = T % M + M := by omega
  calc M - C % M + T % M + C ≡ M - C % M + T % M + C % M [MOD M] :=
        (Nat.mod_modEq C M).symm.add_left _
    _ = T % M + M := hwhole
    _ ≡ T % M [MOD M] := by simp [Nat.ModEq]
    _ ≡ T [MOD M] := Nat.mod_modEq T M

theorem modSub_eq (hM : 0 < M) (hle : C ≤ T + M) :
    (M - C % M + T % M) % M = (T + M - C) % M := by
  apply Nat.ModEq.add_right_cancel' C
  rw [Nat.sub_add_cancel hle]
  exact (modSub_add M T C hM).trans (by simp [Nat.ModEq])

/-- **The order of two times** that are at most half a turn apart. -/
theorem half_le_modSub_iff {k : Nat} (hlt : T < C + k) (hle : C ≤ T + k) :
    k ≤ (2 * k - C % (2 * k) + T % (2 * k)) % (2 * k) ↔ T < C := by
  rw [modSub_eq (by omega) (by omega)]
  rcases Nat.lt_or_ge T C with h | h
  · rw [Nat.mod_eq_of_lt (by omega)]
    omega
  · have hturn : T + 2 * k - C = T - C + 2 * k := by omega
    rw [hturn, Nat.add_mod_right, Nat.mod_eq_of_lt (by omega)]
    omega

/-! ## Agendas -/

section Agenda

variable {α : Type*} {due : α → Nat} {l : List α} {a b : α}

/-- **An agenda stays one** with a new entry. -/
theorem pairwise_orderedInsert (h : l.Pairwise fun a b => due a ≤ due b) (a : α) :
    (l.orderedInsert (fun a b => due a < due b) a).Pairwise fun a b => due a ≤ due b := by
  induction l with
  | nil => exact List.pairwise_singleton _ a
  | cons b l ih =>
    obtain ⟨hb, hl⟩ := List.pairwise_cons.mp h
    rw [List.orderedInsert_cons]
    split_ifs with hlt
    · refine List.pairwise_cons.mpr ⟨?_, h⟩
      intro c hc
      rcases List.mem_cons.mp hc with rfl | hc
      · exact Nat.le_of_lt hlt
      · exact Nat.le_trans (Nat.le_of_lt hlt) (hb c hc)
    · refine List.pairwise_cons.mpr ⟨?_, ih hl⟩
      intro c hc
      rcases (List.mem_orderedInsert _).mp hc with rfl | hc
      · exact Nat.le_of_not_lt hlt
      · exact hb c hc

end Agenda

end EthIo.Base
