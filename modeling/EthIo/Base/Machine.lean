import Mathlib.Data.List.Basic

/-!
# Step machines and their runs

A machine is a partial step function over labels: `none` says that the label is not enabled in
the state. A **run** is a list of labels the machine accepts from a state. Two readings of a run
are named here and used everywhere else: `Always P` says that `P` holds of every state the run
visits, and `Guarded G` says that every step of it is taken in a state where `G` allows the label.

The rules are the two halves of one correspondence (`always_iff_guarded`). An invariant that every
guarded step keeps carries `P` along a guarded run; and where an unguarded step always lands in a
state that breaks `P`, a run on which `P` holds throughout was guarded throughout. Only the first
half is needed for safety; the second says that the guard is not too strong.

`observe` attaches a history variable to a machine. The observed machine takes exactly the steps of
the machine below it (`exec_observe`), so a history variable never restricts a run, and an exact
guard may speak of it on the runs of the machine below (`observe_always_iff_guarded`).

Of the infinite runs of a machine nothing is said: a property of these is a property of every finite
prefix. Where every step is possible, and what comes of it is decided outside, `endless` is the run
an endless sequence of outcomes drives.
-/

namespace EthIo.Base

/-- A deterministic machine over labels; `step s a = none` when `a` is not enabled in `s`. -/
structure Machine (σ ι : Type*) where
  step : σ → ι → Option σ

namespace Machine

variable {σ ι η : Type*} (m : Machine σ ι)

/-- The state after a list of labels, if the machine accepts each of them in turn. -/
def exec : σ → List ι → Option σ
  | s, [] => some s
  | s, a :: as => (m.step s a).bind fun s' => exec s' as

/-- `P` holds of every state visited, the first and the last included. -/
def Always (P : σ → Prop) : σ → List ι → Prop
  | s, [] => P s
  | s, a :: as => P s ∧ ∀ s', m.step s a = some s' → Always P s' as

/-- Every step is taken in a state where `G` allows its label. -/
def Guarded (G : σ → ι → Prop) : σ → List ι → Prop
  | _, [] => True
  | s, a :: as => G s a ∧ ∀ s', m.step s a = some s' → Guarded G s' as

instance {G : σ → ι → Prop} [∀ s a, Decidable (G s a)] :
    (s : σ) → (as : List ι) → Decidable (m.Guarded G s as)
  | _, [] => inferInstanceAs (Decidable True)
  | s, a :: as =>
    match h : m.step s a with
    | none => decidable_of_iff (G s a) (by simp [Guarded, h])
    | some s' =>
      have : Decidable (m.Guarded G s' as) := instDecidableGuarded s' as
      decidable_of_iff (G s a ∧ m.Guarded G s' as) (by simp [Guarded, h])

/-- A state some run from `s₀` ends in. -/
def Reachable (s₀ s : σ) : Prop := ∃ as, m.exec s₀ as = some s

variable {m}

@[simp] theorem exec_nil (s : σ) : m.exec s [] = some s := rfl

theorem exec_cons (s : σ) (a : ι) (as : List ι) :
    m.exec s (a :: as) = (m.step s a).bind fun s' => m.exec s' as := rfl

/-- The first step of an accepted run is enabled, and the rest is accepted after it. -/
theorem exec_cons_some {s s'' : σ} {a : ι} {as : List ι} (h : m.exec s (a :: as) = some s'') :
    ∃ s', m.step s a = some s' ∧ m.exec s' as = some s'' :=
  Option.bind_eq_some_iff.mp h

theorem exec_append (s : σ) (as bs : List ι) :
    m.exec s (as ++ bs) = (m.exec s as).bind fun s' => m.exec s' bs := by
  induction as generalizing s with
  | nil => rfl
  | cons a as ih =>
    rw [List.cons_append, exec_cons, exec_cons]
    cases m.step s a with
    | none => rfl
    | some s' => exact ih s'

/-- A machine that enables every label accepts every list of them. -/
theorem exec_of_enabled (enabled : ∀ s a, ∃ s', m.step s a = some s') (s : σ) (as : List ι) :
    ∃ s', m.exec s as = some s' := by
  induction as generalizing s with
  | nil => exact ⟨s, rfl⟩
  | cons a as ih =>
    obtain ⟨s', hstep⟩ := enabled s a
    obtain ⟨s'', hexec⟩ := ih s'
    exact ⟨s'', by rw [exec_cons, hstep]; exact hexec⟩

/-- `Always` read off the prefixes: `P` holds wherever a prefix of the run ends. -/
theorem always_iff_visited {P : σ → Prop} {s : σ} {as : List ι} :
    m.Always P s as ↔ ∀ pre, pre <+: as → ∀ s', m.exec s pre = some s' → P s' := by
  induction as generalizing s with
  | nil =>
    constructor
    · intro hP pre hpre s' hs'
      rw [List.prefix_nil.mp hpre] at hs'
      cases hs'
      exact hP
    · intro h
      exact h [] List.prefix_rfl s rfl
  | cons a as ih =>
    constructor
    · rintro ⟨hP, hrest⟩ pre hpre s'' hs''
      rcases List.prefix_cons_iff.mp hpre with rfl | ⟨pre', rfl, hpre'⟩
      · cases hs''
        exact hP
      · obtain ⟨s', hstep, hexec⟩ := exec_cons_some hs''
        exact ih.mp (hrest s' hstep) pre' hpre' s'' hexec
    · intro h
      refine ⟨h [] (List.nil_prefix) s rfl, fun s' hstep => ih.mpr ?_⟩
      intro pre hpre s'' hs''
      apply h (a :: pre) ((List.prefix_cons_inj a).mpr hpre) s''
      rw [exec_cons, hstep]
      exact hs''

/-- The state a run ends in is one it visits. -/
theorem Always.last {P : σ → Prop} {s s' : σ} {as : List ι} (h : m.Always P s as)
    (hexec : m.exec s as = some s') : P s' :=
  always_iff_visited.mp h as List.prefix_rfl s' hexec

theorem Always.mono {P Q : σ → Prop} (hPQ : ∀ s, P s → Q s) {s : σ} {as : List ι}
    (h : m.Always P s as) : m.Always Q s as :=
  always_iff_visited.mpr fun pre hpre s' hs' => hPQ s' (always_iff_visited.mp h pre hpre s' hs')

/-- **The invariant rule, guarded.** What every guarded step keeps holds along a guarded run. -/
theorem always_of_guarded {I : σ → Prop} {G : σ → ι → Prop}
    (keep : ∀ s a s', I s → G s a → m.step s a = some s' → I s')
    {s : σ} {as : List ι} (hI : I s) (hG : m.Guarded G s as) : m.Always I s as := by
  induction as generalizing s with
  | nil => exact hI
  | cons a as ih =>
    exact ⟨hI, fun s' hstep => ih (keep s a s' hI hG.1 hstep) (hG.2 s' hstep)⟩

/-- **The invariant rule.** What every step keeps holds of every reachable state. -/
theorem invariant {I : σ → Prop} (keep : ∀ s a s', I s → m.step s a = some s' → I s')
    {s₀ s : σ} (h₀ : I s₀) (h : m.Reachable s₀ s) : I s := by
  obtain ⟨as, hexec⟩ := h
  have guarded : ∀ (as : List ι) (s : σ), m.Guarded (fun _ _ => True) s as := by
    intro as
    induction as with
    | nil => intro _; trivial
    | cons a as ih => intro s; exact ⟨trivial, fun s' _ => ih s'⟩
  exact (always_of_guarded (fun s a s' hI _ => keep s a s' hI) h₀ (guarded as s₀)).last hexec

/-- A guard that does not look at the state. -/
theorem guarded_of_forall {G : ι → Prop} {s : σ} {as : List ι} (h : ∀ a ∈ as, G a) :
    m.Guarded (fun _ a => G a) s as := by
  induction as generalizing s with
  | nil => trivial
  | cons a as ih =>
    obtain ⟨ha, has⟩ := List.forall_mem_cons.mp h
    exact ⟨ha, fun s' _ => ih has⟩

theorem Guarded.mono {G G' : σ → ι → Prop} {s : σ} {as : List ι} (h : m.Guarded G s as)
    (hGG' : ∀ s a, G s a → G' s a) : m.Guarded G' s as := by
  induction as generalizing s with
  | nil => trivial
  | cons a as ih => exact ⟨hGG' s a h.1, fun s' hstep => ih (h.2 s' hstep)⟩

/-- A guard that an invariant gives. -/
theorem Guarded.of_invariant {I : σ → Prop} {G G' : σ → ι → Prop}
    (keep : ∀ s a s', I s → G s a → m.step s a = some s' → I s')
    (gives : ∀ s a, I s → G s a → G' s a) {s : σ} {as : List ι} (hI : I s)
    (hG : m.Guarded G s as) : m.Guarded G' s as := by
  induction as generalizing s with
  | nil => trivial
  | cons a as ih =>
    exact ⟨gives s a hI hG.1, fun s' hstep => ih (keep s a s' hI hG.1 hstep) (hG.2 s' hstep)⟩

/-- Where an unguarded step always breaks `P`, an accepted run that keeps `P` is guarded. -/
theorem guarded_of_always {I P : σ → Prop} {G : σ → ι → Prop}
    (keep : ∀ s a s', I s → G s a → m.step s a = some s' → I s')
    (breaks : ∀ s a s', I s → ¬ G s a → m.step s a = some s' → ¬ P s')
    {s s'' : σ} {as : List ι} (hI : I s) (hexec : m.exec s as = some s'')
    (hP : m.Always P s as) : m.Guarded G s as := by
  induction as generalizing s with
  | nil => trivial
  | cons a as ih =>
    obtain ⟨s₁, hstep, hexec₁⟩ := exec_cons_some hexec
    have hP₁ : m.Always P s₁ as := hP.2 s₁ hstep
    have here : P s₁ := always_iff_visited.mp hP₁ [] List.nil_prefix s₁ rfl
    have hG : G s a := by
      by_contra hnot
      exact breaks s a s₁ hI hnot hstep here
    refine ⟨hG, ?_⟩
    intro s' hs'
    rw [hstep] at hs'
    cases hs'
    exact ih (keep s a s₁ hI hG hstep) hexec₁ hP₁

/-- **A guard is exact**: an accepted run keeps `P` if and only if each of its steps is guarded. -/
theorem always_iff_guarded {I P : σ → Prop} {G : σ → ι → Prop} (safe : ∀ s, I s → P s)
    (keep : ∀ s a s', I s → G s a → m.step s a = some s' → I s')
    (breaks : ∀ s a s', I s → ¬ G s a → m.step s a = some s' → ¬ P s')
    {s s'' : σ} {as : List ι} (hI : I s) (hexec : m.exec s as = some s'') :
    m.Always P s as ↔ m.Guarded G s as :=
  ⟨guarded_of_always keep breaks hI hexec, fun hG => (always_of_guarded keep hI hG).mono safe⟩

/-- **Simulation by a function**: on guarded runs the two machines do the same. -/
theorem exec_map {τ : Type*} {m' : Machine τ ι} {f : σ → τ} {I : σ → Prop} {G : σ → ι → Prop}
    (keep : ∀ s a s', I s → G s a → m.step s a = some s' → I s')
    (sim : ∀ s a, I s → G s a → m'.step (f s) a = (m.step s a).map f)
    {s : σ} {as : List ι} (hI : I s) (hG : m.Guarded G s as) :
    m'.exec (f s) as = (m.exec s as).map f := by
  induction as generalizing s with
  | nil => rfl
  | cons a as ih =>
    rw [exec_cons, exec_cons, sim s a hI hG.1]
    cases hstep : m.step s a with
    | none => rfl
    | some s' => exact ih (keep s a s' hI hG.1 hstep) (hG.2 s' hstep)

/-! ## History variables -/

variable (m) in
/-- The machine with a history variable beside its state, updated from the state before a step. -/
def observe (upd : σ → ι → η → η) : Machine (σ × η) ι where
  step := fun ⟨s, h⟩ a => (m.step s a).map fun s' => (s', upd s a h)

theorem observe_step {upd : σ → ι → η → η} {s s' : σ} {h h' : η} {a : ι} :
    (m.observe upd).step (s, h) a = some (s', h') ↔ m.step s a = some s' ∧ h' = upd s a h := by
  simp only [observe, Option.map_eq_some_iff, Prod.mk.injEq]
  constructor
  · rintro ⟨t, ht, rfl, rfl⟩
    exact ⟨ht, rfl⟩
  · rintro ⟨ht, rfl⟩
    exact ⟨s', ht, rfl, rfl⟩

/-- **A rule for a step of the machine below is one for a step of the observed machine**, with the
history updated. -/
theorem observe_rule {upd : σ → ι → η → η} {I Q : σ × η → Prop} {G : σ × η → ι → Prop}
    (rule : ∀ s h a s', I (s, h) → G (s, h) a → m.step s a = some s' → Q (s', upd s a h)) :
    ∀ p a p', I p → G p a → (m.observe upd).step p a = some p' → Q p' := by
  rintro ⟨s, h⟩ a ⟨s', h'⟩ hI hG hstep
  obtain ⟨hs, rfl⟩ := observe_step.mp hstep
  exact rule s h a s' hI hG hs

/-- The observed machine accepts the runs of the machine below it, and no others. -/
theorem exec_observe (upd : σ → ι → η → η) (s : σ) (h : η) (as : List ι) :
    ((m.observe upd).exec (s, h) as).map Prod.fst = m.exec s as := by
  induction as generalizing s h with
  | nil => rfl
  | cons a as ih =>
    simp only [exec_cons, observe]
    cases m.step s a with
    | none => rfl
    | some s' => exact ih s' (upd s a h)

/-- A guard that does not look at the history variable. -/
theorem Guarded.observe {upd : σ → ι → η → η} {G : σ → ι → Prop} {s : σ} {as : List ι}
    (hG : m.Guarded G s as) (h : η) :
    (m.observe upd).Guarded (fun p a => G p.1 a) (s, h) as := by
  induction as generalizing s h with
  | nil => trivial
  | cons a as ih =>
    refine ⟨hG.1, ?_⟩
    rintro ⟨s', h'⟩ hstep
    exact ih (hG.2 s' (observe_step.mp hstep).1) h'

/-- **A guard is exact, with a history variable**: on the runs of the machine below. -/
theorem observe_always_iff_guarded {upd : σ → ι → η → η} {I P : σ × η → Prop}
    {G : σ × η → ι → Prop} (safe : ∀ p, I p → P p)
    (keep : ∀ s h a s', I (s, h) → G (s, h) a → m.step s a = some s' → I (s', upd s a h))
    (breaks : ∀ s h a s', I (s, h) → ¬ G (s, h) a → m.step s a = some s' → ¬ P (s', upd s a h))
    {s s'' : σ} {h : η} {as : List ι} (hI : I (s, h)) (hexec : m.exec s as = some s'') :
    (m.observe upd).Always P (s, h) as ↔ (m.observe upd).Guarded G (s, h) as := by
  rw [← exec_observe upd s h as] at hexec
  obtain ⟨p, hp, -⟩ := Option.map_eq_some_iff.mp hexec
  exact always_iff_guarded safe (observe_rule keep) (observe_rule breaks) hI hp

end Machine

/-! ## Endless runs -/

section

variable {σ ι : Type*}

/-- The states of the endless run of `next` from `s₀`, driven by the outcomes `o`. -/
def endless (next : σ → ι → σ) (s₀ : σ) (o : Nat → ι) : Nat → σ
  | 0 => s₀
  | n + 1 => next (endless next s₀ o n) (o n)

variable {next : σ → ι → σ} {s₀ : σ} {o : Nat → ι}

/-- What every step keeps, once it holds, holds ever after. -/
theorem endless_keeps {I : σ → Prop} (keep : ∀ s a, I s → I (next s a)) {m n : Nat} (hle : m ≤ n)
    (h : I (endless next s₀ o m)) : I (endless next s₀ o n) := by
  induction hle with
  | refl => exact h
  | step _ ih => exact keep _ _ ih

/-- The invariant rule for endless runs. -/
theorem endless_invariant {I : σ → Prop} (keep : ∀ s a, I s → I (next s a)) (h₀ : I s₀) (n : Nat) :
    I (endless next s₀ o n) :=
  endless_keeps keep (Nat.zero_le n) h₀

/-- **What rules itself out happens at most once**: each time it happens something holds of the
state behind it that every step keeps, and while that holds it does not happen. -/
theorem endless_once {P : σ → ι → Prop} {I : σ → Prop} (keep : ∀ s a, I s → I (next s a))
    (fires : ∀ n, P (endless next s₀ o n) (o n) → I (endless next s₀ o (n + 1)))
    (excludes : ∀ s a, I s → ¬ P s a) {i j : Nat} (hi : P (endless next s₀ o i) (o i))
    (hj : P (endless next s₀ o j) (o j)) : i = j := by
  have never : ∀ {i j : Nat}, P (endless next s₀ o i) (o i) → i < j →
      ¬ P (endless next s₀ o j) (o j) :=
    fun hi hlt => excludes _ _ (endless_keeps keep hlt (fires _ hi))
  rcases Nat.lt_trichotomy i j with hlt | heq | hgt
  · exact absurd hj (never hi hlt)
  · exact heq
  · exact absurd hi (never hj hgt)

end

end EthIo.Base
