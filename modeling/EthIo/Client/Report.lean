import EthIo.Client.Task

/-!
# No event is lost

Every give to `client` asks for a report on levels read after it. Gives coalesce in the
notification count, one scan answers all that came before it, and a give that comes during a scan
or a write is left in the count for the next turn of the loop. `NothingLost` says that the task
never blocks with a give unanswered.

The count is 32 bits wide and the task looks at 16 of them. Of the gives since the last take only
the number matters, so the runs that lose one are told by that number: a take that picks up a
multiple of 65536, or a task that stands before its take with a multiple of 2³² (`Counted`).
`nothing_lost_iff` says that these are all of them.

A report is an answer once `netconn_write` has been called with it; whether the bytes arrive is a
matter of the connection.
-/

namespace EthIo.Client

open EthIo.Base

/-- What has been asked for and answered: the gives since the last take; a give no scan has begun
after; a scan begun for a give and not reported yet; and the levels the last scan has read. -/
structure Owed where
  gives : Nat
  unscanned : Bool
  unreported : Bool
  level1 : Bool
  level2 : Bool
  deriving DecidableEq, Repr

/-- Nothing asked for yet. -/
def Owed.nothing : Owed := ⟨0, false, false, false, false⟩

/-- Whether the task is about to write the report on two levels. -/
def writes (s : State) (level1 level2 : Bool) : Bool :=
  decide (s.pc = .netconn_write (describes level1 level2))

/-- The bookkeeping of a step: a give asks, the first pin of a scan begins to answer what was asked
before it, and a write of the report on the scanned levels completes the answer. -/
def Owed.see (s : State) : Label → Owed → Owed
  | .give, h => { h with gives := h.gives + 1, unscanned := true }
  | .ulTaskNotifyTake, h => { h with gives := 0 }
  | .readInput1, h =>
    { h with unscanned := false, unreported := h.unreported || h.unscanned, level1 := s.input1 }
  | .readInput2, h => { h with level2 := s.input2 }
  | .netconn_write _, h =>
    { h with unreported := h.unreported && !writes s h.level1 h.level2 }
  | _, h => h

/-- The task with what it owes. -/
def owing : Machine (State × Owed) Label := machine.observe Owed.see

/-- **The task never blocks with a give unanswered.** -/
def NothingLost (s : State × Owed) : Prop :=
  s.1.pc = .ulTaskNotifyTake → s.1.ulNotifiedValue = 0 →
    s.2.unscanned = false ∧ s.2.unreported = false

/-- A step that forgets no give: no take picks up a multiple of 65536 of them, and the task neither
comes to its take nor stands before it with a multiple of 2³². -/
def Counted (s : State × Owed) : Label → Prop
  | .ulTaskNotifyTake => s.2.unscanned = true → s.2.gives % 65536 ≠ 0
  | .give => s.1.pc = .ulTaskNotifyTake → (s.2.gives + 1) % 4294967296 ≠ 0
  | .netconn_connect err =>
    err ≠ ERR_MEM → s.2.unscanned = true → s.2.gives % 4294967296 ≠ 0
  | .netconn_write _ => s.2.unscanned = true → s.2.gives % 4294967296 ≠ 0
  | _ => True

/-- The task between the first pin of a scan and the end of its write. -/
def Pc.answering : Pc → Bool
  | .readInput2 _ | .netconn_write _ => true
  | _ => false

/-- What the count says of the gives, and how far the answer to them has come. -/
structure OwedInv (s : State × Owed) : Prop where
  count : s.1.ulNotifiedValue.toNat = s.2.gives % 4294967296
  held : s.1.pc = .ulTaskNotifyTake → s.2.unscanned = true → s.2.gives % 4294967296 ≠ 0
  answering : s.2.unreported = true → s.1.pc.answering = true
  first : ∀ level1, s.1.pc = .readInput2 level1 → level1 = s.2.level1
  second : ∀ buf, s.1.pc = .netconn_write buf → buf = describes s.2.level1 s.2.level2

theorem owedInv_start (input1 input2 : Bool) : OwedInv (start input1 input2, .nothing) where
  count := rfl
  held h := Pc.noConfusion h
  answering h := Bool.noConfusion h
  first _ h := Pc.noConfusion h
  second _ h := Pc.noConfusion h

theorem OwedInv.idle {s : State × Owed} (hI : OwedInv s) (hpc : s.1.pc.answering = false) :
    s.2.unreported = false := by
  by_contra hun
  have := hI.answering (Bool.eq_true_of_not_eq_false hun)
  exact Bool.noConfusion (this.symm.trans hpc)

/-- The invariant leaves nothing unanswered before a take that would block. -/
theorem OwedInv.nothingLost {s : State × Owed} (hI : OwedInv s) : NothingLost s := by
  intro hpc hzero
  have hcount : s.2.gives % 4294967296 = 0 := by rw [← hI.count, hzero]; rfl
  refine ⟨?_, hI.idle (by rw [hpc]; rfl)⟩
  by_contra hun
  exact hI.held hpc (Bool.eq_true_of_not_eq_false hun) hcount

/-- The sixteen bits the task looks at are zero exactly on multiples of 65536 gives. -/
theorem OwedInv.seen_zero_iff {s : State × Owed} (hI : OwedInv s) :
    s.1.ulNotifiedValue.toUInt16 = 0 ↔ s.2.gives % 65536 = 0 := by
  rw [← UInt16.toNat_inj, UInt32.toNat_toUInt16, hI.count]
  show s.2.gives % 4294967296 % 65536 = 0 ↔ _
  omega

theorem owedInv_give {s : State} {h : Owed} (hI : OwedInv (s, h)) (hG : Counted (s, h) .give) :
    OwedInv ({ s with ulNotifiedValue := s.ulNotifiedValue + 1 },
      Owed.see s .give h) where
  count := by
    have := hI.count
    simp only [Owed.see, UInt32.toNat_add] at this ⊢
    show (s.ulNotifiedValue.toNat + 1) % 4294967296 = _
    omega
  held hpc _ := hG hpc
  answering := hI.answering
  first := hI.first
  second := hI.second

/-- A step outside the loop's answer changes the position only. -/
theorem owedInv_move {s : State} {h : Owed} (hI : OwedInv (s, h)) (conn : Option Nat)
    (created : Nat) {pc : Pc} (hidle : h.unreported = false)
    (hheld : pc = .ulTaskNotifyTake → h.unscanned = true → h.gives % 4294967296 ≠ 0)
    (hpc : pc.answering = false) :
    OwedInv ({ s with pc := pc, conn := conn, created := created }, h) where
  count := hI.count
  held := hheld
  answering hun := by rw [hidle] at hun; cases hun
  first b hb := by cases hb; cases hpc
  second buf hbuf := by cases hbuf; cases hpc

/-- What a take does to the invariant, whether it sees its count or not. -/
theorem owedInv_take {s s' : State} {h : Owed} (hI : OwedInv (s, h))
    (hG : Counted (s, h) .ulTaskNotifyTake) (hs : step s .ulTaskNotifyTake = some s') :
    OwedInv (s', Owed.see s .ulTaskNotifyTake h) := by
  simp only [step] at hs
  split_ifs at hs with hpc hseen
  · cases hs
    have hidle : h.unreported = false := hI.idle (by rw [hpc.1]; rfl)
    exact
      { count := rfl
        held := fun h => Pc.noConfusion h
        answering := fun hun => by simp [Owed.see, hidle] at hun
        first := fun _ h => Pc.noConfusion h
        second := fun _ h => Pc.noConfusion h }
  · -- sixteen zero bits: the loop takes again, and whatever it took is forgotten
    cases hs
    have hmultiple : h.gives % 65536 = 0 := hI.seen_zero_iff.mp (not_not.mp hseen)
    have hscanned : h.unscanned = false := by
      by_contra hun
      exact hG (Bool.eq_true_of_not_eq_false hun) hmultiple
    have hidle : h.unreported = false := hI.idle (by rw [hpc.1]; rfl)
    exact
      { count := rfl
        held := fun _ hun => by simp [Owed.see, hscanned] at hun
        answering := fun hun => by simp [Owed.see, hidle] at hun
        first := fun _ hb => by simp [hpc.1] at hb
        second := fun _ hb => by simp [hpc.1] at hb }

/-- A counted step keeps the account. -/
theorem owedInv_keep (s : State) (h : Owed) (a : Label) (s' : State) (hI : OwedInv (s, h))
    (hG : Counted (s, h) a) (hs : step s a = some s') : OwedInv (s', Owed.see s a h) := by
  cases a with
  | netconn_new made =>
    simp only [step] at hs
    split_ifs at hs with hpc hmade
    all_goals
      cases hs
      exact owedInv_move hI _ _ (hI.idle (by rw [hpc]; rfl)) (fun h => Pc.noConfusion h) rfl
  | vTaskDelay =>
    simp only [step] at hs
    split_ifs at hs with hpc
    cases hs
    exact owedInv_move hI s.conn s.created (hI.idle (by rw [hpc]; rfl))
      (fun h => Pc.noConfusion h) rfl
  | netconn_connect err =>
    simp only [step, toInt_eq_neg_one_iff] at hs
    split_ifs at hs with hpc hmem
    all_goals
      cases hs
      have hidle : h.unreported = false := hI.idle (by rw [hpc]; rfl)
    · exact owedInv_move hI s.conn s.created hidle (fun h => Pc.noConfusion h) rfl
    · exact owedInv_move hI s.conn s.created hidle (fun _ => hG hmem) rfl
  | netconn_close err =>
    simp only [step] at hs
    split_ifs at hs with hpc
    cases hs
    exact owedInv_move hI s.conn s.created (hI.idle (by rw [hpc]; rfl))
      (fun h => Pc.noConfusion h) rfl
  | ulTaskNotifyTake => exact owedInv_take hI hG hs
  | readInput1 =>
    simp only [step] at hs
    split_ifs at hs with hpc
    cases hs
    exact
      { count := hI.count
        held := fun h => Pc.noConfusion h
        answering := fun _ => rfl
        first := fun b hb => (Pc.readInput2.inj hb).symm
        second := fun _ h => Pc.noConfusion h }
  | readInput2 =>
    obtain ⟨input1, hpc, rfl⟩ := step_readInput2.mp hs
    have hfirst : input1 = h.level1 := hI.first input1 hpc
    exact
      { count := hI.count
        held := fun h => Pc.noConfusion h
        answering := fun _ => rfl
        first := fun _ h => Pc.noConfusion h
        second := fun buf hb => by rw [← Pc.netconn_write.inj hb, hfirst]; rfl }
  | netconn_write err =>
    obtain ⟨buf, hpc, rfl⟩ := step_netconn_write.mp hs
    have hwrites : writes s h.level1 h.level2 = true := by
      rw [writes, hpc, hI.second buf hpc]
      exact decide_eq_true rfl
    exact
      { count := hI.count
        held := fun _ => hG
        answering := fun hun => by simp [Owed.see, hwrites] at hun
        first := fun _ h => Pc.noConfusion h
        second := fun _ h => Pc.noConfusion h }
  | give =>
    cases hs
    exact owedInv_give hI hG
  | pins input1 input2 =>
    cases hs
    exact ⟨hI.count, hI.held, hI.answering, hI.first, hI.second⟩

/-- A step that is not counted leaves the task blocked with a give unanswered. -/
theorem nothingLost_breaks (s : State) (h : Owed) (a : Label) (s' : State) (hI : OwedInv (s, h))
    (hG : ¬ Counted (s, h) a) (hs : step s a = some s') :
    ¬ NothingLost (s', Owed.see s a h) := by
  have zero_of : h.gives % 4294967296 = 0 → s.ulNotifiedValue = 0 := fun hz =>
    UInt32.toNat_inj.mp (hI.count.trans hz)
  cases a with
  | netconn_connect err =>
    obtain ⟨hmem, hG⟩ := not_forall.mp hG
    obtain ⟨hun, hz⟩ := not_forall.mp hG
    simp only [step, toInt_eq_neg_one_iff, if_neg hmem] at hs
    split_ifs at hs
    cases hs
    intro hP
    have hscanned := (hP rfl (zero_of (not_not.mp hz))).1
    exact Bool.noConfusion (hun.symm.trans hscanned)
  | netconn_write err =>
    obtain ⟨hun, hz⟩ := not_forall.mp hG
    obtain ⟨buf, hpc, rfl⟩ := step_netconn_write.mp hs
    intro hP
    have hscanned := (hP rfl (zero_of (not_not.mp hz))).1
    exact Bool.noConfusion (hun.symm.trans hscanned)
  | ulTaskNotifyTake =>
    obtain ⟨hun, hz⟩ := not_forall.mp hG
    simp only [step] at hs
    split_ifs at hs with hpc hseen
    · exact absurd (hI.seen_zero_iff.mpr (not_not.mp hz)) hseen
    · cases hs
      intro hP
      have hscanned := (hP hpc.1 rfl).1
      exact Bool.noConfusion (hun.symm.trans hscanned)
  | give =>
    obtain ⟨hpc, hz⟩ := not_forall.mp hG
    cases hs
    intro hP
    have hcount : s.ulNotifiedValue.toNat = h.gives % 4294967296 := hI.count
    have hz : (h.gives + 1) % 4294967296 = 0 := not_not.mp hz
    have hzero : s.ulNotifiedValue + 1 = 0 := by
      rw [← UInt32.toNat_inj, UInt32.toNat_add]
      show (s.ulNotifiedValue.toNat + 1) % 4294967296 = 0
      omega
    exact Bool.noConfusion (hP hpc hzero).1
  | _ => exact absurd trivial hG

/-- **When no give is lost**: exactly on the runs whose steps are all counted. -/
theorem nothing_lost_iff {input1 input2 : Bool} {as : List Label} {s : State}
    (hrun : machine.exec (start input1 input2) as = some s) :
    owing.Always NothingLost (start input1 input2, .nothing) as ↔
      owing.Guarded Counted (start input1 input2, .nothing) as :=
  Machine.observe_always_iff_guarded (fun _ hI => hI.nothingLost) owedInv_keep nothingLost_breaks
    (owedInv_start input1 input2) hrun

/-- One give, one scan, one report. -/
theorem nothing_lost_one_give :
    owing.Always NothingLost (start false true, .nothing)
        [.give, .netconn_new true, .netconn_connect ERR_OK, .ulTaskNotifyTake, .readInput1,
          .readInput2, .netconn_write ERR_OK] ↔
      owing.Guarded Counted (start false true, .nothing)
        [.give, .netconn_new true, .netconn_connect ERR_OK, .ulTaskNotifyTake, .readInput1,
          .readInput2, .netconn_write ERR_OK] :=
  nothing_lost_iff
    (s := ⟨.ulTaskNotifyTake, some 0, 1, 0, false, true⟩) rfl

/-- A run of gives only counts. -/
theorem exec_gives (s : State) (h : Owed) (n : Nat) :
    owing.exec (s, h) (List.replicate (n + 1) .give) =
      some ({ s with ulNotifiedValue := s.ulNotifiedValue + UInt32.ofNat (n + 1) },
        { h with gives := h.gives + (n + 1), unscanned := true }) := by
  induction n generalizing s h with
  | zero => rfl
  | succ n ih =>
    rw [List.replicate_succ, Machine.exec_cons]
    show owing.exec ({ s with ulNotifiedValue := s.ulNotifiedValue + 1 },
      { h with gives := h.gives + 1, unscanned := true }) _ = _
    rw [ih]
    simp only [Option.some.injEq, Prod.mk.injEq, State.mk.injEq, Owed.mk.injEq, true_and, and_true]
    constructor
    · rw [UInt32.add_assoc, ← UInt32.ofNat_one, ← UInt32.ofNat_add, Nat.add_comm 1]
    · omega

/-- A multiple of 65536 gives, come while the task was on its way to the take, is forgotten. -/
theorem exec_multiple (n : Nat) (hzero : (UInt32.ofNat (n + 1)).toUInt16 = 0)
    (hpos : UInt32.ofNat (n + 1) ≠ 0) :
    owing.exec (start true true, .nothing)
        ([.netconn_new true, .netconn_connect ERR_OK] ++
          (List.replicate (n + 1) .give ++ [.ulTaskNotifyTake])) =
      some (⟨.ulTaskNotifyTake, some 0, 1, 0, true, true⟩, ⟨0, true, false, false, false⟩) := by
  have hconnected : owing.exec (start true true, .nothing)
      [.netconn_new true, .netconn_connect ERR_OK] =
        some (⟨.ulTaskNotifyTake, some 0, 1, 0, true, true⟩, .nothing) := rfl
  rw [Machine.exec_append, hconnected, Option.bind_some, Machine.exec_append, exec_gives,
    Option.bind_some]
  generalize UInt32.ofNat (n + 1) = count at hzero hpos ⊢
  simp [Machine.exec_cons, owing, Machine.observe, machine, step, hzero, hpos, Owed.see,
    Owed.nothing]

/-- 65536 gives before one take, while the write before it takes its time: sixteen zero bits. -/
theorem gives_forgotten :
    ∃ s, owing.exec (start true true, .nothing)
        ([.netconn_new true, .netconn_connect ERR_OK] ++
          (List.replicate (65535 + 1) .give ++ [.ulTaskNotifyTake])) = some s ∧
      ¬ NothingLost s :=
  ⟨_, exec_multiple 65535 (by decide) (by decide), fun h => Bool.noConfusion (h rfl rfl).1⟩

end EthIo.Client
