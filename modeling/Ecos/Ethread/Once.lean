import Ecos.Lib.Run
import Mathlib.Logic.Function.Basic

namespace Ecos.Ethread

open Ecos.Lib

/-!
# `ethread_once`

The locked test-and-set of the control word, and the run of `init_routine` outside the lock,
for any number of threads.

* `OnceState`, `stepOnce` — the state and its steps;
* `OnceSpec` — what `ethread_once` is for: `init_routine` starts once at most, and no call
  returns before a run of it has completed;
* `ethread_once_early` — the second part fails: a caller that finds the flag set returns at
  once;
* `ethread_once_spec` — it holds when no test-and-set finds the flag set before
  `init_routine` has completed, and can fail as soon as one does.
-/

/-- Where a thread is in `ethread_once`; the test and set is one step, as the mutex makes it. -/
inductive OncePc
  | idle
  /-- `ethread_mutex.lock(); old = *once_control; *once_control = 1; ethread_mutex.unlock();` -/
  | testAndSet
  /-- `init_routine()`, not yet entered -/
  | callInit
  /-- inside `init_routine` -/
  | inInit
  /-- `return 0` -/
  | ret
  deriving DecidableEq, Repr

/-- The steps of a thread, `init_routine` with its start and its end apart. -/
inductive OnceEvent
  | call | testAndSet | start | finish | ret
  deriving DecidableEq, Repr

/-- The control word and the threads that use it, any number of them. -/
structure OnceState where
  onceControl : BitVec 32
  /-- Runs of `init_routine` that have ended. -/
  completed : Nat
  pc : Nat → OncePc

/-- A zero-initialised control word, and no thread in a call. -/
def OnceState.init : OnceState := ⟨0, 0, fun _ => .idle⟩

/-- Thread `t` goes on at `pc`, and nothing else changes. -/
def OnceState.goto (s : OnceState) (t : Nat) (pc : OncePc) : OnceState :=
  { s with pc := Function.update s.pc t pc }

/-- One step of one thread, any thread at any time. -/
def stepOnce (s : OnceState) (a : Nat × OnceEvent) : Option OnceState :=
  match s.pc a.1, a.2 with
  | .idle, .call => some (s.goto a.1 .testAndSet)
  | .testAndSet, .testAndSet =>
    -- `old` is the value of the control word before the step
    some { s.goto a.1 (if s.onceControl = 0 then .callInit else .ret) with onceControl := 1 }
  | .callInit, .start => some (s.goto a.1 .inInit)
  | .inInit, .finish => some { s.goto a.1 .ret with completed := s.completed + 1 }
  | .ret, .ret => some (s.goto a.1 .idle)
  | _, _ => none

/-- The control word and its users as a transition system. -/
def onceSystem : LTS OnceState (Nat × OnceEvent) := .ofStep .init stepOnce

/-- How often `init_routine` was started, by whichever thread. -/
def starts (as : List (Nat × OnceEvent)) : Nat := as.countP fun a => a.2 = .start

/-- `init_routine` has completed in the trace: some thread has come to its end. -/
def Completed (as : List (Nat × OnceEvent)) : Prop := ∃ t, (t, .finish) ∈ as

/-- Once semantics: at most one start, and no return before the routine has completed. -/
structure OnceSpec (as : List (Nat × OnceEvent)) : Prop where
  /-- `init_routine` is started at most once. -/
  once : starts as ≤ 1
  /-- No call returns before a run of `init_routine` has completed. -/
  returned : ∀ bs t cs, as = bs ++ (t, .ret) :: cs → Completed bs

/-- The test-and-set of a thread does not find the flag set before `init_routine` has
    completed. -/
def TestsInTime (s : OnceState) (a : Nat × OnceEvent) : Prop :=
  a.2 = .testAndSet → s.onceControl = 0 ∨ 0 < s.completed

instance (s : OnceState) (a : Nat × OnceEvent) : Decidable (TestsInTime s a) :=
  inferInstanceAs (Decidable (_ → _))

/-! ### The first part: at most one start -/

/-- Is the thread on the way through `init_routine`? It is the only one that found the flag
    clear. -/
def OncePc.initiating : OncePc → Bool
  | .callInit | .inInit => true
  | _ => false

/-- The invariant of every run: who is past the test-and-set, and how often the routine was
    started. -/
structure OnceInv (as : List (Nat × OnceEvent)) (s : OnceState) : Prop where
  /-- While the flag is clear, nobody is past the test-and-set. -/
  clear : s.onceControl = 0 → starts as = 0 ∧ ∀ t, s.pc t = .idle ∨ s.pc t = .testAndSet
  /-- One thread at most is on its way through `init_routine`. -/
  one : ∀ t u, (s.pc t).initiating = true → (s.pc u).initiating = true → t = u
  /-- A thread about to start `init_routine` is the first to do so. -/
  first : ∀ t, s.pc t = .callInit → starts as = 0
  once : starts as ≤ 1
  completed : 0 < s.completed ↔ Completed as

variable {as : List (Nat × OnceEvent)} {s s' : OnceState} {t u : Nat} {e : OnceEvent}

/-- Initially the invariant holds: the flag is clear and nothing was started. -/
theorem onceInv_init : OnceInv [] .init := by
  refine ⟨fun _ => ⟨rfl, fun _ => Or.inl rfl⟩, ?_, ?_, Nat.zero_le _, ?_⟩
  · intro t u ht
    simp [OnceState.init, OncePc.initiating] at ht
  · intro t ht
    simp [OnceState.init] at ht
  · simp [OnceState.init, Completed]

/-- A step more in the count of the starts, so that the invariant is carried along the run. -/
theorem starts_append (as : List (Nat × OnceEvent)) (a : Nat × OnceEvent) :
    starts (as ++ [a]) = starts as + if a.2 = .start then 1 else 0 := by
  simp [starts, List.countP_append, List.countP_singleton]

/-- A step more in the question if the routine was completed, which once true stays so. -/
theorem completed_append (as : List (Nat × OnceEvent)) (t : Nat) (e : OnceEvent) :
    Completed (as ++ [(t, e)]) ↔ Completed as ∨ e = .finish := by
  simp only [Completed, List.mem_append, List.mem_singleton, Prod.mk.injEq, exists_or]
  refine or_congr_right ⟨?_, ?_⟩
  · rintro ⟨u, -, rfl⟩
    rfl
  · rintro rfl
    exact ⟨t, rfl, rfl⟩

/-- The thread that went on is where it went. -/
@[simp] theorem goto_pc_self (s : OnceState) (t : Nat) (pc : OncePc) :
    (s.goto t pc).pc t = pc := by simp [OnceState.goto]

/-- A thread that goes on completes nothing by it. -/
@[simp] theorem goto_completed (s : OnceState) (t : Nat) (pc : OncePc) :
    (s.goto t pc).completed = s.completed := rfl

/-- The other threads are where they were. -/
theorem goto_pc_ne (s : OnceState) (pc : OncePc) (h : u ≠ t) : (s.goto t pc).pc u = s.pc u := by
  simp [OnceState.goto, Function.update_of_ne h]

/-- A thread that moves on, and is on its way through `init_routine` afterwards only if it was
    before, leaves one such thread at most. -/
theorem OnceInv.one_goto (h : OnceInv as s) {pc : OncePc}
    (hpc : pc.initiating = true → (s.pc t).initiating = true) (v w : Nat)
    (hv : ((s.goto t pc).pc v).initiating = true) (hw : ((s.goto t pc).pc w).initiating = true) :
    v = w := by
  have hold : ∀ u, ((s.goto t pc).pc u).initiating = true → (s.pc u).initiating = true := by
    intro u hu
    by_cases hne : u = t
    · subst hne
      rw [goto_pc_self] at hu
      exact hpc hu
    · rwa [goto_pc_ne s pc hne] at hu
  exact h.one v w (hold v hv) (hold w hw)

/-- A thread that is about to start the routine was so before another thread went on elsewhere, so
    that nothing was started yet. -/
theorem OnceInv.first_goto (h : OnceInv as s) {pc : OncePc} (hpc : pc ≠ .callInit) (v : Nat)
    (hv : (s.goto t pc).pc v = .callInit) : starts as = 0 := by
  by_cases hne : v = t
  · subst hne
    rw [goto_pc_self] at hv
    exact absurd hv hpc
  · rw [goto_pc_ne s pc hne] at hv
    exact h.first v hv

/-- A thread past the test-and-set has set the flag, and the flag is never cleared. -/
theorem OnceInv.flag_set (h : OnceInv as s) (hidle : s.pc t ≠ .idle)
    (htest : s.pc t ≠ .testAndSet) : s.onceControl ≠ 0 := by
  intro hzero
  rcases (h.clear hzero).2 t with hpc | hpc
  · exact hidle hpc
  · exact htest hpc

/-- **Step lemma.**  Every step keeps the invariant, whether or not its test-and-set comes in
    time. -/
theorem OnceInv.step (h : OnceInv as s) (hs : stepOnce s (t, e) = some s') :
    OnceInv (as ++ [(t, e)]) s' := by
  unfold stepOnce at hs
  split at hs
  · -- a call
    rename_i hpc he
    obtain rfl : e = .call := he
    obtain rfl := Option.some.inj hs
    have hstarts : starts (as ++ [(t, .call)]) = starts as := by simp [starts_append]
    refine ⟨fun hzero => ?_, h.one_goto (by simp [OncePc.initiating]), fun v hv => ?_, ?_, ?_⟩
    · obtain ⟨h0, hpcs⟩ := h.clear hzero
      refine ⟨hstarts.trans h0, fun v => ?_⟩
      by_cases hne : v = t
      · exact Or.inr (by rw [hne]; exact goto_pc_self ..)
      · rw [goto_pc_ne s _ hne]
        exact hpcs v
    · rw [hstarts]
      exact h.first_goto (by simp) v hv
    · rw [hstarts]
      exact h.once
    · rw [completed_append]
      simpa using h.completed
  · -- the test-and-set
    rename_i hpc he
    obtain rfl : e = .testAndSet := he
    obtain rfl := Option.some.inj hs
    have hstarts : starts (as ++ [(t, .testAndSet)]) = starts as := by simp [starts_append]
    refine ⟨fun hzero => absurd hzero (by simp), ?_, fun v hv => ?_, ?_, ?_⟩
    · by_cases hzero : s.onceControl = 0
      · -- nobody else is past the test-and-set
        have hother : ∀ v, (((s.goto t .callInit).pc v).initiating = true) → v = t := by
          intro v hv
          by_contra hne
          rw [goto_pc_ne s _ hne] at hv
          rcases (h.clear hzero).2 v with hpcv | hpcv <;> simp [hpcv, OncePc.initiating] at hv
        intro v w hv hw
        simp only [hzero, if_true] at hv hw
        exact (hother v hv).trans (hother w hw).symm
      · simp only [hzero, if_false]
        exact h.one_goto (by simp [OncePc.initiating])
    · rw [hstarts]
      by_cases hzero : s.onceControl = 0
      · exact (h.clear hzero).1
      · simp only [hzero, if_false] at hv
        exact h.first_goto (by simp) v hv
    · rw [hstarts]
      exact h.once
    · rw [completed_append]
      simpa using h.completed
  · -- the start of `init_routine`
    rename_i hpc he
    replace hpc : s.pc t = .callInit := hpc
    obtain rfl : e = .start := he
    obtain rfl := Option.some.inj hs
    have hstarts : starts (as ++ [(t, .start)]) = 1 := by simp [starts_append, h.first t hpc]
    have hflag : s.onceControl ≠ 0 := h.flag_set (t := t) (by simp [hpc]) (by simp [hpc])
    refine ⟨fun hzero => absurd hzero hflag, h.one_goto fun _ => by simp [hpc, OncePc.initiating],
      fun v hv => ?_, Nat.le_of_eq hstarts, ?_⟩
    · -- another thread about to start it would be a second one on its way
      exfalso
      have hne : v ≠ t := by
        rintro rfl
        rw [goto_pc_self] at hv
        cases hv
      rw [goto_pc_ne s _ hne] at hv
      exact hne (h.one v t (by simp [hv, OncePc.initiating]) (by simp [hpc, OncePc.initiating]))
    · rw [completed_append]
      simpa using h.completed
  · -- the end of `init_routine`
    rename_i hpc he
    replace hpc : s.pc t = .inInit := hpc
    obtain rfl : e = .finish := he
    obtain rfl := Option.some.inj hs
    have hstarts : starts (as ++ [(t, .finish)]) = starts as := by simp [starts_append]
    have hflag : s.onceControl ≠ 0 := h.flag_set (t := t) (by simp [hpc]) (by simp [hpc])
    refine ⟨fun hzero => absurd hzero hflag, h.one_goto (by simp [OncePc.initiating]),
      fun v hv => ?_, ?_, ?_⟩
    · rw [hstarts]
      exact h.first_goto (by simp) v hv
    · rw [hstarts]
      exact h.once
    · rw [completed_append]
      simp
  · -- the return
    rename_i hpc he
    replace hpc : s.pc t = .ret := hpc
    obtain rfl : e = .ret := he
    obtain rfl := Option.some.inj hs
    have hstarts : starts (as ++ [(t, .ret)]) = starts as := by simp [starts_append]
    have hflag : s.onceControl ≠ 0 := h.flag_set (t := t) (by simp [hpc]) (by simp [hpc])
    refine ⟨fun hzero => absurd hzero hflag, h.one_goto (by simp [OncePc.initiating]),
      fun v hv => ?_, ?_, ?_⟩
    · rw [hstarts]
      exact h.first_goto (by simp) v hv
    · rw [hstarts]
      exact h.once
    · rw [completed_append]
      simpa using h.completed
  · cases hs

/-- **Run lemma.**  In every run `init_routine` is started at most once, whatever the condition. -/
theorem onceInv_run (h : onceSystem.Run as s) : OnceInv as s := by
  refine h.invariant_trace (I := OnceInv) ?_ fun as s a s' _ ih hs => ih.step hs
  rintro s rfl
  exact onceInv_init

/-! ### The second part -/

/-- The invariant of the runs in which every test-and-set comes in time: a thread that is about to
    return finds the routine completed. -/
structure InTimeInv (as : List (Nat × OnceEvent)) (s : OnceState) : Prop where
  inv : OnceInv as s
  /-- A thread returns only when `init_routine` has completed. -/
  ret : ∀ t, s.pc t = .ret → 0 < s.completed
  returned : ∀ bs t cs, as = bs ++ (t, .ret) :: cs → Completed bs

/-- A return at the end of the trace, or an earlier one, each after the completion. -/
theorem returned_append (h : ∀ bs t cs, as = bs ++ (t, .ret) :: cs → Completed bs)
    (hlast : e = .ret → Completed as) (bs : List (Nat × OnceEvent)) (v : Nat)
    (cs : List (Nat × OnceEvent)) (heq : as ++ [(t, e)] = bs ++ (v, .ret) :: cs) :
    Completed bs := by
  rcases List.eq_nil_or_concat cs with rfl | ⟨cs, c, rfl⟩
  · obtain ⟨rfl, hc⟩ := List.append_inj' heq rfl
    simp only [List.cons.injEq, Prod.mk.injEq, and_true] at hc
    exact hlast hc.2
  · rw [List.concat_eq_append, ← List.cons_append, ← List.append_assoc] at heq
    obtain ⟨rfl, -⟩ := List.append_inj' heq rfl
    exact h bs v cs rfl

/-- **Step lemma.**  A step with its test-and-set in time keeps the invariant. -/
theorem InTimeInv.step (h : InTimeInv as s) (hs : stepOnce s (t, e) = some s')
    (htime : TestsInTime s (t, e)) : InTimeInv (as ++ [(t, e)]) s' := by
  have hinv := h.inv.step hs
  -- a thread that does not go to its return leaves the others where they are
  have hret : ∀ {p : OncePc}, p ≠ .ret → ∀ v, (s.goto t p).pc v = .ret → 0 < s.completed := by
    intro p hp v hv
    by_cases hne : v = t
    · subst hne
      rw [goto_pc_self] at hv
      exact absurd hv hp
    · rw [goto_pc_ne s p hne] at hv
      exact h.ret v hv
  unfold stepOnce at hs
  split at hs
  · rename_i hpc he
    obtain rfl : e = .call := he
    obtain rfl := Option.some.inj hs
    exact ⟨hinv, hret (by simp), returned_append h.returned (by simp)⟩
  · rename_i hpc he
    obtain rfl : e = .testAndSet := he
    obtain rfl := Option.some.inj hs
    refine ⟨hinv, fun v hv => ?_, returned_append h.returned (by simp)⟩
    -- the test-and-set finds 0, or the initialisation is over
    rcases htime rfl with hzero | hdone
    · simp only [hzero, if_true] at hv
      exact hret (by simp) v hv
    · exact hdone
  · rename_i hpc he
    obtain rfl : e = .start := he
    obtain rfl := Option.some.inj hs
    exact ⟨hinv, hret (by simp), returned_append h.returned (by simp)⟩
  · rename_i hpc he
    obtain rfl : e = .finish := he
    obtain rfl := Option.some.inj hs
    exact ⟨hinv, fun _ _ => Nat.succ_pos _, returned_append h.returned (by simp)⟩
  · rename_i hpc he
    -- the call returns, and the initialisation is over by then
    replace hpc : s.pc t = .ret := hpc
    obtain rfl : e = .ret := he
    obtain rfl := Option.some.inj hs
    exact ⟨hinv, hret (by simp),
      returned_append h.returned fun _ => h.inv.completed.mp (h.ret t hpc)⟩
  · cases hs

/-- A test-and-set that comes too early lets its caller return at once, so that the condition
    cannot be dropped. -/
theorem early_return (h : onceSystem.Run as s) (hpc : s.pc t = .testAndSet)
    (hearly : ¬TestsInTime s (t, .testAndSet)) :
    ∃ s', onceSystem.Run (as ++ [(t, .testAndSet), (t, .ret)]) s' ∧
      ¬OnceSpec (as ++ [(t, .testAndSet), (t, .ret)]) := by
  simp only [TestsInTime, true_imp_iff, not_or, Nat.not_lt, Nat.le_zero] at hearly
  obtain ⟨hflag, hzero⟩ : ¬s.onceControl = 0#32 ∧ s.completed = 0 := hearly
  have hrun : [(t, OnceEvent.testAndSet), (t, .ret)].foldlM stepOnce s
      = some (({ s.goto t .ret with onceControl := 1 } : OnceState).goto t .idle) := by
    simp [List.foldlM, stepOnce, hpc, hflag, OnceState.goto]
  refine ⟨_, LTS.Run.foldlM h hrun, fun hspec => ?_⟩
  have hdone := hspec.returned (as ++ [(t, .testAndSet)]) t [] (by simp)
  rw [completed_append] at hdone
  have hcompleted : ¬Completed as := by
    rw [← (onceInv_run h).completed]
    omega
  simp [hcompleted] at hdone

/-- **Once semantics.**  A run in which no test-and-set finds the flag set before
    `init_routine` has completed has once semantics; and every run that comes to a
    test-and-set that does has a continuation without. -/
theorem ethread_once_spec (as : List (Nat × OnceEvent)) (s : OnceState) :
    ((onceSystem.restrict TestsInTime).Run as s → OnceSpec as) ∧
      ∀ t, onceSystem.Run as s → s.pc t = .testAndSet → ¬TestsInTime s (t, .testAndSet) →
        ∃ s', onceSystem.Run (as ++ [(t, .testAndSet), (t, .ret)]) s' ∧
          ¬OnceSpec (as ++ [(t, .testAndSet), (t, .ret)]) := by
  refine ⟨fun h => ?_, fun t h hpc hearly => early_return h hpc hearly⟩
  have hinv : InTimeInv as s := by
    refine h.invariant_trace (I := InTimeInv) ?_ ?_
    · rintro s rfl
      exact ⟨onceInv_init, by simp [OnceState.init], by simp⟩
    · rintro as s ⟨t, e⟩ s' - ih ⟨hs, htime⟩
      exact ih.step hs htime
  exact ⟨hinv.inv.once, hinv.returned⟩

/-- The second caller arrives when `init_routine` has completed; a third arrives, in another
    run, when it has not. -/
def onceCallers : List (Nat × OnceEvent) :=
  [(1, .call), (1, .testAndSet), (1, .start), (1, .finish), (2, .call), (2, .testAndSet),
    (2, .ret), (1, .ret)]

/-- The second thread calls while the first one is in the routine, and then again. -/
theorem ethread_once_spec_callers :
    OnceSpec onceCallers ∧
      ¬OnceSpec [(1, .call), (1, .testAndSet), (2, .call), (2, .testAndSet), (2, .ret)] := by
  obtain ⟨s, hs⟩ : ∃ s, onceCallers.foldlM
      (fun s a => if TestsInTime s a then stepOnce s a else none) OnceState.init = some s :=
    Option.isSome_iff_exists.mp (by decide)
  obtain ⟨s₁, hs₁⟩ : ∃ s₁, [(1, OnceEvent.call), (1, .testAndSet), (2, .call)].foldlM stepOnce
      OnceState.init = some s₁ := Option.isSome_iff_exists.mp (by decide)
  have hpc : ([(1, OnceEvent.call), (1, .testAndSet), (2, .call)].foldlM stepOnce
      OnceState.init).map (fun s => (s.pc 2, s.onceControl, s.completed))
        = some (.testAndSet, 1, 0) := by decide
  rw [hs₁] at hpc
  obtain ⟨hpc, hflag, hzero⟩ := by simpa using hpc
  refine ⟨(ethread_once_spec _ _).1 (LTS.Run.foldlM_restrict (.init rfl) hs), ?_⟩
  obtain ⟨s', -, hnot⟩ := (ethread_once_spec _ s₁).2 2 (LTS.Run.foldlM (.init rfl) hs₁) hpc
    (by simp [TestsInTime, hflag, hzero])
  exact hnot

/-- The second caller arrives between the test-and-set of the first and the start of
    `init_routine`. -/
def earlyCaller : List (Nat × OnceEvent) :=
  [(1, .call), (1, .testAndSet), (2, .call), (2, .testAndSet), (2, .ret)]

/-- **The second part of once semantics fails.**  Two threads call; the second returns while the
    routine has not begun. -/
theorem ethread_once_early : ¬∀ as s, onceSystem.Run as s → OnceSpec as := by
  intro hall
  obtain ⟨s, hs⟩ : ∃ s, earlyCaller.foldlM stepOnce .init = some s :=
    Option.isSome_iff_exists.mp (by decide)
  have hspec := hall _ _ (LTS.Run.foldlM (.init rfl) hs)
  obtain ⟨t, ht⟩ := hspec.returned [(1, .call), (1, .testAndSet), (2, .call), (2, .testAndSet)]
    2 [] rfl
  simp at ht

end Ecos.Ethread
