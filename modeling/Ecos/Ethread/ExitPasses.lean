import Ecos.Ethread.Exit
import Ecos.Ethread.KeyMap

namespace Ecos.Ethread

open Ecos.Lib

/-!
# The passes of `ethread_exit` over the keys

Key destructors may do anything the layer offers: store new values for the exiting thread, and
create and delete keys.  What `ethread_exit` does is stated for every such behaviour, the other
threads keeping still.

* `ExitLaw` — what is expected of `ethread_exit`: how many passes, which calls in a pass, what
  is left behind, and that it ends;
* `PassInv` — the invariant, point by point, with its step lemma `PassInv.step`;
* `exit_passes` — the law holds as long as pass number `ETHREAD_DESTRUCTOR_ITERATIONS` calls no
  destructor; else the code begins one pass too many.
-/

/-- The destructor calls that the keys of a list call for, in the order of the list. -/
def dueCalls (reached : List (Nat × Option (Addr × Ptr))) : List (Nat × Addr × Ptr) :=
  reached.filterMap fun x => x.2.map fun c => (x.1, c)

/-- How many keys of the pass have been reached, the one that is looked at included once its bit
    was tested. -/
def ExitPoint.reachedKeys : ExitPoint → Option Nat
  | .testBit f | .endOfPass f => some f.key
  | .testDestructor f | .testValue f | .loadValue f | .clearValue f _ | .loadDestructor f _
  | .inDestructor f => some (f.key + 1)
  | _ => none

/-- The number of steps that `ethread_exit` can still make: eight for a key, and so many passes
    as the counter allows. -/
def ExitPoint.variant (cfg : EthreadConfig) : ExitPoint → Nat
  | .before => (cfg.iterations + 1) * (8 * cfg.keysMax + 4) + 4
  | .testBit f => (cfg.iterations - f.destructorIterations) * (8 * cfg.keysMax + 4)
      + (8 * (cfg.keysMax - f.key) + 3)
  | .testDestructor f => (cfg.iterations - f.destructorIterations) * (8 * cfg.keysMax + 4)
      + (8 * (cfg.keysMax - f.key) + 2)
  | .testValue f => (cfg.iterations - f.destructorIterations) * (8 * cfg.keysMax + 4)
      + (8 * (cfg.keysMax - f.key) + 1)
  | .loadValue f => (cfg.iterations - f.destructorIterations) * (8 * cfg.keysMax + 4)
      + 8 * (cfg.keysMax - f.key)
  | .clearValue f _ => (cfg.iterations - f.destructorIterations) * (8 * cfg.keysMax + 4)
      + (8 * (cfg.keysMax - f.key) - 1)
  | .loadDestructor f _ => (cfg.iterations - f.destructorIterations) * (8 * cfg.keysMax + 4)
      + (8 * (cfg.keysMax - f.key) - 2)
  | .inDestructor f => (cfg.iterations - f.destructorIterations) * (8 * cfg.keysMax + 4)
      + (8 * (cfg.keysMax - f.key) - 3)
  | .endOfPass f => (cfg.iterations - f.destructorIterations) * (8 * cfg.keysMax + 4) + 2
  | .release _ => 1
  | .returned => 0

/-- Is the step one of `ethread_exit`, and not a call of the layer? Only these are counted against
    the bound. -/
def exitOwn (b : ExitEvent × ExitOut) : Bool :=
  match b.1 with
  | .call .. => false
  | _ => true

/-- What is expected of the exit of thread `t` after the steps `as`: the passes, what they call,
    what is left, and that it ends. -/
structure ExitLaw (cfg : EthreadConfig) (t : Thread) (as : List (ExitEvent × ExitOut))
    (s : ExitState) : Prop where
  /-- No more passes than configured. -/
  passes : s.passes ≤ cfg.iterations
  /-- A pass reaches every key once, in order. -/
  order : ∀ n, s.point.reachedKeys = some n → s.reached.map Prod.fst = List.range n
  /-- The destructors called in a pass are those that were due when their keys were reached,
      each called once and with the value it was due for. -/
  calls : ∀ f, s.point = .testBit f ∨ s.point = .inDestructor f ∨ s.point = .endOfPass f →
    s.calls = dueCalls s.reached
  /-- A destructor is called after its slot was set to `NULL`. -/
  cleared : ∀ f value, s.point = .loadDestructor f value →
    s.tsd.loadEntry cfg f.threadData f.key = some 0
  /-- When the passes are over no key calls for a destructor, or the limit was reached. -/
  finished : ∀ f, s.point = .release f → s.passes = cfg.iterations ∨
    ∀ key < cfg.keysMax, s.tsd.due cfg f.threadData key = none
  /-- On return the thread's table has been freed and its slot is `NULL`. -/
  freed : s.point = .returned →
    (∀ a ∈ s.tsd.heap.live, s.tsd.owner a ≠ t) ∧ s.tsd.threadTable (s.tsd.threadData t) = 0
  /-- `ethread_exit` makes a bounded number of steps. -/
  bounded : as.countP exitOwn + s.point.variant cfg ≤ ExitPoint.variant cfg .before
  /-- Until it returns there is a next step. -/
  progress : s.point ≠ .before → s.point ≠ .returned →
    ∃ e out s', exitOwn (e, out) = true ∧ stepExit cfg t s e = some (out, s')

/-- From the start of `ethread_exit` on the other threads keep still; the destructors of the thread
    itself may make any call. -/
def Alone (t : Thread) (s : ExitState) (b : ExitEvent × ExitOut) : Prop :=
  match b.1 with
  | .call u _ => u = t ∨ s.point = .before
  | _ => True

instance (t : Thread) (s : ExitState) (b : ExitEvent × ExitOut) : Decidable (Alone t s b) :=
  match b with
  | (.call u _, _) => inferInstanceAs (Decidable (u = t ∨ s.point = .before))
  | (.start, _) | (.next, _) | (.destructorReturn, _) => isTrue trivial

/-- When pass number `ETHREAD_DESTRUCTOR_ITERATIONS` ends, it has called no destructor, so that no
    further pass is begun. -/
def WithinLimit (cfg : EthreadConfig) (s : ExitState) (b : ExitEvent × ExitOut) : Prop :=
  b.1 = .next → ∀ f, s.point = .endOfPass f →
    ¬(f.destructorsCalled = true ∧ f.destructorIterations + 1 = cfg.iterations)

instance (cfg : EthreadConfig) (s : ExitState) (b : ExitEvent × ExitOut) :
    Decidable (WithinLimit cfg s b) :=
  if hnext : b.1 = .next then
    match hpoint : s.point with
    | .endOfPass f =>
      decidable_of_iff
        (¬(f.destructorsCalled = true ∧ f.destructorIterations + 1 = cfg.iterations)) (by
          constructor
          · rintro hlast - f' hf'
            rw [hpoint] at hf'
            cases hf'
            exact hlast
          · exact fun hlimit => hlimit hnext f hpoint)
    | .before | .testBit _ | .testDestructor _ | .testValue _ | .loadValue _ | .clearValue _ _
    | .loadDestructor _ _ | .inDestructor _ | .release _ | .returned =>
      isTrue fun _ f hf => by
        rw [hpoint] at hf
        cases hf
  else isTrue fun h => absurd h hnext

variable {cfg : EthreadConfig} {t : Thread} {s s' : ExitState} {e : ExitEvent} {out : ExitOut}
  {as : List (ExitEvent × ExitOut)}

/-! ### The invariant -/

/-- No key below `n` calls for a destructor, unless one was called in the pass. -/
def NoneDue (cfg : EthreadConfig) (s : TsdState) (f : ExitFrame) (n : Nat) : Prop :=
  f.destructorsCalled = false → ∀ key < n, s.due cfg f.threadData key = none

/-- The key of the frame was the last one reached, and `c` was due when its bit was tested. -/
def Reached (s : ExitState) (f : ExitFrame) (c : Option (Addr × Ptr)) : Prop :=
  ∃ pre, s.reached = pre ++ [(f.key, c)] ∧ s.calls = dueCalls pre

/-- What holds at each point of the loop: the calls made are those that were due, and keys passed
    without a call are still not due. -/
def PassAt (cfg : EthreadConfig) (s : ExitState) : ExitPoint → Prop
  | .testBit f => s.calls = dueCalls s.reached ∧ NoneDue cfg s.tsd f f.key
  | .testDestructor f =>
    Reached s f (s.tsd.due cfg f.threadData f.key) ∧ NoneDue cfg s.tsd f f.key ∧
      s.tsd.keyFree cfg f.key = false
  | .testValue f =>
    Reached s f (s.tsd.due cfg f.threadData f.key) ∧ NoneDue cfg s.tsd f f.key ∧
      s.tsd.keyFree cfg f.key = false ∧ s.tsd.keyDestructor f.key ≠ 0
  | .loadValue f =>
    Reached s f (s.tsd.due cfg f.threadData f.key) ∧ s.tsd.keyFree cfg f.key = false ∧
      s.tsd.keyDestructor f.key ≠ 0 ∧
      ∃ value, value ≠ 0 ∧ s.tsd.loadEntry cfg f.threadData f.key = some value
  | .clearValue f value | .loadDestructor f value =>
    Reached s f (some (s.tsd.keyDestructor f.key, value))
  | .inDestructor _ => s.calls = dueCalls s.reached
  | .endOfPass f => s.calls = dueCalls s.reached ∧ NoneDue cfg s.tsd f cfg.keysMax
  | .release f => s.passes = cfg.iterations ∨
      ∀ key < cfg.keysMax, s.tsd.due cfg f.threadData key = none
  | _ => True

/-- The invariant: the counter, the accounts of the current pass, and the variant that bounds the
    steps left. -/
structure PassInv (cfg : EthreadConfig) (t : Thread) (as : List (ExitEvent × ExitOut))
    (s : ExitState) : Prop where
  exit : ExitInv cfg t s
  passes : s.passes ≤ cfg.iterations
  before : s.point = .before → s.passes = 0
  /-- The counter has counted the passes before this one. -/
  counter : ∀ f, s.point.keyFrame? = some f ∨ s.point = .endOfPass f →
    s.passes = f.destructorIterations + 1
  order : ∀ n, s.point.reachedKeys = some n → s.reached.map Prod.fst = List.range n
  point : PassAt cfg s s.point
  cleared : ∀ f value, s.point = .loadDestructor f value →
    s.tsd.loadEntry cfg f.threadData f.key = some 0
  freed : s.point = .returned →
    (∀ a ∈ s.tsd.heap.live, s.tsd.owner a ≠ t) ∧ s.tsd.threadTable (s.tsd.threadData t) = 0
  bounded : as.countP exitOwn + s.point.variant cfg ≤ ExitPoint.variant cfg .before

/-- Before `ethread_exit` the invariant holds, with all the steps still to go. -/
theorem passInv_init (cfg : EthreadConfig) (t : Thread) : PassInv cfg t [] (.init cfg) :=
  ⟨exitInv_init cfg t, Nat.zero_le _, fun _ => rfl, nofun, nofun, trivial, nofun, nofun, by
    rw [List.countP_nil, Nat.zero_add]
    exact Nat.le_refl _⟩

/-! ### Lists of due calls -/

/-- A key that is not due adds no call to the list. -/
@[simp] theorem dueCalls_none (pre : List (Nat × Option (Addr × Ptr))) (key : Nat) :
    dueCalls (pre ++ [(key, none)]) = dueCalls pre := by
  simp [dueCalls]

/-- A key that is due adds its call to the list. -/
@[simp] theorem dueCalls_some (pre : List (Nat × Option (Addr × Ptr))) (key : Nat)
    (c : Addr × Ptr) : dueCalls (pre ++ [(key, some c)]) = dueCalls pre ++ [(key, c)] := by
  simp [dueCalls]

/-- One more key without a due call, so that at the end of a pass without calls no key is due. -/
theorem NoneDue.next {f : ExitFrame} {tsd : TsdState} (h : NoneDue cfg tsd f f.key)
    (hnone : tsd.due cfg f.threadData f.key = none) :
    NoneDue cfg tsd { f with key := f.key + 1 } (f.key + 1) := by
  intro hcalled key hkey
  rcases Nat.lt_succ_iff_lt_or_eq.mp hkey with hlt | rfl
  · exact h hcalled key hlt
  · exact hnone

/-! ### The step lemma -/

/-- A step of `ethread_exit` that lowers the variant keeps the bound on the number of its steps. -/
theorem PassInv.bounded_own (h : PassInv cfg t as s) (hown : exitOwn (e, out) = true) {n : Nat}
    (hlt : n < s.point.variant cfg) :
    (as ++ [(e, out)]).countP exitOwn + n ≤ ExitPoint.variant cfg .before := by
  have hbound := h.bounded
  rw [List.countP_append, List.countP_singleton, if_pos hown]
  omega

/-- Reaching the next key, or the end of the pass, with the accounts of the keys before it. -/
theorem PassInv.arrive {s₀ : ExitState} {f : ExitFrame} (h : PassInv cfg t as s₀)
    (hown : exitOwn (e, out) = true) (hexit : ExitInv cfg t (s.toKey cfg t f))
    (hpasses : s.passes ≤ cfg.iterations) (hcounter : s.passes = f.destructorIterations + 1)
    (horder : s.reached.map Prod.fst = List.range f.key) (hcalls : s.calls = dueCalls s.reached)
    (hdue : NoneDue cfg s.tsd f f.key)
    (hlt : ExitPoint.variant cfg (.testBit f) < s₀.point.variant cfg) :
    PassInv cfg t (as ++ [(e, out)]) (s.toKey cfg t f) := by
  have hpast := hexit.past
  unfold ExitState.toKey at hexit hpast ⊢
  split at hexit
  · rename_i hlast
    rw [if_pos hlast]
    refine ⟨hexit, hpasses, nofun, ?_, ?_, ⟨hcalls, hdue⟩, nofun, nofun, h.bounded_own hown hlt⟩
    · rintro f' (hf' | hf')
      · cases hf'
        exact hcounter
      · cases hf'
    · rintro n hn
      cases hn
      exact horder
  · rename_i hge
    rw [if_neg hge] at hpast ⊢
    have hkey : f.key = cfg.keysMax := hpast f rfl
    refine ⟨hexit, hpasses, nofun, ?_, ?_, ⟨hcalls, ?_⟩, nofun, nofun, h.bounded_own hown ?_⟩
    · rintro f' (hf' | hf')
      · cases hf'
      · cases hf'
        exact hcounter
    · rintro n hn
      cases hn
      exact horder
    · rw [← hkey]
      exact hdue
    · -- the end of the pass is one step nearer to the end than a key
      refine Nat.lt_trans ?_ hlt
      show (cfg.iterations - f.destructorIterations) * (8 * cfg.keysMax + 4) + 2
        < (cfg.iterations - f.destructorIterations) * (8 * cfg.keysMax + 4)
          + (8 * (cfg.keysMax - f.key) + 3)
      omega

/-- Going on with the same key, at the next of its accesses. -/
theorem PassInv.stay {s₀ : ExitState} {f : ExitFrame} {pt : ExitPoint} (h : PassInv cfg t as s₀)
    (hown : exitOwn (e, out) = true) (hexit : ExitInv cfg t (s.goto t pt))
    (hpt : pt.keyFrame? = some f) (hreached : pt.reachedKeys = some (f.key + 1))
    (hpasses : s.passes ≤ cfg.iterations) (hcounter : s.passes = f.destructorIterations + 1)
    (horder : s.reached.map Prod.fst = List.range (f.key + 1)) (hat : PassAt cfg (s.goto t pt) pt)
    (hcleared : ∀ f value, pt = .loadDestructor f value →
      s.tsd.loadEntry cfg f.threadData f.key = some 0)
    (hlt : pt.variant cfg < s₀.point.variant cfg) :
    PassInv cfg t (as ++ [(e, out)]) (s.goto t pt) := by
  refine ⟨hexit, hpasses, fun hpt' => ?_, fun f' hf' => ?_, fun n hn => ?_, hat, hcleared,
    fun hpt' => ?_, h.bounded_own hown hlt⟩
  · rw [exitState_goto_point] at hpt'
    rw [hpt'] at hpt
    cases hpt
  · rw [exitState_goto_point] at hf'
    rcases hf' with hf' | hf'
    · rw [hpt] at hf'
      cases hf'
      exact hcounter
    · rw [hf'] at hpt
      cases hpt
  · rw [exitState_goto_point, hreached] at hn
    cases hn
    exact horder
  · rw [exitState_goto_point] at hpt'
    rw [hpt'] at hpt
    cases hpt

/-- What is known while a key is looked at: which key it is, and the number of the pass. -/
theorem PassInv.atKey (h : PassInv cfg t as s) {f : ExitFrame}
    (hframe : s.point.keyFrame? = some f) :
    f.key < cfg.keysMax ∧ s.passes = f.destructorIterations + 1 :=
  ⟨h.exit.key f hframe, h.counter f (Or.inl hframe)⟩

/-- A thread without a table in its slot owns none, so that nothing of it is left when it returns
    at once. -/
theorem OwnInv.no_table {tsd : TsdState} (h : OwnInv cfg tsd)
    (htab : tsd.threadTable (tsd.threadData t) = 0) : ∀ a ∈ tsd.heap.live, tsd.owner a ≠ t := by
  rintro a ha rfl
  obtain ⟨hne, i, rfl⟩ := (h.live a).mp ha
  rw [(h.home i hne).1] at htab
  exact hne htab

/-- What is left when the table has been freed: no table of the thread, and an empty slot. -/
theorem release_freed (h : ExitInv cfg t s) {f : ExitFrame} {o : TsdOut} {tsd : TsdState}
    (hpoint : s.point = .release f) (hs : releaseTable s.tsd t f = some (o, tsd)) :
    (∀ a ∈ tsd.heap.live, tsd.owner a ≠ t) ∧ tsd.threadTable (tsd.threadData t) = 0 := by
  obtain ⟨-, hidx, hslot, hne⟩ := h.frame (f := f) (by rw [hpoint]; rfl)
  have hown := (h.step (.release hpoint hs)).own
  have htab : tsd.threadTable (tsd.threadData t) = 0 := by
    unfold releaseTable at hs
    dsimp only at hs
    split at hs
    · rename_i hnull
      exact absurd (hslot.symm.trans hnull) hne
    · obtain ⟨h', -, hs⟩ := Option.bind_eq_some_iff.mp hs
      obtain ⟨rfl, rfl⟩ := Prod.mk.inj (Option.some.inj hs)
      show Function.update s.tsd.threadTable f.tableIndex 0 (s.tsd.threadData t) = 0
      rw [hidx, Function.update_self]
  exact ⟨hown.no_table htab, htab⟩

/-- A call of a thread, before `ethread_exit` starts or from a destructor, leaves the accounts of
    the pass alone. -/
theorem PassInv.call (h : PassInv cfg t as s) {u : Thread} {ev : TsdEvent} {o : TsdOut}
    {tsd : TsdState} (hexit : ExitInv cfg t { s with tsd := tsd })
    (hpoint : s.point = .before ∨ ∃ f, s.point = .inDestructor f) :
    PassInv cfg t (as ++ [(.call u ev, .call o)]) { s with tsd := tsd } := by
  have hbound : (as ++ [(ExitEvent.call u ev, ExitOut.call o)]).countP exitOwn
      + s.point.variant cfg ≤ ExitPoint.variant cfg .before := by
    rw [List.countP_append]
    exact h.bounded
  have hpt := h.point
  refine ⟨hexit, h.passes, h.before, h.counter, h.order, ?_, ?_, ?_, hbound⟩
  · show PassAt cfg { s with tsd := tsd } s.point
    rcases hpoint with hpoint | ⟨f, hpoint⟩
    · rw [hpoint]
      trivial
    · rw [hpoint] at hpt ⊢
      exact hpt
  · intro f value hf
    rcases hpoint with hpoint | ⟨f, hpoint⟩
    · exact absurd (hpoint.symm.trans hf) nofun
    · exact absurd (hpoint.symm.trans hf) nofun
  · intro hf
    rcases hpoint with hpoint | ⟨f, hpoint⟩
    · exact absurd (hpoint.symm.trans hf) nofun
    · exact absurd (hpoint.symm.trans hf) nofun

/-- Every point of a key is farther from the end than the next key, which is why a pass ends. -/
theorem variant_nextKey {pt : ExitPoint} {f : ExitFrame} (hpt : pt.keyFrame? = some f)
    (hkey : f.key < cfg.keysMax) (called : Bool) :
    ExitPoint.variant cfg (.testBit { f with key := f.key + 1, destructorsCalled := called })
      < pt.variant cfg := by
  cases pt <;> cases hpt <;> simp only [ExitPoint.variant] <;> omega

/-- A table is found, and the first pass begins with its counter at 1. -/
theorem PassInv.startScan (h : PassInv cfg t as s) (hiter : 0 < cfg.iterations)
    (hown : exitOwn (e, out) = true) (hpoint : s.point = .before) {r : Thread → Nat} {i a : Nat}
    (hexit : ExitInv cfg t
      ({ s with tsd := { s.tsd with registered := r } }.beginPass cfg t ⟨i, a, 0, false, 0⟩)) :
    PassInv cfg t (as ++ [(e, out)])
      ({ s with tsd := { s.tsd with registered := r } }.beginPass cfg t ⟨i, a, 0, false, 0⟩) := by
  have hzero := h.before hpoint
  refine PassInv.arrive (s := { s with
    tsd := { s.tsd with registered := r }, passes := s.passes + 1, reached := [], calls := [] })
    h hown hexit ?_ ?_ rfl rfl ?_ ?_
  · show s.passes + 1 ≤ _
    omega
  · show s.passes + 1 = 0 + 1
    omega
  · -- no key has been looked at
    intro _ key hkey
    exact absurd hkey (Nat.not_lt_zero key)
  · rw [hpoint]
    simp only [ExitPoint.variant, Nat.succ_mul, Nat.sub_zero]
    omega

/-- The list of the keys reached, when one more is: still the first keys in order. -/
theorem PassInv.reach (h : PassInv cfg t as s) {f : ExitFrame} (hpoint : s.point = .testBit f)
    (c : Option (Addr × Ptr)) :
    (s.reached ++ [(f.key, c)]).map Prod.fst = List.range (f.key + 1) := by
  rw [List.map_append, h.order f.key (by rw [hpoint]; rfl), List.range_succ]
  rfl

/-- A key that is free is not due, and the scan passes on from it. -/
theorem PassInv.bitFree (h : PassInv cfg t as s) (hown : exitOwn (e, out) = true) {f : ExitFrame}
    (hpoint : s.point = .testBit f) (hfree : s.tsd.keyFree cfg f.key = true)
    (hexit : ExitInv cfg t
      ({ s with reached := s.reached ++ [(f.key, s.tsd.due cfg f.threadData f.key)] }.toKey cfg t
        { f with key := f.key + 1 })) :
    PassInv cfg t (as ++ [(e, out)])
      ({ s with reached := s.reached ++ [(f.key, s.tsd.due cfg f.threadData f.key)] }.toKey cfg t
        { f with key := f.key + 1 }) := by
  have hframe : s.point.keyFrame? = some f := by rw [hpoint]; rfl
  obtain ⟨hkey, hcounter⟩ := h.atKey hframe
  have hnone : s.tsd.due cfg f.threadData f.key = none := by simp [TsdState.due, hfree]
  have hpt := h.point
  rw [hpoint] at hpt
  obtain ⟨hcalls, hdue⟩ := hpt
  refine PassInv.arrive (s := { s with
    reached := s.reached ++ [(f.key, s.tsd.due cfg f.threadData f.key)] })
    h hown hexit h.passes hcounter (h.reach hpoint _) ?_ (hdue.next hnone)
    (variant_nextKey hframe hkey _)
  show s.calls = dueCalls (s.reached ++ [(f.key, s.tsd.due cfg f.threadData f.key)])
  rw [hnone, dueCalls_none]
  exact hcalls

/-- A key that turns out not to be due, for the want of a destructor or of a value. -/
theorem PassInv.notDue (h : PassInv cfg t as s) (hown : exitOwn (e, out) = true) {f : ExitFrame}
    (hframe : s.point.keyFrame? = some f) (hnum : s.point.reachedKeys = some (f.key + 1))
    (hreached : Reached s f (s.tsd.due cfg f.threadData f.key)) (hdue : NoneDue cfg s.tsd f f.key)
    (hnone : s.tsd.due cfg f.threadData f.key = none)
    (hexit : ExitInv cfg t (s.toKey cfg t { f with key := f.key + 1 })) :
    PassInv cfg t (as ++ [(e, out)]) (s.toKey cfg t { f with key := f.key + 1 }) := by
  obtain ⟨hkey, hcounter⟩ := h.atKey hframe
  obtain ⟨pre, hlast, hcalls⟩ := hreached
  refine PassInv.arrive h hown hexit h.passes hcounter (h.order _ hnum) ?_ (hdue.next hnone)
    (variant_nextKey hframe hkey _)
  rw [hlast, hnone, dueCalls_none, hcalls]

/-- The value read before the call is the one that the destructor was due for. -/
theorem PassInv.due (h : PassInv cfg t as s) {f : ExitFrame} {value : Ptr}
    (hpoint : s.point = .loadValue f)
    (hload : s.tsd.loadEntry cfg f.threadData f.key = some value) :
    Reached s f (some (s.tsd.keyDestructor f.key, value)) := by
  have hpt := h.point
  rw [hpoint] at hpt
  obtain ⟨hreached, hfree, hdtor, value', hvalue, hload'⟩ := hpt
  rw [hload] at hload'
  cases hload'
  -- all the tests were passed
  have hcall : s.tsd.due cfg f.threadData f.key = some (s.tsd.keyDestructor f.key, value) := by
    simp [TsdState.due, hfree, hdtor, hload, hvalue]
  rwa [hcall] at hreached

/-- A table entry has the value that was stored, so that a cleared key is not due. -/
theorem loadEntry_storeEntry {tsd tsd' : TsdState} {a : Addr} {key : Nat} {v : Ptr}
    (hkey : key < cfg.keysMax) (hstore : tsd.storeEntry cfg a key v = some tsd') :
    tsd'.loadEntry cfg a key = some v := by
  obtain ⟨h', d, rfl, hl, -, hd, hc⟩ := storeEntry_spec hstore
  simp [TsdState.loadEntry, hkey, Heap.load, hc]

/-- A pass has called destructors, and another one begins: the counter says that there is one
    left. -/
theorem PassInv.nextPass (h : PassInv cfg t as s) (hown : exitOwn (e, out) = true) {f : ExitFrame}
    (hpoint : s.point = .endOfPass f) (hlimit : f.destructorIterations + 1 < cfg.iterations)
    (hexit : ExitInv cfg t (s.beginPass cfg t
      ⟨f.tableIndex, f.threadData, 0, false, f.destructorIterations + 1⟩)) :
    PassInv cfg t (as ++ [(e, out)]) (s.beginPass cfg t
      ⟨f.tableIndex, f.threadData, 0, false, f.destructorIterations + 1⟩) := by
  have hcounter := h.counter f (Or.inr hpoint)
  refine PassInv.arrive (s := { s with passes := s.passes + 1, reached := [], calls := [] })
    h hown hexit ?_ ?_ rfl rfl ?_ ?_
  · show s.passes + 1 ≤ _
    omega
  · show s.passes + 1 = f.destructorIterations + 1 + 1
    omega
  · intro _ key hkey
    exact absurd hkey (Nat.not_lt_zero key)
  · -- one pass fewer is left
    have hleft : cfg.iterations - f.destructorIterations
        = (cfg.iterations - (f.destructorIterations + 1)) + 1 := by omega
    rw [hpoint]
    simp only [ExitPoint.variant, hleft, Nat.succ_mul]
    omega

/-- When the passes end before the limit, the last one has called no destructor, and so no key is
    due. -/
theorem PassInv.noneLeft (h : PassInv cfg t as s) {f : ExitFrame} (hpoint : s.point = .endOfPass f)
    (hlast : ¬(f.destructorsCalled = true ∧ f.destructorIterations + 1 ≤ cfg.iterations)) :
    ∀ key < cfg.keysMax, s.tsd.due cfg f.threadData key = none := by
  have hcounter := h.counter f (Or.inr hpoint)
  have hpasses := h.passes
  have hpt := h.point
  rw [hpoint] at hpt
  apply hpt.2
  cases hcalled : f.destructorsCalled with
  | false => rfl
  | true => exact absurd ⟨hcalled, by omega⟩ hlast

/-- Going on with the same key, which was reached before, without changing what was accounted. -/
theorem PassInv.goOn {s₀ : ExitState} {f : ExitFrame} {pt : ExitPoint} (h : PassInv cfg t as s₀)
    (hown : exitOwn (e, out) = true) (hframe : s₀.point.keyFrame? = some f)
    (hnum : s₀.point.reachedKeys = some (f.key + 1)) (hexit : ExitInv cfg t (s.goto t pt))
    (hpasses : s.passes = s₀.passes) (hsame : s.reached = s₀.reached)
    (hpt : pt.keyFrame? = some f) (hreached : pt.reachedKeys = some (f.key + 1))
    (hat : PassAt cfg (s.goto t pt) pt)
    (hcleared : ∀ f value, pt = .loadDestructor f value →
      s.tsd.loadEntry cfg f.threadData f.key = some 0)
    (hlt : pt.variant cfg < s₀.point.variant cfg) :
    PassInv cfg t (as ++ [(e, out)]) (s.goto t pt) := by
  obtain ⟨-, hcounter⟩ := h.atKey hframe
  refine h.stay hown hexit hpt hreached ?_ (hpasses.trans hcounter) ?_ hat hcleared hlt
  · rw [hpasses]
    exact h.passes
  · rw [hsame]
    exact h.order _ hnum

/-- **Step lemma.**  One case for each exit of `ExitStep`; the variant falls in those of
    `ethread_exit`. -/
theorem PassInv.step (h : PassInv cfg t as s) (hiter : 0 < cfg.iterations)
    (halone : Alone t s (e, out)) (hlimit : WithinLimit cfg s (e, out))
    (hs : ExitStep cfg t s e out s') : PassInv cfg t (as ++ [(e, out)]) s' := by
  have hexit := h.exit.step hs
  have hpt := h.point
  cases hs with
  | @call u ev o tsd hcall hlive hs =>
    apply h.call hexit
    rcases (halone : u = t ∨ s.point = .before) with rfl | hbefore
    · exact call_point h.exit hcall (hlive rfl) hs
    · exact Or.inl hbefore
  | @startNone r hpoint htab =>
    -- a thread without a table has nothing to do
    have hnone : ∀ a ∈ s.tsd.heap.live, s.tsd.owner a ≠ t := h.exit.own.no_table htab
    refine ⟨hexit, h.passes, by rintro ⟨⟩, ?_, by rintro _ ⟨⟩, trivial, by rintro _ _ ⟨⟩,
      fun _ => ⟨hnone, htab⟩, h.bounded_own rfl ?_⟩
    · rintro f (hf | hf) <;> cases hf
    · rw [hpoint]
      exact Nat.succ_pos _
  | startScan hpoint htab => exact h.startScan hiter rfl hpoint hexit
  | bitFree hpoint hfree => exact h.bitFree rfl hpoint hfree hexit
  | @bitAllocated f hpoint hfree =>
    obtain ⟨-, hcounter⟩ := h.atKey (f := f) (by rw [hpoint]; rfl)
    rw [hpoint] at hpt
    obtain ⟨hcalls, hdue⟩ := hpt
    refine PassInv.stay (f := f) h rfl hexit rfl rfl h.passes hcounter (h.reach hpoint _)
      ⟨⟨s.reached, rfl, hcalls⟩, hdue, hfree⟩ (by rintro _ _ ⟨⟩) ?_
    rw [hpoint]
    simp only [ExitPoint.variant]
    omega
  | @destructorNull f hpoint hdtor =>
    rw [hpoint] at hpt
    obtain ⟨hreached, hdue, hfree⟩ := hpt
    have hnone : s.tsd.due cfg f.threadData f.key = none := by simp [TsdState.due, hfree, hdtor]
    exact h.notDue rfl (by rw [hpoint]; rfl) (by rw [hpoint]; rfl) hreached hdue hnone hexit
  | @destructorSet f hpoint hdtor =>
    rw [hpoint] at hpt
    obtain ⟨hreached, hdue, hfree⟩ := hpt
    refine h.goOn (f := f) rfl (by rw [hpoint]; rfl) (by rw [hpoint]; rfl) hexit rfl rfl rfl rfl
      ⟨hreached, hdue, hfree, hdtor⟩ (by rintro _ _ ⟨⟩) ?_
    rw [hpoint]
    simp only [ExitPoint.variant]
    omega
  | @valueNull f hpoint hload =>
    rw [hpoint] at hpt
    obtain ⟨hreached, hdue, hfree, hdtor⟩ := hpt
    have hnone : s.tsd.due cfg f.threadData f.key = none := by simp [TsdState.due, hload]
    exact h.notDue rfl (by rw [hpoint]; rfl) (by rw [hpoint]; rfl) hreached hdue hnone hexit
  | @valueSet f value hpoint hload hvalue =>
    rw [hpoint] at hpt
    obtain ⟨hreached, -, hfree, hdtor⟩ := hpt
    refine h.goOn (f := f) rfl (by rw [hpoint]; rfl) (by rw [hpoint]; rfl) hexit rfl rfl rfl rfl
      ⟨hreached, hfree, hdtor, value, hvalue, hload⟩ (by rintro _ _ ⟨⟩) ?_
    rw [hpoint]
    simp only [ExitPoint.variant]
    omega
  | @load f value hpoint hload =>
    obtain ⟨hkey, -⟩ := h.atKey (f := f) (by rw [hpoint]; rfl)
    refine h.goOn (f := f) rfl (by rw [hpoint]; rfl) (by rw [hpoint]; rfl) hexit rfl rfl rfl rfl
      (h.due hpoint hload) (by rintro _ _ ⟨⟩) ?_
    rw [hpoint]
    simp only [ExitPoint.variant]
    omega
  | @clear f value tsd hpoint hstore =>
    obtain ⟨hkey, -⟩ := h.atKey (f := f) (by rw [hpoint]; rfl)
    have hnull := loadEntry_storeEntry hkey hstore
    rw [hpoint] at hpt
    obtain ⟨h', d, rfl, -⟩ := storeEntry_spec hstore
    refine h.goOn (f := f) rfl (by rw [hpoint]; rfl) (by rw [hpoint]; rfl) hexit rfl rfl rfl rfl
      hpt ?_ ?_
    -- the value was read before, and the slot is `NULL` when the destructor is called
    · rintro f' value' hpt'
      cases hpt'
      exact hnull
    · rw [hpoint]
      simp only [ExitPoint.variant]
      omega
  | @destructor f value hpoint =>
    obtain ⟨hkey, -⟩ := h.atKey (f := f) (by rw [hpoint]; rfl)
    rw [hpoint] at hpt
    obtain ⟨pre, hreached, hcalls⟩ := hpt
    refine h.goOn (f := f) rfl (by rw [hpoint]; rfl) (by rw [hpoint]; rfl) hexit rfl rfl rfl rfl
      ?_ (by rintro _ _ ⟨⟩) ?_
    -- the call is the one that was due for the last key reached
    · show s.calls ++ [(f.key, s.tsd.keyDestructor f.key, value)] = dueCalls s.reached
      rw [hreached, dueCalls_some, hcalls]
    · rw [hpoint]
      simp only [ExitPoint.variant]
      omega
  | @destructorReturn f hpoint =>
    have hframe : s.point.keyFrame? = some f := by rw [hpoint]; rfl
    obtain ⟨hkey, hcounter⟩ := h.atKey hframe
    have hrange := h.order (f.key + 1) (by rw [hpoint]; rfl)
    rw [hpoint] at hpt
    exact PassInv.arrive h rfl hexit h.passes hcounter hrange hpt (by rintro ⟨⟩)
      (variant_nextKey hframe hkey _)
  | @nextPass f hpoint hcalled hle =>
    have hne : f.destructorIterations + 1 ≠ cfg.iterations := fun hlast =>
      hlimit rfl f hpoint ⟨hcalled, hlast⟩
    exact h.nextPass rfl hpoint (Nat.lt_of_le_of_ne hle hne) hexit
  | @lastPass f hpoint hlast =>
    refine ⟨hexit, h.passes, by rintro ⟨⟩, ?_, by rintro _ ⟨⟩, Or.inr (h.noneLeft hpoint hlast),
      by rintro _ _ ⟨⟩, by rintro ⟨⟩, h.bounded_own rfl ?_⟩
    · rintro f' (hf' | hf') <;> cases hf'
    · rw [hpoint]
      show 1 < _ * _ + 2
      omega
  | @release f o tsd hpoint hs =>
    refine ⟨hexit, h.passes, by rintro ⟨⟩, ?_, by rintro _ ⟨⟩, trivial, by rintro _ _ ⟨⟩,
      fun _ => release_freed h.exit hpoint hs, h.bounded_own rfl ?_⟩
    · rintro f' (hf' | hf') <;> cases hf'
    · rw [hpoint]
      exact Nat.zero_lt_one

/-- The exit of thread `t`, alone and within the limit, as a transition system: the runs that the
    law is about. -/
def exitAlone (cfg : EthreadConfig) (t : Thread) : LTS ExitState (ExitEvent × ExitOut) :=
  (exitSystem cfg t).restrict fun s b => Alone t s b ∧ WithinLimit cfg s b

/-- **Run lemma.**  The invariant holds in every state that the exit reaches, alone and within the
    limit. -/
theorem passInv_run (hiter : 0 < cfg.iterations) (h : (exitAlone cfg t).Run as s) :
    PassInv cfg t as s := by
  refine h.invariant_trace (I := PassInv cfg t) ?_ ?_
  · rintro s rfl
    exact passInv_init cfg t
  · rintro as s ⟨e, out⟩ s' - ih ⟨hs, halone, hlimit⟩
    exact ih.step hiter halone hlimit (stepExit_cases hs)

/-! ### The law -/

/-- Until `ethread_exit` returns there is a next step, so that the bound on the steps means that it
    returns. -/
theorem ExitInv.progress (h : ExitInv cfg t s) (hbefore : s.point ≠ .before)
    (hreturned : s.point ≠ .returned) :
    ∃ e out s', exitOwn (e, out) = true ∧ stepExit cfg t s e = some (out, s') := by
  have hlive : ∀ f, s.point.pc.frame? = some f → f.threadData ∈ s.tsd.heap.live := by
    intro f hf
    obtain ⟨-, -, hslot, hne⟩ := h.frame hf
    rw [← hslot] at hne ⊢
    exact h.own.live_slot hne
  have hload : ∀ f, s.point.pc.frame? = some f → s.point.keyFrame? = some f →
      ∃ v, s.tsd.loadEntry cfg f.threadData f.key = some v := fun f hf hkey =>
    exists_loadEntry (hlive f hf) (h.key f hkey)
  -- but in a destructor the next step is an access
  have hnext : (exitAccess cfg t s).isSome = true →
      ∃ e out s', exitOwn (e, out) = true ∧ stepExit cfg t s e = some (out, s') := by
    intro hsome
    obtain ⟨⟨out, s'⟩, hs⟩ := Option.isSome_iff_exists.mp hsome
    exact ⟨.next, out, s', rfl, hs⟩
  cases hpt : s.point with
  | before => exact absurd hpt hbefore
  | returned => exact absurd hpt hreturned
  | inDestructor f =>
    refine ⟨.destructorReturn, .none,
      s.toKey cfg t { f with key := f.key + 1, destructorsCalled := true }, rfl, ?_⟩
    simp only [stepExit, hpt]
  | testBit f =>
    apply hnext
    simp only [exitAccess, hpt]
    split
    · rfl
    · rfl
  | testDestructor f =>
    apply hnext
    simp only [exitAccess, hpt]
    split
    · rfl
    · rfl
  | testValue f =>
    apply hnext
    obtain ⟨v, hv⟩ := hload f (by rw [hpt]; rfl) (by rw [hpt]; rfl)
    simp only [exitAccess, hpt, hv, Option.bind_eq_bind, Option.bind_some]
    split
    · rfl
    · rfl
  | loadValue f =>
    apply hnext
    obtain ⟨v, hv⟩ := hload f (by rw [hpt]; rfl) (by rw [hpt]; rfl)
    simp only [exitAccess, hpt, hv, Option.bind_eq_bind, Option.bind_some]
    rfl
  | clearValue f value =>
    apply hnext
    obtain ⟨tsd, hstore⟩ : ∃ tsd, s.tsd.storeEntry cfg f.threadData f.key 0 = some tsd :=
      exists_storeEntry 0 (hlive f (by rw [hpt]; rfl)) (h.key f (by rw [hpt]; rfl))
    simp only [exitAccess, hpt, hstore, Option.bind_eq_bind, Option.bind_some]
    rfl
  | loadDestructor f value =>
    apply hnext
    simp only [exitAccess, hpt]
    rfl
  | endOfPass f =>
    apply hnext
    simp only [exitAccess, hpt]
    split
    · rfl
    · rfl
  | release f =>
    apply hnext
    have hpc : s.tsd.pc t = .release f := by rw [h.pc, hpt]; rfl
    obtain ⟨⟨o, tsd⟩, hs⟩ : ∃ r, releaseTable s.tsd t f = some r := by
      obtain ⟨o, tsd, hs⟩ := h.own.exitNext_defined (Or.inr hpc)
      simp only [exitNext, hpc] at hs
      exact ⟨_, hs⟩
    simp only [exitAccess, hpt, hs, Option.bind_eq_bind, Option.bind_some]
    rfl

/-- The law follows from the invariant, which says more than it. -/
theorem PassInv.law (h : PassInv cfg t as s) : ExitLaw cfg t as s := by
  refine ⟨h.passes, h.order, fun f hf => ?_, h.cleared, fun f hf => ?_, h.freed, h.bounded,
    h.exit.progress⟩
  · have hpt := h.point
    rcases hf with hf | hf | hf
    · rw [hf] at hpt
      exact hpt.1
    · rw [hf] at hpt
      exact hpt
    · rw [hf] at hpt
      exact hpt.1
  · have hpt := h.point
    rw [hf] at hpt
    exact hpt

/-- **The passes of `ethread_exit`.**  As long as pass number `ETHREAD_DESTRUCTOR_ITERATIONS`
    ends without having called a destructor, the exit does what is expected of it, whatever the
    destructors do; and when that pass has called one, the exit goes on with a pass more than
    the limit. -/
theorem exit_passes (hlegal : cfg.Legal) (h : (exitAlone cfg t).Run as s) :
    ExitLaw cfg t as s ∧
    ∀ f out s', s.point = .endOfPass f → f.destructorsCalled = true →
      f.destructorIterations + 1 = cfg.iterations → stepExit cfg t s .next = some (out, s') →
      s'.passes = cfg.iterations + 1 := by
  have hiter : 0 < cfg.iterations := by
    have hleast := hlegal.iterations.1
    omega
  have hinv := passInv_run hiter h
  refine ⟨hinv.law, fun f out s' hpoint hcalled hlast hs => ?_⟩
  have hcounter := hinv.counter f (Or.inr hpoint)
  have hnext : stepExit cfg t s .next = some (.none,
      s.beginPass cfg t ⟨f.tableIndex, f.threadData, 0, false, f.destructorIterations + 1⟩) := by
    simp only [stepExit, exitAccess, hpoint]
    exact if_pos ⟨hcalled, by omega⟩
  rw [hnext] at hs
  obtain ⟨rfl, rfl⟩ := Prod.mk.inj (Option.some.inj hs)
  have hpasses : ∀ s₁ : ExitState, ∀ f₁ : ExitFrame,
      (s₁.toKey cfg t f₁).passes = s₁.passes := fun _ _ => rfl
  show (ExitState.toKey cfg t _ _).passes = _
  rw [hpasses]
  show s.passes + 1 = _
  omega

/-- Thread 1 stores a value and exits; the destructor stores `n` times again, once in each pass. -/
def restoring (n : Nat) : List ExitEvent :=
  [.call 1 (.keyCreate 9 0), .call 1 (.setspecific 0 5 true 8), .start]
    ++ (List.replicate n (List.replicate 6 .next ++ [.call 1 (.setspecific 0 6 true 0),
      .destructorReturn] ++ List.replicate 128 .next)).flatten
    ++ List.replicate 6 .next ++ [.destructorReturn] ++ List.replicate 128 .next

/-- The destructor stores once again, and the thread returns after the third pass. -/
def restoringOnce : List ExitEvent := restoring 1 ++ List.replicate 132 .next

/-- A destructor stores a value again, once; three passes are made, the last of which calls
    nothing. -/
theorem exit_passes_restoring :
    ∃ os s, LTS.exec (LTS.guard (stepExit defaultConfig 1) fun s b =>
        Alone 1 s b ∧ WithinLimit defaultConfig s b) restoringOnce (.init defaultConfig)
          = some (os, s) ∧
      (s.point, s.passes) = (.returned, 3) ∧
      ExitLaw defaultConfig 1 (restoringOnce.zip os) s := by
  have hout : (LTS.exec (LTS.guard (stepExit defaultConfig 1) fun s b =>
      Alone 1 s b ∧ WithinLimit defaultConfig s b) restoringOnce (.init defaultConfig)).map
        (fun x => (x.2.point, x.2.passes)) = some (.returned, 3) := by decide +kernel
  obtain ⟨⟨os, s⟩, hex, hlast⟩ := Option.map_eq_some_iff.mp hout
  have hlaw := exit_passes ⟨by decide, by decide, by decide⟩ (LTS.Run.exec_restrict (.init rfl) hex)
  exact ⟨os, s, hex, hlast, hlaw.1⟩

/-- The destructor stores again in every pass, and `ethread_exit` begins a fifth one where four are
    configured. -/
theorem fifth_pass :
    ¬∀ as s, ((exitSystem defaultConfig 1).restrict (Alone 1)).Run as s →
      ExitLaw defaultConfig 1 as s := by
  intro hall
  have hout : (LTS.exec (LTS.guard (stepExit defaultConfig 1) (Alone 1)) (restoring 3)
      (.init defaultConfig)).map (fun x => x.2.passes) = some 5 := by decide +kernel
  obtain ⟨⟨os, s⟩, hex, hpasses⟩ := Option.map_eq_some_iff.mp hout
  have hle := (hall _ s (LTS.Run.exec_restrict (.init rfl) hex)).passes
  have hfive : s.passes = 5 := hpasses
  rw [hfive] at hle
  exact absurd hle (by decide)

end Ecos.Ethread
