import Ecos.Ethread.Specific
import Mathlib.Logic.Relation

namespace Ecos.Ethread

open Ecos.Lib

/-!
# `ethread_exit`, access by access

`ethread_exit` looks at a key in several reads of memory that it shares with the other threads,
and takes no lock for them.  Here each read and write is a step of its own, between which the
other threads may call the layer.  The calls are single steps; `KeyCreation` has those of
`ethread_key_create`, which an exit can see half done.

* `ExitPoint`, `ExitState`, `stepExit` — one thread in `ethread_exit`, over the memory of
  `TsdState`;
* `TsdState.due` — the destructor call that a key calls for;
* `ExitInv` — the invariant of the tables under these steps, with its step lemma `ExitInv.step`;
* `Accesses`, `exitNext_accesses` — a thread that is not interrupted does what `exitNext` does in
  one step.
-/

/-- Where the exiting thread is: before which of its accesses to `thread_key`, `key_destructor` and
    its table. -/
inductive ExitPoint
  | before
  /-- `thread_key[key/KEY_MAP_TYPE_SIZE] & 1<<(key%KEY_MAP_TYPE_SIZE)` -/
  | testBit (f : ExitFrame)
  /-- `key_destructor[key] == NULL` -/
  | testDestructor (f : ExitFrame)
  /-- `thread_data[key] == NULL` -/
  | testValue (f : ExitFrame)
  /-- `value = thread_data[key]` -/
  | loadValue (f : ExitFrame)
  /-- `thread_data[key] = NULL` -/
  | clearValue (f : ExitFrame) (value : Ptr)
  /-- `key_destructor[key](value)` -/
  | loadDestructor (f : ExitFrame) (value : Ptr)
  | inDestructor (f : ExitFrame)
  /-- Past the last key. -/
  | endOfPass (f : ExitFrame)
  /-- About to free the table. -/
  | release (f : ExitFrame)
  | returned
  deriving DecidableEq, Repr

/-- The same in the steps of `stepTsd`, where a key is looked at in one step. -/
def ExitPoint.pc : ExitPoint → ExitPc
  | .before | .returned => .outside
  | .testBit f | .testDestructor f | .testValue f | .loadValue f | .clearValue f _
  | .loadDestructor f _ | .endOfPass f => .scan f
  | .inDestructor f => .inDestructor f
  | .release f => .release f

/-- The memory, the exiting thread, and an account of its passes over the keys that the code
    does not read. -/
structure ExitState where
  tsd : TsdState
  point : ExitPoint
  /-- The passes begun so far. -/
  passes : Nat
  /-- The keys reached in this pass, each with the call that was due then. -/
  reached : List (Nat × Option (Addr × Ptr))
  /-- The keys whose destructor was called in this pass, with the destructor and its
      argument. -/
  calls : List (Nat × Addr × Ptr)

/-- What can happen: the calls of all the threads, and the accesses of the one that exits. -/
inductive ExitEvent
  /-- A thread calls the layer. -/
  | call (u : Thread) (e : TsdEvent)
  /-- The kernel calls `ethread_exit`. -/
  | start
  /-- The next access of `ethread_exit`. -/
  | next
  /-- A key destructor returns. -/
  | destructorReturn
  deriving DecidableEq, Repr

/-- What can be seen of it: the answers of the calls, and which destructor is called with which
    value. -/
inductive ExitOut
  | call (out : TsdOut)
  /-- `ethread_exit` calls `destructor(value)` for `key`. -/
  | destructor (key : Nat) (destructor : Addr) (value : Ptr)
  | none
  deriving DecidableEq, Repr

variable (cfg : EthreadConfig) (t : Thread)

/-- The destructor call that key `key` of a table calls for: the three tests of the loop passed at
    once. -/
def TsdState.due (s : TsdState) (table : Addr) (key : Nat) : Option (Addr × Ptr) :=
  if s.keyFree cfg key then none
  else if s.keyDestructor key = 0 then none
  else match s.loadEntry cfg table key with
    | none => none
    | some value => if value = 0 then none else some (s.keyDestructor key, value)

namespace ExitState

/-- Initially no thread has called the layer, and the exiting thread has not begun to. -/
def init : ExitState where
  tsd := .init cfg
  point := .before
  passes := 0
  reached := []
  calls := []

/-- The exiting thread goes on at `point`; its place in the steps of the coarser model moves with
    it. -/
def goto (s : ExitState) (point : ExitPoint) : ExitState :=
  { s with tsd := s.tsd.goto t point.pc, point := point }

/-- The loop test `key < ETHREAD_KEYS_MAX`, made before each key and after the last one. -/
def toKey (s : ExitState) (f : ExitFrame) : ExitState :=
  s.goto t (if f.key < cfg.keysMax then .testBit f else .endOfPass f)

/-- Begin a pass over the keys, with fresh accounts of what it looks at and what it calls. -/
def beginPass (s : ExitState) (f : ExitFrame) : ExitState :=
  { s with passes := s.passes + 1, reached := [], calls := [] }.toKey cfg t f

end ExitState

/-- The kernel calls `ethread_exit`; without a table it returns at once, and otherwise the first
    pass begins. -/
def exitBegin (s : ExitState) : Option (ExitOut × ExitState) := do
  if s.tsd.registered t = 0 then none
  else
    let tsd := { s.tsd with
      registered := Function.update s.tsd.registered t (s.tsd.registered t - 1) }
    let s := { s with tsd := tsd }
    let tableIndex ← s.tsd.getData cfg t
    let threadData := s.tsd.threadTable tableIndex
    if threadData ≠ 0 then
      return (.none, s.beginPass cfg t ⟨tableIndex, threadData, 0, false, 0⟩)
    else return (.none, s.goto t .returned)

/-- The next access: each of the reads that the source makes without the lock is a step of its
    own. -/
def exitAccess (s : ExitState) : Option (ExitOut × ExitState) :=
  match s.point with
  | .testBit f =>
    let s := { s with reached := s.reached ++ [(f.key, s.tsd.due cfg f.threadData f.key)] }
    if s.tsd.keyFree cfg f.key then some (.none, s.toKey cfg t { f with key := f.key + 1 })
    else some (.none, s.goto t (.testDestructor f))
  | .testDestructor f =>
    if s.tsd.keyDestructor f.key = 0 then
      some (.none, s.toKey cfg t { f with key := f.key + 1 })
    else some (.none, s.goto t (.testValue f))
  | .testValue f => do
    let value ← s.tsd.loadEntry cfg f.threadData f.key
    if value = 0 then return (.none, s.toKey cfg t { f with key := f.key + 1 })
    else return (.none, s.goto t (.loadValue f))
  | .loadValue f => do
    let value ← s.tsd.loadEntry cfg f.threadData f.key
    return (.none, s.goto t (.clearValue f value))
  | .clearValue f value => do
    let tsd ← s.tsd.storeEntry cfg f.threadData f.key 0
    return (.none, { s with tsd := tsd }.goto t (.loadDestructor f value))
  | .loadDestructor f value =>
    -- also when the destructor is `NULL` by now
    let destructor := s.tsd.keyDestructor f.key
    some (.destructor f.key destructor value,
      { s with calls := s.calls ++ [(f.key, destructor, value)] }.goto t (.inDestructor f))
  | .endOfPass f =>
    let iterations := f.destructorIterations + 1
    if f.destructorsCalled ∧ iterations ≤ cfg.iterations then
      some (.none, s.beginPass cfg t ⟨f.tableIndex, f.threadData, 0, false, iterations⟩)
    else some (.none, s.goto t (.release f))
  | .release f => do
    let (_, tsd) ← releaseTable s.tsd t f
    return (.none, { s with tsd := tsd, point := .returned })
  | _ => none

/-- Is the event one of the calls of the layer, and not a step of `ethread_exit`? -/
def TsdEvent.isCall : TsdEvent → Bool
  | .keyCreate .. | .keyDelete _ | .setspecific .. | .getspecific _ => true
  | _ => false

/-- One step, of the exiting thread `t` or of another thread.  The exiting thread calls the
    layer before `ethread_exit` and from key destructors. -/
def stepExit (s : ExitState) (e : ExitEvent) : Option (ExitOut × ExitState) :=
  match e with
  | .call u e =>
    if e.isCall ∧ (u = t → s.point ≠ .returned) then do
      let (out, tsd) ← stepTsd cfg s.tsd (u, e)
      return (.call out, { s with tsd := tsd })
    else none
  | .start => if s.point = .before then exitBegin cfg t s else none
  | .next => exitAccess cfg t s
  | .destructorReturn =>
    match s.point with
    | .inDestructor f =>
      some (.none, s.toKey cfg t { f with key := f.key + 1, destructorsCalled := true })
    | _ => none

/-- The exit of thread `t` among the calls of all threads, as a transition system. -/
def exitSystem : LTS ExitState (ExitEvent × ExitOut) :=
  .ofFun (.init cfg) (stepExit cfg t)

variable {cfg : EthreadConfig} {t : Thread} {s s' : ExitState} {out : ExitOut}
  {as : List (ExitEvent × ExitOut)}

/-! ### The accesses of one key make a step -/

/-- The exit goes on where it says. -/
@[simp] theorem exitState_goto_point (s : ExitState) (pt : ExitPoint) :
    (s.goto t pt).point = pt := rfl

/-- So does its thread, in the state of the layer. -/
@[simp] theorem exitState_goto_tsd (s : ExitState) (pt : ExitPoint) :
    (s.goto t pt).tsd = s.tsd.goto t pt.pc := rfl

/-- Only the last place counts when a thread is moved twice in a row. -/
@[simp] theorem goto_goto (s : TsdState) (pc pc' : ExitPc) :
    (s.goto t pc).goto t pc' = s.goto t pc' := by
  simp [TsdState.goto]

/-- The next key, or the end of the pass: for the tables that is the same place. -/
theorem toKey_eq (s : ExitState) (f : ExitFrame) :
    (s.toKey cfg t f).tsd = s.tsd.goto t (.scan f) ∧ (s.toKey cfg t f).point.pc = .scan f := by
  unfold ExitState.toKey
  split
  · exact ⟨rfl, rfl⟩
  · exact ⟨rfl, rfl⟩

/-- Accesses of the exiting thread, one after the other, with no other thread between them. -/
def Accesses (cfg : EthreadConfig) (t : Thread) : ExitState → ExitState → Prop :=
  Relation.ReflTransGen fun s s' => ∃ out, stepExit cfg t s .next = some (out, s')

/-- Writing an entry does not depend on where the thread is, so that the two steps commute. -/
theorem storeEntry_goto {tsd tsd' : TsdState} {a : Addr} {key : Nat} {p : Ptr} (pc : ExitPc)
    (hs : tsd.storeEntry cfg a key p = some tsd') :
    (tsd.goto t pc).storeEntry cfg a key p = some (tsd'.goto t pc) := by
  unfold TsdState.storeEntry at hs ⊢
  split at hs
  · rename_i hkey
    rw [if_pos hkey]
    obtain ⟨d, hd, hs⟩ := Option.bind_eq_some_iff.mp hs
    obtain ⟨h', hstore, hs⟩ := Option.bind_eq_some_iff.mp hs
    obtain rfl := Option.some.inj hs
    have hd' : (tsd.goto t pc).heap.load a = some d := hd
    have hstore' : (tsd.goto t pc).heap.store a (Function.update d key p) = some h' := hstore
    simp only [hd', hstore', Option.bind_eq_bind, Option.bind_some]
    rfl
  · cases hs

/-- The accesses to one key, up to and including the call of its destructor, are together one step
    of the coarser model. -/
theorem scanKey_accesses {f : ExitFrame} {o : TsdOut} {tsd' : TsdState}
    (hpoint : s.point = .testBit f) (hkey : f.key < cfg.keysMax)
    (hs : scanKey cfg s.tsd t f = some (o, tsd')) :
    ∃ s', Accesses cfg t s s' ∧ s'.tsd = tsd' ∧ s'.point.pc = tsd'.pc t := by
  let skip : ExitFrame := { f with key := f.key + 1 }
  have hskip : ∀ s₁ : ExitState, (s₁.toKey cfg t skip).tsd = s₁.tsd.goto t (.scan skip) ∧
      (s₁.toKey cfg t skip).point.pc = (s₁.tsd.goto t (.scan skip)).pc t := by
    intro s₁
    rw [goto_frame_self]
    exact toKey_eq s₁ skip
  let s₁ : ExitState :=
    { s with reached := s.reached ++ [(f.key, s.tsd.due cfg f.threadData f.key)] }
  unfold scanKey at hs
  simp only [hkey, if_true] at hs
  split at hs
  · -- an unallocated key
    rename_i hfree
    obtain ⟨rfl, rfl⟩ := Prod.mk.inj (Option.some.inj hs)
    have h₁ : stepExit cfg t s .next = some (.none, s₁.toKey cfg t skip) := by
      simp only [stepExit, exitAccess, hpoint]
      exact if_pos hfree
    exact ⟨_, .single ⟨_, h₁⟩, hskip s₁⟩
  rename_i hfree
  have h₁ : stepExit cfg t s .next = some (.none, s₁.goto t (.testDestructor f)) := by
    simp only [stepExit, exitAccess, hpoint]
    exact if_neg hfree
  let s₂ := s₁.goto t (.testDestructor f)
  split at hs
  · -- a `NULL` destructor
    rename_i hdtor
    obtain ⟨rfl, rfl⟩ := Prod.mk.inj (Option.some.inj hs)
    have h₂ : stepExit cfg t s₂ .next = some (.none, s₂.toKey cfg t skip) := if_pos hdtor
    refine ⟨_, .head ⟨_, h₁⟩ (.single ⟨_, h₂⟩), ?_⟩
    have hlast := hskip s₂
    rwa [exitState_goto_tsd, goto_goto] at hlast
  rename_i hdtor
  have h₂ : stepExit cfg t s₂ .next = some (.none, s₂.goto t (.testValue f)) := if_neg hdtor
  let s₃ := s₂.goto t (.testValue f)
  obtain ⟨value, hload, hs⟩ := Option.bind_eq_some_iff.mp hs
  have hload₃ : s₃.tsd.loadEntry cfg f.threadData f.key = some value := hload
  split at hs
  · -- a `NULL` value
    rename_i hvalue
    obtain ⟨rfl, rfl⟩ := Prod.mk.inj (Option.some.inj hs)
    have h₃ : stepExit cfg t s₃ .next = some (.none, s₃.toKey cfg t skip) := by
      show exitAccess cfg t s₃ = _
      simp only [exitAccess, s₃, exitState_goto_point] at hload₃ ⊢
      rw [hload₃]
      exact if_pos hvalue
    refine ⟨_, .head ⟨_, h₁⟩ (.head ⟨_, h₂⟩ (.single ⟨_, h₃⟩)), ?_⟩
    have hlast := hskip s₃
    rwa [exitState_goto_tsd, goto_goto, exitState_goto_tsd, goto_goto] at hlast
  · -- all the tests passed
    rename_i hvalue
    have h₃ : stepExit cfg t s₃ .next = some (.none, s₃.goto t (.loadValue f)) := by
      show exitAccess cfg t s₃ = _
      simp only [exitAccess, s₃, exitState_goto_point] at hload₃ ⊢
      rw [hload₃]
      exact if_neg hvalue
    let s₄ := s₃.goto t (.loadValue f)
    have hload₄ : s₄.tsd.loadEntry cfg f.threadData f.key = some value := hload
    have h₄ : stepExit cfg t s₄ .next = some (.none, s₄.goto t (.clearValue f value)) := by
      show exitAccess cfg t s₄ = _
      simp only [exitAccess, s₄, exitState_goto_point] at hload₄ ⊢
      rw [hload₄]
      rfl
    let s₅ := s₄.goto t (.clearValue f value)
    obtain ⟨tsd₁, hstore, hs⟩ := Option.bind_eq_some_iff.mp hs
    obtain ⟨rfl, rfl⟩ := Prod.mk.inj (Option.some.inj hs)
    have hstore₅ : s₅.tsd.storeEntry cfg f.threadData f.key 0 = some (tsd₁.goto t (.scan f)) := by
      have htsd : s₅.tsd = s.tsd.goto t (.scan f) := by
        simp only [s₅, s₄, s₃, s₂, s₁, exitState_goto_tsd, goto_goto]
        rfl
      rw [htsd]
      exact storeEntry_goto _ hstore
    let s₆ := { s₅ with tsd := tsd₁.goto t (.scan f) }.goto t (.loadDestructor f value)
    have h₅ : stepExit cfg t s₅ .next = some (.none, s₆) := by
      show exitAccess cfg t s₅ = _
      simp only [exitAccess, s₅, exitState_goto_point] at hstore₅ ⊢
      rw [hstore₅]
      rfl
    refine ⟨_, .head ⟨_, h₁⟩ (.head ⟨_, h₂⟩ (.head ⟨_, h₃⟩ (.head ⟨_, h₄⟩ (.head ⟨_, h₅⟩
      (.single ⟨_, rfl⟩))))), ?_, ?_⟩
    · simp only [s₆, exitState_goto_tsd, goto_goto]
      rfl
    · rw [goto_frame_self]
      rfl

/-- After freeing the table the thread has left `ethread_exit`, in both models. -/
theorem releaseTable_pc {tsd tsd' : TsdState} {f : ExitFrame} {o : TsdOut}
    (hs : releaseTable tsd t f = some (o, tsd')) : tsd'.pc t = .outside := by
  unfold releaseTable at hs
  dsimp only at hs
  split at hs
  · obtain ⟨rfl, rfl⟩ := Prod.mk.inj (Option.some.inj hs)
    exact goto_frame_self _ _ _
  · obtain ⟨h', -, hs⟩ := Option.bind_eq_some_iff.mp hs
    obtain ⟨rfl, rfl⟩ := Prod.mk.inj (Option.some.inj hs)
    exact goto_frame_self _ _ _

/-- **An uninterrupted exit.**  The accesses of a thread that no other thread interrupts amount
    to the steps of `exitNext`. -/
theorem exitNext_accesses {f : ExitFrame} {o : TsdOut} {tsd' : TsdState}
    (hpoint : (s.point = .testBit f ∧ f.key < cfg.keysMax) ∨
      (s.point = .endOfPass f ∧ ¬f.key < cfg.keysMax) ∨ s.point = .release f)
    (hpc : s.tsd.pc t = s.point.pc) (hs : exitNext cfg s.tsd t = some (o, tsd')) :
    ∃ s', Accesses cfg t s s' ∧ s'.tsd = tsd' ∧ s'.point.pc = tsd'.pc t := by
  unfold exitNext at hs
  rcases hpoint with ⟨hpoint, hkey⟩ | ⟨hpoint, hkey⟩ | hpoint
  · -- the next key of a pass
    rw [hpc, hpoint] at hs
    exact scanKey_accesses hpoint hkey hs
  · -- the end of a pass: another one begins, or the table is freed
    rw [hpc, hpoint] at hs
    simp only [ExitPoint.pc, scanKey, hkey, if_false] at hs
    split at hs
    · rename_i hnext
      obtain ⟨rfl, rfl⟩ := Prod.mk.inj (Option.some.inj hs)
      have h₁ : stepExit cfg t s .next = some (.none,
          s.beginPass cfg t
            ⟨f.tableIndex, f.threadData, 0, false, f.destructorIterations + 1⟩) := by
        simp only [stepExit, exitAccess, hpoint]
        exact if_pos hnext
      refine ⟨_, .single ⟨_, h₁⟩, ?_⟩
      rw [goto_frame_self]
      exact toKey_eq _ _
    · rename_i hlast
      obtain ⟨rfl, rfl⟩ := Prod.mk.inj (Option.some.inj hs)
      have h₁ : stepExit cfg t s .next = some (.none, s.goto t (.release f)) := by
        simp only [stepExit, exitAccess, hpoint]
        exact if_neg hlast
      exact ⟨_, .single ⟨_, h₁⟩, rfl, (goto_frame_self _ _ _).symm⟩
  · -- freeing the table is one access already
    rw [hpc, hpoint] at hs
    simp only [ExitPoint.pc] at hs
    have h₁ : stepExit cfg t s .next
        = some (.none, { s with tsd := tsd', point := .returned }) := by
      simp only [stepExit, exitAccess, hpoint, hs]
      rfl
    refine ⟨_, .single ⟨_, h₁⟩, rfl, ?_⟩
    rw [releaseTable_pc hs]
    rfl

/-! ### The steps -/

/-- The exits of the calls and the accesses of `ethread_exit`, with what each leaves behind. -/
inductive ExitStep (cfg : EthreadConfig) (t : Thread) (s : ExitState) :
    ExitEvent → ExitOut → ExitState → Prop
  | call {u e o tsd} (hcall : e.isCall = true) (hlive : u = t → s.point ≠ .returned)
      (hs : stepTsd cfg s.tsd (u, e) = some (o, tsd)) :
      ExitStep cfg t s (.call u e) (.call o) { s with tsd := tsd }
  | startNone {r} (hpoint : s.point = .before)
      (htab : s.tsd.threadTable (s.tsd.threadData t) = 0) :
      ExitStep cfg t s .start .none
        ({ s with tsd := { s.tsd with registered := r } }.goto t .returned)
  | startScan {r} (hpoint : s.point = .before)
      (htab : s.tsd.threadTable (s.tsd.threadData t) ≠ 0) :
      ExitStep cfg t s .start .none
        ({ s with tsd := { s.tsd with registered := r } }.beginPass cfg t
          ⟨s.tsd.threadData t, s.tsd.threadTable (s.tsd.threadData t), 0, false, 0⟩)
  | bitFree {f} (hpoint : s.point = .testBit f) (hfree : s.tsd.keyFree cfg f.key = true) :
      ExitStep cfg t s .next .none
        ({ s with reached := s.reached ++ [(f.key, s.tsd.due cfg f.threadData f.key)] }.toKey
          cfg t { f with key := f.key + 1 })
  | bitAllocated {f} (hpoint : s.point = .testBit f) (hfree : s.tsd.keyFree cfg f.key = false) :
      ExitStep cfg t s .next .none
        ({ s with reached := s.reached ++ [(f.key, s.tsd.due cfg f.threadData f.key)] }.goto t
          (.testDestructor f))
  | destructorNull {f} (hpoint : s.point = .testDestructor f)
      (hdtor : s.tsd.keyDestructor f.key = 0) :
      ExitStep cfg t s .next .none (s.toKey cfg t { f with key := f.key + 1 })
  | destructorSet {f} (hpoint : s.point = .testDestructor f)
      (hdtor : s.tsd.keyDestructor f.key ≠ 0) :
      ExitStep cfg t s .next .none (s.goto t (.testValue f))
  | valueNull {f} (hpoint : s.point = .testValue f)
      (hload : s.tsd.loadEntry cfg f.threadData f.key = some 0) :
      ExitStep cfg t s .next .none (s.toKey cfg t { f with key := f.key + 1 })
  | valueSet {f value} (hpoint : s.point = .testValue f)
      (hload : s.tsd.loadEntry cfg f.threadData f.key = some value) (hvalue : value ≠ 0) :
      ExitStep cfg t s .next .none (s.goto t (.loadValue f))
  | load {f value} (hpoint : s.point = .loadValue f)
      (hload : s.tsd.loadEntry cfg f.threadData f.key = some value) :
      ExitStep cfg t s .next .none (s.goto t (.clearValue f value))
  | clear {f value tsd} (hpoint : s.point = .clearValue f value)
      (hstore : s.tsd.storeEntry cfg f.threadData f.key 0 = some tsd) :
      ExitStep cfg t s .next .none ({ s with tsd := tsd }.goto t (.loadDestructor f value))
  | destructor {f value} (hpoint : s.point = .loadDestructor f value) :
      ExitStep cfg t s .next (.destructor f.key (s.tsd.keyDestructor f.key) value)
        ({ s with calls := s.calls ++ [(f.key, s.tsd.keyDestructor f.key, value)] }.goto t
          (.inDestructor f))
  | destructorReturn {f} (hpoint : s.point = .inDestructor f) :
      ExitStep cfg t s .destructorReturn .none
        (s.toKey cfg t { f with key := f.key + 1, destructorsCalled := true })
  | nextPass {f} (hpoint : s.point = .endOfPass f) (hcalled : f.destructorsCalled = true)
      (hlimit : f.destructorIterations + 1 ≤ cfg.iterations) :
      ExitStep cfg t s .next .none (s.beginPass cfg t
        ⟨f.tableIndex, f.threadData, 0, false, f.destructorIterations + 1⟩)
  | lastPass {f} (hpoint : s.point = .endOfPass f)
      (hlast : ¬(f.destructorsCalled = true ∧ f.destructorIterations + 1 ≤ cfg.iterations)) :
      ExitStep cfg t s .next .none (s.goto t (.release f))
  | release {f o tsd} (hpoint : s.point = .release f)
      (hs : releaseTable s.tsd t f = some (o, tsd)) :
      ExitStep cfg t s .next .none { s with tsd := tsd, point := .returned }

/-- The exits of the accesses, each with the place from which it is made. -/
theorem exitAccess_cases (hs : exitAccess cfg t s = some (out, s')) :
    ExitStep cfg t s .next out s' := by
  unfold exitAccess at hs
  split at hs
  · -- is the bit of the key set?
    rename_i f hpoint
    dsimp only at hs
    split at hs
    · obtain ⟨rfl, rfl⟩ := Prod.mk.inj (Option.some.inj hs)
      exact .bitFree hpoint ‹_›
    · rename_i hfree
      obtain ⟨rfl, rfl⟩ := Prod.mk.inj (Option.some.inj hs)
      exact .bitAllocated hpoint (by simpa using hfree)
  · -- has the key a destructor?
    rename_i f hpoint
    split at hs
    · obtain ⟨rfl, rfl⟩ := Prod.mk.inj (Option.some.inj hs)
      exact .destructorNull hpoint ‹_›
    · obtain ⟨rfl, rfl⟩ := Prod.mk.inj (Option.some.inj hs)
      exact .destructorSet hpoint ‹_›
  · -- has the key a value?
    rename_i f hpoint
    obtain ⟨value, hload, hs⟩ := Option.bind_eq_some_iff.mp hs
    split at hs
    · rename_i hvalue
      obtain ⟨rfl, rfl⟩ := Prod.mk.inj (Option.some.inj hs)
      exact .valueNull hpoint (by rw [hload, hvalue])
    · obtain ⟨rfl, rfl⟩ := Prod.mk.inj (Option.some.inj hs)
      exact .valueSet hpoint hload ‹_›
  · -- the value is read again, for the call
    rename_i f hpoint
    obtain ⟨value, hload, hs⟩ := Option.bind_eq_some_iff.mp hs
    obtain ⟨rfl, rfl⟩ := Prod.mk.inj (Option.some.inj hs)
    exact .load hpoint hload
  · rename_i f value hpoint
    obtain ⟨tsd, hstore, hs⟩ := Option.bind_eq_some_iff.mp hs
    obtain ⟨rfl, rfl⟩ := Prod.mk.inj (Option.some.inj hs)
    exact .clear hpoint hstore
  · rename_i f value hpoint
    obtain ⟨rfl, rfl⟩ := Prod.mk.inj (Option.some.inj hs)
    exact .destructor hpoint
  · -- the end of the pass
    rename_i f hpoint
    dsimp only at hs
    split at hs
    · rename_i hnext
      obtain ⟨rfl, rfl⟩ := Prod.mk.inj (Option.some.inj hs)
      exact .nextPass hpoint hnext.1 hnext.2
    · obtain ⟨rfl, rfl⟩ := Prod.mk.inj (Option.some.inj hs)
      exact .lastPass hpoint ‹_›
  · rename_i f hpoint
    obtain ⟨⟨o, tsd⟩, hrelease, hs⟩ := Option.bind_eq_some_iff.mp hs
    obtain ⟨rfl, rfl⟩ := Prod.mk.inj (Option.some.inj hs)
    exact .release hpoint hrelease
  · cases hs

/-- **One step.**  Every step has one of the exits of `ExitStep`; the invariants are proved from
    these. -/
theorem stepExit_cases {e : ExitEvent} (hs : stepExit cfg t s e = some (out, s')) :
    ExitStep cfg t s e out s' := by
  unfold stepExit at hs
  cases e with
  | call u e =>
    dsimp only at hs
    split at hs
    · rename_i hcall
      obtain ⟨⟨o, tsd⟩, hstep, hs⟩ := Option.bind_eq_some_iff.mp hs
      obtain ⟨rfl, rfl⟩ := Prod.mk.inj (Option.some.inj hs)
      exact .call hcall.1 hcall.2 hstep
    · cases hs
  | start =>
    dsimp only at hs
    split at hs
    · rename_i hpoint
      unfold exitBegin at hs
      split at hs
      · cases hs
      -- the thread has an index; has it a table?
      obtain ⟨i, hi, hs⟩ := Option.bind_eq_some_iff.mp hs
      obtain rfl := getData_eq hi
      dsimp only at hs
      split at hs
      · obtain ⟨rfl, rfl⟩ := Prod.mk.inj (Option.some.inj hs)
        exact .startScan hpoint ‹_›
      · rename_i htab
        obtain ⟨rfl, rfl⟩ := Prod.mk.inj (Option.some.inj hs)
        exact .startNone hpoint (by simpa using htab)
    · cases hs
  | next => exact exitAccess_cases hs
  | destructorReturn =>
    dsimp only at hs
    split at hs
    · rename_i f hpoint
      obtain ⟨rfl, rfl⟩ := Prod.mk.inj (Option.some.inj hs)
      exact .destructorReturn hpoint
    · cases hs

/-! ### The tables -/

/-- The frame of a thread that looks at a key, where the key is below the bound of the loop. -/
def ExitPoint.keyFrame? : ExitPoint → Option ExitFrame
  | .testBit f | .testDestructor f | .testValue f | .loadValue f | .clearValue f _
  | .loadDestructor f _ | .inDestructor f => some f
  | _ => none

/-- The tables are in order, the exiting thread still has its table until it returns, and the
    other threads have theirs. -/
structure ExitInv (cfg : EthreadConfig) (t : Thread) (s : ExitState) : Prop where
  own : OwnInv cfg s.tsd
  pc : s.tsd.pc t = s.point.pc
  others : ∀ u ≠ t, s.tsd.pc u = .outside ∧ s.tsd.released u = none
  mine : s.point ≠ .returned → s.tsd.released t = none
  key : ∀ f, s.point.keyFrame? = some f → f.key < cfg.keysMax
  past : ∀ f, s.point = .endOfPass f → f.key = cfg.keysMax

/-- Initially the invariant holds: no thread is in `ethread_exit`. -/
theorem exitInv_init (cfg : EthreadConfig) (t : Thread) : ExitInv cfg t (.init cfg) :=
  ⟨ownInv_init cfg, rfl, fun _ _ => ⟨rfl, rfl⟩, fun _ => rfl, nofun, nofun⟩

/-- The frame of the exiting thread is about its own table, throughout the scan. -/
theorem ExitInv.frame (h : ExitInv cfg t s) {f : ExitFrame}
    (hpoint : s.point.pc.frame? = some f) : FrameOk s.tsd t f :=
  h.own.frame t f (by rw [h.pc]; exact hpoint)

/-- The exiting thread goes on, with a frame about its own table and its key where the loop has
    it. -/
theorem ExitInv.goto (h : ExitInv cfg t s) (hout : s.point ≠ .returned) {pt : ExitPoint}
    (hframe : ∀ f, pt.pc.frame? = some f → FrameOk s.tsd t f)
    (hkey : ∀ f, pt.keyFrame? = some f → f.key < cfg.keysMax)
    (hpast : ∀ f, pt = .endOfPass f → f.key = cfg.keysMax) : ExitInv cfg t (s.goto t pt) := by
  refine ⟨h.own.goto hframe, goto_frame_self _ _ _, fun u hu => ?_, fun _ => h.mine hout, hkey,
    hpast⟩
  have hpc : (s.tsd.goto t pt.pc).pc u = s.tsd.pc u := by
    simp [TsdState.goto, Function.update_of_ne hu]
  exact ⟨hpc.trans (h.others u hu).1, (h.others u hu).2⟩

/-- The exiting thread goes on to a key, or past the last one when the loop ends. -/
theorem ExitInv.toKey (h : ExitInv cfg t s) (hout : s.point ≠ .returned) {f : ExitFrame}
    (hframe : FrameOk s.tsd t f) (hle : f.key ≤ cfg.keysMax) :
    ExitInv cfg t (s.toKey cfg t f) := by
  unfold ExitState.toKey
  split
  · rename_i hlt
    refine h.goto hout ?_ ?_ nofun
    · rintro f' hf'
      cases hf'
      exact hframe
    · rintro f' hf'
      cases hf'
      exact hlt
  · refine h.goto hout ?_ nofun ?_
    · rintro f' hf'
      cases hf'
      exact hframe
    · rintro f' hf'
      cases hf'
      omega

/-- The accounts are not part of the invariant, so that it holds whatever they say. -/
theorem ExitInv.accounts (h : ExitInv cfg t s) (n : Nat) (r : List (Nat × Option (Addr × Ptr)))
    (c : List (Nat × Addr × Ptr)) :
    ExitInv cfg t { s with passes := n, reached := r, calls := c } :=
  ⟨h.own, h.pc, h.others, h.mine, h.key, h.past⟩

/-- A thread that looks at a key is in `ethread_exit`, and has not returned. -/
theorem keyFrame_frame {pt : ExitPoint} {f : ExitFrame} (h : pt.keyFrame? = some f) :
    pt.pc.frame? = some f ∧ pt ≠ .returned := by
  cases pt with
  | before => cases h
  | endOfPass => cases h
  | release => cases h
  | returned => cases h
  | _ => exact ⟨h, nofun⟩

/-- The exiting thread passes on from a key, whether or not it has called its destructor. -/
theorem ExitInv.nextKey (h : ExitInv cfg t s) {f : ExitFrame} {called : Bool}
    (hpoint : s.point.keyFrame? = some f) :
    ExitInv cfg t (s.toKey cfg t { f with key := f.key + 1, destructorsCalled := called }) := by
  obtain ⟨hframe, hout⟩ := keyFrame_frame hpoint
  obtain ⟨hrel, hidx, hslot, hne⟩ := h.frame hframe
  exact h.toKey hout ⟨hrel, hidx, hslot, hne⟩ (h.key f hpoint)

/-- The exiting thread goes on with the same key, at the next of its accesses. -/
theorem ExitInv.sameKey (h : ExitInv cfg t s) {f : ExitFrame} {pt : ExitPoint}
    (hpoint : s.point.keyFrame? = some f) (hpt : pt.keyFrame? = some f) :
    ExitInv cfg t (s.goto t pt) := by
  obtain ⟨hframe, hout⟩ := keyFrame_frame hpoint
  have hpc : pt.pc.frame? = some f := (keyFrame_frame hpt).1
  refine h.goto hout (fun f' hf' => ?_) (fun f' hf' => ?_) (fun f' hf' => ?_)
  · rw [hpc] at hf'
    cases hf'
    exact h.frame hframe
  · rw [hpt] at hf'
    cases hf'
    exact h.key f hpoint
  · rw [hf'] at hpt
    cases hpt

/-- A call of the layer leaves every thread where it is, and frees no table. -/
theorem TsdStep.of_isCall {tsd tsd' : TsdState} {u : Thread} {e : TsdEvent} {o : TsdOut}
    (hs : TsdStep cfg tsd u e o tsd') (hcall : e.isCall = true) :
    tsd'.pc = tsd.pc ∧ ∀ v, tsd.released v = none → tsd'.released v = none := by
  cases hs with
  | setNew hfree htab hi hslot hanswer hlive hcell =>
    refine ⟨rfl, fun v hv => ?_⟩
    by_cases hvu : v = u
    · simp [hvu]
    · simpa [Function.update_of_ne hvu] using hv
  | move he => rcases he with rfl | rfl <;> cases hcall
  | exitNone => cases hcall
  | exitScan => cases hcall
  | runDestructor => cases hcall
  | releaseNone => cases hcall
  | release => cases hcall
  | _ => exact ⟨rfl, fun _ hv => hv⟩

/-- The kernel has used up a registration, which no field of the invariant speaks of. -/
theorem ExitInv.registered (h : ExitInv cfg t s) (r : Thread → Nat) :
    ExitInv cfg t { s with tsd := { s.tsd with registered := r } } := by
  refine ⟨?_, h.pc, h.others, h.mine, h.key, h.past⟩
  exact h.own.of_same ⟨rfl, rfl, rfl, rfl, rfl, rfl, rfl⟩ h.own.frame

/-- No thread goes back to a slot whose table it has freed, as long as the exiting one does not
    call again. -/
theorem ExitInv.released_none (h : ExitInv cfg t s) {u : Thread}
    (hlive : u = t → s.point ≠ .returned) : s.tsd.released u = none := by
  by_cases hu : u = t
  · rw [hu]
    exact h.mine (hlive hu)
  · exact (h.others u hu).2

/-- **Step lemma.**  A call keeps the invariant by that of the tables, an access because it stays
    at its own. -/
theorem ExitInv.step (h : ExitInv cfg t s) {e : ExitEvent} (hs : ExitStep cfg t s e out s') :
    ExitInv cfg t s' := by
  cases hs with
  | @call u e o tsd hcall hlive hs =>
    have hcase := stepTsd_cases h.own hs
    have hrel := h.released_none hlive
    obtain ⟨hpc, hreleased⟩ := hcase.of_isCall hcall
    -- a call goes on outside, and does not touch the exit of `t`
    refine ⟨(h.own.step (fun _ i hi => ?_) hcase).1, ?_, fun v hv => ⟨?_, ?_⟩, fun hout => ?_,
      h.key, h.past⟩
    · rw [hrel] at hi
      cases hi
    · show tsd.pc t = _
      rw [hpc]
      exact h.pc
    · show tsd.pc v = _
      rw [hpc]
      exact (h.others v hv).1
    · exact hreleased v (h.others v hv).2
    · exact hreleased t (h.mine hout)
  | @startNone r hpoint htab =>
    -- without a table the exit is over at once
    have hreg := h.registered r
    have hgoto : OwnInv cfg (TsdState.goto { s.tsd with registered := r } t .outside) :=
      hreg.own.goto (by rintro _ ⟨⟩)
    refine ⟨hgoto, goto_frame_self _ _ _, fun u hu => ?_, fun hout => absurd rfl hout,
      by rintro _ ⟨⟩, by rintro _ ⟨⟩⟩
    have hpc : (TsdState.goto { s.tsd with registered := r } t .outside).pc u = s.tsd.pc u := by
      simp [TsdState.goto, Function.update_of_ne hu]
    exact ⟨hpc.trans (h.others u hu).1, (h.others u hu).2⟩
  | @startScan r hpoint htab =>
    have hout : s.point ≠ .returned := by rw [hpoint]; rintro ⟨⟩
    exact ((h.registered r).accounts _ _ _).toKey hout ⟨h.mine hout, rfl, rfl, htab⟩
      (Nat.zero_le _)
  | bitFree hpoint hfree => exact (h.accounts _ _ _).nextKey (by rw [hpoint]; rfl)
  | bitAllocated hpoint hfree => exact (h.accounts _ _ _).sameKey (by rw [hpoint]; rfl) rfl
  | destructorNull hpoint hdtor => exact h.nextKey (by rw [hpoint]; rfl)
  | destructorSet hpoint hdtor => exact h.sameKey (by rw [hpoint]; rfl) rfl
  | valueNull hpoint hload => exact h.nextKey (by rw [hpoint]; rfl)
  | valueSet hpoint hload hvalue => exact h.sameKey (by rw [hpoint]; rfl) rfl
  | load hpoint hload => exact h.sameKey (by rw [hpoint]; rfl) rfl
  | @clear f value tsd hpoint hstore =>
    -- storing `NULL` changes the contents of the table only
    obtain ⟨h', d, rfl, hl, -⟩ := storeEntry_spec hstore
    have hsame : ExitInv cfg t { s with tsd := { s.tsd with heap := h' } } :=
      ⟨h.own.of_same (sameTables_heap hl) h.own.frame, h.pc, h.others, h.mine, h.key, h.past⟩
    exact hsame.sameKey (f := f) (by rw [hpoint]; rfl) rfl
  | destructor hpoint => exact (h.accounts _ _ _).sameKey (by rw [hpoint]; rfl) rfl
  | destructorReturn hpoint => exact h.nextKey (by rw [hpoint]; rfl)
  | @nextPass f hpoint hcalled hlimit =>
    have hout : s.point ≠ .returned := by rw [hpoint]; rintro ⟨⟩
    obtain ⟨hrel, hidx, hslot, hne⟩ := h.frame (f := f) (by rw [hpoint]; rfl)
    exact (h.accounts (s.passes + 1) [] []).toKey
      (f := ⟨f.tableIndex, f.threadData, 0, false, f.destructorIterations + 1⟩) hout
      ⟨hrel, hidx, hslot, hne⟩ (Nat.zero_le _)
  | @lastPass f hpoint hlast =>
    have hout : s.point ≠ .returned := by rw [hpoint]; rintro ⟨⟩
    refine h.goto hout (fun f' hf' => ?_) (by rintro _ ⟨⟩) (by rintro _ ⟨⟩)
    cases hf'
    exact h.frame (by rw [hpoint]; rfl)
  | @release f o tsd hpoint hs =>
    have hpc : s.tsd.pc t = .release f := by rw [h.pc, hpoint]; rfl
    have hcase : TsdStep cfg s.tsd t .exitNext o tsd := releaseTable_cases hpc hs
    have hown := (h.own.step (fun huse => by cases huse) hcase).1
    -- the other threads stay where they are
    have hothers : ∀ u ≠ t, tsd.pc u = s.tsd.pc u ∧ tsd.released u = s.tsd.released u := by
      intro u hu
      cases hcase with
      | move he hpc' hpc'' => simp [TsdState.goto, Function.update_of_ne hu]
      | runDestructor hpc' => simp [TsdState.goto, Function.update_of_ne hu]
      | releaseNone hpc' htab => simp [TsdState.goto, Function.update_of_ne hu]
      | release hpc' htab hlive hcell => simp [TsdState.goto, Function.update_of_ne hu]
    refine ⟨hown, releaseTable_pc hs, fun u hu => ?_, fun hout => absurd rfl hout,
      by rintro _ ⟨⟩, by rintro _ ⟨⟩⟩
    rw [(hothers u hu).1, (hothers u hu).2]
    exact h.others u hu

/-- The exiting thread calls the layer before it exits, or from a key destructor, and at no other
    point. -/
theorem call_point (h : ExitInv cfg t s) {e : TsdEvent} {o : TsdOut} {tsd : TsdState}
    (hcall : e.isCall = true) (hlive : s.point ≠ .returned)
    (hs : stepTsd cfg s.tsd (t, e) = some (o, tsd)) :
    s.point = .before ∨ ∃ f, s.point = .inDestructor f := by
  have hmay : (s.tsd.pc t).mayCall = true := by
    unfold stepTsd at hs
    cases e with
    | exitStart => cases hcall
    | exitNext => cases hcall
    | destructorReturn => cases hcall
    | _ =>
      dsimp only at hs
      split at hs
      · assumption
      · cases hs
  rw [h.pc] at hmay
  cases hpt : s.point with
  | before => exact Or.inl rfl
  | inDestructor f => exact Or.inr ⟨f, rfl⟩
  | returned => exact absurd hpt hlive
  | _ =>
    rw [hpt] at hmay
    cases hmay

/-- What the exiting thread reads in its table is its value under the key, as `ethread_getspecific`
    would find it. -/
theorem ExitInv.valueOf_eq (h : ExitInv cfg t s) {f : ExitFrame} {value : Ptr}
    (hpoint : s.point.pc.frame? = some f)
    (hload : s.tsd.loadEntry cfg f.threadData f.key = some value) :
    s.tsd.valueOf t f.key = value := by
  obtain ⟨-, hidx, hslot, -⟩ := h.frame hpoint
  unfold TsdState.loadEntry at hload
  split at hload
  · obtain ⟨d, hd, rfl⟩ := Option.map_eq_some_iff.mp hload
    have hcell : s.tsd.heap.cell f.threadData = some d := hd
    rw [TsdState.valueOf, hidx, hslot, hcell]
  · cases hload

/-- Clearing the entry of a key clears the thread's value under it, and no other. -/
theorem ExitInv.valueOf_clear (h : ExitInv cfg t s) {f : ExitFrame} {tsd : TsdState}
    (hpoint : s.point.pc.frame? = some f)
    (hstore : s.tsd.storeEntry cfg f.threadData f.key 0 = some tsd) (k : Nat) :
    tsd.valueOf t k = if k = f.key then 0 else s.tsd.valueOf t k := by
  obtain ⟨-, hidx, hslot, -⟩ := h.frame hpoint
  obtain ⟨h', d, rfl, -, -, hd, hc⟩ := storeEntry_spec hstore
  simp only [TsdState.valueOf, hidx, hslot, hc, Function.update_self, hd]
  by_cases hk : k = f.key
  · simp [hk]
  · simp [hk]

end Ecos.Ethread
