import Ecos.Lib.Run
import Mathlib.Logic.Function.Basic

namespace Ecos.Nspr

open Ecos.Lib

/-!
# The NSPR atomics

`PR_AtomicIncrement`, `PR_AtomicDecrement`, `PR_AtomicAdd` and `PR_AtomicSet`, for any number of
threads.  Every read and every write of a global variable or of a word, and every call of the lock
functions, is a step.

* `AtomicState`, `stepAtomic` — the state and its steps;
* `AtomicSpec` — what the calls are for: they exclude each other, and their results and the words
  are those of a sequential order of the calls;
* `LockUnused` — the global `atomic_lock` is written while no thread uses the lock;
* `atomic_spec` — the specification holds in every run that meets this condition;
* `atomic_race` — it fails in others.
-/

/-- A call of one of the four functions; a word is given by its address. -/
inductive AtomicCall
  | increment (val : Nat)
  | decrement (val : Nat)
  | add (ptr : Nat) (val : BitVec 32)
  | set (val : Nat) (newval : BitVec 32)
  deriving DecidableEq, Repr

/-- The word that the call works on, which other calls may work on at the same time. -/
def AtomicCall.word : AtomicCall → Nat
  | .increment w | .decrement w | .add w _ | .set w _ => w

/-- The value that the call writes, if it has read `old`. -/
def AtomicCall.new (old : BitVec 32) : AtomicCall → BitVec 32
  | .increment _ => old + 1
  | .decrement _ => old - 1
  | .add _ v => old + v
  | .set _ v => v

/-- The result `rv` of the call, if it has read `old`. -/
def AtomicCall.rv (old : BitVec 32) : AtomicCall → BitVec 32
  | .set _ _ => old
  | c => c.new old

/-- Where a thread is in a call, with one place for each access to shared memory and each lock
    call. -/
inductive AtomicPc
  | idle
  /-- `if (!_pr_initialized)` -/
  | checkInit (c : AtomicCall)
  /-- `if (atomic_lock == NULL)` -/
  | checkLock (c : AtomicCall)
  /-- `PR_NewLock()` -/
  | newLock (c : AtomicCall)
  /-- `atomic_lock = `, with the result of `PR_NewLock` -/
  | storeLock (c : AtomicCall) (l : Nat)
  /-- `_pr_initialized = PR_TRUE` -/
  | setInit (c : AtomicCall)
  /-- `PR_Lock(atomic_lock)`, before the argument is read -/
  | readLock (c : AtomicCall)
  /-- `PR_Lock(l)` -/
  | lock (c : AtomicCall) (l : Option Nat)
  /-- the read of the word -/
  | load (c : AtomicCall)
  /-- the write of the word -/
  | store (c : AtomicCall) (old : BitVec 32)
  /-- `PR_Unlock(atomic_lock)`, before the argument is read -/
  | rereadLock (c : AtomicCall) (rv : BitVec 32)
  /-- `PR_Unlock(l)` -/
  | unlock (c : AtomicCall) (rv : BitVec 32) (l : Option Nat)
  /-- `return rv` -/
  | ret (c : AtomicCall) (rv : BitVec 32)
  deriving DecidableEq, Repr

/-- The steps of a thread; `effect` is the one that writes the word. -/
inductive AtomicEvent
  | call (c : AtomicCall)
  | act
  | effect (c : AtomicCall) (rv : BitVec 32)
  | ret (c : AtomicCall) (rv : BitVec 32)
  deriving DecidableEq, Repr

/-- The globals, the locks, the words and the threads, any number of each. -/
structure AtomicState where
  /-- `atomic_lock`; `none` is `NULL`. -/
  atomicLock : Option Nat
  /-- `_pr_initialized` -/
  prInitialized : Bool
  /-- How many locks `PR_NewLock` has made. -/
  made : Nat
  /-- The thread that holds a lock. -/
  owner : Nat → Option Nat
  mem : Nat → BitVec 32
  pc : Nat → AtomicPc

/-- Before the first call: nothing initialised, and no lock made. -/
def AtomicState.init (mem : Nat → BitVec 32) : AtomicState :=
  ⟨none, false, 0, fun _ => none, mem, fun _ => .idle⟩

/-- Thread `t` goes on at `pc`, and the shared state stays. -/
def AtomicState.goto (s : AtomicState) (t : Nat) (pc : AtomicPc) : AtomicState :=
  { s with pc := Function.update s.pc t pc }

/-- One step of one thread.  `PR_Lock` and `PR_Unlock` assert that the lock is not `NULL`;
    `PR_Lock` waits until the lock is free, `PR_Unlock` frees it, whoever holds it. -/
def stepAtomic (s : AtomicState) (a : Nat × AtomicEvent) : Option AtomicState :=
  match s.pc a.1, a.2 with
  | .idle, .call c => some (s.goto a.1 (.checkInit c))
  | .checkInit c, .act =>
    some (s.goto a.1 (if s.prInitialized then .readLock c else .checkLock c))
  | .checkLock c, .act =>
    some (s.goto a.1 (if s.atomicLock = none then .newLock c else .setInit c))
  | .newLock c, .act =>
    -- a fresh lock, which is free
    some { s.goto a.1 (.storeLock c s.made) with
      made := s.made + 1, owner := Function.update s.owner s.made none }
  | .storeLock c l, .act => some { s.goto a.1 (.setInit c) with atomicLock := some l }
  | .setInit c, .act => some { s.goto a.1 (.readLock c) with prInitialized := true }
  | .readLock c, .act => some (s.goto a.1 (.lock c s.atomicLock))
  | .lock c (some l), .act =>
    if s.owner l = none then
      some { s.goto a.1 (.load c) with owner := Function.update s.owner l (some a.1) }
    else none
  | .load c, .act => some (s.goto a.1 (.store c (s.mem c.word)))
  | .store c old, .effect c' rv =>
    if c' = c ∧ rv = c.rv old then
      some { s.goto a.1 (.rereadLock c rv) with mem := Function.update s.mem c.word (c.new old) }
    else none
  | .rereadLock c rv, .act => some (s.goto a.1 (.unlock c rv s.atomicLock))
  | .unlock c rv (some l), .act =>
    some { s.goto a.1 (.ret c rv) with owner := Function.update s.owner l none }
  | .ret c rv, .ret c' rv' =>
    if c' = c ∧ rv' = rv then some (s.goto a.1 .idle) else none
  | _, _ => none

/-- The atomics and their users as a transition system: any thread takes a step at any time. -/
def atomicSystem (mem : Nat → BitVec 32) : LTS AtomicState (Nat × AtomicEvent) :=
  .ofStep (.init mem) stepAtomic

/-! ### The specification -/

namespace AtomicPc

/-- Is the thread between `PR_Lock` and `PR_Unlock`? -/
def holds : AtomicPc → Bool
  | load _ | store _ _ | rereadLock _ _ | unlock _ _ _ => true
  | _ => false

/-- Has the thread read `atomic_lock` for `PR_Lock`, and not come back from `PR_Unlock`? A new lock
    must not come between. -/
def uses : AtomicPc → Bool
  | lock _ _ => true
  | pc => pc.holds

/-- The call that has written its word and has not returned, with its result. -/
def unreturned : AtomicPc → List (AtomicCall × BitVec 32)
  | rereadLock c rv | unlock c rv _ | ret c rv => [(c, rv)]
  | _ => []

end AtomicPc

/-- The words after the calls were made one after the other, if these are their results. -/
def replay : (Nat → BitVec 32) → List (Nat × AtomicCall × BitVec 32) → Option (Nat → BitVec 32)
  | mem, [] => some mem
  | mem, (_, c, rv) :: calls =>
    if rv = c.rv (mem c.word) then
      replay (Function.update mem c.word (c.new (mem c.word))) calls
    else none

/-- The calls of a thread in a sequence of calls, in their order. -/
def callsOf (t : Nat) (calls : List (Nat × AtomicCall × BitVec 32)) :
    List (AtomicCall × BitVec 32) :=
  calls.filterMap fun x => if x.1 = t then some x.2 else none

/-- The calls that returned to the thread `t`, with their results. -/
def returned (t : Nat) (as : List (Nat × AtomicEvent)) : List (AtomicCall × BitVec 32) :=
  as.filterMap fun
    | (u, .ret c rv) => if u = t then some (c, rv) else none
    | _ => none

/-- **Atomicity.**  Each call releases the lock it took, and one order of the calls explains every
    word and every result. -/
structure AtomicSpec (mem : Nat → BitVec 32) (as : List (Nat × AtomicEvent)) (s : AtomicState) :
    Prop where
  /-- `PR_Unlock` releases a lock that its caller holds. -/
  unlock : ∀ t c rv l, s.pc t = .unlock c rv l → ∃ k, l = some k ∧ s.owner k = some t
  /-- One thread at most is between `PR_Lock` and `PR_Unlock`. -/
  exclusive : ∀ t u, (s.pc t).holds = true → (s.pc u).holds = true → t = u
  /-- The results and the words are those of a sequential order of the calls: of all that
      returned, and of those that have only written their word. -/
  sequential : ∃ calls, replay mem calls = some s.mem ∧
    ∀ t, callsOf t calls = returned t as ++ (s.pc t).unreturned

/-- The step does not write `atomic_lock` while some thread uses a lock, old or new. -/
def LockUnused (s : AtomicState) (a : Nat × AtomicEvent) : Prop :=
  ∀ c l, s.pc a.1 = .storeLock c l → ∀ u, (s.pc u).uses = false

/-! ### The invariant -/

namespace AtomicPc

/-- The lock that is about to be taken or released, as it was read from `atomic_lock`. -/
def arg : AtomicPc → Option (Option Nat)
  | lock _ l | unlock _ _ l => some l
  | _ => none

/-- Has the thread found the lock made, or made it? Then `atomic_lock` is not `NULL`. -/
def ready : AtomicPc → Bool
  | setInit _ | readLock _ => true
  | pc => pc.uses

/-- The lock that is about to be stored, which no thread can know of yet. -/
def newest : AtomicPc → Option Nat
  | storeLock _ l => some l
  | _ => none

/-- The word that the thread has read, with its value; it must not change before the thread
    writes. -/
def loaded : AtomicPc → Option (Nat × BitVec 32)
  | store c old => some (c.word, old)
  | _ => none

/-- A thread that holds the lock uses it, so that what holds of the users holds of it. -/
theorem uses_of_holds {pc : AtomicPc} (h : pc.holds = true) : pc.uses = true := by
  cases pc with
  | lock c l => rfl
  | _ => exact h

/-- A thread that uses the lock is past the initialisation. -/
theorem ready_of_uses {pc : AtomicPc} (h : pc.uses = true) : pc.ready = true := by
  cases pc with
  | setInit c => rfl
  | readLock c => rfl
  | _ => exact h

/-- A thread that has an argument for the lock calls uses the lock. -/
theorem uses_of_arg {pc : AtomicPc} {l : Option Nat} (h : pc.arg = some l) : pc.uses = true := by
  cases pc with
  | lock c l => rfl
  | unlock c rv l => rfl
  | _ => cases h

/-- A thread that has loaded the word holds the lock, from before the load. -/
theorem holds_of_loaded {pc : AtomicPc} {x : Nat × BitVec 32} (h : pc.loaded = some x) :
    pc.holds = true := by
  cases pc with
  | store c old => rfl
  | _ => cases h

end AtomicPc

/-- The invariant of every run that meets the condition: a lock that is in use is the one that
    `atomic_lock` points to. -/
structure AtomicInv (s : AtomicState) : Prop where
  arg : ∀ t l, (s.pc t).arg = some l → s.atomicLock = l
  ready : ∀ t, (s.pc t).ready = true → s.atomicLock ≠ none
  init : s.prInitialized = true → s.atomicLock ≠ none
  /-- The thread that holds the lock is between `PR_Lock` and `PR_Unlock`. -/
  held : ∀ l t, s.owner l = some t ↔ (s.pc t).holds = true ∧ s.atomicLock = some l
  made : ∀ l, s.atomicLock = some l → l < s.made
  newest : ∀ t l, (s.pc t).newest = some l → l < s.made
  loaded : ∀ t x, (s.pc t).loaded = some x → s.mem x.1 = x.2

variable {mem : Nat → BitVec 32} {as : List (Nat × AtomicEvent)} {s s' : AtomicState} {t u : Nat}
  {e : AtomicEvent} {pc : AtomicPc} {c : AtomicCall} {rv old : BitVec 32}

/-- Initially the invariant holds: there is no lock and no thread in a call. -/
theorem atomicInv_init (mem : Nat → BitVec 32) : AtomicInv (.init mem) :=
  ⟨nofun, nofun, nofun, fun _ _ => ⟨nofun, fun h => nomatch h.2⟩, nofun, nofun, nofun⟩

/-- The thread that went on is where it went. -/
@[simp] theorem goto_pc_self (s : AtomicState) (t : Nat) (pc : AtomicPc) :
    (s.goto t pc).pc t = pc := by simp [AtomicState.goto]

/-- The other threads are where they were. -/
theorem goto_pc_ne (s : AtomicState) (pc : AtomicPc) (h : u ≠ t) :
    (s.goto t pc).pc u = s.pc u := by
  simp [AtomicState.goto, Function.update_of_ne h]

/-- What holds of the new place of `t` and of the places of the other threads holds of all
    places. -/
theorem goto_forall {P : Nat → AtomicPc → Prop} (hself : P t pc)
    (hother : ∀ u, u ≠ t → P u (s.pc u)) (u : Nat) : P u ((s.goto t pc).pc u) := by
  by_cases hu : u = t
  · subst hu
    rw [goto_pc_self]
    exact hself
  · rw [goto_pc_ne s pc hu]
    exact hother u hu

/-- Two threads between `PR_Lock` and `PR_Unlock` are one: they hold the lock in `atomic_lock`. -/
theorem AtomicInv.exclusive (h : AtomicInv s) (ht : (s.pc t).holds = true)
    (hu : (s.pc u).holds = true) : t = u := by
  have hready := h.ready t (AtomicPc.ready_of_uses (AtomicPc.uses_of_holds ht))
  obtain ⟨l, hl⟩ := Option.ne_none_iff_exists'.mp hready
  have howner : s.owner l = some t := (h.held l t).mpr ⟨ht, hl⟩
  rw [(h.held l u).mpr ⟨hu, hl⟩] at howner
  exact (Option.some.inj howner).symm

/-- A thread that moves on, without a change of the shared state, keeps the invariant. -/
theorem AtomicInv.goto (h : AtomicInv s) (harg : ∀ l, pc.arg = some l → s.atomicLock = l)
    (hready : pc.ready = true → s.atomicLock ≠ none) (hholds : pc.holds = (s.pc t).holds)
    (hnewest : pc.newest = none) (hloaded : ∀ x, pc.loaded = some x → s.mem x.1 = x.2) :
    AtomicInv (s.goto t pc) where
  arg := goto_forall (P := fun _ p => ∀ l, p.arg = some l → s.atomicLock = l) harg
    fun u _ => h.arg u
  ready := goto_forall (P := fun _ p => p.ready = true → s.atomicLock ≠ none) hready
    fun u _ => h.ready u
  init := h.init
  held l := goto_forall
    (P := fun u p => s.owner l = some u ↔ p.holds = true ∧ s.atomicLock = some l)
    (by rw [hholds]; exact h.held l t) fun u _ => h.held l u
  made := h.made
  newest := goto_forall (P := fun _ p => ∀ l, p.newest = some l → l < s.made)
    (by rw [hnewest]; exact nofun) fun u _ => h.newest u
  loaded := goto_forall (P := fun _ p => ∀ x, p.loaded = some x → s.mem x.1 = x.2) hloaded
    fun u _ => h.loaded u

/-- `PR_NewLock` makes a lock that nobody has, and whose number was not used before. -/
theorem AtomicInv.newLock (h : AtomicInv s) (hpc : s.pc t = .newLock c) :
    AtomicInv { s.goto t (.storeLock c s.made) with
      made := s.made + 1, owner := Function.update s.owner s.made none } where
  arg := goto_forall (P := fun _ p => ∀ l, p.arg = some l → s.atomicLock = l) nofun
    fun u _ => h.arg u
  ready := goto_forall (P := fun _ p => p.ready = true → s.atomicLock ≠ none) nofun
    fun u _ => h.ready u
  init := h.init
  held l := by
    refine goto_forall (P := fun u p => Function.update s.owner s.made none l = some u ↔
      p.holds = true ∧ s.atomicLock = some l) ?_ fun u _ => ?_
    · rw [Function.update_apply]
      split
      · exact ⟨nofun, nofun⟩
      · rw [h.held, hpc]
        rfl
    · rw [Function.update_apply]
      split
      · -- the new lock is not the one that is in use
        rename_i heq
        refine ⟨nofun, fun hu => ?_⟩
        have hlt := h.made l hu.2
        omega
      · exact h.held l u
  made l hl := Nat.lt_succ_of_lt (h.made l hl)
  newest := goto_forall (P := fun _ p => ∀ l, p.newest = some l → l < s.made + 1)
    (by rintro l ⟨⟩; exact Nat.lt_succ_self _)
    fun u _ l hl => Nat.lt_succ_of_lt (h.newest u l hl)
  loaded := goto_forall (P := fun _ p => ∀ x, p.loaded = some x → s.mem x.1 = x.2) nofun
    fun u _ => h.loaded u

/-- The write of `atomic_lock`: no thread uses a lock, so that none is left with the old one. -/
theorem AtomicInv.storeLock {l : Nat} (h : AtomicInv s) (hpc : s.pc t = .storeLock c l)
    (hunused : ∀ u, (s.pc u).uses = false) :
    AtomicInv { s.goto t (.setInit c) with atomicLock := some l } where
  arg := by
    refine goto_forall (P := fun _ p => ∀ k, p.arg = some k → some l = k) nofun fun u _ k hk => ?_
    have huses := AtomicPc.uses_of_arg hk
    rw [hunused u] at huses
    cases huses
  ready := fun _ _ => nofun
  init := fun _ => nofun
  held k := by
    have hfree : ∀ u, (s.pc u).holds ≠ true := by
      intro u hu
      have huses := AtomicPc.uses_of_holds hu
      rw [hunused u] at huses
      cases huses
    have howner : ∀ u, s.owner k ≠ some u := fun u hu => hfree u ((h.held k u).mp hu).1
    refine goto_forall (P := fun u p => s.owner k = some u ↔ p.holds = true ∧ some l = some k)
      ?_ fun u _ => ?_
    · exact ⟨fun ht => absurd ht (howner t), nofun⟩
    · exact ⟨fun hu => absurd hu (howner u), fun hu => absurd hu.1 (hfree u)⟩
  made := by
    rintro k ⟨⟩
    apply h.newest t
    rw [hpc]
    rfl
  newest := goto_forall (P := fun _ p => ∀ l, p.newest = some l → l < s.made) nofun
    fun u _ => h.newest u
  loaded := goto_forall (P := fun _ p => ∀ x, p.loaded = some x → s.mem x.1 = x.2) nofun
    fun u _ => h.loaded u

/-- The initialisation is noted as done, after the lock was stored. -/
theorem AtomicInv.setInit (h : AtomicInv s) (hpc : s.pc t = .setInit c) :
    AtomicInv { s.goto t (.readLock c) with prInitialized := true } := by
  have hready : s.atomicLock ≠ none := h.ready t (by rw [hpc]; rfl)
  have hgoto : AtomicInv (s.goto t (.readLock c)) :=
    h.goto nofun (fun _ => hready) (by rw [hpc]; rfl) rfl nofun
  exact ⟨hgoto.arg, hgoto.ready, fun _ => hready, hgoto.held, hgoto.made, hgoto.newest,
    hgoto.loaded⟩

/-- `PR_Lock` gets a lock that is free, so that its caller is the only one inside. -/
theorem AtomicInv.lock {l : Nat} (h : AtomicInv s) (hpc : s.pc t = .lock c (some l))
    (hfree : s.owner l = none) :
    AtomicInv { s.goto t (.load c) with owner := Function.update s.owner l (some t) } := by
  have hl : s.atomicLock = some l := h.arg t (some l) (by rw [hpc]; rfl)
  have hready : s.atomicLock ≠ none := h.ready t (by rw [hpc]; rfl)
  refine ⟨?_, ?_, h.init, fun k => ?_, h.made, ?_, ?_⟩
  · exact goto_forall (P := fun _ p => ∀ l, p.arg = some l → s.atomicLock = l) nofun
      fun u _ => h.arg u
  · exact goto_forall (P := fun _ p => p.ready = true → s.atomicLock ≠ none) (fun _ => hready)
      fun u _ => h.ready u
  · refine goto_forall (P := fun u p => Function.update s.owner l (some t) k = some u ↔
      p.holds = true ∧ s.atomicLock = some k) ?_ fun u hu => ?_
    · rw [Function.update_apply, hl]
      split
      · rename_i heq
        subst heq
        exact ⟨fun _ => ⟨rfl, rfl⟩, fun _ => rfl⟩
      · rename_i hne
        have hne' : some l ≠ some k := fun heq => hne (Option.some.inj heq).symm
        refine ⟨fun howner => ?_, fun hlock => absurd hlock.2 hne'⟩
        exact absurd (hl.symm.trans ((h.held k t).mp howner).2) hne'
    · rw [Function.update_apply]
      split
      · rename_i heq
        subst heq
        refine ⟨fun howner => absurd (Option.some.inj howner).symm hu, fun hlock => ?_⟩
        rw [(h.held k u).mpr hlock] at hfree
        cases hfree
      · exact h.held k u
  · exact goto_forall (P := fun _ p => ∀ l, p.newest = some l → l < s.made) nofun
      fun u _ => h.newest u
  · exact goto_forall (P := fun _ p => ∀ x, p.loaded = some x → s.mem x.1 = x.2) nofun
      fun u _ => h.loaded u

/-- The word is written, by the thread that has the lock, so that no other thread has read it
    meanwhile. -/
theorem AtomicInv.store (h : AtomicInv s) (hpc : s.pc t = .store c old) :
    AtomicInv { s.goto t (.rereadLock c rv) with
      mem := Function.update s.mem c.word (c.new old) } := by
  have hready : s.atomicLock ≠ none := h.ready t (by rw [hpc]; rfl)
  have hholds : (s.pc t).holds = true := by
    rw [hpc]
    rfl
  have hgoto : AtomicInv (s.goto t (.rereadLock c rv)) :=
    h.goto nofun (fun _ => hready) hholds.symm rfl nofun
  refine ⟨hgoto.arg, hgoto.ready, hgoto.init, hgoto.held, hgoto.made, hgoto.newest, ?_⟩
  -- no other thread has read a word
  refine goto_forall (P := fun _ p => ∀ x, p.loaded = some x →
    Function.update s.mem c.word (c.new old) x.1 = x.2) nofun fun u hu x hx => ?_
  exact absurd (h.exclusive (AtomicPc.holds_of_loaded hx) hholds) hu

/-- `PR_Unlock` gives the lock back, the same that was taken. -/
theorem AtomicInv.unlock {l : Nat} (h : AtomicInv s) (hpc : s.pc t = .unlock c rv (some l)) :
    AtomicInv { s.goto t (.ret c rv) with owner := Function.update s.owner l none } := by
  have hl : s.atomicLock = some l := h.arg t (some l) (by rw [hpc]; rfl)
  have hholds : (s.pc t).holds = true := by
    rw [hpc]
    rfl
  refine ⟨?_, ?_, h.init, fun k => ?_, h.made, ?_, ?_⟩
  · exact goto_forall (P := fun _ p => ∀ l, p.arg = some l → s.atomicLock = l) nofun
      fun u _ => h.arg u
  · exact goto_forall (P := fun _ p => p.ready = true → s.atomicLock ≠ none) nofun
      fun u _ => h.ready u
  · have hnone : ∀ u, u ≠ t → ¬((s.pc u).holds = true ∧ s.atomicLock = some k) :=
      fun u hu hlock => hu (h.exclusive hlock.1 hholds)
    refine goto_forall (P := fun u p => Function.update s.owner l none k = some u ↔
      p.holds = true ∧ s.atomicLock = some k) ?_ fun u hu => ?_
    · rw [Function.update_apply]
      split
      · exact ⟨nofun, nofun⟩
      · rename_i hne
        refine ⟨fun howner => ?_, nofun⟩
        have heq := hl.symm.trans ((h.held k t).mp howner).2
        exact absurd (Option.some.inj heq).symm hne
    · rw [Function.update_apply]
      split
      · exact ⟨nofun, fun hlock => absurd hlock (hnone u hu)⟩
      · exact h.held k u
  · exact goto_forall (P := fun _ p => ∀ l, p.newest = some l → l < s.made) nofun
      fun u _ => h.newest u
  · exact goto_forall (P := fun _ p => ∀ x, p.loaded = some x → s.mem x.1 = x.2) nofun
      fun u _ => h.loaded u

/-- **Step lemma.**  A step that meets the condition keeps the invariant. -/
theorem AtomicInv.step (h : AtomicInv s) (hunused : LockUnused s (t, e))
    (hs : stepAtomic s (t, e) = some s') : AtomicInv s' := by
  unfold stepAtomic at hs
  split at hs
  · -- a call
    rename_i c hpc _
    obtain rfl := Option.some.inj hs
    exact h.goto nofun nofun (by rw [hpc]; rfl) rfl nofun
  · -- the test of `_pr_initialized`
    rename_i c hpc _
    obtain rfl := Option.some.inj hs
    dsimp only
    split
    · rename_i hinit
      exact h.goto nofun (fun _ => h.init hinit) (by rw [hpc]; rfl) rfl nofun
    · exact h.goto nofun nofun (by rw [hpc]; rfl) rfl nofun
  · -- the test of `atomic_lock`
    rename_i c hpc _
    obtain rfl := Option.some.inj hs
    dsimp only
    split
    · exact h.goto nofun nofun (by rw [hpc]; rfl) rfl nofun
    · rename_i hne
      exact h.goto nofun (fun _ => hne) (by rw [hpc]; rfl) rfl nofun
  · rename_i c hpc _
    obtain rfl := Option.some.inj hs
    exact h.newLock hpc
  · rename_i c l hpc _
    obtain rfl := Option.some.inj hs
    exact h.storeLock hpc (hunused c l hpc)
  · rename_i c hpc _
    obtain rfl := Option.some.inj hs
    exact h.setInit hpc
  · -- the argument of `PR_Lock`
    rename_i c hpc _
    obtain rfl := Option.some.inj hs
    have hready : s.atomicLock ≠ none := h.ready t (by rw [hpc]; rfl)
    exact h.goto (by rintro l ⟨⟩; rfl) (fun _ => hready) (by rw [hpc]; rfl) rfl nofun
  · rename_i c l hpc _
    split at hs
    · rename_i hfree
      obtain rfl := Option.some.inj hs
      exact h.lock hpc hfree
    · cases hs
  · -- the read of the word
    rename_i c hpc _
    obtain rfl := Option.some.inj hs
    have hready : s.atomicLock ≠ none := h.ready t (by rw [hpc]; rfl)
    exact h.goto nofun (fun _ => hready) (by rw [hpc]; rfl) rfl (by rintro x ⟨⟩; rfl)
  · rename_i c old c' rv hpc _
    split at hs
    · obtain rfl := Option.some.inj hs
      exact h.store hpc
    · cases hs
  · -- the argument of `PR_Unlock`
    rename_i c rv hpc _
    obtain rfl := Option.some.inj hs
    have hready : s.atomicLock ≠ none := h.ready t (by rw [hpc]; rfl)
    exact h.goto (by rintro l ⟨⟩; rfl) (fun _ => hready) (by rw [hpc]; rfl) rfl nofun
  · rename_i c rv l hpc _
    obtain rfl := Option.some.inj hs
    exact h.unlock hpc
  · rename_i c rv c' rv' hpc _
    split at hs
    · obtain rfl := Option.some.inj hs
      exact h.goto nofun nofun (by rw [hpc]; rfl) rfl nofun
    · cases hs
  · cases hs

/-! ### The sequential order -/

/-- The calls in the order in which they wrote their words, which is the order that explains
    them. -/
def effects (as : List (Nat × AtomicEvent)) : List (Nat × AtomicCall × BitVec 32) :=
  as.filterMap fun
    | (t, .effect c rv) => some (t, c, rv)
    | _ => none

/-- How a step acts on the words, and on the calls that have not returned. -/
inductive OrderStep (s : AtomicState) (t : Nat) : AtomicEvent → AtomicState → Prop
  | quiet {e : AtomicEvent} {s' : AtomicState} (heffect : effects [(t, e)] = [])
      (hret : ∀ u, returned u [(t, e)] = [])
      (hmem : s'.mem = s.mem) (hpc : ∀ u, (s'.pc u).unreturned = (s.pc u).unreturned) :
      OrderStep s t e s'
  | effect {c : AtomicCall} {old : BitVec 32} (hpc : s.pc t = .store c old) :
      OrderStep s t (.effect c (c.rv old)) { s.goto t (.rereadLock c (c.rv old)) with
        mem := Function.update s.mem c.word (c.new old) }
  | ret {c : AtomicCall} {rv : BitVec 32} (hpc : s.pc t = .ret c rv) :
      OrderStep s t (.ret c rv) (s.goto t .idle)

/-- The calls that have not returned, when a thread moves on without a write or a return. -/
theorem unreturned_goto (h : pc.unreturned = (s.pc t).unreturned) (u : Nat) :
    ((s.goto t pc).pc u).unreturned = (s.pc u).unreturned :=
  goto_forall (P := fun u p => p.unreturned = (s.pc u).unreturned) h (fun _ _ => rfl) u

/-- What a step does to the order of the operations: only the write adds one, at its end. -/
theorem stepAtomic_order (hs : stepAtomic s (t, e) = some s') : OrderStep s t e s' := by
  -- a step that only goes on to a place with the same call
  have hquiet : ∀ {pc : AtomicPc} {s' : AtomicState}, e = .act → s'.mem = s.mem →
      s'.pc = (s.goto t pc).pc → pc.unreturned = (s.pc t).unreturned → OrderStep s t e s' := by
    rintro pc s' rfl hmem hpc hunreturned
    refine .quiet rfl (fun _ => rfl) hmem fun u => ?_
    rw [hpc]
    exact unreturned_goto hunreturned u
  unfold stepAtomic at hs
  split at hs
  · rename_i c hpc he
    obtain rfl : e = .call c := he
    obtain rfl := Option.some.inj hs
    exact .quiet rfl (fun _ => rfl) rfl (unreturned_goto (by rw [hpc]; rfl))
  · rename_i c hpc he
    obtain rfl := Option.some.inj hs
    refine hquiet he rfl rfl ?_
    rw [hpc]
    split
    · rfl
    · rfl
  · rename_i c hpc he
    obtain rfl := Option.some.inj hs
    refine hquiet he rfl rfl ?_
    rw [hpc]
    split
    · rfl
    · rfl
  · rename_i c hpc he
    obtain rfl := Option.some.inj hs
    exact hquiet he rfl rfl (by rw [hpc]; rfl)
  · rename_i c l hpc he
    obtain rfl := Option.some.inj hs
    exact hquiet he rfl rfl (by rw [hpc]; rfl)
  · rename_i c hpc he
    obtain rfl := Option.some.inj hs
    exact hquiet he rfl rfl (by rw [hpc]; rfl)
  · rename_i c hpc he
    obtain rfl := Option.some.inj hs
    exact hquiet he rfl rfl (by rw [hpc]; rfl)
  · rename_i c l hpc he
    split at hs
    · obtain rfl := Option.some.inj hs
      exact hquiet he rfl rfl (by rw [hpc]; rfl)
    · cases hs
  · rename_i c hpc he
    obtain rfl := Option.some.inj hs
    exact hquiet he rfl rfl (by rw [hpc]; rfl)
  · -- the write of the word
    rename_i c old c' rv hpc he
    obtain rfl : e = .effect c' rv := he
    split at hs
    · rename_i heq
      obtain ⟨rfl, rfl⟩ := heq
      obtain rfl := Option.some.inj hs
      exact .effect hpc
    · cases hs
  · rename_i c rv hpc he
    obtain rfl := Option.some.inj hs
    exact hquiet he rfl rfl (by rw [hpc]; rfl)
  · rename_i c rv l hpc he
    obtain rfl := Option.some.inj hs
    exact hquiet he rfl rfl (by rw [hpc]; rfl)
  · -- the return
    rename_i c rv c' rv' hpc he
    obtain rfl : e = .ret c' rv' := he
    split at hs
    · rename_i heq
      obtain ⟨rfl, rfl⟩ := heq
      obtain rfl := Option.some.inj hs
      exact .ret hpc
    · cases hs
  · cases hs

/-- A list of operations in two parts is replayed one part after the other. -/
theorem replay_append (mem : Nat → BitVec 32) (l l' : List (Nat × AtomicCall × BitVec 32)) :
    replay mem (l ++ l') = (replay mem l).bind fun mem => replay mem l' := by
  induction l generalizing mem with
  | nil => rfl
  | cons x l ih =>
    obtain ⟨t, c, rv⟩ := x
    simp only [List.cons_append, replay]
    split
    · exact ih _
    · rfl

/-- The calls, in the order of their writes, explain the words and the results. -/
structure OrderInv (mem : Nat → BitVec 32) (as : List (Nat × AtomicEvent)) (s : AtomicState) :
    Prop where
  replay : replay mem (effects as) = some s.mem
  calls : ∀ t, callsOf t (effects as) = returned t as ++ (s.pc t).unreturned

/-- **Step lemma.**  The thread that writes its word has read the value that is there. -/
theorem OrderInv.step (h : OrderInv mem as s) (hinv : AtomicInv s)
    (hs : stepAtomic s (t, e) = some s') : OrderInv mem (as ++ [(t, e)]) s' := by
  have heffects : effects (as ++ [(t, e)]) = effects as ++ effects [(t, e)] :=
    List.filterMap_append
  have hreturned : ∀ u, returned u (as ++ [(t, e)]) = returned u as ++ returned u [(t, e)] :=
    fun u => List.filterMap_append
  have hcalls : ∀ u, callsOf u (effects (as ++ [(t, e)]))
      = callsOf u (effects as) ++ callsOf u (effects [(t, e)]) := by
    intro u
    rw [heffects]
    exact List.filterMap_append
  cases stepAtomic_order hs with
  | quiet heffect hret hmem hpc =>
    refine ⟨?_, fun u => ?_⟩
    · rw [heffects, heffect, List.append_nil, hmem]
      exact h.replay
    · rw [hcalls, heffect, hreturned, hret, hpc, h.calls]
      simp [callsOf]
  | @effect c old hpc =>
    have hold : s.mem c.word = old := hinv.loaded t (c.word, old) (by rw [hpc]; rfl)
    refine ⟨?_, fun u => ?_⟩
    -- the operation is replayed on the word that the thread has loaded
    · rw [heffects, replay_append, h.replay]
      show (if c.rv old = c.rv (s.mem c.word) then
        some (Function.update s.mem c.word (c.new (s.mem c.word))) else none) = _
      rw [hold, if_pos rfl]
    · rw [hcalls, hreturned, h.calls]
      show returned u as ++ (s.pc u).unreturned ++ callsOf u [(t, c, c.rv old)]
        = returned u as ++ [] ++ ((s.goto t (.rereadLock c (c.rv old))).pc u).unreturned
      -- the thread has one operation more that it has not returned from
      by_cases hu : u = t
      · subst hu
        rw [hpc, goto_pc_self]
        simp [callsOf, AtomicPc.unreturned]
      · rw [goto_pc_ne s _ hu]
        simp [callsOf, Ne.symm hu]
  | @ret c rv hpc =>
    refine ⟨?_, fun u => ?_⟩
    · rw [heffects]
      show Ecos.Nspr.replay mem (effects as ++ []) = some s.mem
      rw [List.append_nil]
      exact h.replay
    · rw [hcalls, hreturned, h.calls]
      show returned u as ++ (s.pc u).unreturned ++ []
        = returned u as ++ returned u [(t, .ret c rv)] ++ ((s.goto t .idle).pc u).unreturned
      -- the operation that returned is no longer an unreturned one
      by_cases hu : u = t
      · subst hu
        rw [hpc, goto_pc_self]
        simp [returned, AtomicPc.unreturned]
      · rw [goto_pc_ne s _ hu]
        simp [returned, Ne.symm hu]

/-! ### Runs -/

/-- **Run lemma.**  Both invariants hold along every run whose steps meet the condition. -/
theorem atomicInv_run (h : ((atomicSystem mem).restrict LockUnused).Run as s) :
    AtomicInv s ∧ OrderInv mem as s := by
  refine h.invariant_trace (I := fun as s => AtomicInv s ∧ OrderInv mem as s) ?_ ?_
  · rintro s rfl
    exact ⟨atomicInv_init mem, rfl, fun _ => rfl⟩
  · rintro as s ⟨t, e⟩ s' - ⟨hinv, hord⟩ ⟨hs, hunused⟩
    exact ⟨hinv.step hunused hs, hord.step hinv hs⟩

/-- **The atomics are atomic** as long as `atomic_lock` is written only while no thread uses the
    lock that it points to. -/
theorem atomic_spec (h : ((atomicSystem mem).restrict LockUnused).Run as s) :
    AtomicSpec mem as s := by
  obtain ⟨hinv, hord⟩ := atomicInv_run h
  refine ⟨fun t c rv l hpc => ?_, fun t u ht hu => hinv.exclusive ht hu,
    effects as, hord.replay, hord.calls⟩
  have hl : s.atomicLock = l := hinv.arg t l (by rw [hpc]; rfl)
  have hready : s.atomicLock ≠ none := hinv.ready t (by rw [hpc]; rfl)
  obtain ⟨k, hk⟩ := Option.ne_none_iff_exists'.mp hready
  refine ⟨k, hl.symm.trans hk, (hinv.held k t).mpr ⟨?_, hk⟩⟩
  rw [hpc]
  rfl

/-- Two increments, the second one after the first has returned. -/
theorem atomic_spec_two : ∃ as s, returned 0 as = [(.increment 7, 1)] ∧
    returned 1 as = [(.increment 7, 2)] ∧ s.mem 7 = 2 ∧ AtomicSpec (fun _ => 0) as s := by
  let c : AtomicCall := .increment 7
  let before : List (Nat × AtomicEvent) := [(0, .call c), (0, .act), (0, .act), (0, .act)]
  let after : List (Nat × AtomicEvent) :=
    [(0, .act), (0, .act), (0, .act), (0, .act), (0, .effect c 1), (0, .act), (0, .act),
      (0, .ret c 1), (1, .call c), (1, .act), (1, .act), (1, .act), (1, .act), (1, .effect c 2),
      (1, .act), (1, .act), (1, .ret c 2)]
  -- a step that does not write `atomic_lock` meets the condition
  let step (s : AtomicState) (a : Nat × AtomicEvent) : Option AtomicState :=
    if (s.pc a.1).newest = none then stepAtomic s a else none
  have hstep : ∀ s a s', step s a = some s' →
      ((atomicSystem fun _ => 0).restrict LockUnused).step s a s' := by
    intro s a s' h
    by_cases hnewest : (s.pc a.1).newest = none
    · simp only [step, if_pos hnewest] at h
      refine ⟨h, fun c l hpc => ?_⟩
      rw [hpc] at hnewest
      cases hnewest
    · simp [step, hnewest] at h
  obtain ⟨s₁, s₂, s₃, h₁, hidle, h₂, h₃, hmem⟩ : ∃ s₁ s₂ s₃,
      before.foldlM step (.init fun _ => 0) = some s₁ ∧ (∀ u, (s₁.pc u).uses = false) ∧
      stepAtomic s₁ (0, .act) = some s₂ ∧ after.foldlM step s₂ = some s₃ ∧ s₃.mem 7 = 2 := by
    refine ⟨_, _, _, rfl, fun u => ?_, rfl, rfl, rfl⟩
    cases u with
    | zero => rfl
    | succ u => rfl
  have hrun₁ := LTS.Run.of_foldlM hstep (.init rfl) h₁
  have hstore : ((atomicSystem fun _ => 0).restrict LockUnused).step s₁ (0, .act) s₂ :=
    ⟨h₂, fun _ _ _ => hidle⟩
  have hrun₂ := LTS.Run.step hrun₁ hstore
  have hrun₃ := LTS.Run.of_foldlM hstep hrun₂ h₃
  exact ⟨_, s₃, rfl, rfl, hmem, atomic_spec hrun₃⟩

/-- **The race on the first calls.**  Two threads find `atomic_lock` unset and make a lock each;
    the second lock replaces the first while that is held, and both threads are between `PR_Lock`
    and `PR_Unlock`. -/
theorem atomic_race : ¬∀ mem as s, (atomicSystem mem).Run as s → AtomicSpec mem as s := by
  intro hall
  let c : AtomicCall := .increment 7
  let as : List (Nat × AtomicEvent) :=
    [(0, .call c), (0, .act), (0, .act), (1, .call c), (1, .act), (1, .act),
      (0, .act), (0, .act), (0, .act), (0, .act), (0, .act),
      (1, .act), (1, .act), (1, .act), (1, .act), (1, .act)]
  obtain ⟨s, has, h0, h1⟩ : ∃ s, as.foldlM stepAtomic (.init fun _ => 0) = some s ∧
      (s.pc 0).holds = true ∧ (s.pc 1).holds = true := ⟨_, rfl, rfl, rfl⟩
  have hspec := hall (fun _ => 0) as s (LTS.Run.foldlM (.init rfl) has)
  cases hspec.exclusive 0 1 h0 h1

end Ecos.Nspr
