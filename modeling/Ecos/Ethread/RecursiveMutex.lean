import Ecos.Lib.Run
import Mathlib.Logic.Function.Basic

namespace Ecos.Ethread

open Ecos.Lib

/-!
# Recursive mutexes

`c_recursive_mutex_lock`, `_trylock` and `_unlock` statement by statement, for any number of
threads whose steps interleave freely: `owner` is read without the lock, and the release
clears it before the kernel mutex is unlocked.

* `RecMutex`, `stepThread` — the state, and one statement of one thread;
* `mutexSystem` — the runs that start from `c_recursive_mutex_init_function`;
* `MutexStep` — what one step can do;
* `MutexInv` — the invariant: what a thread inside knows, and that the others are outside;
* `recursive_mutex` — exclusion, the count, the kernel mutex, no self-deadlock, and failed
  calls.
-/

/-- `cyg_handle_t`: threads are known by their handles, and 0 is the handle of none. -/
abbrev Handle := Nat

/-- The two kernel calls by which a mutex is acquired; `trylock` may be refused, `lock` waits. -/
inductive LockKind
  | lock | trylock
  deriving DecidableEq, Repr

/-- Where a thread is in the code, statement by statement, since `owner` and `count` are read
    without a lock. -/
inductive MutexPc
  /-- No call in progress. -/
  | idle
  /-- `if (self != mx->owner)` -/
  | readOwner (k : LockKind)
  /-- `st = cyg_mutex_lock(&mx->mutex)`, or `cyg_mutex_trylock` -/
  | kernelLock (k : LockKind)
  /-- `mx->owner = self` -/
  | setOwner
  /-- `mx->count++` -/
  | increment
  /-- `return ((st) ? (0) : (EAGAIN))` -/
  | lockRet (st : Bool)
  /-- `mx->count--` -/
  | decrement
  /-- `if (mx->count == 0)` -/
  | testCount
  /-- `mx->owner = 0` -/
  | clearOwner
  /-- `cyg_mutex_unlock(&mx->mutex)` -/
  | kernelUnlock
  deriving DecidableEq, Repr

/-- `c_recursive_mutex_t` and its users: the two words, the kernel mutex, and where each thread
    is. -/
structure RecMutex where
  owner : Handle
  count : BitVec 32
  /-- The thread that holds the kernel mutex `mutex`. -/
  kernel : Option Handle
  pc : Handle → MutexPc
  /-- Successful locks of a thread, counted when they return, minus its unlocks, counted when
      they are called. -/
  depth : Handle → Nat
  /-- Did the thread write `owner` or `count` in its last call? -/
  wrote : Handle → Bool

/-- What a thread can do: call a function, learn the answer of the kernel, execute the next
    statement, or return from a lock call. -/
inductive MutexEvent
  | callLock (k : LockKind)
  | callUnlock
  | kernelAnswer (st : Bool)
  | next
  | lockRet (st : Bool)
  deriving DecidableEq, Repr

namespace RecMutex

/-- `c_recursive_mutex_init_function`: no owner, nothing counted, and the kernel mutex free. -/
def init : RecMutex := ⟨0, 0, none, fun _ => .idle, fun _ => 0, fun _ => false⟩

/-- Thread `t` goes on at `pc`, without touching the mutex. -/
def goto (s : RecMutex) (t : Handle) (pc : MutexPc) : RecMutex :=
  { s with pc := Function.update s.pc t pc }

/-- Thread `t` enters a function, and has written nothing in it yet. -/
def enter (s : RecMutex) (t : Handle) (pc : MutexPc) : RecMutex :=
  { s.goto t pc with wrote := Function.update s.wrote t false }

/-- Thread `t` writes `owner`, and that it has written is noted. -/
def setOwner (s : RecMutex) (t owner : Handle) : RecMutex :=
  { s with owner := owner, wrote := Function.update s.wrote t true }

/-- Thread `t` writes `count`, and that it has written is noted. -/
def setCount (s : RecMutex) (t : Handle) (count : BitVec 32) : RecMutex :=
  { s with count := count, wrote := Function.update s.wrote t true }

/-- The depth of thread `t` changes; this is the account of its users, which the code does not
    keep. -/
def setDepth (s : RecMutex) (t : Handle) (d : Nat) : RecMutex :=
  { s with depth := Function.update s.depth t d }

/-- One step of thread `t`.  A thread has a handle that is not zero, nests fewer than 2^32
    locks, and calls unlock only while it has locks left. -/
def stepThread (s : RecMutex) (t : Handle) (e : MutexEvent) : Option RecMutex :=
  match s.pc t, e with
  | .idle, .callLock k =>
    if t ≠ 0 ∧ s.depth t + 1 < 2 ^ 32 then some (s.enter t (.readOwner k)) else none
  | .idle, .callUnlock =>
    if 0 < s.depth t then some ((s.enter t .decrement).setDepth t (s.depth t - 1)) else none
  | .readOwner k, .next =>
    if t ≠ s.owner then some (s.goto t (.kernelLock k)) else some (s.goto t .setOwner)
  | .kernelLock _, .kernelAnswer true =>
    if s.kernel = none then some { s.goto t .setOwner with kernel := some t } else none
  | .kernelLock _, .kernelAnswer false => some (s.goto t (.lockRet false))
  | .setOwner, .next => some ((s.setOwner t t).goto t .increment)
  | .increment, .next => some ((s.setCount t (s.count + 1)).goto t (.lockRet true))
  | .lockRet st, .lockRet st' =>
    if st = st' then
      some ((s.goto t .idle).setDepth t (if st then s.depth t + 1 else s.depth t))
    else none
  | .decrement, .next => some ((s.setCount t (s.count - 1)).goto t .testCount)
  | .testCount, .next =>
    if s.count = 0 then some (s.goto t .clearOwner) else some (s.goto t .idle)
  | .clearOwner, .next => some ((s.setOwner t 0).goto t .kernelUnlock)
  | .kernelUnlock, .next => some { s.goto t .idle with kernel := none }
  | _, _ => none

end RecMutex

/-- One step of the mutex and its users: an event names the thread that takes it. -/
def stepEvent (s : RecMutex) (a : Handle × MutexEvent) : Option RecMutex :=
  s.stepThread a.1 a.2

/-- The mutex and its users as a transition system, with any number of threads. -/
def mutexSystem : LTS RecMutex (Handle × MutexEvent) :=
  .ofStep .init stepEvent

/-! ### The invariant -/

/-- What thread `t` knows while it holds the kernel mutex; `d` is its depth, and `count` differs
    from it only inside a call. -/
def Inside (owner : Handle) (count : BitVec 32) (t : Handle) (pc : MutexPc) (d : Nat) : Prop :=
  match pc with
  | .idle => owner = t ∧ count.toNat = d ∧ 0 < d
  | .readOwner _ => owner = t ∧ count.toNat = d ∧ 0 < d ∧ d + 1 < 2 ^ 32
  | .kernelLock _ | .lockRet false => False
  | .setOwner => (owner = t ∨ d = 0) ∧ count.toNat = d ∧ d + 1 < 2 ^ 32
  | .increment => owner = t ∧ count.toNat = d ∧ d + 1 < 2 ^ 32
  | .lockRet true => owner = t ∧ count.toNat = d + 1
  | .decrement => owner = t ∧ count.toNat = d + 1
  | .testCount => owner = t ∧ count.toNat = d
  | .clearOwner => count = 0 ∧ d = 0
  | .kernelUnlock => owner = 0 ∧ count = 0 ∧ d = 0

/-- Where a thread can be while it does not hold the kernel mutex: in a lock call that has not been
    granted. -/
def Outside (t : Handle) (pc : MutexPc) (d : Nat) : Prop :=
  d = 0 ∧ match pc with
  | .idle => True
  | .readOwner _ | .kernelLock _ | .lockRet false => t ≠ 0
  | _ => False

/-- May a call at this point still fail? Then it must not have written anything. -/
def MutexPc.mayFail : MutexPc → Bool
  | .readOwner _ | .kernelLock _ | .lockRet false => true
  | _ => false

/-- What is known of thread `t`, by whether it holds the kernel mutex. -/
def ThreadInv (s : RecMutex) (t : Handle) : Prop :=
  if s.kernel = some t then Inside s.owner s.count t (s.pc t) (s.depth t)
  else Outside t (s.pc t) (s.depth t)

/-- The invariant of the recursive mutex: `owner` is the holder or none, and only the holder is
    past the kernel's lock. -/
structure MutexInv (s : RecMutex) : Prop where
  threads : ∀ t, ThreadInv s t
  owner : s.owner = 0 ∨ s.kernel = some s.owner
  free : s.kernel = none → s.count = 0
  quiet : ∀ t, (s.pc t).mayFail = true → s.wrote t = false

variable {s s' : RecMutex} {t t' : Handle} {e : MutexEvent}

/-! ### The steps -/

/-- What one step of thread `t` can do, one constructor for each statement and outcome. -/
inductive MutexStep (s : RecMutex) (t : Handle) : MutexEvent → RecMutex → Prop
  | callLock {k} (hpc : s.pc t = .idle) (hself : t ≠ 0) (hnest : s.depth t + 1 < 2 ^ 32) :
    MutexStep s t (.callLock k) (s.enter t (.readOwner k))
  | callUnlock (hpc : s.pc t = .idle) (hpos : 0 < s.depth t) :
    MutexStep s t .callUnlock ((s.enter t .decrement).setDepth t (s.depth t - 1))
  | notOwner {k} (hpc : s.pc t = .readOwner k) (hne : t ≠ s.owner) :
    MutexStep s t .next (s.goto t (.kernelLock k))
  | isOwner {k} (hpc : s.pc t = .readOwner k) (howner : s.owner = t) :
    MutexStep s t .next (s.goto t .setOwner)
  | granted {k} (hpc : s.pc t = .kernelLock k) (hfree : s.kernel = none) :
    MutexStep s t (.kernelAnswer true) { s.goto t .setOwner with kernel := some t }
  | refused {k} (hpc : s.pc t = .kernelLock k) :
    MutexStep s t (.kernelAnswer false) (s.goto t (.lockRet false))
  | setOwner (hpc : s.pc t = .setOwner) :
    MutexStep s t .next ((s.setOwner t t).goto t .increment)
  | increment (hpc : s.pc t = .increment) :
    MutexStep s t .next ((s.setCount t (s.count + 1)).goto t (.lockRet true))
  | locked (hpc : s.pc t = .lockRet true) :
    MutexStep s t (.lockRet true) ((s.goto t .idle).setDepth t (s.depth t + 1))
  | notLocked (hpc : s.pc t = .lockRet false) :
    MutexStep s t (.lockRet false) ((s.goto t .idle).setDepth t (s.depth t))
  | decrement (hpc : s.pc t = .decrement) :
    MutexStep s t .next ((s.setCount t (s.count - 1)).goto t .testCount)
  | lastUnlock (hpc : s.pc t = .testCount) (hzero : s.count = 0) :
    MutexStep s t .next (s.goto t .clearOwner)
  | stillLocked (hpc : s.pc t = .testCount) (hne : s.count ≠ 0) :
    MutexStep s t .next (s.goto t .idle)
  | clearOwner (hpc : s.pc t = .clearOwner) :
    MutexStep s t .next ((s.setOwner t 0).goto t .kernelUnlock)
  | kernelUnlock (hpc : s.pc t = .kernelUnlock) :
    MutexStep s t .next { s.goto t .idle with kernel := none }

/-- The exits of `stepThread`, from which the invariant is proved without unfolding it again. -/
theorem stepThread_cases (hs : s.stepThread t e = some s') : MutexStep s t e s' := by
  unfold RecMutex.stepThread at hs
  split at hs
  · rename_i hpc
    split at hs
    · rename_i hguard
      cases hs
      exact .callLock hpc hguard.1 hguard.2
    · cases hs
  · rename_i hpc
    split at hs
    · rename_i hpos
      cases hs
      exact .callUnlock hpc hpos
    · cases hs
  · rename_i hpc
    split at hs
    · rename_i hne
      cases hs
      exact .notOwner hpc hne
    · rename_i howner
      cases hs
      exact .isOwner hpc (not_not.mp howner).symm
  · rename_i hpc
    split at hs
    · rename_i hfree
      cases hs
      exact .granted hpc hfree
    · cases hs
  · cases hs
    exact .refused ‹_›
  · cases hs
    exact .setOwner ‹_›
  · cases hs
    exact .increment ‹_›
  · rename_i st st' hpc
    split at hs
    · rename_i hst
      subst hst
      cases hs
      -- did the call get the mutex?
      cases st with
      | true => exact .locked hpc
      | false => exact .notLocked hpc
    · cases hs
  · cases hs
    exact .decrement ‹_›
  · rename_i hpc
    split at hs
    · rename_i hzero
      cases hs
      exact .lastUnlock hpc hzero
    · rename_i hne
      cases hs
      exact .stillLocked hpc hne
  · cases hs
    exact .clearOwner ‹_›
  · cases hs
    exact .kernelUnlock ‹_›
  · cases hs

/-! ### The invariant is kept -/

theorem mutexInv_init : MutexInv .init := by
  refine ⟨fun t => ?_, Or.inl rfl, fun _ => rfl, fun t _ => rfl⟩
  simp [ThreadInv, RecMutex.init, Outside]

/-- The holder of the kernel mutex is inside, with what it knows of `owner` and `count`. -/
theorem MutexInv.inside (h : MutexInv s) (ht : s.kernel = some t) :
    Inside s.owner s.count t (s.pc t) (s.depth t) := by
  have hinv := h.threads t
  rwa [ThreadInv, if_pos ht] at hinv

/-- Every other thread is outside, and has locked nothing. -/
theorem MutexInv.outside (h : MutexInv s) (ht : s.kernel ≠ some t) :
    Outside t (s.pc t) (s.depth t) := by
  have hinv := h.threads t
  rwa [ThreadInv, if_neg ht] at hinv

/-- A step of one thread leaves the other threads where they are, with their depths. -/
theorem MutexStep.frame (hs : MutexStep s t e s') (hne : t' ≠ t) :
    s'.pc t' = s.pc t' ∧ s'.depth t' = s.depth t' ∧ s'.wrote t' = s.wrote t' := by
  cases hs <;>
    simp [RecMutex.goto, RecMutex.enter, RecMutex.setOwner, RecMutex.setCount,
      RecMutex.setDepth, Function.update_of_ne hne]

/-- A step of thread `t` keeps the invariant when it keeps what concerns `t`, and leaves
    alone what the holder relies on when that is another thread. -/
theorem MutexInv.of_thread (h : MutexInv s) (hs : MutexStep s t e s')
    (hkernel : ∀ t' ≠ t, s'.kernel = some t' ↔ s.kernel = some t')
    (hsame : s.kernel ≠ some t → s'.owner = s.owner ∧ s'.count = s.count)
    (hself : ThreadInv s' t) (howner : s'.owner = 0 ∨ s'.kernel = some s'.owner)
    (hfree : s'.kernel = none → s'.count = 0)
    (hquiet : (s'.pc t).mayFail = true → s'.wrote t = false) : MutexInv s' := by
  refine ⟨fun t' => ?_, howner, hfree, fun t' ht' => ?_⟩
  · by_cases hne : t' = t
    · exact hne ▸ hself
    obtain ⟨hpc, hdepth, -⟩ := hs.frame hne
    rw [ThreadInv, hpc, hdepth]
    by_cases hk : s.kernel = some t'
    · have hk' : s.kernel ≠ some t := fun hkt => hne (Option.some.inj (hk.symm.trans hkt))
      obtain ⟨ho, hc⟩ := hsame hk'
      rw [if_pos ((hkernel t' hne).mpr hk), ho, hc]
      exact h.inside hk
    · rw [if_neg fun hk' => hk ((hkernel t' hne).mp hk')]
      exact h.outside hk
  · by_cases hne : t' = t
    · subst hne
      exact hquiet ht'
    · obtain ⟨hpc, -, hwrote⟩ := hs.frame hne
      rw [hwrote]
      rw [hpc] at ht'
      exact h.quiet t' ht'

/-- A thread at a point of the code where only the holder can be holds the kernel mutex. -/
theorem MutexInv.kernel_of_pc (h : MutexInv s)
    (hpc : ¬Outside t (s.pc t) (s.depth t)) : s.kernel = some t := by
  by_contra hk
  exact hpc (h.outside hk)

/-- A thread at a point of the code where the holder cannot be does not hold the kernel
    mutex. -/
theorem MutexInv.not_kernel_of_pc (h : MutexInv s)
    (hpc : ¬Inside s.owner s.count t (s.pc t) (s.depth t)) : s.kernel ≠ some t :=
  fun hk => hpc (h.inside hk)

/-- What is known of a thread at a point where only the holder can be. -/
theorem MutexInv.inside_at (h : MutexInv s) {pc : MutexPc} (hpc : s.pc t = pc)
    (hnot : ¬Outside t pc (s.depth t)) :
    s.kernel = some t ∧ Inside s.owner s.count t pc (s.depth t) := by
  subst hpc
  have hk : s.kernel = some t := h.kernel_of_pc hnot
  exact ⟨hk, h.inside hk⟩

/-- A thread that enters a function, or goes on without touching the mutex, keeps the invariant
    when its own part holds at the new point. -/
theorem MutexInv.of_pc (h : MutexInv s) (hs : MutexStep s t e s')
    (ho : s'.owner = s.owner) (hc : s'.count = s.count) (hk : s'.kernel = s.kernel)
    (hin : s.kernel = some t → Inside s.owner s.count t (s'.pc t) (s'.depth t))
    (hout : s.kernel ≠ some t → Outside t (s'.pc t) (s'.depth t))
    (hquiet : (s'.pc t).mayFail = true → s'.wrote t = false) : MutexInv s' := by
  refine h.of_thread hs (fun _ _ => by rw [hk]) (fun _ => ⟨ho, hc⟩) ?_ ?_ ?_ hquiet
  · rw [ThreadInv, hk, ho, hc]
    split
    · exact hin ‹_›
    · exact hout ‹_›
  · rw [ho, hk]
    exact h.owner
  · rw [hk, hc]
    exact h.free

/-- A statement by which the holder writes `owner` or `count` keeps the invariant: the others know
    nothing of the two words. -/
theorem MutexInv.of_write (h : MutexInv s) (hs : MutexStep s t e s')
    (hkt : s.kernel = some t) (hk : s'.kernel = s.kernel)
    (hin : Inside s'.owner s'.count t (s'.pc t) (s'.depth t))
    (ho : s'.owner = 0 ∨ s'.owner = t) (hpc : (s'.pc t).mayFail = false) : MutexInv s' := by
  refine h.of_thread hs (fun _ _ => by rw [hk]) (fun hne => absurd hkt hne) ?_ ?_ ?_ ?_
  · rw [ThreadInv, if_pos (hk.trans hkt)]
    exact hin
  · rw [hk, hkt]
    exact ho.imp_right fun heq => by rw [heq]
  · intro hnone
    rw [hk, hkt] at hnone
    cases hnone
  · intro hmay
    rw [hpc] at hmay
    cases hmay

/-- A lock call begins, of the holder or of another thread. -/
theorem MutexInv.callLock (h : MutexInv s) {k : LockKind} (hpc : s.pc t = .idle) (hself : t ≠ 0)
    (hnest : s.depth t + 1 < 2 ^ 32) (hs : MutexStep s t e (s.enter t (.readOwner k))) :
    MutexInv (s.enter t (.readOwner k)) := by
  refine h.of_pc hs rfl rfl rfl (fun hk => ?_) (fun hk => ?_) (fun _ => ?_)
  · have hin := h.inside hk
    rw [hpc] at hin
    simpa [RecMutex.enter, RecMutex.goto, Inside] using ⟨hin.1, hin.2.1, hin.2.2, hnest⟩
  · have hout := h.outside hk
    simpa [RecMutex.enter, RecMutex.goto, Outside] using ⟨hout.1, hself⟩
  · simp [RecMutex.enter]

/-- An unlock call begins.  A thread that has locks left is the holder. -/
theorem MutexInv.callUnlock (h : MutexInv s) (hpc : s.pc t = .idle) (hpos : 0 < s.depth t)
    (hs : MutexStep s t e ((s.enter t .decrement).setDepth t (s.depth t - 1))) :
    MutexInv ((s.enter t .decrement).setDepth t (s.depth t - 1)) := by
  have hk : s.kernel = some t :=
    h.kernel_of_pc fun hout => absurd hout.1 (Nat.ne_of_gt hpos)
  have hin := h.inside hk
  rw [hpc] at hin
  obtain ⟨ho, hcount, -⟩ := hin
  refine h.of_pc hs rfl rfl rfl (fun _ => ?_) (fun hne => absurd hk hne) (fun _ => ?_)
  · simp only [RecMutex.setDepth, RecMutex.enter, RecMutex.goto, Function.update_self, Inside]
    exact ⟨ho, by omega⟩
  · simp [RecMutex.setDepth, RecMutex.enter]

/-- **The unlocked read.**  A thread that reads its own handle in `owner` is the holder, since
    nobody else writes this handle; and the holder reads its own. -/
theorem MutexInv.owner_iff (h : MutexInv s) {k : LockKind} (hpc : s.pc t = .readOwner k) :
    s.owner = t ↔ s.kernel = some t := by
  constructor
  · intro howner
    by_contra hk
    have hout := h.outside hk
    rw [hpc] at hout
    rcases h.owner with h0 | hko
    · exact hout.2 (howner.symm.trans h0)
    · exact hk (howner ▸ hko)
  · intro hk
    have hin := h.inside hk
    rw [hpc] at hin
    exact hin.1

/-- Not the holder: the kernel is asked for the mutex, whatever `owner` was when it was read. -/
theorem MutexInv.notOwner (h : MutexInv s) {k : LockKind} (hpc : s.pc t = .readOwner k)
    (hne : t ≠ s.owner) (hs : MutexStep s t e (s.goto t (.kernelLock k))) :
    MutexInv (s.goto t (.kernelLock k)) := by
  have hk : s.kernel ≠ some t := fun hk => hne ((h.owner_iff hpc).mpr hk).symm
  have hout := h.outside hk
  rw [hpc] at hout
  refine h.of_pc hs rfl rfl rfl (fun hk' => absurd hk' hk) (fun _ => ?_) (fun _ => ?_)
  · simpa [RecMutex.goto, Outside] using hout
  · exact h.quiet t (by rw [hpc]; rfl)

/-- The holder nests one lock more: it reads its own handle in `owner`, which no other thread can
    write. -/
theorem MutexInv.isOwner (h : MutexInv s) {k : LockKind} (hpc : s.pc t = .readOwner k)
    (howner : s.owner = t) (hs : MutexStep s t e (s.goto t .setOwner)) :
    MutexInv (s.goto t .setOwner) := by
  have hk := (h.owner_iff hpc).mp howner
  have hin := h.inside hk
  rw [hpc] at hin
  refine h.of_pc hs rfl rfl rfl (fun _ => ?_) (fun hne => absurd hk hne) (fun hmay => ?_)
  · simpa [RecMutex.goto, Inside] using ⟨Or.inl hin.1, hin.2.1, hin.2.2.2⟩
  · simp [RecMutex.goto, MutexPc.mayFail] at hmay

/-- The kernel grants the mutex: nobody had it, so nobody is the owner. -/
theorem MutexInv.granted (h : MutexInv s) (hfree : s.kernel = none)
    (hs : MutexStep s t e { s.goto t .setOwner with kernel := some t }) :
    MutexInv { s.goto t .setOwner with kernel := some t } := by
  have hk : s.kernel ≠ some t := by simp [hfree]
  have hout := h.outside hk
  have howner : s.owner = 0 := by
    rcases h.owner with h0 | hko
    · exact h0
    · rw [hfree] at hko
      cases hko
  refine h.of_thread hs (fun t' hne => ?_) (fun _ => ⟨rfl, rfl⟩) ?_ (Or.inl howner) nofun
    (fun hmay => ?_)
  · simp [hfree, Ne.symm hne]
  · rw [ThreadInv, if_pos rfl]
    simp [RecMutex.goto, Inside, hout.1, h.free hfree]
  · simp [RecMutex.goto, MutexPc.mayFail] at hmay

/-- The kernel refuses the mutex, and the call returns without having written. -/
theorem MutexInv.refused (h : MutexInv s) {k : LockKind} (hpc : s.pc t = .kernelLock k)
    (hs : MutexStep s t e (s.goto t (.lockRet false))) :
    MutexInv (s.goto t (.lockRet false)) := by
  have hk : s.kernel ≠ some t := h.not_kernel_of_pc (by simp [hpc, Inside])
  have hout := h.outside hk
  rw [hpc] at hout
  refine h.of_pc hs rfl rfl rfl (fun hk' => absurd hk' hk) (fun _ => ?_) (fun _ => ?_)
  · simpa [RecMutex.goto, Outside] using hout
  · exact h.quiet t (by rw [hpc]; rfl)

/-- A successful lock returns, and from here it counts. -/
theorem MutexInv.locked (h : MutexInv s) (hpc : s.pc t = .lockRet true)
    (hs : MutexStep s t e ((s.goto t .idle).setDepth t (s.depth t + 1))) :
    MutexInv ((s.goto t .idle).setDepth t (s.depth t + 1)) := by
  obtain ⟨hk, hin⟩ := h.inside_at hpc (by simp [Outside])
  refine h.of_pc hs rfl rfl rfl (fun _ => ?_) (fun hne => absurd hk hne) (fun hmay => ?_)
  · simpa [RecMutex.setDepth, RecMutex.goto, Inside] using hin
  · simp [RecMutex.setDepth, RecMutex.goto, MutexPc.mayFail] at hmay

/-- A failed lock returns, and leaves everything as it was. -/
theorem MutexInv.notLocked (h : MutexInv s) (hpc : s.pc t = .lockRet false)
    (hs : MutexStep s t e ((s.goto t .idle).setDepth t (s.depth t))) :
    MutexInv ((s.goto t .idle).setDepth t (s.depth t)) := by
  have hk : s.kernel ≠ some t := h.not_kernel_of_pc (by simp [hpc, Inside])
  have hout := h.outside hk
  refine h.of_pc hs rfl rfl rfl (fun hk' => absurd hk' hk) (fun _ => ?_) (fun hmay => ?_)
  · simpa [RecMutex.setDepth, RecMutex.goto, Outside] using hout.1
  · simp [RecMutex.setDepth, RecMutex.goto, MutexPc.mayFail] at hmay

/-- After `mx->count--` the count is the depth: it is zero when no lock is left. -/
theorem MutexInv.testCount (h : MutexInv s) (hpc : s.pc t = .testCount) :
    s.kernel = some t ∧ s.owner = t ∧ (s.count = 0 ↔ s.depth t = 0) := by
  obtain ⟨hk, ho, hcount⟩ := h.inside_at hpc (by simp [Outside])
  refine ⟨hk, ho, fun hzero => by rw [← hcount, hzero]; rfl, fun hzero => ?_⟩
  exact BitVec.eq_of_toNat_eq (by rw [hcount, hzero]; rfl)

/-- The last unlock goes on to release the mutex, with nothing counted. -/
theorem MutexInv.lastUnlock (h : MutexInv s) (hpc : s.pc t = .testCount) (hzero : s.count = 0)
    (hs : MutexStep s t e (s.goto t .clearOwner)) : MutexInv (s.goto t .clearOwner) := by
  obtain ⟨hk, -, hiff⟩ := h.testCount hpc
  refine h.of_pc hs rfl rfl rfl (fun _ => ?_) (fun hne => absurd hk hne) (fun hmay => ?_)
  · simpa [RecMutex.goto, Inside] using ⟨hzero, hiff.mp hzero⟩
  · simp [RecMutex.goto, MutexPc.mayFail] at hmay

/-- Any other unlock returns, and the thread still holds the mutex. -/
theorem MutexInv.stillLocked (h : MutexInv s) (hpc : s.pc t = .testCount) (hne : s.count ≠ 0)
    (hs : MutexStep s t e (s.goto t .idle)) : MutexInv (s.goto t .idle) := by
  obtain ⟨hk, ho, hiff⟩ := h.testCount hpc
  obtain ⟨-, -, hcount⟩ := h.inside_at hpc (by simp [Outside])
  have hdepth : 0 < s.depth t := Nat.pos_of_ne_zero fun hzero => hne (hiff.mpr hzero)
  refine h.of_pc hs rfl rfl rfl (fun _ => ?_) (fun hne => absurd hk hne) (fun hmay => ?_)
  · simpa [RecMutex.goto, Inside] using ⟨ho, hcount, hdepth⟩
  · simp [RecMutex.goto, MutexPc.mayFail] at hmay

/-- The kernel mutex is given back, with no owner and nothing counted. -/
theorem MutexInv.kernelUnlock (h : MutexInv s) (hpc : s.pc t = .kernelUnlock)
    (hs : MutexStep s t e { s.goto t .idle with kernel := none }) :
    MutexInv { s.goto t .idle with kernel := none } := by
  obtain ⟨hk, ho, hcount, hdepth⟩ := h.inside_at hpc (by simp [Outside])
  refine h.of_thread hs (fun t' hne => ?_) (fun hne => absurd hk hne) ?_ (Or.inl ho)
    (fun _ => hcount) (fun hmay => ?_)
  · simp [hk, Ne.symm hne]
  · simp [ThreadInv, RecMutex.goto, Outside, hdepth]
  · simp [RecMutex.goto, MutexPc.mayFail] at hmay

/-- **Step lemma.**  Every statement of every thread keeps the invariant. -/
theorem MutexInv.step (h : MutexInv s) (hs : MutexStep s t e s') : MutexInv s' := by
  have hstep := hs
  cases hs with
  | callLock hpc hself hnest => exact h.callLock hpc hself hnest hstep
  | callUnlock hpc hpos => exact h.callUnlock hpc hpos hstep
  | notOwner hpc hne => exact h.notOwner hpc hne hstep
  | isOwner hpc howner => exact h.isOwner hpc howner hstep
  | granted hpc hfree => exact h.granted hfree hstep
  | refused hpc => exact h.refused hpc hstep
  | setOwner hpc =>
    obtain ⟨hk, hin⟩ := h.inside_at hpc (by simp [Outside])
    refine h.of_write hstep hk rfl ?_ (Or.inr rfl) ?_
    · simpa [RecMutex.setOwner, RecMutex.goto, Inside] using hin.2
    · simp [RecMutex.setOwner, RecMutex.goto, MutexPc.mayFail]
  | increment hpc =>
    obtain ⟨hk, ho, hcount, hlt⟩ := h.inside_at hpc (by simp [Outside])
    -- fewer than 2^32 locks are nested, so the counter does not wrap
    have hone : (s.count + 1).toNat = s.depth t + 1 := by bv_omega
    refine h.of_write hstep hk rfl ?_ (Or.inr ho) ?_
    · simpa [RecMutex.setCount, RecMutex.goto, Inside] using ⟨ho, hone⟩
    · simp [RecMutex.setCount, RecMutex.goto, MutexPc.mayFail]
  | locked hpc => exact h.locked hpc hstep
  | notLocked hpc => exact h.notLocked hpc hstep
  | decrement hpc =>
    obtain ⟨hk, ho, hcount⟩ := h.inside_at hpc (by simp [Outside])
    have hone : (s.count - 1).toNat = s.depth t := by bv_omega
    refine h.of_write hstep hk rfl ?_ (Or.inr ho) ?_
    · simpa [RecMutex.setCount, RecMutex.goto, Inside] using ⟨ho, hone⟩
    · simp [RecMutex.setCount, RecMutex.goto, MutexPc.mayFail]
  | lastUnlock hpc hzero => exact h.lastUnlock hpc hzero hstep
  | stillLocked hpc hne => exact h.stillLocked hpc hne hstep
  | clearOwner hpc =>
    obtain ⟨hk, hin⟩ := h.inside_at hpc (by simp [Outside])
    refine h.of_write hstep hk rfl ?_ (Or.inl rfl) ?_
    · simpa [RecMutex.setOwner, RecMutex.goto, Inside] using hin
    · simp [RecMutex.setOwner, RecMutex.goto, MutexPc.mayFail]
  | kernelUnlock hpc => exact h.kernelUnlock hpc hstep

/-! ### Runs -/

/-- Successful locks of thread `t` in a trace, counted where they return. -/
def locks (as : List (Handle × MutexEvent)) (t : Handle) : Nat := as.count (t, .lockRet true)

/-- Unlocks of thread `t` in a trace, counted where they are called. -/
def unlocks (as : List (Handle × MutexEvent)) (t : Handle) : Nat := as.count (t, .callUnlock)

/-- What a step does to the depth of its thread, in the terms in which a trace counts. -/
theorem MutexStep.depth (hs : MutexStep s t e s') :
    s'.depth t + (if e = .callUnlock then 1 else 0)
      = s.depth t + if e = .lockRet true then 1 else 0 := by
  cases hs <;>
    simp [RecMutex.goto, RecMutex.enter, RecMutex.setOwner, RecMutex.setCount,
      RecMutex.setDepth]
  rename_i hpos
  exact Nat.sub_add_cancel hpos

/-- A step that changes `owner` or `count` is noted, so that a failed call can be seen to have
    changed neither. -/
theorem MutexStep.wrote (hs : MutexStep s t e s')
    (hne : s'.owner ≠ s.owner ∨ s'.count ≠ s.count) : s'.wrote t = true := by
  cases hs <;>
    simp_all [RecMutex.goto, RecMutex.enter, RecMutex.setOwner, RecMutex.setCount,
      RecMutex.setDepth]

/-- The depth of a thread is the number of its locks minus the number of its unlocks. -/
theorem depth_run {as : List (Handle × MutexEvent)} (h : mutexSystem.Run as s) (t : Handle) :
    s.depth t + unlocks as t = locks as t := by
  refine h.invariant_trace (I := fun as s => s.depth t + unlocks as t = locks as t) ?_ ?_
  · rintro s rfl
    rfl
  · rintro as s ⟨u, e⟩ s' - ih hs
    have hcount : ∀ e', (as ++ [(u, e)]).count (t, e')
        = as.count (t, e') + if u = t ∧ e = e' then 1 else 0 := by
      intro e'
      simp [List.count_append, List.count_singleton, Prod.ext_iff]
    simp only [locks, unlocks] at ih ⊢
    rw [hcount, hcount]
    by_cases hne : t = u
    · subst hne
      have hdepth : s'.depth t + (if e = .callUnlock then 1 else 0)
          = s.depth t + if e = .lockRet true then 1 else 0 := (stepThread_cases hs).depth
      simp only [true_and]
      omega
    · simp only [Ne.symm hne, false_and, if_false]
      rw [((stepThread_cases hs).frame hne).2.1]
      exact ih

/-- **Run lemma.**  The invariant holds in every reached state, by induction from the step lemma. -/
theorem mutexInv_run {as : List (Handle × MutexEvent)} (h : mutexSystem.Run as s) :
    MutexInv s := by
  refine h.invariant (I := MutexInv) ?_ fun s a s' ih hs => ih.step (stepThread_cases hs)
  rintro s rfl
  exact mutexInv_init

/-- A thread that is between the answer of the kernel and its return from a lock call. -/
def MutexPc.acquiring : MutexPc → Bool
  | .setOwner | .increment | .lockRet true => true
  | _ => false

/-- A thread that is in an unlock call, between its first statement and the return. -/
def MutexPc.releasing : MutexPc → Bool
  | .decrement | .testCount | .clearOwner | .kernelUnlock => true
  | _ => false

/-- A thread holds the mutex: its locks outnumber its unlocks. -/
def Holds (as : List (Handle × MutexEvent)) (t : Handle) : Prop := unlocks as t < locks as t

instance (as : List (Handle × MutexEvent)) (t : Handle) : Decidable (Holds as t) :=
  inferInstanceAs (Decidable (_ < _))

/-- What the recursive mutex guarantees after the events `as`: exclusion, the count, the release,
    and failed calls. -/
structure MutexGuarantee (as : List (Handle × MutexEvent)) (s : RecMutex) : Prop where
  /-- At most one thread holds the mutex. -/
  exclusion : ∀ t t', Holds as t → Holds as t' → t = t'
  /-- While the holder is not in a call, `count` is its locks minus its unlocks. -/
  count : ∀ t, Holds as t → s.pc t = .idle →
    s.owner = t ∧ s.count.toNat = locks as t - unlocks as t
  /-- While nobody holds the mutex or is in a call, it is as initialised. -/
  unheld : (∀ t, ¬Holds as t ∧ s.pc t = .idle) → s.owner = 0 ∧ s.count = 0
  /-- Who has the kernel mutex. -/
  kernel : ∀ t, s.kernel = some t ↔
    Holds as t ∨ (s.pc t).acquiring = true ∨ (s.pc t).releasing = true
  /-- A thread that waits for the kernel mutex neither has it nor holds the mutex. -/
  noSelfDeadlock : ∀ t k, s.pc t = .kernelLock k → s.kernel ≠ some t ∧ ¬Holds as t
  /-- A call that fails has written neither `owner` nor `count`. -/
  failed : ∀ t, s.pc t = .lockRet false → s.wrote t = false
  /-- Every step that changes one of them is noted in `wrote`. -/
  noted : ∀ t e s', stepEvent s (t, e) = some s' → s'.owner ≠ s.owner ∨ s'.count ≠ s.count →
    s'.wrote t = true

/-- **The recursive mutex.**  Whatever the order of the steps, the guarantees hold after every
    one of them. -/
theorem recursive_mutex {as : List (Handle × MutexEvent)} {s : RecMutex}
    (h : mutexSystem.Run as s) : MutexGuarantee as s := by
  have hinv := mutexInv_run h
  have hdepth := depth_run h
  have hholds : ∀ t, Holds as t ↔ 0 < s.depth t := by
    intro t
    have hd := hdepth t
    unfold Holds
    omega
  have hkernel : ∀ t, Holds as t → s.kernel = some t := by
    intro t ht
    exact hinv.kernel_of_pc fun hout => absurd hout.1 (Nat.ne_of_gt ((hholds t).mp ht))
  refine ⟨fun t t' ht ht' => ?_, fun t ht hpc => ?_, fun hidle => ?_, fun t => ⟨fun hk => ?_, ?_⟩,
    fun t k hpc => ?_, fun t hpc => ?_, fun t e s' hs => (stepThread_cases hs).wrote⟩
  · exact Option.some.inj ((hkernel t ht).symm.trans (hkernel t' ht'))
  · have hin := hinv.inside (hkernel t ht)
    rw [hpc] at hin
    have hd := hdepth t
    exact ⟨hin.1, by rw [hin.2.1]; omega⟩
  · -- a thread that had the kernel mutex would hold the mutex or be under way
    have hnone : s.kernel = none := by
      cases hk : s.kernel with
      | none => rfl
      | some t =>
        have hin := hinv.inside hk
        rw [(hidle t).2] at hin
        exact absurd ((hholds t).mpr hin.2.2) (hidle t).1
    refine ⟨?_, hinv.free hnone⟩
    rcases hinv.owner with h0 | hk
    · exact h0
    · rw [hnone] at hk
      cases hk
  · have hin := hinv.inside hk
    rw [hholds]
    cases hpc : s.pc t with
    | idle => rw [hpc] at hin; exact Or.inl hin.2.2
    | readOwner k => rw [hpc] at hin; exact Or.inl hin.2.2.1
    | kernelLock k => rw [hpc] at hin; exact hin.elim
    | lockRet st =>
      cases st with
      | true => exact Or.inr (Or.inl rfl)
      | false => rw [hpc] at hin; exact hin.elim
    | setOwner => exact Or.inr (Or.inl rfl)
    | increment => exact Or.inr (Or.inl rfl)
    | decrement => exact Or.inr (Or.inr rfl)
    | testCount => exact Or.inr (Or.inr rfl)
    | clearOwner => exact Or.inr (Or.inr rfl)
    | kernelUnlock => exact Or.inr (Or.inr rfl)
  · rintro (hheld | hacq | hrel)
    · exact hkernel t hheld
    · refine hinv.kernel_of_pc fun hout => ?_
      revert hacq
      have hpcs := hout.2
      revert hpcs
      cases s.pc t <;> simp [MutexPc.acquiring]
      rename_i st
      cases st <;> simp
    · refine hinv.kernel_of_pc fun hout => ?_
      revert hrel
      have hpcs := hout.2
      revert hpcs
      cases s.pc t <;> simp [MutexPc.releasing]
  · have hk : s.kernel ≠ some t := hinv.not_kernel_of_pc (by simp [hpc, Inside])
    refine ⟨hk, fun hheld => hk (hkernel t hheld)⟩
  · exact hinv.quiet t (by rw [hpc]; rfl)

/-- Thread 1 locks twice; thread 2 finds the mutex owned and its trylock fails; thread 1
    unlocks once. -/
def nestedLock : List (Handle × MutexEvent) :=
  [(1, .callLock .lock), (1, .next), (2, .callLock .trylock), (1, .kernelAnswer true),
    (2, .next), (1, .next), (1, .next), (1, .lockRet true), (2, .kernelAnswer false),
    (2, .lockRet false), (1, .callLock .lock), (1, .next), (1, .next), (1, .next),
    (1, .lockRet true), (1, .callUnlock), (1, .next), (1, .next)]

theorem recursive_mutex_nested :
    ∃ s, nestedLock.foldlM stepEvent .init = some s ∧
      Holds nestedLock 1 ∧ s.count = 1 ∧ MutexGuarantee nestedLock s := by
  have hsome : (nestedLock.foldlM stepEvent .init).map
      RecMutex.count = some 1 := by decide +kernel
  obtain ⟨s, hs, hcount⟩ := Option.map_eq_some_iff.mp hsome
  exact ⟨s, hs, by decide, hcount, recursive_mutex (LTS.Run.foldlM (.init rfl) hs)⟩

end Ecos.Ethread
