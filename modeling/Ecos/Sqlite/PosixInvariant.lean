import Ecos.Sqlite.PosixLocks
import Mathlib.Data.Finset.Card

namespace Ecos.Sqlite

open Ecos.Lib

/-!
# The invariant of the POSIX locks

What every step of every process keeps.

* `ProcInv` — the counters of a process against its connections, and against the kernel's locks;
* `ProcInv.put`, `ProcInv.frame` — what a step has to keep, for its own process and for the others;
* `lockOn_inv` to `exit_inv` — the steps;
* `posixInv_run` — every orderly run keeps the invariant.

The condition on the runs, `Orderly`, leaves out four failures after which the connections of a
process go on without the kernel's locks, or with a lock type that is not theirs: `F_UNLCK` on the
whole file fails, a deferred `close` fails, `unixClose` gets no memory and closes a descriptor that
it should leak, or an open fails beside other connections of the process and closes its descriptor.
-/

variable {s s' : PosixState} {p q c d : Nat} {f f' : PosixFile} {P P' : PosixProc}
  {T T' : LockTable Nat LockRange} {O O' H H' : Finset Nat}

/-- The connection whose lock is already gone, while its call goes on. -/
def PosixPc.released : PosixPc → Option Nat
  | .unlockAll c => some c
  | .closePending c _ _ => some c
  | _ => none

/-- Between the two counters of `unixUnlock`, by how much they differ. -/
def PosixPc.counting : PosixPc → Nat
  | .unlockAll _ => 1
  | _ => 0

/-! ### The invariant -/

/-- The counters of a process: `H` are the connections that were given a lock. -/
structure Counts (P : PosixProc) (H : Finset Nat) : Prop where
  card_le : H.card ≤ P.pLock.cnt
  nLock_eq : P.pOpen.nLock = P.pLock.cnt + P.pc.counting
  no_lock : P.pLock.locktype = .NO_LOCK → P.pLock.cnt = 0
  zero : P.pLock.cnt = 0 → P.pc.counting = 0 → P.pLock.locktype = .NO_LOCK
  exclusive : P.pLock.locktype = .EXCLUSIVE_LOCK → P.pLock.cnt ≤ 1

/-- The kernel's locks that a process needs for the lock type that it believes to have. -/
structure KernelInv (T : LockTable Nat LockRange) (p : Nat) (locktype : LockType) : Prop where
  shared : locktype ≠ .NO_LOCK → ∃ m, T.Holds p .SHARED_RANGE m
  reserved : locktype = .RESERVED_LOCK → T.Holds p .RESERVED_BYTE .write
  pending : LockType.PENDING_LOCK.num ≤ locktype.num → T.Holds p .PENDING_BYTE .write
  exclusive : locktype = .EXCLUSIVE_LOCK → ∀ q ≠ p, ∀ m, ¬T.Holds q .SHARED_RANGE m

/-- What the thread in the mutex knows: `f` is its connection, in the middle of a call. -/
def PcInv (T : LockTable Nat LockRange) (p : Nat) (P : PosixProc) (f : PosixFile) : Prop :=
  match P.pc with
  | .idle => True
  | .lockPending _ locktype =>
    f.locktype = P.pLock.locktype ∧
      (locktype = .SHARED_LOCK ∧ f.locktype = .NO_LOCK ∨
        locktype = .EXCLUSIVE_LOCK ∧ (f.locktype = .SHARED_LOCK ∨ f.locktype = .RESERVED_LOCK))
  | .lockShared _ =>
    f.locktype = P.pLock.locktype ∧ f.locktype = .NO_LOCK ∧ T.Holds p .PENDING_BYTE .read
  | .dropPending _ r =>
    f.locktype = P.pLock.locktype ∧ f.locktype = .NO_LOCK ∧
      (r = true → T.Holds p .SHARED_RANGE .read)
  | .lockFinal _ locktype =>
    f.locktype = P.pLock.locktype ∧
      (locktype = .RESERVED_LOCK ∧ f.locktype = .SHARED_LOCK ∨
        locktype = .EXCLUSIVE_LOCK ∧ f.locktype ≠ .NO_LOCK ∧ P.pLock.cnt ≤ 1 ∧
          T.Holds p .PENDING_BYTE .write)
  | .unlockRead _ => LockType.SHARED_LOCK.num < f.locktype.num
  | .unlockBytes _ locktype =>
    LockType.SHARED_LOCK.num < f.locktype.num ∧
      (locktype = .NO_LOCK ∨ locktype = .SHARED_LOCK)
  | .unlockAll _ => P.pLock.cnt = 0
  | .closePending _ _ rc => P.pLock.locktype = .NO_LOCK ∧ rc = true

/-- The connection of the thread in the mutex, if it is in one. -/
def PosixPc.conn : PosixPc → Option Nat
  | .idle => none
  | .lockPending c _ => some c
  | .lockShared c => some c
  | .dropPending c _ => some c
  | .lockFinal c _ => some c
  | .unlockRead c => some c
  | .unlockBytes c _ => some c
  | .unlockAll c => some c
  | .closePending c _ _ => some c

/-- **The invariant of a process.**  `O` are its connections, and `H` are those that were given a
    lock, with some that are gone. -/
structure ProcInv (s : PosixState) (p : Nat) (O H : Finset Nat) : Prop where
  opened : ∀ c, c ∈ O ↔ ∃ f, s.files c = some f ∧ f.pid = p
  nRef_lock : (s.procs p).pLock.nRef = O.card
  nRef_open : (s.procs p).pOpen.nRef = O.card
  absent : O = ∅ → (s.procs p).pLock.locktype = .NO_LOCK
  counts : Counts (s.procs p) H
  kernel : KernelInv s.locks p (s.procs p).pLock.locktype
  locked : ∀ c f, s.files c = some f → f.pid = p → f.locktype ≠ .NO_LOCK →
    (s.procs p).pc.released ≠ some c → c ∈ H
  strong : ∀ c f, s.files c = some f → f.pid = p → LockType.SHARED_LOCK.num < f.locktype.num →
    (s.procs p).pc.released ≠ some c → f.locktype = (s.procs p).pLock.locktype
  unique : ∀ c f d g, s.files c = some f → s.files d = some g → f.pid = p → g.pid = p →
    LockType.SHARED_LOCK.num < f.locktype.num → LockType.SHARED_LOCK.num < g.locktype.num → c = d
  pc : ∀ c, (s.procs p).pc.conn = some c → ∃ f, s.files c = some f ∧ f.pid = p ∧
    PcInv s.locks p (s.procs p) f

/-- The invariant of all processes, each with its connections and those of them that were given a
    lock. -/
def PosixInv (s : PosixState) : Prop := ∃ O H : Nat → Finset Nat, ∀ p, ProcInv s p (O p) (H p)

/-! ### What a step has to keep -/

/-- The locks that a process needs are still there when no lock of it was taken away, and nobody
    else got a lock on the shared bytes that it excludes. -/
theorem KernelInv.of_holds {locktype : LockType} (h : KernelInv T p locktype)
    (hlocks : ∀ x m, T.Holds p x m → T'.Holds p x m)
    (hshared : locktype = .EXCLUSIVE_LOCK → ∀ q ≠ p, ∀ m, ¬T'.Holds q .SHARED_RANGE m) :
    KernelInv T' p locktype where
  shared hl := by
    obtain ⟨m, hm⟩ := h.shared hl
    exact ⟨m, hlocks _ _ hm⟩
  reserved hl := hlocks _ _ (h.reserved hl)
  pending hl := hlocks _ _ (h.pending hl)
  exclusive := hshared

/-- What the thread in the mutex knows is still true when no lock of its process was taken away. -/
theorem PcInv.of_holds (h : PcInv T p P f) (hlocks : ∀ x m, T.Holds p x m → T'.Holds p x m) :
    PcInv T' p P f := by
  unfold PcInv at h ⊢
  split at h
  · trivial
  · exact h
  · exact ⟨h.1, h.2.1, hlocks _ _ h.2.2⟩
  · exact ⟨h.1, h.2.1, fun hr => hlocks _ _ (h.2.2 hr)⟩
  · refine ⟨h.1, h.2.imp id ?_⟩
    exact fun h => ⟨h.1, h.2.1, h.2.2.1, hlocks _ _ h.2.2.2⟩
  · exact h
  · exact h
  · exact h
  · exact h

/-- **Frame.**  A step of another process leaves what this one relies on. -/
theorem ProcInv.frame (h : ProcInv s q O H) (hprocs : s'.procs q = s.procs q)
    (hfiles : ∀ c f, f.pid = q → (s'.files c = some f ↔ s.files c = some f))
    (hlocks : ∀ x m, s.locks.Holds q x m → s'.locks.Holds q x m)
    (hshared : (s.procs q).pLock.locktype = .EXCLUSIVE_LOCK →
      ∀ r ≠ q, ∀ m, ¬s'.locks.Holds r .SHARED_RANGE m) : ProcInv s' q O H where
  opened c := by
    rw [h.opened]
    exact exists_congr fun f => and_congr_left fun hp => (hfiles c f hp).symm
  nRef_lock := by rw [hprocs]; exact h.nRef_lock
  nRef_open := by rw [hprocs]; exact h.nRef_open
  absent := by rw [hprocs]; exact h.absent
  counts := by rw [hprocs]; exact h.counts
  kernel := by
    rw [hprocs]
    exact h.kernel.of_holds hlocks hshared
  locked c f hf hp := by
    rw [hprocs]
    exact h.locked c f ((hfiles c f hp).mp hf) hp
  strong c f hf hp := by
    rw [hprocs]
    exact h.strong c f ((hfiles c f hp).mp hf) hp
  unique c f d g hf hg hp hq :=
    h.unique c f d g ((hfiles c f hp).mp hf) ((hfiles d g hq).mp hg) hp hq
  pc c hc := by
    rw [hprocs] at hc ⊢
    obtain ⟨f, hf, hp, hpc⟩ := h.pc c hc
    exact ⟨f, (hfiles c f hp).mpr hf, hp, hpc.of_holds hlocks⟩

/-- The other connections of the process have at most a shared lock. -/
def OthersWeak (s : PosixState) (p c : Nat) : Prop :=
  ∀ d g, d ≠ c → s.files d = some g → g.pid = p → g.locktype.num ≤ LockType.SHARED_LOCK.num

/-- A connection whose lock type is that of the process is the strongest one. -/
theorem ProcInv.others_weak (h : ProcInv s p O H) (hf : s.files c = some f) (hp : f.pid = p)
    (hlock : f.locktype = (s.procs p).pLock.locktype)
    (hcalm : ∀ d, (s.procs p).pc.released = some d → d = c) : OthersWeak s p c := by
  intro d g hd hg hgp
  by_contra hstrong
  have hlt : LockType.SHARED_LOCK.num < g.locktype.num := Nat.lt_of_not_le hstrong
  have hgl := h.strong d g hg hgp hlt fun hr => hd (hcalm d hr)
  have hfl : LockType.SHARED_LOCK.num < f.locktype.num := by rw [hlock, ← hgl]; exact hlt
  exact hd (h.unique d g c f hg hf hgp hp hlt hfl)

/-- **One connection and its process change.**  What the change has to keep, gathered for the steps
    below. -/
structure Change (s : PosixState) (p c : Nat) (f : PosixFile) (H : Finset Nat)
    (T' : LockTable Nat LockRange) (f' : PosixFile) (P' : PosixProc) (H' : Finset Nat) : Prop where
  pid_eq : f'.pid = p
  nRef_lock : P'.pLock.nRef = (s.procs p).pLock.nRef
  nRef_open : P'.pOpen.nRef = (s.procs p).pOpen.nRef
  calm : ∀ d, (s.procs p).pc.released = some d → d = c
  calm' : ∀ d, P'.pc.released = some d → d = c
  counts : Counts P' H'
  kernel : KernelInv T' p P'.pLock.locktype
  others : ∀ d ∈ H, d ≠ c → d ∈ H'
  locked : f'.locktype ≠ .NO_LOCK → P'.pc.released ≠ some c → c ∈ H'
  strong : LockType.SHARED_LOCK.num < f'.locktype.num → P'.pc.released ≠ some c →
    f'.locktype = P'.pLock.locktype
  weak : (P'.pLock.locktype = (s.procs p).pLock.locktype ∧ (f'.locktype = f.locktype ∨
    f'.locktype.num ≤ LockType.SHARED_LOCK.num)) ∨ OthersWeak s p c
  pc : ∀ d, P'.pc.conn = some d → d = c ∧ PcInv T' p P' f'

/-- The process of the connection that changes keeps its invariant, by the parts of `Change`. -/
theorem ProcInv.put (h : ProcInv s p O H) (hf : s.files c = some f) (hp : f.pid = p)
    (hc : Change s p c f H T' f' P' H') :
    ProcInv ({ s with locks := T' }.put c f' P') p O H' := by
  have hprocs : ({ s with locks := T' }.put c f' P').procs p = P' := by
    show Function.update s.procs f'.pid P' p = P'
    rw [hc.pid_eq, Function.update_self]
  have hself : ({ s with locks := T' }.put c f' P').files c = some f' := Function.update_self ..
  have hother : ∀ d, d ≠ c → ({ s with locks := T' }.put c f' P').files d = s.files d :=
    fun d hd => Function.update_of_ne hd ..
  have hmem : c ∈ O := (h.opened c).mpr ⟨f, hf, hp⟩
  constructor
  · intro d
    rw [h.opened]
    rcases eq_or_ne d c with rfl | hd
    · rw [hself, hf]
      simp [hp, hc.pid_eq]
    · rw [hother d hd]
  · rw [hprocs, hc.nRef_lock]
    exact h.nRef_lock
  · rw [hprocs, hc.nRef_open]
    exact h.nRef_open
  · rintro rfl
    cases hmem
  · rw [hprocs]
    exact hc.counts
  · rw [hprocs]
    exact hc.kernel
  · intro d g hg hgp hlock hrel
    rw [hprocs] at hrel
    rcases eq_or_ne d c with rfl | hd
    · cases hself.symm.trans hg
      exact hc.locked hlock hrel
    · rw [hother d hd] at hg
      exact hc.others d (h.locked d g hg hgp hlock fun hr => hd (hc.calm d hr)) hd
  · intro d g hg hgp hlt hrel
    rw [hprocs] at hrel ⊢
    rcases eq_or_ne d c with rfl | hd
    · cases hself.symm.trans hg
      exact hc.strong hlt hrel
    · rw [hother d hd] at hg
      rcases hc.weak with ⟨heq, -⟩ | hweak
      · rw [heq]
        exact h.strong d g hg hgp hlt fun hr => hd (hc.calm d hr)
      · exact absurd hlt (Nat.not_lt.mpr (hweak d g hd hg hgp))
  · -- two strong connections: both are old ones, or one is `c`
    have hpair : ∀ d g, d ≠ c → s.files d = some g → g.pid = p →
        LockType.SHARED_LOCK.num < g.locktype.num → f'.locktype.num ≤ LockType.SHARED_LOCK.num := by
      intro d g hd hg hgp hlt
      rcases hc.weak with ⟨-, heq | hle⟩ | hweak
      · rw [heq]
        by_contra hstrong
        exact hd (h.unique d g c f hg hf hgp hp hlt (Nat.lt_of_not_le hstrong))
      · exact hle
      · exact absurd hlt (Nat.not_lt.mpr (hweak d g hd hg hgp))
    intro a fa b fb hfa hfb hpa hpb hlta hltb
    rcases eq_or_ne a c with rfl | ha
    · rcases eq_or_ne b a with rfl | hb
      · rfl
      · cases hself.symm.trans hfa
        rw [hother b hb] at hfb
        exact absurd hlta (Nat.not_lt.mpr (hpair b fb hb hfb hpb hltb))
    · rcases eq_or_ne b c with rfl | hb
      · cases hself.symm.trans hfb
        rw [hother a ha] at hfa
        exact absurd hltb (Nat.not_lt.mpr (hpair a fa ha hfa hpa hlta))
      · rw [hother a ha] at hfa
        rw [hother b hb] at hfb
        exact h.unique a fa b fb hfa hfb hpa hpb hlta hltb
  · intro d hd
    rw [hprocs] at hd ⊢
    obtain ⟨rfl, hpc⟩ := hc.pc d hd
    exact ⟨f', hself, hc.pid_eq, hpc⟩

/-- The step of one process, for all of them: its own part by the change, the others by the
    frame. -/
theorem PosixInv.put {O H : Nat → Finset Nat} (h : ∀ q, ProcInv s q (O q) (H q))
    (hf : s.files c = some f) (hp : f.pid = p) (hc : Change s p c f (H p) T' f' P' H')
    (hlocks : ∀ q ≠ p, ∀ x m, T'.Holds q x m ↔ s.locks.Holds q x m)
    (hshared : ∀ q ≠ p, (s.procs q).pLock.locktype = .EXCLUSIVE_LOCK →
      ∀ m, ¬T'.Holds p .SHARED_RANGE m) :
    PosixInv ({ s with locks := T' }.put c f' P') := by
  refine ⟨O, Function.update H p H', fun q => ?_⟩
  rcases eq_or_ne q p with rfl | hq
  · rw [Function.update_self]
    exact (h q).put hf hp hc
  · rw [Function.update_of_ne hq]
    refine (h q).frame ?_ ?_ (fun x m => (hlocks q hq x m).mpr) ?_
    · show Function.update s.procs f'.pid P' q = _
      rw [hc.pid_eq, Function.update_of_ne hq]
    · intro d g hg
      show Function.update s.files c (some f') d = some g ↔ _
      rcases eq_or_ne d c with rfl | hd
      · rw [Function.update_self, hf]
        constructor
        · rintro ⟨⟩
          exact absurd (hg.symm.trans hc.pid_eq) hq
        · rintro ⟨⟩
          exact absurd (hg.symm.trans hp) hq
      · rw [Function.update_of_ne hd]
    · intro hex r hr m hm
      rcases eq_or_ne r p with rfl | hrp
      · exact hshared q hq hex m hm
      · exact (h q).kernel.exclusive hex r hr m ((hlocks r hrp _ _).mp hm)

/-! ### `unixLock` -/

/-- A process without a lock needs nothing from the kernel. -/
theorem KernelInv.no_lock : KernelInv T p .NO_LOCK where
  shared h := absurd rfl h
  reserved := by rintro ⟨⟩
  pending h := absurd h (by decide)
  exclusive := by rintro ⟨⟩

/-- `NO_LOCK` is the lowest of the lock types, and the only one with its number. -/
theorem num_eq_zero {l : LockType} : l.num = 0 ↔ l = .NO_LOCK := by
  cases l <;> decide

/-- A type above `SHARED_LOCK` is a lock. -/
theorem ne_no_lock_of_lt {l : LockType} (h : LockType.SHARED_LOCK.num < l.num) : l ≠ .NO_LOCK := by
  rintro rfl
  exact Nat.not_lt_zero _ h

/-- A connection with a lock was given one, and is counted. -/
theorem ProcInv.mem_of_lock (h : ProcInv s p O H) (hf : s.files c = some f) (hp : f.pid = p)
    (hrel : (s.procs p).pc.released = none) (hlock : f.locktype ≠ .NO_LOCK) : c ∈ H :=
  h.locked c f hf hp hlock (by rw [hrel]; rintro ⟨⟩)

/-- Without a lock counted, nobody was given one. -/
theorem Counts.eq_empty (h : Counts P H) (hcnt : P.pLock.cnt = 0) : H = ∅ := by
  have hcard := h.card_le
  rw [hcnt] at hcard
  exact Finset.card_eq_zero.mp (Nat.le_zero.mp hcard)

/-- Only the place in the code, and the kernel's locks, change; connection and counters stay. -/
theorem ProcInv.change_pc (h : ProcInv s p O H) (hf : s.files c = some f) (hp : f.pid = p)
    {pc : PosixPc} (hrel : (s.procs p).pc.released = none) (hrel' : pc.released = none)
    (hcount : (s.procs p).pc.counting = 0) (hcount' : pc.counting = 0)
    (hkernel : KernelInv T' p (s.procs p).pLock.locktype)
    (hpc : ∀ d, pc.conn = some d → d = c ∧ PcInv T' p { s.procs p with pc } f) :
    Change s p c f H T' f { s.procs p with pc } H where
  pid_eq := hp
  nRef_lock := rfl
  nRef_open := rfl
  calm d hd := by rw [hrel] at hd; cases hd
  calm' d hd := by rw [show PosixProc.pc { s.procs p with pc } = pc from rfl, hrel'] at hd; cases hd
  counts := by
    obtain ⟨hcard, hnLock, hno, hzero, hex⟩ := h.counts
    refine ⟨hcard, ?_, hno, fun hz _ => hzero hz hcount, hex⟩
    show _ = _ + pc.counting
    rw [hcount', hnLock, hcount]
  kernel := hkernel
  others d hd _ := hd
  locked hlock _ := h.mem_of_lock hf hp hrel hlock
  strong hlt _ := h.strong c f hf hp hlt (by rw [hrel]; rintro ⟨⟩)
  weak := .inl ⟨rfl, .inl rfl⟩
  pc := hpc

/-- The result of `unixLock`: the lock type of the connection and of the process. -/
theorem ProcInv.change_lock (h : ProcInv s p O H) (hf : s.files c = some f) (hp : f.pid = p)
    (hrel : (s.procs p).pc.released = none) (hlock : f.locktype = (s.procs p).pLock.locktype)
    {locktype : LockType} (hne : locktype ≠ .NO_LOCK) {cnt nLock : Nat} (hpos : cnt ≠ 0)
    (hcnt : H'.card ≤ cnt) (hnLock : nLock = cnt)
    (hex : locktype = .EXCLUSIVE_LOCK → cnt ≤ 1) (hothers : ∀ d ∈ H, d ≠ c → d ∈ H')
    (hmem : c ∈ H') (hkernel : KernelInv T' p locktype) :
    Change s p c f H T' { f with locktype }
      ⟨{ (s.procs p).pLock with cnt, locktype }, { (s.procs p).pOpen with nLock }, .idle⟩ H' where
  pid_eq := hp
  nRef_lock := rfl
  nRef_open := rfl
  calm d hd := by rw [hrel] at hd; cases hd
  calm' d hd := by cases hd
  counts := ⟨hcnt, hnLock, fun hno => absurd hno hne, fun hz => absurd hz hpos, hex⟩
  kernel := hkernel
  others := hothers
  locked _ _ := hmem
  strong _ _ := rfl
  weak := .inr (h.others_weak hf hp hlock fun d hd => by rw [hrel] at hd; cases hd)
  pc d hd := by cases hd

section Calls

variable {O H : Nat → Finset Nat} (h : ∀ q, ProcInv s q (O q) (H q)) (hf : s.files c = some f)

include h hf

/-- The process of the connection gets no lock on the shared bytes that it did not have. -/
theorem PosixInv.put_old {K : Finset Nat} (hc : Change s f.pid c f (H f.pid) T' f' P' K)
    (hlocks : ∀ q ≠ f.pid, ∀ x m, T'.Holds q x m ↔ s.locks.Holds q x m)
    (hshared : ∀ m, T'.Holds f.pid .SHARED_RANGE m → ∃ m', s.locks.Holds f.pid .SHARED_RANGE m') :
    PosixInv ({ s with locks := T' }.put c f' P') := by
  refine PosixInv.put h hf rfl hc hlocks fun q hq hex m hm => ?_
  obtain ⟨m', hm'⟩ := hshared m hm
  exact (h q).kernel.exclusive hex f.pid hq.symm m' hm'

/-- Nothing changes in the kernel, so that the other processes are not concerned. -/
theorem PosixInv.put_same {g : PosixFile} {K : Finset Nat}
    (hc : Change s f.pid c f (H f.pid) s.locks g P' K) : PosixInv (s.put c g P') :=
  PosixInv.put_old h hf hc (fun _ _ _ _ => Iff.rfl) fun m hm => ⟨m, hm⟩

/-- `unixLock` behind the lock on the pending byte, which is held if it is needed. -/
theorem lockOn_inv {locktype : LockType} (hrel : (s.procs f.pid).pc.released = none)
    (hcount : (s.procs f.pid).pc.counting = 0)
    (hlock : f.locktype = (s.procs f.pid).pLock.locktype)
    (hlocks : ∀ q ≠ f.pid, ∀ x m, T'.Holds q x m ↔ s.locks.Holds q x m)
    (hshared : ∀ m, T'.Holds f.pid .SHARED_RANGE m ↔ s.locks.Holds f.pid .SHARED_RANGE m)
    (hkernel : KernelInv T' f.pid (s.procs f.pid).pLock.locktype)
    (hcase : locktype = .SHARED_LOCK ∧ f.locktype = .NO_LOCK ∧ T'.Holds f.pid .PENDING_BYTE .read ∨
      locktype = .RESERVED_LOCK ∧ f.locktype = .SHARED_LOCK ∨
      locktype = .EXCLUSIVE_LOCK ∧ f.locktype ≠ .NO_LOCK ∧ T'.Holds f.pid .PENDING_BYTE .write) :
    PosixInv (lockOn { s with locks := T' } c f (s.procs f.pid) locktype).2 := by
  have hold : ∀ m, T'.Holds f.pid .SHARED_RANGE m →
      ∃ m', s.locks.Holds f.pid .SHARED_RANGE m' := fun m hm => ⟨m, (hshared m).mp hm⟩
  have hcounts := (h f.pid).counts
  unfold lockOn
  split
  · next hs =>
    obtain ⟨hno, hpending⟩ : f.locktype = .NO_LOCK ∧ T'.Holds f.pid .PENDING_BYTE .read := by
      rcases hcase with hcase | hcase | hcase
      · exact hcase.2
      · cases hs.symm.trans hcase.1
      · cases hs.symm.trans hcase.1
    refine PosixInv.put_old h hf ((h f.pid).change_pc hf rfl hrel rfl hcount rfl hkernel ?_)
      hlocks hold
    rintro d ⟨⟩
    exact ⟨rfl, hlock, hno, hpending⟩
  split
  · -- another connection of the process has a shared lock
    next hs hex =>
    obtain ⟨rfl, hcnt⟩ := hex
    obtain ⟨hne, hpending⟩ : f.locktype ≠ .NO_LOCK ∧ T'.Holds f.pid .PENDING_BYTE .write := by
      rcases hcase with hcase | hcase | hcase
      · cases hcase.1
      · cases hcase.1
      · exact hcase.2
    refine PosixInv.put_old h hf ((h f.pid).change_lock hf rfl hrel hlock (by rintro ⟨⟩)
      (by omega) hcounts.card_le ?_ (by rintro ⟨⟩) (fun d hd _ => hd)
      ((h f.pid).mem_of_lock hf rfl hrel hne) ?_) hlocks hold
    · rw [hcounts.nLock_eq, hcount, Nat.add_zero]
    · exact ⟨fun _ => hkernel.shared (hlock ▸ hne), by rintro ⟨⟩, fun _ => hpending, by rintro ⟨⟩⟩
  · next hs hex =>
    refine PosixInv.put_old h hf ((h f.pid).change_pc hf rfl hrel rfl hcount rfl hkernel ?_)
      hlocks hold
    rintro d ⟨⟩
    refine ⟨rfl, hlock, ?_⟩
    rcases hcase with hcase | hcase | hcase
    · exact absurd hcase.1 hs
    · exact .inl hcase
    · refine .inr ⟨hcase.1, hcase.2.1, ?_, hcase.2.2⟩
      exact Nat.le_of_not_lt fun hlt => hex ⟨hcase.1, hlt⟩

/-- `unixLock`, up to the first system call, keeps the invariant. -/
theorem unixLock_inv {locktype : LockType} (hpc : (s.procs f.pid).pc = .idle)
    (hargs : (f.locktype ≠ .NO_LOCK ∨ locktype = .SHARED_LOCK) ∧ locktype ≠ .PENDING_LOCK ∧
      (locktype ≠ .RESERVED_LOCK ∨ f.locktype = .SHARED_LOCK) ∨
      locktype.num ≤ f.locktype.num) :
    PosixInv (unixLock s c f (s.procs f.pid) locktype).2 := by
  have hrel : (s.procs f.pid).pc.released = none := by rw [hpc]; rfl
  have hcount : (s.procs f.pid).pc.counting = 0 := by rw [hpc]; rfl
  have hcounts := (h f.pid).counts
  have hkernel := (h f.pid).kernel
  unfold unixLock
  split
  · exact ⟨O, H, h⟩
  next hle =>
  replace hargs := hargs.resolve_right hle
  split
  · exact ⟨O, H, h⟩
  next hbusy =>
  split
  · -- another connection of the process has the lock already
    next hfast =>
    obtain ⟨rfl, hl⟩ := hfast
    have hno : f.locktype = .NO_LOCK := by
      rw [← num_eq_zero]
      exact Nat.lt_one_iff.mp (Nat.lt_of_not_le hle)
    have hlne : (s.procs f.pid).pLock.locktype ≠ .NO_LOCK := by
      rcases hl with hl | hl <;> rw [hl] <;> rintro ⟨⟩
    refine PosixInv.put_same h hf (K := insert c (H f.pid)) ?_
    refine ⟨rfl, rfl, rfl, fun d hd => ?_, fun d hd => ?_,
      ⟨?_, ?_, fun hl' => absurd hl' hlne, ?_, ?_⟩, hkernel,
      fun d hd _ => Finset.mem_insert_of_mem hd, fun _ _ => Finset.mem_insert_self .., ?_,
      .inl ⟨rfl, .inr (Nat.le_refl _)⟩, fun d hd => ?_⟩
    · rw [hrel] at hd
      cases hd
    · rw [hpc] at hd
      cases hd
    · exact Nat.le_trans (Finset.card_insert_le ..) (Nat.succ_le_succ hcounts.card_le)
    · show _ + 1 = _ + 1 + _
      rw [hcounts.nLock_eq, hcount]
    · rintro ⟨⟩
    · show (s.procs f.pid).pLock.locktype = .EXCLUSIVE_LOCK → _
      rcases hl with hl | hl <;> rw [hl] <;> rintro ⟨⟩
    · intro hlt
      exact absurd hlt (Nat.lt_irrefl _)
    · rw [hpc] at hd
      cases hd
  next hslow =>
  -- the lock type of the connection is that of its process
  have hlock : f.locktype = (s.procs f.pid).pLock.locktype := by
    by_contra hne
    have hweak := not_or.mp fun hor => hbusy ⟨hne, hor⟩
    have hl : (s.procs f.pid).pLock.locktype.num < 3 := Nat.lt_of_not_le hweak.1
    have ht : locktype.num ≤ 1 := Nat.le_of_not_lt hweak.2
    rcases hargs with ⟨hne' | rfl, -⟩
    · have hpos : f.locktype.num ≠ 0 := fun h0 => hne' (num_eq_zero.mp h0)
      omega
    · have hno : f.locktype = .NO_LOCK := by
        rw [← num_eq_zero]
        exact Nat.lt_one_iff.mp (Nat.lt_of_not_le hle)
      rw [hno] at hne
      cases hll : (s.procs f.pid).pLock.locktype with
      | NO_LOCK => exact hne hll.symm
      | SHARED_LOCK => exact hslow ⟨rfl, .inl hll⟩
      | RESERVED_LOCK => exact hslow ⟨rfl, .inr hll⟩
      | PENDING_LOCK => rw [hll] at hl; exact absurd hl (by decide)
      | EXCLUSIVE_LOCK => rw [hll] at hl; exact absurd hl (by decide)
  split
  · next hpending =>
    refine PosixInv.put_same h hf ((h f.pid).change_pc hf rfl hrel rfl hcount rfl hkernel ?_)
    rintro d ⟨⟩
    refine ⟨rfl, hlock, ?_⟩
    rcases hpending with rfl | ⟨rfl, hlt⟩
    · refine .inl ⟨rfl, ?_⟩
      rw [← num_eq_zero]
      exact Nat.lt_one_iff.mp (Nat.lt_of_not_le hle)
    · refine .inr ⟨rfl, ?_⟩
      rcases hargs with ⟨hne | heq, -⟩
      · cases hl : f.locktype with
        | NO_LOCK => exact absurd hl hne
        | SHARED_LOCK => exact .inl rfl
        | RESERVED_LOCK => exact .inr rfl
        | PENDING_LOCK => rw [hl] at hlt; exact absurd hlt (by decide)
        | EXCLUSIVE_LOCK => rw [hl] at hlt; exact absurd hlt (by decide)
      · cases heq
  · next hpending =>
    have hns : locktype ≠ .SHARED_LOCK := fun heq => hpending (.inl heq)
    refine lockOn_inv h hf hrel hcount hlock (fun _ _ _ _ => Iff.rfl) (fun _ => Iff.rfl) hkernel ?_
    obtain ⟨hne, hnp, hres⟩ := hargs
    replace hne := hne.resolve_right hns
    cases locktype with
    | NO_LOCK => exact absurd (Nat.zero_le _) hle
    | SHARED_LOCK => exact absurd rfl hns
    | RESERVED_LOCK => exact .inr (.inl ⟨rfl, hres.resolve_left fun hneq => hneq rfl⟩)
    | PENDING_LOCK => exact absurd rfl hnp
    | EXCLUSIVE_LOCK =>
      have hge : LockType.PENDING_LOCK.num ≤ f.locktype.num :=
        Nat.le_of_not_lt fun hlt => hpending (.inr ⟨rfl, hlt⟩)
      exact .inr (.inr ⟨rfl, hne, hkernel.pending (hlock ▸ hge)⟩)

/-! ### The system calls of `unixLock` -/

omit h hf in
/-- What a lock on other bytes leaves of the kernel's locks is all that the process needs. -/
theorem KernelInv.set_notMem {locktype : LockType} (hk : KernelInv s.locks p locktype)
    {xs : List LockRange} {m : LockMode} (hset : s.locks.set p xs m = some T')
    (hshared : LockRange.SHARED_RANGE ∉ xs) (hreserved : LockRange.RESERVED_BYTE ∉ xs)
    (hpending : LockRange.PENDING_BYTE ∉ xs ∨ locktype.num < LockType.PENDING_LOCK.num) :
    KernelInv T' p locktype where
  shared hl := by
    obtain ⟨m', hm'⟩ := hk.shared hl
    exact ⟨m', (LockTable.holds_set_of_notMem hset hshared).mpr hm'⟩
  reserved hl := (LockTable.holds_set_of_notMem hset hreserved).mpr (hk.reserved hl)
  pending hl := by
    have hnot := hpending.resolve_right (Nat.not_lt.mpr hl)
    exact (LockTable.holds_set_of_notMem hset hnot).mpr (hk.pending hl)
  exclusive hl q hq m' hm' := hk.exclusive hl q hq m' ((LockTable.holds_set_of_ne hset hq).mp hm')

/-- The lock on the pending byte was granted, and the call goes on behind it. -/
theorem lockPending_inv {locktype : LockType} (hpc : (s.procs f.pid).pc = .lockPending c locktype)
    (hinv : PcInv s.locks f.pid (s.procs f.pid) f)
    (hset : s.locks.set f.pid [.PENDING_BYTE]
      (if locktype = .SHARED_LOCK then .read else .write) = some T') :
    PosixInv (lockOn { s with locks := T' } c f (s.procs f.pid) locktype).2 := by
  rw [PcInv, hpc] at hinv
  obtain ⟨hlock, hcase⟩ := hinv
  have hrel : (s.procs f.pid).pc.released = none := by rw [hpc]; rfl
  have hcount : (s.procs f.pid).pc.counting = 0 := by rw [hpc]; rfl
  have hself := LockTable.set_self hset (List.mem_singleton_self _)
  refine lockOn_inv h hf hrel hcount hlock (fun q hq _ _ => LockTable.holds_set_of_ne hset hq)
    (fun m => LockTable.holds_set_of_notMem hset (by decide))
    ((h f.pid).kernel.set_notMem hset (by decide) (by decide) (.inr ?_)) ?_
  · rw [← hlock]
    rcases hcase with ⟨-, hl⟩ | ⟨-, hl | hl⟩ <;> rw [hl] <;> decide
  · rcases hcase with ⟨rfl, hl⟩ | ⟨rfl, hl⟩
    · exact .inl ⟨rfl, hl, hself⟩
    · refine .inr (.inr ⟨rfl, ?_, hself⟩)
      rcases hl with hl | hl <;> rw [hl] <;> rintro ⟨⟩

/-- A call that ends without having done anything leaves the invariant. -/
theorem giveUp_inv (hrel : (s.procs f.pid).pc.released = none)
    (hcount : (s.procs f.pid).pc.counting = 0) :
    PosixInv (s.put c f { s.procs f.pid with pc := .idle }) :=
  PosixInv.put_same h hf ((h f.pid).change_pc hf rfl hrel rfl hcount rfl (h f.pid).kernel
    (by rintro d ⟨⟩))

/-- The lock on the shared bytes was granted, and with it one for the connection. -/
theorem lockShared_inv (hpc : (s.procs f.pid).pc = .lockShared c)
    (hinv : PcInv s.locks f.pid (s.procs f.pid) f)
    (hset : s.locks.set f.pid [.SHARED_RANGE] .read = some T') :
    PosixInv ({ s with locks := T' }.put c f { s.procs f.pid with pc := .dropPending c true }) := by
  rw [PcInv, hpc] at hinv
  obtain ⟨hlock, hno, hpending⟩ := hinv
  have hrel : (s.procs f.pid).pc.released = none := by rw [hpc]; rfl
  have hcount : (s.procs f.pid).pc.counting = 0 := by rw [hpc]; rfl
  refine PosixInv.put h hf rfl ((h f.pid).change_pc hf rfl hrel rfl hcount rfl ?_ ?_)
    (fun q hq _ _ => LockTable.holds_set_of_ne hset hq) fun q hq hex _ _ => ?_
  · rw [← hlock, hno]
    exact .no_lock
  · rintro d ⟨⟩
    exact ⟨rfl, hlock, hno, fun _ => LockTable.set_self hset (List.mem_singleton_self _)⟩
  · -- an exclusive lock comes with a lock on the pending byte
    have hwrite := (h q).kernel.pending (by rw [hex]; decide)
    exact hq (hwrite.unique hpending)

/-- The lock on the shared bytes was refused, and the connection has none. -/
theorem lockShared_failed_inv (hpc : (s.procs f.pid).pc = .lockShared c)
    (hinv : PcInv s.locks f.pid (s.procs f.pid) f) :
    PosixInv (s.put c f { s.procs f.pid with pc := .dropPending c false }) := by
  rw [PcInv, hpc] at hinv
  have hrel : (s.procs f.pid).pc.released = none := by rw [hpc]; rfl
  have hcount : (s.procs f.pid).pc.counting = 0 := by rw [hpc]; rfl
  refine PosixInv.put_same h hf ((h f.pid).change_pc hf rfl hrel rfl hcount rfl
    (h f.pid).kernel ?_)
  rintro d ⟨⟩
  exact ⟨rfl, hinv.1, hinv.2.1, by rintro ⟨⟩⟩

/-- The lock on the pending byte is given back, and a connection that has the shared bytes has its
    `SHARED_LOCK`. -/
theorem dropPending_inv {r : Bool} (hpc : (s.procs f.pid).pc = .dropPending c r)
    (hinv : PcInv s.locks f.pid (s.procs f.pid) f) (ok : Bool)
    (hT : T' = if ok then s.locks.unset f.pid [.PENDING_BYTE] else s.locks) :
    PosixInv ({ s with locks := T' }.put c f { s.procs f.pid with pc := .idle }) ∧
    (r = true → PosixInv (lockEnd { s with locks := T' } c f
      { s.procs f.pid with
        pLock.cnt := 1
        pOpen.nLock := (s.procs f.pid).pOpen.nLock + 1 } .SHARED_LOCK .OK).2) := by
  rw [PcInv, hpc] at hinv
  obtain ⟨hlock, hno, hread⟩ := hinv
  have hrel : (s.procs f.pid).pc.released = none := by rw [hpc]; rfl
  have hcount : (s.procs f.pid).pc.counting = 0 := by rw [hpc]; rfl
  have hcounts := (h f.pid).counts
  have hcnt := hcounts.no_lock (hlock.symm.trans hno)
  -- the pending byte of the process alone is given back
  have hlocks : ∀ q x m, (q ≠ f.pid ∨ x = .SHARED_RANGE) →
      (T'.Holds q x m ↔ s.locks.Holds q x m) := by
    intro q x m hqx
    subst hT
    cases ok with
    | false => exact Iff.rfl
    | true =>
      refine LockTable.holds_unset.trans ⟨And.left, fun hm => ⟨hm, ?_⟩⟩
      rintro ⟨rfl, hx⟩
      rcases hqx with hq | rfl
      · exact hq rfl
      · exact absurd hx (by decide)
  have hold : ∀ m, T'.Holds f.pid .SHARED_RANGE m →
      ∃ m', s.locks.Holds f.pid .SHARED_RANGE m' :=
    fun m hm => ⟨m, (hlocks _ _ m (.inr rfl)).mp hm⟩
  constructor
  -- the lock was refused: the connection has none, as before
  · refine PosixInv.put_old h hf ((h f.pid).change_pc hf rfl hrel rfl hcount rfl ?_
      (by rintro d ⟨⟩)) (fun q hq x m => hlocks q x m (.inl hq)) hold
    rw [← hlock, hno]
    exact .no_lock
  · intro hr
    -- the first lock of the process
    have hshared := (hlocks f.pid _ _ (.inr rfl)).mpr (hread hr)
    refine PosixInv.put_old h hf (K := {c}) ((h f.pid).change_lock hf rfl hrel hlock
      (by rintro ⟨⟩) Nat.one_ne_zero (Nat.le_of_eq (Finset.card_singleton c)) ?_ (by rintro ⟨⟩)
      (fun d hd _ => ?_) (Finset.mem_singleton_self c) ?_) (fun q hq x m => hlocks q x m (.inl hq))
      hold
    · rw [hcounts.nLock_eq, hcount, hcnt]
    · rw [hcounts.eq_empty hcnt] at hd
      cases hd
    · exact ⟨fun _ => ⟨_, hshared⟩, by rintro ⟨⟩, fun hle => absurd hle (by decide),
        by rintro ⟨⟩⟩

/-- The last lock of `unixLock` was granted: the reserved byte, or the shared bytes for writing. -/
theorem lockFinal_inv {locktype : LockType} (hpc : (s.procs f.pid).pc = .lockFinal c locktype)
    (hinv : PcInv s.locks f.pid (s.procs f.pid) f)
    (hset : s.locks.set f.pid
      [if locktype = .RESERVED_LOCK then .RESERVED_BYTE else .SHARED_RANGE] .write = some T') :
    PosixInv (lockEnd { s with locks := T' } c f (s.procs f.pid) locktype .OK).2 := by
  rw [PcInv, hpc] at hinv
  obtain ⟨hlock, hcase⟩ := hinv
  have hrel : (s.procs f.pid).pc.released = none := by rw [hpc]; rfl
  have hcount : (s.procs f.pid).pc.counting = 0 := by rw [hpc]; rfl
  have hcounts := (h f.pid).counts
  have hkernel := (h f.pid).kernel
  -- the connection has a shared lock at least, so that it was counted
  have hne : f.locktype ≠ .NO_LOCK := by
    rcases hcase with ⟨-, hl⟩ | ⟨-, hl, -⟩
    · rw [hl]
      rintro ⟨⟩
    · exact hl
  have hmem := (h f.pid).mem_of_lock hf rfl hrel hne
  have hpos : (s.procs f.pid).pLock.cnt ≠ 0 := fun h0 => by
    rw [hcounts.eq_empty h0] at hmem
    cases hmem
  have hold := hkernel.shared (hlock ▸ hne)
  have hnLock : (s.procs f.pid).pOpen.nLock = (s.procs f.pid).pLock.cnt := by
    rw [hcounts.nLock_eq, hcount, Nat.add_zero]
  rcases hcase with ⟨rfl, -⟩ | ⟨rfl, -, hcnt, hpending⟩
  -- `RESERVED_LOCK`: the shared bytes are left as they are
  · refine PosixInv.put_old h hf ((h f.pid).change_lock hf rfl hrel hlock (by rintro ⟨⟩) hpos
      hcounts.card_le hnLock (by rintro ⟨⟩) (fun d hd _ => hd) hmem ⟨fun _ => ?_, fun _ => ?_,
      fun hle => absurd hle (by decide), by rintro ⟨⟩⟩)
      (fun q hq _ _ => LockTable.holds_set_of_ne hset hq) fun _ _ => hold
    · obtain ⟨m, hm⟩ := hold
      exact ⟨m, (LockTable.holds_set_of_notMem hset (by decide)).mpr hm⟩
    · exact LockTable.set_self hset (List.mem_singleton_self _)
  -- `EXCLUSIVE_LOCK`: the shared bytes are locked for writing, so that nobody else reads
  · have hself : T'.Holds f.pid .SHARED_RANGE .write :=
      LockTable.set_self hset (List.mem_singleton_self _)
    refine PosixInv.put_old h hf ((h f.pid).change_lock hf rfl hrel hlock (by rintro ⟨⟩) hpos
      hcounts.card_le hnLock (fun _ => hcnt) (fun d hd _ => hd) hmem ⟨fun _ => ⟨_, hself⟩,
      by rintro ⟨⟩, fun _ => ?_, fun _ q hq m hm => ?_⟩)
      (fun q hq _ _ => LockTable.holds_set_of_ne hset hq) fun _ _ => hold
    · exact (LockTable.holds_set_of_notMem hset (by decide)).mpr hpending
    · exact hq (hself.unique hm).symm

/-- An exclusive lock that is refused leaves a pending one, which keeps new readers out. -/
theorem lockFinal_failed_inv {locktype : LockType} {rc : SqlRc} (hrc : rc ≠ .OK)
    (hpc : (s.procs f.pid).pc = .lockFinal c locktype)
    (hinv : PcInv s.locks f.pid (s.procs f.pid) f) :
    PosixInv (lockEnd s c f (s.procs f.pid) locktype rc).2 := by
  rw [PcInv, hpc] at hinv
  obtain ⟨hlock, hcase⟩ := hinv
  have hrel : (s.procs f.pid).pc.released = none := by rw [hpc]; rfl
  have hcount : (s.procs f.pid).pc.counting = 0 := by rw [hpc]; rfl
  have hcounts := (h f.pid).counts
  unfold lockEnd
  rw [if_neg hrc]
  rcases hcase with ⟨rfl, -⟩ | ⟨rfl, hne, hcnt, hpending⟩
  · exact giveUp_inv h hf hrel hcount
  · have hmem := (h f.pid).mem_of_lock hf rfl hrel hne
    refine PosixInv.put_same h hf ((h f.pid).change_lock hf rfl hrel hlock (by rintro ⟨⟩)
      (fun h0 => ?_) hcounts.card_le ?_ (by rintro ⟨⟩) (fun d hd _ => hd) hmem
      ⟨fun _ => (h f.pid).kernel.shared (hlock ▸ hne), by rintro ⟨⟩, fun _ => hpending,
        by rintro ⟨⟩⟩)
    · rw [hcounts.eq_empty h0] at hmem
      cases hmem
    · rw [hcounts.nLock_eq, hcount, Nat.add_zero]

/-! ### `unixUnlock` -/

/-- `pLock->cnt--`: the connection is not counted any more, and has no lock. -/
theorem countDown_inv {locktype : LockType} (hrel : (s.procs f.pid).pc.released = none)
    (hcount : (s.procs f.pid).pc.counting = 0) (hne : f.locktype ≠ .NO_LOCK)
    (hlne : locktype ≠ .NO_LOCK)
    (hex : locktype = .EXCLUSIVE_LOCK → (s.procs f.pid).pLock.cnt ≤ 1)
    (hweak : locktype = (s.procs f.pid).pLock.locktype ∨ OthersWeak s f.pid c)
    (hkernel : KernelInv T' f.pid locktype)
    (hlocks : ∀ q ≠ f.pid, ∀ x m, T'.Holds q x m ↔ s.locks.Holds q x m)
    (hold : ∀ m, T'.Holds f.pid .SHARED_RANGE m →
      ∃ m', s.locks.Holds f.pid .SHARED_RANGE m') :
    PosixInv (countDown { s with locks := T' } c f
      { s.procs f.pid with pLock.locktype := locktype }).2 := by
  have hcounts := (h f.pid).counts
  have hmem := (h f.pid).mem_of_lock hf rfl hrel hne
  have hcard := Finset.card_erase_add_one hmem
  have hcle := hcounts.card_le
  have hnLock := hcounts.nLock_eq
  rw [hcount, Nat.add_zero] at hnLock
  unfold countDown
  dsimp only
  split
  · next hzero =>
    refine PosixInv.put_old h hf (K := (H f.pid).erase c) ⟨rfl, rfl, rfl, fun d hd => ?_,
      fun d hd => ?_, ⟨?_, ?_, fun hno => absurd hno hlne, fun _ h1 => absurd h1 Nat.one_ne_zero,
      fun hl => Nat.le_trans (Nat.sub_le _ _) (hex hl)⟩, hkernel,
      fun d hd hdc => Finset.mem_erase.mpr ⟨hdc, hd⟩, fun _ hr => absurd rfl hr,
      fun _ hr => absurd rfl hr, hweak.imp (fun heq => ⟨heq, .inl rfl⟩) id, fun d hd => ?_⟩
      hlocks hold
    · rw [hrel] at hd
      cases hd
    · cases hd
      rfl
    · show _ ≤ (s.procs f.pid).pLock.cnt - 1
      omega
    · show (s.procs f.pid).pOpen.nLock = (s.procs f.pid).pLock.cnt - 1 + 1
      omega
    · cases hd
      exact ⟨rfl, hzero⟩
  · next hpos =>
    unfold dropCount unlockEnd
    dsimp only at hpos ⊢
    rw [if_neg (by rintro ⟨hzero, -⟩; omega), if_pos rfl]
    refine PosixInv.put_old h hf (K := (H f.pid).erase c) ⟨rfl, rfl, rfl, fun d hd => ?_,
      by rintro d ⟨⟩, ⟨?_, ?_, fun hno => absurd hno hlne, fun hz _ => absurd hz hpos,
      fun hl => Nat.le_trans (Nat.sub_le _ _) (hex hl)⟩, hkernel,
      fun d hd hdc => Finset.mem_erase.mpr ⟨hdc, hd⟩, fun hno _ => absurd rfl hno,
      fun hlt => absurd hlt (Nat.not_lt_zero _),
      hweak.imp (fun heq => ⟨heq, .inr (Nat.zero_le _)⟩) id,
      by rintro d ⟨⟩⟩ hlocks hold
    · rw [hrel] at hd
      cases hd
    · show _ ≤ (s.procs f.pid).pLock.cnt - 1
      omega
    · show (s.procs f.pid).pOpen.nLock - 1 = (s.procs f.pid).pLock.cnt - 1 + 0
      omega

/-- `unixUnlock`, up to the first system call, keeps the invariant. -/
theorem unixUnlock_inv {locktype : LockType} (hpc : (s.procs f.pid).pc = .idle)
    (hle : locktype.num ≤ LockType.SHARED_LOCK.num) :
    PosixInv (unixUnlock s c f (s.procs f.pid) locktype).2 := by
  have hrel : (s.procs f.pid).pc.released = none := by rw [hpc]; rfl
  have hcount : (s.procs f.pid).pc.counting = 0 := by rw [hpc]; rfl
  have hkernel := (h f.pid).kernel
  unfold unixUnlock
  split
  · exact ⟨O, H, h⟩
  next hlow =>
  split
  · next hstrong =>
    split
    -- to `SHARED_LOCK`: the shared bytes come first
    · refine PosixInv.put_same h hf ((h f.pid).change_pc hf rfl hrel rfl hcount rfl hkernel ?_)
      rintro d ⟨⟩
      exact ⟨rfl, hstrong⟩
    · next hns =>
      -- to `NO_LOCK`
      refine PosixInv.put_same h hf ((h f.pid).change_pc hf rfl hrel rfl hcount rfl hkernel ?_)
      rintro d ⟨⟩
      refine ⟨rfl, hstrong, ?_⟩
      cases locktype with
      | NO_LOCK => exact .inl rfl
      | SHARED_LOCK => exact absurd rfl hns
      | _ => exact absurd hle (by decide)
  · next hweak =>
    -- a shared lock goes straight to the counters
    have hne : f.locktype ≠ .NO_LOCK := fun hno => hlow (by rw [hno]; exact Nat.zero_le _)
    have hcounts := (h f.pid).counts
    have hlne : (s.procs f.pid).pLock.locktype ≠ .NO_LOCK := by
      intro hno
      have hmem := (h f.pid).mem_of_lock hf rfl hrel hne
      rw [hcounts.eq_empty (hcounts.no_lock hno)] at hmem
      cases hmem
    exact countDown_inv h hf hrel hcount hne hlne hcounts.exclusive (.inl rfl) hkernel
      (fun _ _ _ _ => Iff.rfl) fun m hm => ⟨m, hm⟩

/-- `unixUnlock` has turned its lock on the shared bytes into one for reading. -/
theorem unlockRead_inv (hpc : (s.procs f.pid).pc = .unlockRead c)
    (hinv : PcInv s.locks f.pid (s.procs f.pid) f)
    (hset : s.locks.set f.pid [.SHARED_RANGE] .read = some T') :
    PosixInv ({ s with locks := T' }.put c f
      { s.procs f.pid with pc := .unlockBytes c .SHARED_LOCK }) := by
  rw [PcInv, hpc] at hinv
  have hrel : (s.procs f.pid).pc.released = none := by rw [hpc]; rfl
  have hcount : (s.procs f.pid).pc.counting = 0 := by rw [hpc]; rfl
  have hkernel := (h f.pid).kernel
  have hne : (s.procs f.pid).pLock.locktype ≠ .NO_LOCK := by
    rw [← (h f.pid).strong c f hf rfl hinv (by rw [hrel]; rintro ⟨⟩)]
    exact ne_no_lock_of_lt hinv
  refine PosixInv.put_old h hf ((h f.pid).change_pc hf rfl hrel rfl hcount rfl
    ⟨fun _ => ⟨_, LockTable.set_self hset (List.mem_singleton_self _)⟩, fun hl => ?_, fun hl => ?_,
      fun hl q hq m hm => ?_⟩ ?_) (fun q hq _ _ => LockTable.holds_set_of_ne hset hq)
    fun _ _ => hkernel.shared hne
  · exact (LockTable.holds_set_of_notMem hset (by decide)).mpr (hkernel.reserved hl)
  · exact (LockTable.holds_set_of_notMem hset (by decide)).mpr (hkernel.pending hl)
  · exact hkernel.exclusive hl q hq m ((LockTable.holds_set_of_ne hset hq).mp hm)
  · rintro d ⟨⟩
    exact ⟨rfl, hinv, .inr rfl⟩

/-- `unixUnlock` has given back the pending and the reserved byte, and goes on to the counters if
    no lock is wanted. -/
theorem unlockBytes_inv {locktype : LockType} (hpc : (s.procs f.pid).pc = .unlockBytes c locktype)
    (hinv : PcInv s.locks f.pid (s.procs f.pid) f)
    (hT : T' = s.locks.unset f.pid [.PENDING_BYTE, .RESERVED_BYTE]) :
    (locktype = .NO_LOCK → PosixInv (countDown { s with locks := T' } c f
      { s.procs f.pid with pLock.locktype := .SHARED_LOCK }).2) ∧
    (locktype ≠ .NO_LOCK → PosixInv (unlockEnd { s with locks := T' } c f
      { s.procs f.pid with pLock.locktype := .SHARED_LOCK } locktype .OK).2) := by
  rw [PcInv, hpc] at hinv
  obtain ⟨hstrong, hcase⟩ := hinv
  have hrel : (s.procs f.pid).pc.released = none := by rw [hpc]; rfl
  have hcount : (s.procs f.pid).pc.counting = 0 := by rw [hpc]; rfl
  have hcounts := (h f.pid).counts
  have hlock := (h f.pid).strong c f hf rfl hstrong (by rw [hrel]; rintro ⟨⟩)
  have hne := ne_no_lock_of_lt hstrong
  -- the lock on the shared bytes is not given back
  have hlocks : ∀ q x m, (q ≠ f.pid ∨ x = .SHARED_RANGE) →
      (T'.Holds q x m ↔ s.locks.Holds q x m) := by
    intro q x m hqx
    subst hT
    refine LockTable.holds_unset.trans ⟨And.left, fun hm => ⟨hm, ?_⟩⟩
    rintro ⟨rfl, hx⟩
    rcases hqx with hq | rfl
    · exact hq rfl
    · exact absurd hx (by decide)
  have hold : ∀ m, T'.Holds f.pid .SHARED_RANGE m →
      ∃ m', s.locks.Holds f.pid .SHARED_RANGE m' :=
    fun m hm => ⟨m, (hlocks _ _ m (.inr rfl)).mp hm⟩
  have hkernel : KernelInv T' f.pid .SHARED_LOCK := by
    obtain ⟨m, hm⟩ := (h f.pid).kernel.shared (hlock ▸ hne)
    exact ⟨fun _ => ⟨m, (hlocks _ _ m (.inr rfl)).mpr hm⟩, by rintro ⟨⟩,
      fun hl => absurd hl (by decide), by rintro ⟨⟩⟩
  constructor
  -- the lock goes as well
  · rintro -
    exact countDown_inv h hf hrel hcount hne (by rintro ⟨⟩) (by rintro ⟨⟩)
      (.inr ((h f.pid).others_weak hf rfl hlock fun d hd => by rw [hrel] at hd; cases hd)) hkernel
      (fun q hq x m => hlocks q x m (.inl hq)) hold
  -- a shared lock is left
  · intro hnl
    obtain rfl := hcase.resolve_left hnl
    have hmem := (h f.pid).mem_of_lock hf rfl hrel hne
    refine PosixInv.put_old h hf ((h f.pid).change_lock hf rfl hrel hlock (by rintro ⟨⟩)
      (fun h0 => ?_) hcounts.card_le ?_ (by rintro ⟨⟩) (fun d hd _ => hd) hmem hkernel)
      (fun q hq x m => hlocks q x m (.inl hq)) hold
    · rw [hcounts.eq_empty h0] at hmem
      cases hmem
    · rw [hcounts.nLock_eq, hcount, Nat.add_zero]

/-- The end of `unixUnlock`, when the locks of the process are gone and nobody needed them. -/
theorem change_gone (T' : LockTable Nat LockRange) (hno : (s.procs f.pid).pLock.cnt = 0)
    (hcalm : ∀ d, (s.procs f.pid).pc.released = some d → d = c) (g : PosixFile)
    (pOpen : PosixOpenCnt) {pc : PosixPc} (hpid : g.pid = f.pid)
    (hnRef : pOpen.nRef = (s.procs f.pid).pOpen.nRef) (hnLock : pOpen.nLock = 0)
    (hpc : (g.locktype = .NO_LOCK ∧ pc = .idle) ∨ (g = f ∧ ∃ i, pc = .closePending c i true)) :
    Change s f.pid c f (H f.pid) T' g
      ⟨{ (s.procs f.pid).pLock with locktype := .NO_LOCK }, pOpen, pc⟩ ∅ := by
  have hempty := (h f.pid).counts.eq_empty hno
  have hcount : pc.counting = 0 := by
    rcases hpc with ⟨-, rfl⟩ | ⟨-, i, rfl⟩ <;> rfl
  refine ⟨hpid, rfl, hnRef, hcalm, ?_, ⟨Nat.zero_le _, ?_, fun _ => hno, fun _ _ => rfl,
    by rintro ⟨⟩⟩, .no_lock, fun d hd _ => ?_, fun hne hr => ?_, fun hlt hr => ?_, .inr ?_, ?_⟩
  · intro d hd
    rcases hpc with ⟨-, rfl⟩ | ⟨-, i, rfl⟩ <;> cases hd
    rfl
  · show pOpen.nLock = (s.procs f.pid).pLock.cnt + pc.counting
    rw [hnLock, hno, hcount]
  · rw [hempty] at hd
    cases hd
  · rcases hpc with ⟨hno', rfl⟩ | ⟨rfl, i, rfl⟩
    · exact absurd hno' hne
    · exact absurd rfl hr
  · rcases hpc with ⟨hno', rfl⟩ | ⟨rfl, i, rfl⟩
    · rw [hno'] at hlt
      exact absurd hlt (by decide)
    · exact absurd rfl hr
  · -- no other connection of the process has a lock
    intro d g hd hg hgp
    by_contra hstrong
    have hmem : d ∈ H f.pid := (h f.pid).locked d g hg hgp (fun hgno => hstrong (by
      rw [hgno]
      decide)) fun hr => hd (hcalm d hr)
    rw [hempty] at hmem
    cases hmem
  · intro d hd
    rcases hpc with ⟨-, rfl⟩ | ⟨rfl, i, rfl⟩ <;> cases hd
    exact ⟨rfl, rfl, rfl⟩

omit h hf in
/-- The locks of the other processes are not dropped. -/
theorem holds_drop_of_ne {T : LockTable Nat LockRange} {x : LockRange} {m : LockMode}
    (hq : q ≠ p) : (T.drop p).Holds q x m ↔ T.Holds q x m :=
  LockTable.holds_drop.trans ⟨And.left, fun hm => ⟨hm, hq⟩⟩

/-- The last lock of the process is gone, and the kernel's locks with it. -/
theorem unlockAll_inv (hpc : (s.procs f.pid).pc = .unlockAll c)
    (hinv : PcInv s.locks f.pid (s.procs f.pid) f) :
    PosixInv (dropCount { s with locks := s.locks.drop f.pid } c f
      { s.procs f.pid with pLock.locktype := .NO_LOCK }).2 := by
  rw [PcInv, hpc] at hinv
  have hcalm : ∀ d, (s.procs f.pid).pc.released = some d → d = c := by
    rw [hpc]
    rintro d ⟨⟩
    rfl
  have hnLock := (h f.pid).counts.nLock_eq
  rw [hpc, hinv] at hnLock
  have hzero : (s.procs f.pid).pOpen.nLock - 1 = 0 := by rw [hnLock]; rfl
  have hgone : ∀ m, ¬(s.locks.drop f.pid).Holds f.pid .SHARED_RANGE m :=
    fun m hm => (LockTable.holds_drop.mp hm).2 rfl
  unfold dropCount unlockEnd
  dsimp only
  split
  · exact PosixInv.put_old h hf
      (change_gone h hf _ hinv hcalm _ _ rfl rfl hzero (.inr ⟨rfl, 0, rfl⟩))
      (fun q hq _ _ => holds_drop_of_ne hq) fun m hm => absurd hm (hgone m)
  · exact PosixInv.put_old h hf
      (change_gone h hf _ hinv hcalm _ _ rfl rfl hzero (.inl ⟨rfl, rfl⟩))
      (fun q hq _ _ => holds_drop_of_ne hq) fun m hm => absurd hm (hgone m)

/-- Between two deferred calls of `close`, and after the last one: the locks they drop were not
    needed. -/
theorem closePending_inv {i : Nat} {rc : Bool} (hpc : (s.procs f.pid).pc = .closePending c i rc)
    (hinv : PcInv s.locks f.pid (s.procs f.pid) f) (hT : T' = s.locks ∨ T' = s.locks.drop f.pid)
    {aPending : List Int} :
    PosixInv ({ s with locks := T' }.put c f { s.procs f.pid with
      pOpen.aPending := aPending, pc := .closePending c (i + 1) true }) ∧
    PosixInv ({ s with locks := T' }.put c { f with locktype := .NO_LOCK }
      { s.procs f.pid with pOpen.aPending := aPending, pc := .idle }) := by
  rw [PcInv, hpc] at hinv
  have hcalm : ∀ d, (s.procs f.pid).pc.released = some d → d = c := by
    rw [hpc]
    rintro d ⟨⟩
    rfl
  have hcnt := (h f.pid).counts.no_lock hinv.1
  have hnLock : (s.procs f.pid).pOpen.nLock = 0 := by
    rw [(h f.pid).counts.nLock_eq, hcnt, hpc]
    rfl
  have hlocks : ∀ q ≠ f.pid, ∀ x m, T'.Holds q x m ↔ s.locks.Holds q x m := by
    intro q hq x m
    rcases hT with rfl | rfl
    · exact Iff.rfl
    · exact holds_drop_of_ne hq
  -- a lock on the shared bytes was there before
  have hold : ∀ m, T'.Holds f.pid .SHARED_RANGE m →
      ∃ m', s.locks.Holds f.pid .SHARED_RANGE m' := by
    intro m hm
    rcases hT with rfl | rfl
    · exact ⟨m, hm⟩
    · exact absurd rfl (LockTable.holds_drop.mp hm).2
  have hpLock : (s.procs f.pid).pLock = { (s.procs f.pid).pLock with locktype := .NO_LOCK } := by
    rw [← hinv.1]
  constructor
  · have hchange := change_gone h hf T' hcnt hcalm f
      { (s.procs f.pid).pOpen with aPending } rfl rfl hnLock (.inr ⟨rfl, i + 1, rfl⟩)
    rw [← hpLock] at hchange
    exact PosixInv.put_old h hf hchange hlocks hold
  · have hchange := change_gone h hf T' hcnt hcalm { f with locktype := .NO_LOCK }
      { (s.procs f.pid).pOpen with aPending } rfl rfl hnLock (.inl ⟨rfl, rfl⟩)
    rw [← hpLock] at hchange
    exact PosixInv.put_old h hf hchange hlocks hold

/-- `unixClose`, up to the first system call of `unixUnlock`, keeps the invariant. -/
theorem unixClose_inv (hpc : (s.procs f.pid).pc = .idle) :
    PosixInv (unixClose s c f (s.procs f.pid)).2 := by
  have hrel : (s.procs f.pid).pc.released = none := by rw [hpc]; rfl
  have hcount : (s.procs f.pid).pc.counting = 0 := by rw [hpc]; rfl
  have hchange : Change s f.pid c f (H f.pid) s.locks f { s.procs f.pid with pc := .idle }
      (H f.pid) :=
    (h f.pid).change_pc hf rfl hrel rfl hcount rfl (h f.pid).kernel (by rintro d ⟨⟩)
  have hproc : (⟨(s.procs f.pid).pLock, (s.procs f.pid).pOpen, .idle⟩ : PosixProc)
      = s.procs f.pid := by rw [← hpc]
  rw [hproc] at hchange
  obtain ⟨O', H', h'⟩ := PosixInv.put_same h hf (g := { f with closing := true })
    { hchange with
      pid_eq := rfl
      locked := hchange.locked
      strong := hchange.strong
      weak := .inl ⟨rfl, .inl rfl⟩
      pc := by rw [hpc]; rintro d ⟨⟩ }
  have hsame : (s.put c { f with closing := true } (s.procs f.pid)).procs f.pid
      = s.procs f.pid := Function.update_self ..
  have hnext := unixUnlock_inv h' (c := c) (f := { f with closing := true })
    (Function.update_self ..) (by rw [hsame]; exact hpc)
    (show LockType.NO_LOCK.num ≤ LockType.SHARED_LOCK.num from Nat.zero_le _)
  rw [show ({ f with closing := true } : PosixFile).pid = f.pid from rfl, hsame] at hnext
  exact hnext

end Calls

/-! ### System calls, opening and closing -/

/-- The condition on the steps: what must not fail.

    * a system call, when `unixUnlock` or `unixClose` has counted down the lock of its connection:
      `F_UNLCK` on the whole file, and the `close` of a deferred descriptor;
    * `realloc` in `unixClose`, while connections of the process have locks: the descriptor is then
      closed, and the kernel drops the locks of the process;
    * an open, while the process has other connections to the file: closing the new descriptor drops
      its locks as well. -/
def Orderly (s : PosixState) : PosixCall × SqlRet → Prop
  | (.sys pid ok, _) => (s.procs pid).pc.released ≠ none → ok = true
  | (.closeFile c realloc _, _) =>
    ∀ f ∈ s.files c, (s.procs f.pid).pOpen.nLock ≠ 0 → realloc = true
  | (.openFailed pid, _) => (s.procs pid).pLock.nRef = 0
  | _ => True

instance (s : PosixState) (a : PosixCall × SqlRet) : Decidable (Orderly s a) :=
  match a with
  | (.sys _ _, _) => inferInstanceAs (Decidable (_ ≠ _ → _))
  | (.closeFile _ _ _, _) => inferInstanceAs (Decidable (∀ f ∈ s.files _, _ → _))
  | (.openFailed _, _) => inferInstanceAs (Decidable (_ = _))
  | (.open _ _ _, _) => isTrue trivial
  | (.lock _ _, _) => isTrue trivial
  | (.unlock _ _, _) => isTrue trivial
  | (.close _, _) => isTrue trivial
  | (.checkReservedLock _ _, _) => isTrue trivial
  | (.exit _, _) => isTrue trivial

/-- The files when a connection is opened: it is new, and the others are what they were. -/
theorem put_new_files (hnone : s.files c = none) {d : Nat} {g : PosixFile} :
    (s.put c f P).files d = some g ↔ (d = c ∧ g = f) ∨ s.files d = some g := by
  show Function.update s.files c (some f) d = some g ↔ _
  rcases eq_or_ne d c with rfl | hd
  · rw [Function.update_self, hnone]
    simp [eq_comm]
  · rw [Function.update_of_ne hd]
    simp [hd]

/-- **The spec of `findLockInfo`.**  One reference more, and the locks are what they were: objects
    that are made anew have none, like a process without connections. -/
theorem ProcInv.findLockInfo_spec (h : ProcInv s p O H) (hpc : (s.procs p).pc = .idle) :
    (findLockInfo (s.procs p)).pLock
        = { (s.procs p).pLock with nRef := (s.procs p).pLock.nRef + 1 } ∧
      (findLockInfo (s.procs p)).pOpen.nRef = (s.procs p).pOpen.nRef + 1 ∧
      (findLockInfo (s.procs p)).pOpen.nLock = (s.procs p).pLock.cnt := by
  have hnone : O = ∅ → (s.procs p).pLock.cnt = 0 := fun hempty =>
    h.counts.no_lock (h.absent hempty)
  refine ⟨?_, ?_, ?_⟩
  · unfold findLockInfo
    dsimp only
    split
    · next h0 =>
      -- objects that nobody refers to are made anew, without locks
      have hempty := Finset.card_eq_zero.mp (h.nRef_lock.symm.trans h0)
      rw [h0, hnone hempty, h.absent hempty]
    · rfl
  · unfold findLockInfo
    dsimp only
    split
    · next h0 => rw [h0]
    · rfl
  · have hold := h.counts.nLock_eq
    rw [hpc] at hold
    unfold findLockInfo
    dsimp only
    split
    · next h0 => exact (hnone (Finset.card_eq_zero.mp (h.nRef_open.symm.trans h0))).symm
    · exact hold

/-- The process that opens a connection has one more, without a lock. -/
theorem ProcInv.opens (h : ProcInv s p O H) (hnone : s.files c = none)
    (hpc : (s.procs p).pc = .idle) {fd : Int} :
    ProcInv (s.put c ⟨p, fd, .NO_LOCK, false⟩ (findLockInfo (s.procs p))) p (insert c O) H := by
  obtain ⟨hpLock, hnRef, hnLock⟩ := h.findLockInfo_spec hpc
  have hnot : c ∉ O := fun hc => by
    obtain ⟨f, hf, -⟩ := (h.opened c).mp hc
    rw [hnone] at hf
    cases hf
  have hown : (s.put c ⟨p, fd, .NO_LOCK, false⟩ (findLockInfo (s.procs p))).procs p
      = findLockInfo (s.procs p) := Function.update_self ..
  have hidle : (findLockInfo (s.procs p)).pc = .idle := hpc
  -- the new connection has no lock, so that one that has is an old one
  have hold : ∀ d g, (s.put c ⟨p, fd, .NO_LOCK, false⟩ (findLockInfo (s.procs p))).files d
      = some g → g.locktype ≠ .NO_LOCK → s.files d = some g := by
    intro d g hg hne
    refine ((put_new_files hnone).mp hg).resolve_left ?_
    rintro ⟨-, rfl⟩
    exact hne rfl
  have hcalm : ∀ d, (s.procs p).pc.released ≠ some d := fun d => by
    rw [hpc]
    rintro ⟨⟩
  obtain ⟨hcard, -, hno, hzero, hex⟩ := h.counts
  constructor
  · intro d
    rw [Finset.mem_insert, h.opened]
    simp only [put_new_files hnone]
    constructor
    · rintro (rfl | ⟨f, hf, hp⟩)
      · exact ⟨_, .inl ⟨rfl, rfl⟩, rfl⟩
      · exact ⟨f, .inr hf, hp⟩
    · rintro ⟨f, ⟨rfl, -⟩ | hf, hp⟩
      · exact .inl rfl
      · exact .inr ⟨f, hf, hp⟩
  · rw [hown, hpLock, Finset.card_insert_of_notMem hnot, ← h.nRef_lock]
  · rw [hown, hnRef, Finset.card_insert_of_notMem hnot, ← h.nRef_open]
  · intro hempty
    exact absurd hempty (Finset.insert_ne_empty c _)
  · rw [hown]
    refine ⟨?_, ?_, ?_, ?_, ?_⟩
    · rw [hpLock]
      exact hcard
    · rw [hnLock, hpLock, hidle]
      rfl
    · rw [hpLock]
      exact hno
    · rw [hpLock]
      exact fun hz _ => hzero hz (by rw [hpc]; rfl)
    · rw [hpLock]
      exact hex
  · rw [hown, hpLock]
    exact h.kernel
  · intro d g hg hgp hne _
    exact h.locked d g (hold d g hg hne) hgp hne (hcalm d)
  · intro d g hg hgp hlt _
    rw [hown, hpLock]
    exact h.strong d g (hold d g hg (ne_no_lock_of_lt hlt)) hgp hlt (hcalm d)
  · intro a fa b fb hfa hfb hpa hpb hlta hltb
    exact h.unique a fa b fb (hold a fa hfa (ne_no_lock_of_lt hlta))
      (hold b fb hfb (ne_no_lock_of_lt hltb)) hpa hpb hlta hltb
  · intro d hd
    rw [hown, hidle] at hd
    cases hd

/-- A process without connections, its objects freed, needs nothing from the kernel. -/
theorem ProcInv.of_new (hnew : s.procs p = .new)
    (hnobody : ∀ c f, s.files c = some f → f.pid ≠ p) : ProcInv s p ∅ ∅ := by
  refine ⟨fun c => ?_, ?_, ?_, fun _ => ?_, ?_, ?_, fun c f hf hp => absurd hp (hnobody c f hf),
    fun c f hf hp => absurd hp (hnobody c f hf),
    fun a fa b fb hfa hfb hpa => absurd hpa (hnobody a fa hfa), ?_⟩
  · simp only [Finset.notMem_empty, false_iff]
    rintro ⟨f, hf, hp⟩
    exact hnobody c f hf hp
  all_goals rw [hnew]
  · rfl
  · rfl
  · rfl
  · exact ⟨Nat.le_refl _, rfl, fun _ => rfl, fun _ _ => rfl, by rintro ⟨⟩⟩
  · exact .no_lock
  · rintro d ⟨⟩

/-- **What closing the connection `c` of the process `p` changes.**  The kernel's locks of the
    process go only when it has none that it needs. -/
structure Closed (s : PosixState) (p c : Nat) (aPending : List Int) (s' : PosixState) : Prop where
  files : s'.files = Function.update s.files c none
  procs : s'.procs = Function.update s.procs p
    { s.procs p with
      pLock := releaseLockInfo (s.procs p).pLock
      pOpen := releaseOpenCnt { (s.procs p).pOpen with aPending } }
  others : ∀ q ≠ p, ∀ x m, s'.locks.Holds q x m ↔ s.locks.Holds q x m
  kernel : KernelInv s'.locks p (s.procs p).pLock.locktype
  shared : ∀ m, s'.locks.Holds p .SHARED_RANGE m → s.locks.Holds p .SHARED_RANGE m

/-- **The spec of the last part of `unixClose`**, when the memory for a deferred descriptor is
    there. -/
theorem closeFile_closed (h : ProcInv s f.pid O H) (hpc : (s.procs f.pid).pc = .idle)
    {realloc close : Bool} (hrealloc : (s.procs f.pid).pOpen.nLock ≠ 0 → realloc = true) :
    ∃ aPending,
      Closed s f.pid c aPending (closeFile s c f (s.procs f.pid) realloc close).2 := by
  by_cases hclose : ¬((s.procs f.pid).pOpen.nLock ≠ 0 ∧ realloc = true) ∧ close = true
  · -- the descriptor is closed only when no connection of the process has a lock
    have hzero : (s.procs f.pid).pOpen.nLock = 0 := by
      by_contra hne
      exact hclose.1 ⟨hne, hrealloc hne⟩
    have hcnt : (s.procs f.pid).pLock.cnt = 0 := by
      have hn := h.counts.nLock_eq
      omega
    have hno := h.counts.zero hcnt (by rw [hpc]; rfl)
    have hlocks : (closeFile s c f (s.procs f.pid) realloc close).2.locks
        = s.locks.drop f.pid := if_pos hclose
    refine ⟨(s.procs f.pid).pOpen.aPending, rfl, ?_, fun q hq _ _ => ?_, ?_, fun m hm => ?_⟩
    · unfold closeFile
      dsimp only
      rw [if_neg hclose.1]
    · rw [hlocks]
      exact holds_drop_of_ne hq
    · rw [hno]
      exact .no_lock
    · rw [hlocks] at hm
      exact (LockTable.holds_drop.mp hm).1
  · have hlocks : (closeFile s c f (s.procs f.pid) realloc close).2.locks = s.locks :=
      if_neg hclose
    obtain ⟨aPending, hprocs⟩ : ∃ aPending,
        (closeFile s c f (s.procs f.pid) realloc close).2.procs
          = Function.update s.procs f.pid { s.procs f.pid with
              pLock := releaseLockInfo (s.procs f.pid).pLock
              pOpen := releaseOpenCnt { (s.procs f.pid).pOpen with aPending } } := by
      unfold closeFile
      dsimp only
      split
      · exact ⟨_, rfl⟩
      · exact ⟨_, rfl⟩
    refine ⟨aPending, rfl, hprocs, fun _ _ _ _ => ?_, ?_, fun m hm => ?_⟩
    · rw [hlocks]
    · rw [hlocks]
      exact h.kernel
    · rwa [hlocks] at hm

/-- The connections that are left are all but the one closed. -/
theorem Closed.left {aPending : List Int} (hs : Closed s p c aPending s') {g : PosixFile} :
    s'.files d = some g ↔ d ≠ c ∧ s.files d = some g := by
  rw [hs.files]
  rcases eq_or_ne d c with rfl | hd
  · simp
  · rw [Function.update_of_ne hd]
    simp [hd]

/-- The connections of the process that are left, as the set that the invariant has. -/
theorem Closed.opened {aPending : List Int} (hs : Closed s p c aPending s')
    (h : ProcInv s p O H) (d : Nat) :
    d ∈ O.erase c ↔ ∃ g, s'.files d = some g ∧ g.pid = p := by
  rw [Finset.mem_erase, h.opened]
  simp only [hs.left]
  constructor
  · rintro ⟨hd, g, hg, hp⟩
    exact ⟨g, ⟨hd, hg⟩, hp⟩
  · rintro ⟨g, ⟨hd, hg⟩, hp⟩
    exact ⟨hd, g, hg, hp⟩

/-- The last connection of the process: the shared objects are freed, and nothing is needed any
    more. -/
theorem Closed.last {aPending : List Int} (hs : Closed s p c aPending s') (h : ProcInv s p O H)
    (hf : s.files c = some f) (hpc : (s.procs p).pc = .idle) (hlast : O.erase c = ∅)
    (hp : f.pid = p) : ProcInv s' p ∅ ∅ := by
  have hmem : c ∈ O := (h.opened c).mpr ⟨f, hf, hp⟩
  have hone : O.card = 1 := by rw [← Finset.card_erase_add_one hmem, hlast]; rfl
  refine ProcInv.of_new ?_ fun d g hg hgp => ?_
  · rw [hs.procs, Function.update_self, releaseLockInfo, releaseOpenCnt,
      if_pos (h.nRef_lock.trans hone), if_pos (h.nRef_open.trans hone)]
    dsimp only
    rw [hpc]
    rfl
  · have hd := (hs.opened h d).mpr ⟨g, hg, hgp⟩
    rw [hlast] at hd
    cases hd

/-- The process keeps its objects while it has another connection, and counts one less. -/
theorem Closed.more {aPending : List Int} (hs : Closed s p c aPending s') (h : ProcInv s p O H)
    (hf : s.files c = some f) (hpc : (s.procs p).pc = .idle) (hmore : O.erase c ≠ ∅)
    (hp : f.pid = p) : ProcInv s' p (O.erase c) H := by
  have hmem : c ∈ O := (h.opened c).mpr ⟨f, hf, hp⟩
  have hcard := Finset.card_erase_add_one hmem
  -- another connection refers to the objects
  have hmany : O.card ≠ 1 := by
    intro hone
    rw [hone] at hcard
    exact hmore (Finset.card_eq_zero.mp (Nat.succ.inj hcard))
  have hnew : s'.procs p = ⟨{ (s.procs p).pLock with nRef := (s.procs p).pLock.nRef - 1 },
      { (s.procs p).pOpen with nRef := (s.procs p).pOpen.nRef - 1, aPending }, .idle⟩ := by
    have hopen : ({ (s.procs p).pOpen with aPending } : PosixOpenCnt).nRef ≠ 1 := by
      show (s.procs p).pOpen.nRef ≠ 1
      rw [h.nRef_open]
      exact hmany
    rw [hs.procs, Function.update_self, releaseLockInfo, releaseOpenCnt, if_neg hopen,
      if_neg (by rw [h.nRef_lock]; exact hmany)]
    dsimp only
    rw [hpc]
  -- nobody is between the counters of `unixUnlock`
  have hcalm : ∀ d, (s.procs p).pc.released ≠ some d := fun d => by
    rw [hpc]
    rintro ⟨⟩
  obtain ⟨hcle, hnLock, hno, hzero, hex⟩ := h.counts
  rw [hpc] at hnLock
  refine ⟨hs.opened h, ?_, ?_, fun hempty => absurd hempty hmore, ?_, ?_,
    fun d g hg hgp hne _ => ?_, fun d g hg hgp hlt _ => ?_, ?_, ?_⟩
  · rw [hnew]
    show (s.procs p).pLock.nRef - 1 = _
    rw [h.nRef_lock]
    omega
  · rw [hnew]
    show (s.procs p).pOpen.nRef - 1 = _
    rw [h.nRef_open]
    omega
  · rw [hnew]
    exact ⟨hcle, hnLock, hno, fun hz _ => hzero hz (by rw [hpc]; rfl), hex⟩
  · rw [hnew]
    exact hs.kernel
  · exact h.locked d g (hs.left.mp hg).2 hgp hne (hcalm d)
  · rw [hnew]
    exact h.strong d g (hs.left.mp hg).2 hgp hlt (hcalm d)
  · intro a fa b fb hfa hfb
    exact h.unique a fa b fb (hs.left.mp hfa).2 (hs.left.mp hfb).2
  · rw [hnew]
    rintro d ⟨⟩

/-- The other processes do not notice, since their connections and locks are untouched. -/
theorem Closed.frame {aPending : List Int} (hs : Closed s f.pid c aPending s')
    {O H : Nat → Finset Nat} (h : ∀ q, ProcInv s q (O q) (H q)) (hf : s.files c = some f)
    (hq : q ≠ f.pid) : ProcInv s' q (O q) (H q) := by
  refine (h q).frame (by rw [hs.procs, Function.update_of_ne hq]) ?_
    (fun x m => (hs.others q hq x m).mpr) ?_
  · intro d g hg
    rw [hs.left]
    refine and_iff_right_of_imp fun hd => ?_
    rintro rfl
    rw [hf] at hd
    cases hd
    exact hq hg.symm
  · intro hex r hr m hm
    rcases eq_or_ne r f.pid with rfl | hrp
    · exact (h q).kernel.exclusive hex f.pid hr m (hs.shared m hm)
    · exact (h q).kernel.exclusive hex r hr m ((hs.others r hrp _ _).mp hm)

section Steps

variable {O H : Nat → Finset Nat} {r : SqlRet} (h : ∀ q, ProcInv s q (O q) (H q))

/-- A lock that was granted is in the table, and one that was refused changed nothing. -/
theorem setLock_cases {xs : List LockRange} {m : LockMode} {ok : Bool}
    (hset : setLock s p xs m ok = some T') : s.locks.set p xs m = some T' := by
  unfold setLock at hset
  split at hset
  · exact hset
  · cases hset

/-- A lock that was refused is an error, of one kind or the other. -/
theorem lockError_ne (ok : Bool) : lockError ok ≠ .OK := by
  cases ok <;> rintro ⟨⟩

/-- The state of a result. -/
theorem of_result {x : SqlRet × PosixState} (hs : some x = some (r, s')) (hx : PosixInv x.2) :
    PosixInv s' := by
  cases hs
  exact hx

include h

/-- `unixUnlock` that failed leaves the locks of its connection as they are. -/
theorem unlockEnd_failed_inv (hf : s.files c = some f) {locktype : LockType} {rc : SqlRc}
    (hrc : rc ≠ .OK) (hrel : (s.procs f.pid).pc.released = none)
    (hcount : (s.procs f.pid).pc.counting = 0) :
    PosixInv (unlockEnd s c f (s.procs f.pid) locktype rc).2 := by
  unfold unlockEnd
  rw [if_neg hrc]
  exact giveUp_inv h hf hrel hcount

/-- **A system call**, and the code up to the next one, keep the invariant in an orderly run. -/
theorem sysCall_inv {ok : Bool} (hs : sysCall s p ok = some (r, s'))
    (horderly : Orderly s (.sys p ok, r)) : PosixInv s' := by
  have hconn := (h p).pc
  unfold sysCall at hs
  cases hpc : (s.procs p).pc with
  | idle =>
    simp only [hpc] at hs
    cases hs
  | lockPending c locktype =>
    obtain ⟨f, hf, rfl, hinv⟩ := hconn c (by rw [hpc]; rfl)
    have hrel : (s.procs f.pid).pc.released = none := by rw [hpc]; rfl
    have hcount : (s.procs f.pid).pc.counting = 0 := by rw [hpc]; rfl
    simp only [hpc, hf, Option.bind_eq_bind, Option.bind_some] at hs
    split at hs
    · next T' hset =>
      exact of_result hs (lockPending_inv h hf hpc hinv (setLock_cases hset))
    · exact of_result hs (giveUp_inv h hf hrel hcount)
  | lockShared c =>
    obtain ⟨f, hf, rfl, hinv⟩ := hconn c (by rw [hpc]; rfl)
    simp only [hpc, hf, Option.bind_eq_bind, Option.bind_some] at hs
    split at hs
    · next T' hset =>
      exact of_result hs (lockShared_inv h hf hpc hinv (setLock_cases hset))
    · exact of_result hs (lockShared_failed_inv h hf hpc hinv)
  | dropPending c r =>
    obtain ⟨f, hf, rfl, hinv⟩ := hconn c (by rw [hpc]; rfl)
    simp only [hpc, hf, Option.bind_eq_bind, Option.bind_some] at hs
    have hend := dropPending_inv h hf hpc hinv ok rfl
    split at hs
    · exact of_result hs hend.1
    split at hs
    · exact of_result hs hend.1
    · next hr => exact of_result hs (hend.2 (by simpa using hr))
  | lockFinal c locktype =>
    obtain ⟨f, hf, rfl, hinv⟩ := hconn c (by rw [hpc]; rfl)
    simp only [hpc, hf, Option.bind_eq_bind, Option.bind_some] at hs
    split at hs
    · next T' hset =>
      exact of_result hs (lockFinal_inv h hf hpc hinv (setLock_cases hset))
    · exact of_result hs (lockFinal_failed_inv h hf (lockError_ne ok) hpc hinv)
  | unlockRead c =>
    obtain ⟨f, hf, rfl, hinv⟩ := hconn c (by rw [hpc]; rfl)
    have hrel : (s.procs f.pid).pc.released = none := by rw [hpc]; rfl
    have hcount : (s.procs f.pid).pc.counting = 0 := by rw [hpc]; rfl
    simp only [hpc, hf, Option.bind_eq_bind, Option.bind_some] at hs
    split at hs
    · next T' hset =>
      exact of_result hs (unlockRead_inv h hf hpc hinv (setLock_cases hset))
    · exact of_result hs (unlockEnd_failed_inv h hf (lockError_ne ok) hrel hcount)
  | unlockBytes c locktype =>
    obtain ⟨f, hf, rfl, hinv⟩ := hconn c (by rw [hpc]; rfl)
    have hrel : (s.procs f.pid).pc.released = none := by rw [hpc]; rfl
    have hcount : (s.procs f.pid).pc.counting = 0 := by rw [hpc]; rfl
    simp only [hpc, hf, Option.bind_eq_bind, Option.bind_some] at hs
    have hend := unlockBytes_inv h hf hpc hinv rfl
    split at hs
    · exact of_result hs (unlockEnd_failed_inv h hf (by rintro ⟨⟩) hrel hcount)
    split at hs
    · next hno => exact of_result hs (hend.1 hno)
    · next hno => exact of_result hs (hend.2 hno)
  | unlockAll c =>
    obtain ⟨f, hf, rfl, hinv⟩ := hconn c (by rw [hpc]; rfl)
    -- the whole file is unlocked in an orderly run
    obtain rfl : ok = true := horderly (by rw [hpc]; rintro ⟨⟩)
    simp only [hpc, hf, Option.bind_eq_bind, Option.bind_some] at hs
    exact of_result hs (unlockAll_inv h hf hpc hinv)
  | closePending c i rc =>
    obtain ⟨f, hf, rfl, hinv⟩ := hconn c (by rw [hpc]; rfl)
    -- and every deferred descriptor is closed
    obtain rfl : ok = true := horderly (by rw [hpc]; rintro ⟨⟩)
    have hrc : rc = true := by
      have hinv' := hinv
      rw [PcInv, hpc] at hinv'
      exact hinv'.2
    subst hrc
    simp only [hpc, hf, Option.bind_eq_bind, Option.bind_some] at hs
    split at hs
    · split at hs
      · exact of_result hs (closePending_inv h hf hpc hinv (.inl rfl)).1
      · exact of_result hs (closePending_inv h hf hpc hinv (.inr rfl)).1
    · exact of_result hs (closePending_inv h hf hpc hinv (.inl rfl)).2

/-- A connection is opened, in a process that is in no call. -/
theorem open_inv (hnone : s.files c = none) (hpc : (s.procs p).pc = .idle) {fd : Int} :
    PosixInv (s.put c ⟨p, fd, .NO_LOCK, false⟩ (findLockInfo (s.procs p))) := by
  refine ⟨Function.update O p (insert c (O p)), H, fun q => ?_⟩
  rcases eq_or_ne q p with rfl | hq
  · rw [Function.update_self]
    exact (h q).opens hnone hpc
  · rw [Function.update_of_ne hq]
    refine (h q).frame (Function.update_of_ne hq ..) ?_ (fun _ _ => id) (h q).kernel.exclusive
    intro d g hg
    rw [put_new_files hnone]
    refine ⟨fun hd => hd.resolve_left ?_, .inr⟩
    -- the new connection belongs to `p`
    rintro ⟨-, rfl⟩
    exact hq hg.symm

/-- The last part of `unixClose`, when the descriptor can be closed or has to wait. -/
theorem closeFile_inv (hf : s.files c = some f) (hpc : (s.procs f.pid).pc = .idle)
    {realloc close : Bool} (hrealloc : (s.procs f.pid).pOpen.nLock ≠ 0 → realloc = true) :
    PosixInv (closeFile s c f (s.procs f.pid) realloc close).2 := by
  obtain ⟨aPending, hclosed⟩ : ∃ aPending,
      Closed s f.pid c aPending (closeFile s c f (s.procs f.pid) realloc close).2 :=
    closeFile_closed (h f.pid) hpc hrealloc
  refine ⟨Function.update O f.pid ((O f.pid).erase c),
    Function.update H f.pid (if (O f.pid).erase c = ∅ then ∅ else H f.pid), fun q => ?_⟩
  rcases eq_or_ne q f.pid with rfl | hq
  · rw [Function.update_self, Function.update_self]
    by_cases hlast : (O f.pid).erase c = ∅
    · rw [if_pos hlast, hlast]
      exact hclosed.last (h f.pid) hf hpc hlast rfl
    · rw [if_neg hlast]
      exact hclosed.more (h f.pid) hf hpc hlast rfl
  · rw [Function.update_of_ne hq, Function.update_of_ne hq]
    exact hclosed.frame h hf hq

/-- A process that has not opened the file closes a descriptor, and drops locks that it had none
    of. -/
theorem openFailed_inv (hzero : (s.procs p).pLock.nRef = 0) :
    PosixInv { s with locks := s.locks.drop p } := by
  have hempty := Finset.card_eq_zero.mp ((h p).nRef_lock.symm.trans hzero)
  have hno := (h p).absent hempty
  refine ⟨O, H, fun q => ?_⟩
  have hex : (s.procs q).pLock.locktype = .EXCLUSIVE_LOCK →
      ∀ r ≠ q, ∀ m, ¬(s.locks.drop p).Holds r .SHARED_RANGE m := fun hex r hr m hm =>
    (h q).kernel.exclusive hex r hr m (LockTable.holds_drop.mp hm).1
  rcases eq_or_ne q p with rfl | hq
  · have hq := h q
    refine ⟨hq.opened, hq.nRef_lock, hq.nRef_open, hq.absent, hq.counts, ?_, hq.locked, hq.strong,
      hq.unique, fun d hd => ?_⟩
    · show KernelInv (s.locks.drop q) q (s.procs q).pLock.locktype
      rw [hno]
      exact .no_lock
    · obtain ⟨f, hf, hfp, -⟩ := hq.pc d hd
      have hmem := (hq.opened d).mpr ⟨f, hf, hfp⟩
      rw [hempty] at hmem
      cases hmem
  · exact (h q).frame rfl (fun _ _ _ => Iff.rfl) (fun x m hm => (holds_drop_of_ne hq).mpr hm) hex

/-- A process ends: its connections and its locks go with it. -/
theorem exit_inv : PosixInv
    { locks := s.locks.drop p
      procs := Function.update s.procs p .new
      files := fun c => (s.files c).filter fun f => f.pid ≠ p } := by
  refine ⟨Function.update O p ∅, Function.update H p ∅, fun q => ?_⟩
  rcases eq_or_ne q p with rfl | hq
  · rw [Function.update_self, Function.update_self]
    exact .of_new (Function.update_self ..) fun c f hf =>
      of_decide_eq_true (Option.filter_eq_some_iff.mp hf).2
  · rw [Function.update_of_ne hq, Function.update_of_ne hq]
    refine (h q).frame (Function.update_of_ne hq ..) (fun c f hf => ?_)
      (fun x m hm => (holds_drop_of_ne hq).mpr hm) fun hex r hr m hm =>
        (h q).kernel.exclusive hex r hr m (LockTable.holds_drop.mp hm).1
    show (s.files c).filter _ = some f ↔ _
    rw [Option.filter_eq_some_iff]
    refine ⟨And.left, fun hs => ⟨hs, decide_eq_true ?_⟩⟩
    rw [hf]
    exact hq

end Steps

/-! ### Runs -/

/-- A connection whose process is outside of the mutex. -/
theorem free_cases {closing : Bool} (h : s.free c closing = some (f, P)) :
    s.files c = some f ∧ P = s.procs f.pid ∧ (s.procs f.pid).pc = .idle := by
  unfold PosixState.free at h
  obtain ⟨g, hg, h⟩ := Option.bind_eq_some_iff.mp h
  dsimp only at h
  split at h
  · next hidle =>
    cases h
    exact ⟨hg, rfl, hidle.1⟩
  · cases h

/-- **One step** of a process keeps the invariant of all of them, in an orderly run. -/
theorem PosixInv.step (h : PosixInv s) {a : PosixCall} {r : SqlRet}
    (hs : posixCall s a = some (r, s')) (horderly : Orderly s (a, r)) : PosixInv s' := by
  obtain ⟨O, H, h⟩ := h
  cases a with
  | «open» c pid fd =>
    simp only [posixCall] at hs
    split at hs
    · next hnew => exact of_result hs (open_inv h hnew.1 hnew.2)
    · cases hs
  | openFailed pid => exact of_result hs (openFailed_inv h horderly)
  | lock c locktype =>
    obtain ⟨⟨f, P⟩, hfree, hs⟩ := Option.bind_eq_some_iff.mp hs
    obtain ⟨hf, rfl, hpc⟩ := free_cases hfree
    dsimp only at hs
    split at hs
    · next hargs => exact of_result hs (unixLock_inv h hf hpc hargs)
    · cases hs
  | unlock c locktype =>
    obtain ⟨⟨f, P⟩, hfree, hs⟩ := Option.bind_eq_some_iff.mp hs
    obtain ⟨hf, rfl, hpc⟩ := free_cases hfree
    dsimp only at hs
    split at hs
    · next hle => exact of_result hs (unixUnlock_inv h hf hpc hle)
    · cases hs
  | close c =>
    obtain ⟨⟨f, P⟩, hfree, hs⟩ := Option.bind_eq_some_iff.mp hs
    obtain ⟨hf, rfl, hpc⟩ := free_cases hfree
    exact of_result hs (unixClose_inv h hf hpc)
  | closeFile c realloc close =>
    obtain ⟨⟨f, P⟩, hfree, hs⟩ := Option.bind_eq_some_iff.mp hs
    obtain ⟨hf, rfl, hpc⟩ := free_cases hfree
    exact of_result hs (closeFile_inv h hf hpc (horderly f hf))
  | checkReservedLock c ok =>
    obtain ⟨⟨f, P⟩, hfree, hs⟩ := Option.bind_eq_some_iff.mp hs
    exact of_result hs ⟨O, H, h⟩
  | sys pid ok => exact sysCall_inv h hs horderly
  | exit pid => exact of_result hs (exit_inv h)

variable {as : List (PosixCall × SqlRet)}

/-- **Every orderly run** keeps the invariant, by induction from the step. -/
theorem posixInv_run (hrun : (posixSystem.restrict Orderly).Run as s) : PosixInv s := by
  refine hrun.invariant (I := PosixInv) ?_ ?_
  · rintro s rfl
    refine ⟨fun _ => ∅, fun _ => ∅, fun p => ⟨fun c => ?_, rfl, rfl, fun _ => rfl,
      ⟨Nat.le_refl _, rfl, fun _ => rfl, fun _ _ => rfl, by rintro ⟨⟩⟩, .no_lock, by rintro c f ⟨⟩,
      by rintro c f ⟨⟩, by rintro c f d g ⟨⟩, by rintro c ⟨⟩⟩⟩
    simp only [Finset.notMem_empty, false_iff]
    rintro ⟨f, ⟨⟩, -⟩
  · rintro s ⟨a, r⟩ s' h ⟨hs, horderly⟩
    exact h.step hs horderly

end Ecos.Sqlite
