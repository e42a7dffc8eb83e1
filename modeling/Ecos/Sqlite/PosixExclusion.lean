import Ecos.Sqlite.PosixInvariant

namespace Ecos.Sqlite

open Ecos.Lib

/-!
# POSIX locks exclude each other

What the locks of `PosixLocks` guarantee, in every orderly run of all processes.

* `PosixState.lockOf` — the lock that a connection can rely on;
* `posix_exclusion` — a connection with an exclusive lock is alone, and there are never two with a
  reserved lock, nor two with a pending one;
* `posix_reserved` — `unixCheckReservedLock` sees the reserved locks of all processes;
* `posix_pending` — a pending lock keeps the processes out that do not read already.
-/

variable {s s' : PosixState} {p q c d : Nat} {f : PosixFile} {P : PosixProc}
  {H : Finset Nat} {as : List (PosixCall × SqlRet)}

/-! ### The locks of the connections -/

/-- The connection whose lock is being lowered, and the lock type that it is lowered to. -/
def PosixPc.target : PosixPc → Option (Nat × LockType)
  | .unlockRead c => some (c, .SHARED_LOCK)
  | .unlockBytes c locktype => some (c, locktype)
  | .unlockAll c => some (c, .NO_LOCK)
  | .closePending c _ _ => some (c, .NO_LOCK)
  | _ => none

/-- The lock that a connection can rely on: from the moment that `unixUnlock` is called, only the
    one that is left. -/
def PosixState.lockOf (s : PosixState) (c : Nat) : LockType :=
  match s.files c with
  | none => .NO_LOCK
  | some f =>
    match (s.procs f.pid).pc.target with
    | some (d, locktype) => if d = c then locktype else f.locktype
    | none => f.locktype

/-- A lock that a connection can rely on is its own, and the process counts it. -/
theorem PosixInv.lockOf_cases {O H : Nat → Finset Nat} (h : ∀ q, ProcInv s q (O q) (H q))
    (hlock : s.lockOf c ≠ .NO_LOCK) : ∃ f, s.files c = some f ∧ c ∈ H f.pid ∧
      f.locktype ≠ .NO_LOCK ∧ (LockType.SHARED_LOCK.num < (s.lockOf c).num →
        f.locktype = s.lockOf c ∧ s.lockOf c = (s.procs f.pid).pLock.locktype) := by
  unfold PosixState.lockOf at hlock ⊢
  cases hf : s.files c with
  | none =>
    rw [hf] at hlock
    exact absurd rfl hlock
  | some f =>
    rw [hf] at hlock
    dsimp only at hlock ⊢
    have hp := h f.pid
    have hconn := hp.pc c
    have hlocked := hp.locked c f hf rfl
    have hstrong := hp.strong c f hf rfl
    have hplain : ∀ l : LockType, f.locktype ≠ .NO_LOCK →
        (s.procs f.pid).pc.released ≠ some c →
        (LockType.SHARED_LOCK.num < l.num → l = f.locktype) →
        ∃ g, some f = some g ∧ c ∈ H g.pid ∧ g.locktype ≠ .NO_LOCK ∧
          (LockType.SHARED_LOCK.num < l.num → g.locktype = l ∧
            l = (s.procs g.pid).pLock.locktype) := by
      intro l hne hrel hl
      refine ⟨f, rfl, hlocked hne hrel, hne, fun hlt => ?_⟩
      have heq := hl hlt
      exact ⟨heq.symm, heq.trans (hstrong (heq ▸ hlt) hrel)⟩
    -- the connection of the thread in the mutex is another one, or its lock is lowered
    have hlow : (s.procs f.pid).pc.conn = some c →
        PcInv s.locks f.pid (s.procs f.pid) f := by
      intro hc
      obtain ⟨g, hg, -, hpc⟩ := hconn hc
      rw [hf] at hg
      cases hg
      exact hpc
    cases hpc : (s.procs f.pid).pc with
    | unlockRead d =>
      rw [hpc] at hlock hplain
      unfold PcInv at hlow
      rw [hpc] at hlow
      dsimp only [PosixPc.target] at hlock ⊢
      split at hlock
      · next hd =>
        rw [if_pos hd]
        refine hplain _ (ne_no_lock_of_lt (hlow (congrArg some hd))) (by rintro ⟨⟩) ?_
        exact fun hlt => absurd hlt (Nat.lt_irrefl _)
      · next hd =>
        rw [if_neg hd]
        exact hplain _ hlock (by rintro ⟨⟩) fun _ => rfl
    | unlockBytes d locktype =>
      rw [hpc] at hlock hplain
      unfold PcInv at hlow
      rw [hpc] at hlow
      dsimp only [PosixPc.target] at hlock ⊢
      split at hlock
      · next hd =>
        rw [if_pos hd]
        obtain ⟨hlt, hcase⟩ := hlow (congrArg some hd)
        obtain rfl := hcase.resolve_left hlock
        exact hplain _ (ne_no_lock_of_lt hlt) (by rintro ⟨⟩)
          fun hlt => absurd hlt (Nat.lt_irrefl _)
      · next hd =>
        rw [if_neg hd]
        exact hplain _ hlock (by rintro ⟨⟩) fun _ => rfl
    | unlockAll d =>
      rw [hpc] at hlock hplain
      dsimp only [PosixPc.target] at hlock ⊢
      split at hlock
      · exact absurd rfl hlock
      · next hd =>
        rw [if_neg hd]
        exact hplain _ hlock (fun hr => hd (Option.some.inj hr)) fun _ => rfl
    | closePending d i rc =>
      rw [hpc] at hlock hplain
      dsimp only [PosixPc.target] at hlock ⊢
      split at hlock
      · exact absurd rfl hlock
      · next hd =>
        rw [if_neg hd]
        exact hplain _ hlock (fun hr => hd (Option.some.inj hr)) fun _ => rfl
    | _ =>
      rw [hpc] at hlock hplain
      exact hplain _ hlock (by rintro ⟨⟩) fun _ => rfl

/-- The process of a connection with a lock has the kernel's lock on the shared bytes. -/
theorem ProcInv.lock_ne (h : ProcInv s p O H) (hc : c ∈ H) :
    (s.procs p).pLock.locktype ≠ .NO_LOCK := by
  intro hno
  rw [h.counts.eq_empty (h.counts.no_lock hno)] at hc
  cases hc

/-- **Exclusion.**  In every run of any number of processes in which none of the failures of
    `Orderly` occurs, at every moment between two system calls: next to a connection with an
    exclusive lock no other connection has a lock, of any process; and there are no two connections
    with a reserved lock, nor with a pending one. -/
theorem posix_exclusion (hrun : (posixSystem.restrict Orderly).Run as s) (hcd : c ≠ d) :
    (s.lockOf c = .EXCLUSIVE_LOCK → s.lockOf d = .NO_LOCK) ∧
    ¬(s.lockOf c = .RESERVED_LOCK ∧ s.lockOf d = .RESERVED_LOCK) ∧
    ¬(s.lockOf c = .PENDING_LOCK ∧ s.lockOf d = .PENDING_LOCK) := by
  obtain ⟨O, H, h⟩ := posixInv_run hrun
  -- two strong locks of one type need two locks of the kernel on one byte
  have htwice : ∀ (l : LockType) (x : LockRange), LockType.SHARED_LOCK.num < l.num →
      (∀ p, (s.procs p).pLock.locktype = l → s.locks.Holds p x .write) →
      ¬(s.lockOf c = l ∧ s.lockOf d = l) := by
    rintro l x hlt hheld ⟨hc, hd⟩
    obtain ⟨f, hf, -, -, hfl⟩ := PosixInv.lockOf_cases h (hc ▸ ne_no_lock_of_lt hlt)
    obtain ⟨g, hg, -, -, hgl⟩ := PosixInv.lockOf_cases h (hd ▸ ne_no_lock_of_lt hlt)
    rw [hc] at hfl
    rw [hd] at hgl
    obtain ⟨hfl, hpl⟩ := hfl hlt
    obtain ⟨hgl, hql⟩ := hgl hlt
    have hpid := (hheld f.pid hpl.symm).unique (hheld g.pid hql.symm)
    exact hcd ((h f.pid).unique c f d g hf hg rfl hpid.symm (hfl ▸ hlt) (hgl ▸ hlt))
  refine ⟨fun hc => ?_, htwice _ .RESERVED_BYTE (by decide) fun p hp => ?_,
    htwice _ .PENDING_BYTE (by decide) fun p hp => ?_⟩
  · by_contra hd
    obtain ⟨f, hf, hcH, -, hfl⟩ := PosixInv.lockOf_cases h (by rw [hc]; rintro ⟨⟩)
    obtain ⟨g, hg, hdH, -, -⟩ := PosixInv.lockOf_cases h hd
    rw [hc] at hfl
    obtain ⟨-, hpl⟩ := hfl (by decide)
    rcases eq_or_ne g.pid f.pid with hpid | hpid
    · -- the process counts at most one
      rw [hpid] at hdH
      have hone := (h f.pid).counts.exclusive hpl.symm
      have hcard := (h f.pid).counts.card_le
      have htwo := Finset.one_lt_card.mpr ⟨c, hcH, d, hdH, hcd⟩
      omega
    · obtain ⟨m, hm⟩ := (h g.pid).kernel.shared ((h g.pid).lock_ne hdH)
      exact (h f.pid).kernel.exclusive hpl.symm g.pid hpid m hm
  · exact (h p).kernel.reserved hp
  · exact (h p).kernel.pending (Nat.le_of_eq (by rw [hp]))

/-- **A reserved lock is seen.**  When a connection of any process has a reserved lock,
    `unixCheckReservedLock` says so to every other one, unless its own system call fails or one of
    the failures of `Orderly` came before. -/
theorem posix_reserved (hrun : (posixSystem.restrict Orderly).Run as s)
    (hd : s.lockOf d = .RESERVED_LOCK) {r : SqlRet}
    (hs : posixCall s (.checkReservedLock c true) = some (r, s')) : r = .reserved true := by
  obtain ⟨O, H, h⟩ := posixInv_run hrun
  obtain ⟨g, hg, -, -, hgl⟩ := PosixInv.lockOf_cases h (by rw [hd]; rintro ⟨⟩)
  rw [hd] at hgl
  obtain ⟨-, hql⟩ := hgl (by decide)
  obtain ⟨⟨f, P⟩, hfree, hs⟩ := Option.bind_eq_some_iff.mp hs
  obtain ⟨hf, rfl, -⟩ := free_cases hfree
  cases hs
  unfold unixCheckReservedLock
  split
  · rfl
  next hlow =>
  rw [if_neg (by decide)]
  refine congrArg SqlRet.reserved (decide_eq_true ?_)
  refine ⟨_, (h g.pid).kernel.reserved hql.symm, _, List.mem_map.mpr ⟨_, List.mem_singleton_self _,
    rfl⟩, ?_, rfl, .inl rfl⟩
  rintro (hpid : g.pid = f.pid)
  apply hlow
  rw [← hpid, ← hql]
  decide

/-! ### A pending lock keeps new readers out -/

/-- The end of `unixLock` does not touch the kernel's locks. -/
theorem lockEnd_locks {locktype : LockType} {rc : SqlRc} :
    (lockEnd s c f P locktype rc).2.locks = s.locks := by
  unfold lockEnd
  split
  · rfl
  split <;> rfl

/-- The code of `unixLock` behind the pending byte does not touch the kernel's locks. -/
theorem lockOn_locks {locktype : LockType} : (lockOn s c f P locktype).2.locks = s.locks := by
  unfold lockOn
  split
  · rfl
  split
  · exact lockEnd_locks
  · rfl

/-- Counting down the locks of the process does not touch the kernel's. -/
theorem dropCount_locks : (dropCount s c f P).2.locks = s.locks := by
  unfold dropCount
  dsimp only
  split <;> rfl

/-- Nor does counting down the connections with a lock. -/
theorem countDown_locks : (countDown s c f P).2.locks = s.locks := by
  unfold countDown
  dsimp only
  split
  · rfl
  · exact dropCount_locks

/-- `unixLock` touches the kernel's locks in its system calls only. -/
theorem unixLock_locks {locktype : LockType} :
    (unixLock s c f P locktype).2.locks = s.locks := by
  unfold unixLock
  split
  · rfl
  split
  · rfl
  split
  · rfl
  split
  · rfl
  · exact lockOn_locks

/-- `unixUnlock` touches the kernel's locks in its system calls only. -/
theorem unixUnlock_locks {locktype : LockType} {s₀ : PosixState} (hs : s₀.locks = s.locks) :
    (unixUnlock s₀ c f P locktype).2.locks = s.locks := by
  unfold unixUnlock
  split
  · exact hs
  split
  · split <;> exact hs
  · exact countDown_locks.trans hs

/-- The calls of `fcntl` that may give a process a lock on the shared bytes. -/
def PosixPc.gains : PosixPc → Bool
  | .lockShared _ => true
  | .lockFinal _ _ => true
  | .unlockRead _ => true
  | _ => false

/-- A system call gives no lock on the shared bytes, unless the code asks for one there. -/
theorem sysCall_shared {ok : Bool} {r : SqlRet} {m : LockMode}
    (hs : sysCall s p ok = some (r, s')) (hgains : (s.procs p).pc.gains = false)
    (hm : s'.locks.Holds q .SHARED_RANGE m) : s.locks.Holds q .SHARED_RANGE m := by
  -- locks that are given back are no new ones
  have hunset : ∀ {xs : List LockRange}, (s.locks.unset p xs).Holds q .SHARED_RANGE m →
      s.locks.Holds q .SHARED_RANGE m := fun hm => (LockTable.holds_unset.mp hm).1
  have hdrop : (s.locks.drop p).Holds q .SHARED_RANGE m → s.locks.Holds q .SHARED_RANGE m :=
    fun hm => (LockTable.holds_drop.mp hm).1
  unfold sysCall at hs
  cases hpc : (s.procs p).pc with
  | idle =>
    simp only [hpc] at hs
    cases hs
  | lockShared c | lockFinal c locktype | unlockRead c =>
    -- here a lock on the shared bytes can be new
    rw [hpc] at hgains
    cases hgains
  | lockPending c locktype =>
    simp only [hpc] at hs
    obtain ⟨f, -, hs⟩ := Option.bind_eq_some_iff.mp hs
    split at hs
    · next T' hset =>
      -- the pending byte is none of the shared ones
      have heq := congrArg (·.2.locks) (Option.some.inj hs)
      rw [← heq] at hm
      rw [lockOn_locks] at hm
      exact (LockTable.holds_set_of_notMem (setLock_cases hset) (by decide)).mp hm
    · cases hs
      exact hm
  | dropPending c r =>
    simp only [hpc] at hs
    obtain ⟨f, -, hs⟩ := Option.bind_eq_some_iff.mp hs
    -- at most the pending byte is given back
    have hlocks : s'.locks = if ok then s.locks.unset p [.PENDING_BYTE] else s.locks := by
      split at hs
      · cases hs
        rfl
      split at hs
      · have heq := congrArg (·.2.locks) (Option.some.inj hs)
        exact heq.symm.trans lockEnd_locks
      · have heq := congrArg (·.2.locks) (Option.some.inj hs)
        exact heq.symm.trans lockEnd_locks
    rw [hlocks] at hm
    split at hm
    · exact hunset hm
    · exact hm
  | unlockBytes c locktype =>
    simp only [hpc] at hs
    obtain ⟨f, -, hs⟩ := Option.bind_eq_some_iff.mp hs
    split at hs
    · cases hs
      exact hm
    split at hs
    · have heq := congrArg (·.2.locks) (Option.some.inj hs)
      rw [← heq] at hm
      rw [countDown_locks] at hm
      exact hunset hm
    · cases hs
      exact hunset hm
  | unlockAll c =>
    simp only [hpc] at hs
    obtain ⟨f, -, hs⟩ := Option.bind_eq_some_iff.mp hs
    split at hs
    · cases hs
      exact hm
    · have heq := congrArg (·.2.locks) (Option.some.inj hs)
      rw [← heq] at hm
      rw [dropCount_locks] at hm
      exact hdrop hm
  | closePending c i rc =>
    simp only [hpc] at hs
    obtain ⟨f, -, hs⟩ := Option.bind_eq_some_iff.mp hs
    split at hs
    · split at hs
      · cases hs
        exact hm
      split at hs
      · cases hs
        exact hm
      · cases hs
        exact hdrop hm
    · split at hs
      · cases hs
        exact hm
      · cases hs
        exact hm

/-- A process gets a lock on the shared bytes only by one of the calls that give it one. -/
theorem posixCall_shared {a : PosixCall} {r : SqlRet} {m : LockMode}
    (hs : posixCall s a = some (r, s')) (hm : s'.locks.Holds q .SHARED_RANGE m) :
    s.locks.Holds q .SHARED_RANGE m ∨ (s.procs q).pc.gains = true := by
  have hsame : ∀ {x : SqlRet × PosixState}, some x = some (r, s') → x.2.locks = s.locks →
      s.locks.Holds q .SHARED_RANGE m := by
    intro x hx hlocks
    rw [← hlocks, congrArg Prod.snd (Option.some.inj hx)]
    exact hm
  have hdrop : ∀ {p}, s'.locks = s.locks.drop p → s.locks.Holds q .SHARED_RANGE m := by
    intro p hlocks
    rw [hlocks] at hm
    exact (LockTable.holds_drop.mp hm).1
  cases a with
  | «open» c pid fd =>
    simp only [posixCall] at hs
    split at hs
    · exact .inl (hsame hs rfl)
    · cases hs
  | openFailed pid =>
    cases hs
    exact .inl (hdrop rfl)
  | lock c locktype =>
    obtain ⟨⟨f, P⟩, -, hs⟩ := Option.bind_eq_some_iff.mp hs
    dsimp only at hs
    split at hs
    · exact .inl (hsame hs unixLock_locks)
    · cases hs
  | unlock c locktype =>
    obtain ⟨⟨f, P⟩, -, hs⟩ := Option.bind_eq_some_iff.mp hs
    dsimp only at hs
    split at hs
    · exact .inl (hsame hs (unixUnlock_locks rfl))
    · cases hs
  | close c =>
    obtain ⟨⟨f, P⟩, -, hs⟩ := Option.bind_eq_some_iff.mp hs
    exact .inl (hsame hs (unixUnlock_locks rfl))
  | closeFile c realloc close =>
    obtain ⟨⟨f, P⟩, -, hs⟩ := Option.bind_eq_some_iff.mp hs
    have hlocks := congrArg (·.2.locks) (Option.some.inj hs)
    dsimp only [closeFile] at hlocks
    split at hlocks
    · exact .inl (hdrop hlocks.symm)
    · rw [← hlocks] at hm
      exact .inl hm
  | checkReservedLock c ok =>
    obtain ⟨⟨f, P⟩, -, hs⟩ := Option.bind_eq_some_iff.mp hs
    exact .inl (hsame hs rfl)
  | sys p ok =>
    cases hg : (s.procs p).pc.gains with
    | false => exact .inl (sysCall_shared hs hg hm)
    | true =>
      rcases eq_or_ne q p with rfl | hq
      · exact .inr hg
      · -- the call sets a lock of another process
        left
        have hset : ∀ {xs : List LockRange} {mode : LockMode} {T' : LockTable Nat LockRange},
            setLock s p xs mode ok = some T' → (T'.Holds q .SHARED_RANGE m ↔
              s.locks.Holds q .SHARED_RANGE m) :=
          fun hset => LockTable.holds_set_of_ne (setLock_cases hset) hq
        simp only [posixCall] at hs
        unfold sysCall at hs
        cases hpc : (s.procs p).pc with
        | lockShared c =>
          simp only [hpc] at hs
          obtain ⟨f, -, hs⟩ := Option.bind_eq_some_iff.mp hs
          split at hs
          · next T' hT =>
            cases hs
            exact (hset hT).mp hm
          · cases hs
            exact hm
        | lockFinal c locktype =>
          simp only [hpc] at hs
          obtain ⟨f, -, hs⟩ := Option.bind_eq_some_iff.mp hs
          split at hs
          · next T' hT =>
            have heq := congrArg (·.2.locks) (Option.some.inj hs)
            rw [← heq] at hm
            rw [lockEnd_locks] at hm
            exact (hset hT).mp hm
          · exact hsame hs lockEnd_locks
        | unlockRead c =>
          simp only [hpc] at hs
          obtain ⟨f, -, hs⟩ := Option.bind_eq_some_iff.mp hs
          split at hs
          · next T' hT =>
            cases hs
            exact (hset hT).mp hm
          · cases hs
            exact hm
        | _ =>
          rw [hpc] at hg
          cases hg
  | exit pid =>
    cases hs
    exact .inl (hdrop rfl)

/-- **A pending lock keeps new readers out.**  While a connection has a pending or an exclusive
    lock, no step of any process gives a lock to a connection of a process that does not have the
    kernel's lock on the shared bytes already. -/
theorem posix_pending (hrun : (posixSystem.restrict Orderly).Run as s)
    (hc : LockType.PENDING_LOCK.num ≤ (s.lockOf c).num) {a : PosixCall × SqlRet}
    (hs : (posixSystem.restrict Orderly).step s a s')
    (hnone : ∀ m, ¬s.locks.Holds q .SHARED_RANGE m) :
    (∀ m, ¬s'.locks.Holds q .SHARED_RANGE m) ∧
      ∀ d f, s'.files d = some f → f.pid = q → s'.lockOf d = .NO_LOCK := by
  obtain ⟨O, H, h⟩ := posixInv_run hrun
  have hnone' : ∀ m, ¬s'.locks.Holds q .SHARED_RANGE m := by
    intro m hm
    rcases posixCall_shared hs.1 hm with hold | hgains
    · exact hnone m hold
    have hno : (s.procs q).pLock.locktype = .NO_LOCK := by
      by_contra hne
      obtain ⟨m', hm'⟩ := (h q).kernel.shared hne
      exact hnone m' hm'
    -- the connection with the pending lock has the pending byte
    have hlt : LockType.SHARED_LOCK.num < (s.lockOf c).num := Nat.lt_of_lt_of_le (by decide) hc
    obtain ⟨f, -, -, -, hfl⟩ := PosixInv.lockOf_cases h (ne_no_lock_of_lt hlt)
    have hpending := (h f.pid).kernel.pending ((hfl hlt).2 ▸ hc)
    have hmem := (h f.pid).kernel.shared ((hfl hlt).2 ▸ ne_no_lock_of_lt hlt)
    have hpc := (h q).pc
    unfold PcInv at hpc
    cases hq : (s.procs q).pc with
    | lockShared d =>
      rw [hq] at hpc
      obtain ⟨g, -, -, -, -, hread⟩ := hpc d rfl
      have hpid := hpending.unique hread
      obtain ⟨m', hm'⟩ := hmem
      rw [hpid] at hm'
      exact hnone m' hm'
    | lockFinal d locktype =>
      rw [hq] at hpc
      obtain ⟨g, -, -, hlock, hcase⟩ := hpc d rfl
      rw [hno] at hlock
      rcases hcase with ⟨-, hl⟩ | ⟨-, hl, -⟩
      · cases hlock.symm.trans hl
      · exact hl hlock
    | unlockRead d =>
      have hstrong := (h q).strong
      rw [hq] at hpc hstrong
      obtain ⟨g, hg, hgp, hlt⟩ := hpc d rfl
      have hl := hstrong d g hg hgp hlt (by rintro ⟨⟩)
      exact ne_no_lock_of_lt hlt (hl.trans hno)
    | _ =>
      rw [hq] at hgains
      cases hgains
  refine ⟨hnone', fun d f hf hfq => ?_⟩
  by_contra hd
  obtain ⟨O', H', h'⟩ := posixInv_run (hrun.step hs)
  obtain ⟨g, hg, hmem, -, -⟩ := PosixInv.lockOf_cases h' hd
  rw [hf] at hg
  cases hg
  obtain ⟨m, hm⟩ := (h' f.pid).kernel.shared ((h' f.pid).lock_ne hmem)
  rw [hfq] at hm
  exact hnone' m hm

/-! ### Two processes -/

/-- Two processes with a connection each: both read, and the first one is about to write. -/
def twoReaders : List PosixCall :=
  [.open 0 10 3, .open 1 11 3, .lock 0 .SHARED_LOCK, .lock 1 .SHARED_LOCK, .sys 10 true,
    .sys 11 true, .sys 11 true, .sys 10 true, .sys 11 true, .sys 10 true, .lock 0 .RESERVED_LOCK,
    .sys 10 true]

/-- It asks for the exclusive lock, which the other one's lock keeps it from. -/
def pendingWriter : List PosixCall :=
  twoReaders ++ [.lock 0 .EXCLUSIVE_LOCK, .sys 10 true, .sys 10 true]

/-- The other one stops reading, and it asks again. -/
def exclusiveWriter : List PosixCall :=
  pendingWriter ++ [.unlock 1 .NO_LOCK, .sys 11 true, .lock 0 .EXCLUSIVE_LOCK, .sys 10 true]

/-- One process has an `EXCLUSIVE_LOCK`, and the other one has none, after it has asked and been
    refused. -/
theorem posix_exclusion_writer : ∃ s : PosixState,
    s.lockOf 0 = .EXCLUSIVE_LOCK ∧ s.lockOf 1 = .NO_LOCK := by
  obtain ⟨os, s, hex, hlock⟩ : ∃ os s, LTS.exec (LTS.guard posixCall Orderly) exclusiveWriter
      .init = some (os, s) ∧ s.lockOf 0 = .EXCLUSIVE_LOCK := ⟨_, _, rfl, rfl⟩
  exact ⟨s, hlock, (posix_exclusion (LTS.Run.exec_restrict (.init rfl) hex) Nat.zero_ne_one).1
    hlock⟩

/-- Without memory, `unixClose` closes the descriptor of a second connection of the writer's
    process, and the kernel's locks of the process are gone. -/
theorem posix_exclusion_leak : ∃ os s, LTS.exec posixCall (exclusiveWriter ++
    [.open 2 10 4, .close 2, .closeFile 2 false true, .lock 1 .SHARED_LOCK, .sys 11 true,
      .sys 11 true, .sys 11 true]) .init = some (os, s) ∧
    s.lockOf 0 = .EXCLUSIVE_LOCK ∧ s.lockOf 1 = .SHARED_LOCK :=
  ⟨_, _, rfl, rfl, rfl⟩

/-- A process with a `RESERVED_LOCK` is seen by another one. -/
theorem posix_reserved_reader : ∃ s s' r, s.lockOf 0 = .RESERVED_LOCK ∧
    posixCall s (.checkReservedLock 1 true) = some (r, s') ∧ r = .reserved true := by
  obtain ⟨os, s, hex, hlock, s', r, hs⟩ : ∃ os s, LTS.exec (LTS.guard posixCall Orderly) twoReaders
      .init = some (os, s) ∧ s.lockOf 0 = .RESERVED_LOCK ∧
      ∃ s' r, posixCall s (.checkReservedLock 1 true) = some (r, s') :=
    ⟨_, _, rfl, rfl, _, _, rfl⟩
  exact ⟨s, s', r, hlock, hs, posix_reserved (LTS.Run.exec_restrict (.init rfl) hex) hlock hs⟩

/-- A third process asks for a shared lock. -/
theorem posix_pending_reader : ∃ s s' : PosixState, s.lockOf 0 = .PENDING_LOCK ∧
    posixCall s (.sys 12 true) = some (.rc .BUSY, s') ∧
    ∀ d f, s'.files d = some f → f.pid = 12 → s'.lockOf d = .NO_LOCK := by
  obtain ⟨os, s, hex, hlock, s', hs, hnone⟩ : ∃ os s, LTS.exec (LTS.guard posixCall Orderly)
      (pendingWriter ++ [.open 2 12 3, .lock 2 .SHARED_LOCK]) .init = some (os, s) ∧
      s.lockOf 0 = .PENDING_LOCK ∧ ∃ s', posixCall s (.sys 12 true) = some (.rc .BUSY, s') ∧
      ∀ m, ¬s.locks.Holds 12 .SHARED_RANGE m :=
    ⟨_, _, rfl, rfl, _, rfl, by intro m; cases m <;> decide⟩
  exact ⟨s, s', hlock, hs, (posix_pending (LTS.Run.exec_restrict (.init rfl) hex)
    (by rw [hlock]) (a := (.sys 12 true, .rc .BUSY)) ⟨hs, fun _ => rfl⟩ hnone).2⟩

end Ecos.Sqlite
