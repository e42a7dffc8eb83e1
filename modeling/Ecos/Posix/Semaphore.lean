import Ecos.Lib.Heap
import Ecos.Lib.CString

namespace Ecos.Posix

open Ecos.Lib

/-!
# Semaphore objects

The part of the POSIX semaphore package that works on one `sem_t`: the kernel's counting
semaphore it wraps, and `sem_init`, `sem_destroy`, `sem_trywait`, `sem_post` on it.

* `CountingSemaphore` — the kernel object: its count and the number of threads queued on it;
* `semInit`, `semDestroy`, `semTrywait`, `semPost` — the calls, each with the value it
  returns and what it does to `errno` (`none` when it leaves `errno` alone).
-/

/-- The error numbers the modelled calls set, as `errno` reports them to the caller. -/
inductive Errno
  | EINVAL | EEXIST | ENOENT | ENOMEM | EBUSY | EAGAIN
  deriving DecidableEq, Repr

/-- What a call returns, and the value it stores in `errno` (`none`: not stored). -/
structure Ret (α : Type) where
  val : α
  errno : Option Errno
  deriving DecidableEq, Repr

/-- The kernel's counting semaphore, as far as the calls look at it. -/
structure CountingSemaphore where
  count : Nat
  /-- Threads queued on the semaphore. -/
  waiting : Nat
  deriving DecidableEq, Repr

/-- A counting semaphore as its constructor leaves it, with nobody waiting. -/
def CountingSemaphore.new (value : Nat) : CountingSemaphore := ⟨value, 0⟩

/-- `SEMA_RETURN(err)`: 0, or -1 with `errno` set, which is how the calls that answer an `int`
    end. -/
def semaReturn (err : Option Errno) : Ret Int :=
  match err with
  | none => ⟨0, none⟩
  | some e => ⟨-1, some e⟩

/-- `sem_init`: the new semaphore, or `none` in the second component when the value is
    refused and the object is not constructed.  `semValueMax` is `SEM_VALUE_MAX`. -/
def semInit (semValueMax value : Nat) : Ret Int × Option CountingSemaphore :=
  if value > semValueMax then (semaReturn (some .EINVAL), none)
  else (semaReturn none, some (.new value))

/-- `sem_destroy`: refused while threads wait, and then the semaphore is as it was. -/
def semDestroy (sema : CountingSemaphore) : Ret Int :=
  if sema.waiting ≠ 0 then semaReturn (some .EBUSY) else semaReturn none

/-- `sem_trywait`: decrement the count if it is positive, else fail with `EAGAIN`. -/
def semTrywait (sema : CountingSemaphore) : Ret Int × CountingSemaphore :=
  if 0 < sema.count then (semaReturn none, { sema with count := sema.count - 1 })
  else (semaReturn (some .EAGAIN), sema)

/-- `sem_post`: increment the count and wake a waiter if there is one. -/
def semPost (sema : CountingSemaphore) : Ret Int × CountingSemaphore :=
  (semaReturn none, { count := sema.count + 1, waiting := sema.waiting - 1 })

/-- A success returns 0, and does not touch `errno`. -/
@[simp] theorem semaReturn_none : semaReturn none = ⟨0, none⟩ := rfl
@[simp] theorem semaReturn_some (e : Errno) : semaReturn (some e) = ⟨-1, some e⟩ := rfl

/-- A value up to the largest one makes a semaphore. -/
theorem semInit_of_le {m v : Nat} (h : v ≤ m) :
    semInit m v = (⟨0, none⟩, some (.new v)) := by simp [semInit, Nat.not_lt.mpr h]

/-- A value above the largest one makes none, and the caller is told `EINVAL`. -/
theorem semInit_of_gt {m v : Nat} (h : m < v) : semInit m v = (⟨-1, some .EINVAL⟩, none) := by
  simp [semInit, h]

/-- A semaphore that somebody waits for is busy, which is how a last close can fail. -/
theorem semDestroy_of_waiting {s : CountingSemaphore} (h : s.waiting ≠ 0) :
    semDestroy s = ⟨-1, some .EBUSY⟩ := by simp [semDestroy, h]

/-- A semaphore that nobody waits for is destroyed. -/
theorem semDestroy_of_idle {s : CountingSemaphore} (h : s.waiting = 0) :
    semDestroy s = ⟨0, none⟩ := by simp [semDestroy, h]

end Ecos.Posix
