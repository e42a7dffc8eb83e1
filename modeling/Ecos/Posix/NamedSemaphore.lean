import Ecos.Posix.Semaphore
import Ecos.Lib.LinkedList

namespace Ecos.Posix

open Ecos.Lib

/-!
# Named semaphores

`sem_open`, `sem_close` and `sem_unlink` as `sem.cxx` computes them: on a heap of `malloc`
blocks, through the pointers `psem_list` and `pnext`, under `name_mutex`.

* `Block`, `SemName`, `SemState` — the module's memory: name buffers, `sem_name` records,
  the list head and the lock;
* `SemState.search` — the loop that looks a semaphore up, leaving `psem` and `plast`;
* `semOpen`, `semClose`, `semUnlink` — the calls, each with the part behind the search as a
  definition of its own (`openExisting`, `openMissing`, …).  `none` is undefined behaviour: a block
  that is not live was touched, `open_count` overflowed, or the loop did not end;
* `semCall` — one step of the module: a call by some thread, or the kernel changing a
  semaphore because threads wait on it and post it.
-/

/-- `struct sem_name`: a node of `psem_list`, with the semaphore inside. -/
structure SemName where
  pname : Addr
  sem : CountingSemaphore
  openCount : Int
  pnext : Addr
  deriving DecidableEq, Repr

/-- What the module allocates: a character buffer for a name, or a `sem_name`. -/
inductive Block
  | chars (b : List UInt8)
  | semName (n : SemName)
  deriving DecidableEq, Repr

/-- The module's memory: the heap, the head of the list, and the mutex that guards it. -/
structure SemState where
  heap : Heap Block
  psemList : Addr
  /-- Is `name_mutex` locked? -/
  nameMutex : Bool

/-- The bits of `oflag` that the code tests; the others are not looked at. -/
structure OFlag where
  creat : Bool
  excl : Bool
  deriving DecidableEq, Repr

/-- Offset of the member `sem` in `struct sem_name`, by which a user's pointer leads back to the
    record. -/
def semOffset : Nat := 4

/-- `&p->sem`: the address that `sem_open` returns to its caller. -/
def semAddr (p : Addr) : Addr := p + semOffset

/-- `SEM_FAILED`, which no semaphore has as its address -/
def SEM_FAILED : Addr := 0

/-- `n++` on an `int`; overflow is undefined, so there is no result then. -/
def incInt (n : Int) : Option Int := if n < 2 ^ 31 - 1 then some (n + 1) else none

/-- Below the maximum of an `int` the increment is what it says. -/
theorem incInt_of_lt {n : Int} (h : n < 2 ^ 31 - 1) : incInt n = some (n + 1) := if_pos h

/-- At the maximum of an `int` there is no value to go on with. -/
theorem incInt_of_ge {n : Int} (h : 2 ^ 31 - 1 ≤ n) : incInt n = none := if_neg (not_lt.mpr h)

/-! ### Memory access -/

namespace SemState

/-- The module before its first call: no semaphores, and the mutex free. -/
def empty : SemState := ⟨Heap.empty, 0, false⟩

/-- `*p` for a `sem_name *`; none where no such record is allocated. -/
def node (s : SemState) (p : Addr) : Option SemName :=
  match s.heap.load p with
  | some (.semName n) => some n
  | _ => none

/-- The buffer at `p`; none where no buffer is allocated. -/
def chars (s : SemState) (p : Addr) : Option (List UInt8) :=
  match s.heap.load p with
  | some (.chars b) => some b
  | _ => none

/-- `*p = n`, which has no result without a block at `p`. -/
def setNode (s : SemState) (p : Addr) (n : SemName) : Option SemState := do
  return { s with heap := ← s.heap.store p (.semName n) }

/-- Overwrite the buffer at `p`, as `strcpy` or a single store does. -/
def setChars (s : SemState) (p : Addr) (b : List UInt8) : Option SemState := do
  return { s with heap := ← s.heap.store p (.chars b) }

/-- `free(p)`; without a block at `p` there is no result. -/
def free (s : SemState) (p : Addr) : Option SemState := do
  return { s with heap := ← s.heap.free p }

/-- `name_mutex.lock()`; a call body never runs while another holds the lock. -/
def lock (s : SemState) : Option SemState :=
  if s.nameMutex then none else some { s with nameMutex := true }

/-- `name_mutex.unlock()`, with which every function leaves -/
def unlock (s : SemState) : SemState := { s with nameMutex := false }

/-- `for (psem = plast = psem_list; psem != NULL; psem = psem->pnext)
    { if (hit) break; plast = psem; }`. -/
def search (s : SemState) (hit : Addr → SemName → Option Bool) : Option (Addr × Addr) :=
  walk (fun p => (s.node p).map SemName.pnext) (fun p => s.node p >>= hit p)
    (s.heap.live.card + 1) s.psemList s.psemList

/-- The search for a name: `strcmp(name, psem->pname) == 0`, which also yields the node before. -/
def searchName (s : SemState) (name : List UInt8) : Option (Addr × Addr) :=
  s.search (fun _ n => (s.chars n.pname).map (strEq name))

/-- The search for a semaphore address: `sem == &(psem->sem)`, which also yields the node before. -/
def searchSem (s : SemState) (sem : Addr) : Option (Addr × Addr) :=
  s.search (fun p _ => some (sem == semAddr p))

/-- Take `psem` off the list and free its name and itself; `plast` is the node before, or `psem`
    when it is the first. -/
def remove (s : SemState) (psem plast : Addr) : Option SemState := do
  let n ← s.node psem
  let s ←
    if psem = plast then some { s with psemList := n.pnext }
    else do
      let m ← s.node plast
      s.setNode plast { m with pnext := n.pnext }
  let s ← s.free n.pname
  s.free psem

/-- `if (plast == NULL) psem_list = new; else plast->pnext = new;`. -/
def link (s : SemState) (plast new : Addr) : Option SemState :=
  if plast = 0 then some { s with psemList := new }
  else do
    let m ← s.node plast
    s.setNode plast { m with pnext := new }

end SemState

/-! ### The calls -/

/-- `sem_open` when the named semaphore exists: one more open, unless `O_CREAT` and `O_EXCL` forbid
    it. -/
def openExisting (s : SemState) (psem : Addr) (oflag : OFlag) :
    Option (Ret Addr × SemState) := do
  if oflag.creat && oflag.excl then
    return (⟨SEM_FAILED, some .EEXIST⟩, s)
  let n ← s.node psem
  let k ← incInt n.openCount
  let s ← s.setNode psem { n with openCount := k }
  return (⟨semAddr psem, none⟩, s)

/-- `sem_open` when the named semaphore does not exist: two allocations and `sem_init`, each of
    which can fail. -/
def openMissing (semValueMax : Nat) (s : SemState) (plast : Addr) (name : List UInt8)
    (oflag : OFlag) (value : Nat) (buf new : Addr) : Option (Ret Addr × SemState) :=
  if !oflag.creat then
    some (⟨SEM_FAILED, some .ENOENT⟩, s)
  else
    match s.heap.malloc buf (.chars []) with
    | none => some (⟨SEM_FAILED, some .ENOMEM⟩, s)
    | some h₁ =>
      match h₁.malloc new (.semName ⟨0, .new 0, 0, 0⟩) with
      | none => do
        let s ← { s with heap := h₁ }.free buf
        return (⟨SEM_FAILED, some .ENOMEM⟩, s)
      | some h₂ =>
        let s := { s with heap := h₂ }
        match semInit semValueMax value with
        | (r, none) => do
          -- `sem_init` has set `errno`
          let s ← s.free buf
          let s ← s.free new
          return (⟨SEM_FAILED, r.errno⟩, s)
        | (_, some sem) => do
          let s ← s.setChars buf (strcpy name)
          let s ← s.setNode new ⟨buf, sem, 1, 0⟩
          let s ← s.link plast new
          return (⟨semAddr new, none⟩, s)

/-- `sem_open(name, oflag, mode, value)`.  `buf` and `new` are the answers `malloc` gives
    for the name buffer and for the `sem_name`. -/
def semOpen (semValueMax : Nat) (s : SemState) (name : List UInt8) (oflag : OFlag)
    (value : Nat) (buf new : Addr) : Option (Ret Addr × SemState) := do
  if strlen name = 0 then
    return (⟨SEM_FAILED, some .EINVAL⟩, s)
  let s ← s.lock
  let (psem, plast) ← s.searchName name
  let (r, s) ←
    if psem ≠ 0 then openExisting s psem oflag
    else openMissing semValueMax s plast name oflag value buf new
  return (r, s.unlock)

/-- `sem_close` on a semaphore of the list: the last close of an unlinked one frees it. -/
def closeExisting (s : SemState) (psem plast : Addr) : Option (Ret Int × SemState) := do
  let n ← s.node psem
  let b ← s.chars n.pname
  if n.openCount = 1 ∧ strlen b = 0 then
    -- last close of a semaphore that is already unlinked
    let r := semDestroy n.sem
    if r.val = -1 then
      return (⟨-1, r.errno⟩, s)
    let s ← s.remove psem plast
    return (⟨0, none⟩, s)
  else if 0 < n.openCount then
    let s ← s.setNode psem { n with openCount := n.openCount - 1 }
    return (⟨0, none⟩, s)
  else
    return (⟨0, none⟩, s)

/-- `sem_close(sem)`: the semaphore is looked for by its address. -/
def semClose (s : SemState) (sem : Addr) : Option (Ret Int × SemState) := do
  let s ← s.lock
  let (psem, plast) ← s.searchSem sem
  let (r, s) ←
    if psem = 0 then some (⟨-1, some .EINVAL⟩, s)
    else closeExisting s psem plast
  return (r, s.unlock)

/-- `sem_unlink` on a semaphore of the list: freed when it is not open, and otherwise its name is
    emptied. -/
def unlinkExisting (s : SemState) (psem plast : Addr) : Option (Ret Int × SemState) := do
  let n ← s.node psem
  if n.openCount = 0 then
    let r := semDestroy n.sem
    if r.val = -1 then
      return (⟨-1, r.errno⟩, s)
    let s ← s.remove psem plast
    return (⟨0, none⟩, s)
  else
    -- `psem->pname[0] = 0`
    let b ← s.chars n.pname
    let s ← s.setChars n.pname (b.set 0 0)
    return (⟨0, none⟩, s)

/-- `sem_unlink(name)`: the semaphore is looked for by its name, which must not be empty. -/
def semUnlink (s : SemState) (name : List UInt8) : Option (Ret Int × SemState) := do
  if strlen name = 0 then
    return (⟨-1, some .ENOENT⟩, s)
  let s ← s.lock
  let (psem, plast) ← s.searchName name
  let (r, s) ←
    if psem = 0 then some (⟨-1, some .ENOENT⟩, s)
    else unlinkExisting s psem plast
  return (r, s.unlock)

/-! ### One step of the module -/

/-- What can happen: a call by some thread, or a change of a semaphore's count and queue
    by the threads that wait on it and post it. -/
inductive SemCall
  | semOpen (name : List UInt8) (oflag : OFlag) (value : Nat) (buf new : Addr)
  | semClose (sem : Addr)
  | semUnlink (name : List UInt8)
  | kernel (sem : Addr) (state : CountingSemaphore)
  deriving DecidableEq, Repr

/-- What a call returns, with the `errno` that it has set. -/
inductive SemRet
  | ptr (r : Ret Addr)
  | int (r : Ret Int)
  | none
  deriving DecidableEq, Repr

/-- The state after a step, with what the call returned; none where the code's behaviour is
    undefined. -/
def semCall (semValueMax : Nat) (s : SemState) : SemCall → Option (SemRet × SemState)
  | .semOpen name oflag value buf new =>
    (semOpen semValueMax s name oflag value buf new).map fun (r, s) => (.ptr r, s)
  | .semClose sem => (semClose s sem).map fun (r, s) => (.int r, s)
  | .semUnlink name => (semUnlink s name).map fun (r, s) => (.int r, s)
  | .kernel sem state => do
    -- only a semaphore on the list has a queue
    let (psem, _) ← s.searchSem sem
    if psem = 0 then return (.none, s)
    let n ← s.node psem
    return (.none, ← s.setNode psem { n with sem := state })

end Ecos.Posix
