import Ecos.Sqlite.UnixFile
import Ecos.Lib.RecordLocks

namespace Ecos.Sqlite

open Ecos.Lib

/-!
# Connections with POSIX locks

The part of `os_unix.c` that opens, locks and closes a database file through `posixIoMethods`, for
one file, any number of processes, and any number of connections in each of them.

* `UnixLockInfo`, `PosixOpenCnt` — what the connections of a process share;
* `PosixPc`, `PosixProc` — a process, with the next system call of the thread that is in the mutex;
* `PosixFile`, `PosixState` — a connection, and everything;
* `unixLock`, `unixUnlock`, `unixClose`, `unixCheckReservedLock` — the calls, up to their first
  system call;
* `sysCall` — a system call, and the code up to the next one;
* `posixCall` — the steps as one function.

A step is the code between two system calls of a process, so the system calls of different
processes come in any order.  A system call may fail for any reason.  Threads override each other's
locks here, and so `transferOwnership` has nothing to do.
-/

/-- The numbers of the lock types, by which the code compares them. -/
def LockType.num : LockType → Nat
  | .NO_LOCK => 0
  | .SHARED_LOCK => 1
  | .RESERVED_LOCK => 2
  | .PENDING_LOCK => 3
  | .EXCLUSIVE_LOCK => 4

/-- The bytes of the file that are locked: none of them holds data that is locked for itself. -/
inductive LockRange
  | PENDING_BYTE | RESERVED_BYTE
  /-- From `SHARED_FIRST` on, `SHARED_SIZE` bytes. -/
  | SHARED_RANGE
  deriving DecidableEq, Repr

/-- `struct unixLockInfo`, which the connections of a process share; without references, it is not
    there. -/
structure UnixLockInfo where
  nRef : Nat
  cnt : Nat
  locktype : LockType
  deriving DecidableEq, Repr

/-- The part of `struct unixOpenCnt` that this locking style uses. -/
structure PosixOpenCnt where
  nRef : Nat
  nLock : Nat
  /-- `aPending`, `nPending` descriptors -/
  aPending : List Int
  deriving DecidableEq, Repr

/-- Where the thread in the mutex is: the connection, and the system call that comes next. -/
inductive PosixPc
  /-- No thread is in the mutex. -/
  | idle
  /-- `unixLock`: the lock on the pending byte. -/
  | lockPending (c : Nat) (locktype : LockType)
  /-- `unixLock`: the read-lock on the shared bytes. -/
  | lockShared (c : Nat)
  /-- `unixLock`: drop the temporary lock on the pending byte; `s` says whether the last call went
      well. -/
  | dropPending (c : Nat) (s : Bool)
  /-- `unixLock`: the write-lock that is asked for. -/
  | lockFinal (c : Nat) (locktype : LockType)
  /-- `unixUnlock`: turn the write-lock on the shared bytes into a read-lock. -/
  | unlockRead (c : Nat)
  /-- `unixUnlock`: unlock the pending and the reserved byte. -/
  | unlockBytes (c : Nat) (locktype : LockType)
  /-- `unixUnlock`: unlock everything. -/
  | unlockAll (c : Nat)
  /-- `unixUnlock`: close `aPending[i]`; `rc` says whether all went well so far. -/
  | closePending (c i : Nat) (rc : Bool)
  deriving DecidableEq, Repr

/-- A process: the objects that its connections share, and where its thread is. -/
structure PosixProc where
  pLock : UnixLockInfo
  pOpen : PosixOpenCnt
  pc : PosixPc
  deriving DecidableEq, Repr

/-- A process that has not opened the file: it has no shared objects and no call under way. -/
def PosixProc.new : PosixProc := ⟨⟨0, 0, .NO_LOCK⟩, ⟨0, 0, []⟩, .idle⟩

/-- A connection: the process, the descriptor and the lock type it believes to have. -/
structure PosixFile where
  pid : Nat
  h : Int
  locktype : LockType
  /-- Has `unixClose` called `unixUnlock`? -/
  closing : Bool
  deriving DecidableEq, Repr

/-- The kernel's locks, the processes and the connections, any number of each. -/
structure PosixState where
  locks : LockTable Nat LockRange
  procs : Nat → PosixProc
  files : Nat → Option PosixFile

/-- The connection `c` becomes `f`, and its process `P`; the kernel's locks stay. -/
def PosixState.put (s : PosixState) (c : Nat) (f : PosixFile) (P : PosixProc) : PosixState :=
  { s with
    procs := Function.update s.procs f.pid P
    files := Function.update s.files c (some f) }

variable (s : PosixState) (c : Nat) (f : PosixFile) (P : PosixProc)

/-! ### Opening -/

/-- `findLockInfo`: the objects of the file are shared by all connections of the process. -/
def findLockInfo : PosixProc :=
  { P with
    pLock :=
      if P.pLock.nRef = 0 then ⟨1, 0, .NO_LOCK⟩ else { P.pLock with nRef := P.pLock.nRef + 1 }
    pOpen := if P.pOpen.nRef = 0 then ⟨1, 0, []⟩ else { P.pOpen with nRef := P.pOpen.nRef + 1 } }

/-- `releaseLockInfo`: the object goes with its last reference, and what it says with it. -/
def releaseLockInfo (pLock : UnixLockInfo) : UnixLockInfo :=
  if pLock.nRef = 1 then ⟨0, 0, .NO_LOCK⟩ else { pLock with nRef := pLock.nRef - 1 }

/-- `releaseOpenCnt`: the object goes with its last reference, and the pending closes with it. -/
def releaseOpenCnt (pOpen : PosixOpenCnt) : PosixOpenCnt :=
  if pOpen.nRef = 1 then ⟨0, 0, []⟩ else { pOpen with nRef := pOpen.nRef - 1 }

/-! ### `unixLock` -/

/-- The end of `unixLock`, with the result `rc`: connection and process note the lock, or a pending
    one. -/
def lockEnd (locktype : LockType) (rc : SqlRc) : SqlRet × PosixState :=
  if rc = .OK then
    (.rc rc, s.put c { f with locktype } { P with pLock.locktype := locktype, pc := .idle })
  else if locktype = .EXCLUSIVE_LOCK then
    (.rc rc, s.put c { f with locktype := .PENDING_LOCK }
      { P with pLock.locktype := .PENDING_LOCK, pc := .idle })
  else (.rc rc, s.put c f { P with pc := .idle })

/-- `unixLock`, behind the lock on the pending byte, up to the next system call. -/
def lockOn (locktype : LockType) : SqlRet × PosixState :=
  if locktype = .SHARED_LOCK then (.none, s.put c f { P with pc := .lockShared c })
  else if locktype = .EXCLUSIVE_LOCK ∧ 1 < P.pLock.cnt then lockEnd s c f P locktype .BUSY
  else (.none, s.put c f { P with pc := .lockFinal c locktype })

/-- `unixLock`, up to the first system call: what the process knows already is answered without
    one. -/
def unixLock (locktype : LockType) : SqlRet × PosixState :=
  if locktype.num ≤ f.locktype.num then (.rc .OK, s)
  else if f.locktype ≠ P.pLock.locktype ∧
      (LockType.PENDING_LOCK.num ≤ P.pLock.locktype.num ∨
        LockType.SHARED_LOCK.num < locktype.num) then
    -- another connection of this process has a lock that precludes this one
    (.rc .BUSY, s)
  else if locktype = .SHARED_LOCK ∧
      (P.pLock.locktype = .SHARED_LOCK ∨ P.pLock.locktype = .RESERVED_LOCK) then
    (.rc .OK, s.put c { f with locktype := .SHARED_LOCK }
      { P with pLock.cnt := P.pLock.cnt + 1, pOpen.nLock := P.pOpen.nLock + 1 })
  else if locktype = .SHARED_LOCK ∨
      (locktype = .EXCLUSIVE_LOCK ∧ f.locktype.num < LockType.PENDING_LOCK.num) then
    (.none, s.put c f { P with pc := .lockPending c locktype })
  else lockOn s c f P locktype

/-! ### `unixUnlock` -/

/-- The end of `unixUnlock`, with its result: the connection notes the lock it has left. -/
def unlockEnd (locktype : LockType) (rc : SqlRc) : SqlRet × PosixState :=
  (.rc rc, s.put c (if rc = .OK then { f with locktype } else f) { P with pc := .idle })

/-- `pOpen->nLock--`, and what follows it: deferred calls of `close`, when no lock is left. -/
def dropCount : SqlRet × PosixState :=
  let P := { P with pOpen.nLock := P.pOpen.nLock - 1 }
  if P.pOpen.nLock = 0 ∧ P.pOpen.aPending ≠ [] then
    (.none, s.put c f { P with pc := .closePending c 0 true })
  else unlockEnd s c f P .NO_LOCK .OK

/-- `pLock->cnt--`, and what follows it: the locks of the process are dropped with the last one. -/
def countDown : SqlRet × PosixState :=
  let P := { P with pLock.cnt := P.pLock.cnt - 1 }
  if P.pLock.cnt = 0 then (.none, s.put c f { P with pc := .unlockAll c })
  else dropCount s c f P

/-- `unixUnlock`, up to the first system call; `locktype` is `NO_LOCK` or `SHARED_LOCK`. -/
def unixUnlock (locktype : LockType) : SqlRet × PosixState :=
  if f.locktype.num ≤ locktype.num then (.rc .OK, s)
  else if LockType.SHARED_LOCK.num < f.locktype.num then
    if locktype = .SHARED_LOCK then (.none, s.put c f { P with pc := .unlockRead c })
    else (.none, s.put c f { P with pc := .unlockBytes c locktype })
  else countDown s c f P

/-! ### System calls -/

/-- `fcntl` with `F_SETLK` and a lock; `ok` says that nothing but another lock is in the way. -/
def setLock (pid : Nat) (xs : List LockRange) (mode : LockMode) (ok : Bool) :
    Option (LockTable Nat LockRange) :=
  if ok then s.locks.set pid xs mode else none

/-- What `sqliteErrorFromPosixError` makes of the failure: busy, or an I/O error. -/
def lockError (ok : Bool) : SqlRc := if ok then .BUSY else .IOERR

/-- The system call of the process `pid`, and the code up to the next one. -/
def sysCall (pid : Nat) (ok : Bool) : Option (SqlRet × PosixState) :=
  let P := s.procs pid
  match P.pc with
  | .idle => none
  | .lockPending c locktype => do
    let f ← s.files c
    let mode := if locktype = .SHARED_LOCK then .read else .write
    match setLock s pid [.PENDING_BYTE] mode ok with
    | some locks => return lockOn { s with locks } c f P locktype
    | none => return (.rc (lockError ok), s.put c f { P with pc := .idle })
  | .lockShared c => do
    let f ← s.files c
    match setLock s pid [.SHARED_RANGE] .read ok with
    | some locks => return (.none, { s with locks }.put c f { P with pc := .dropPending c true })
    | none => return (.none, s.put c f { P with pc := .dropPending c false })
  | .dropPending c r => do
    let f ← s.files c
    let locks := if ok then s.locks.unset pid [.PENDING_BYTE] else s.locks
    let s := { s with locks }
    if !ok ∧ r then
      -- this could happen with a network mount
      return (.rc .IOERR, s.put c f { P with pc := .idle })
    else if !r then return lockEnd s c f P .SHARED_LOCK .BUSY
    else
      return lockEnd s c f { P with pLock.cnt := 1, pOpen.nLock := P.pOpen.nLock + 1 }
        .SHARED_LOCK .OK
  | .lockFinal c locktype => do
    let f ← s.files c
    let x := if locktype = .RESERVED_LOCK then .RESERVED_BYTE else .SHARED_RANGE
    match setLock s pid [x] .write ok with
    | some locks => return lockEnd { s with locks } c f P locktype .OK
    | none => return lockEnd s c f P locktype (lockError ok)
  | .unlockRead c => do
    let f ← s.files c
    match setLock s pid [.SHARED_RANGE] .read ok with
    | some locks =>
      return (.none, { s with locks }.put c f { P with pc := .unlockBytes c .SHARED_LOCK })
    | none => return unlockEnd s c f P .SHARED_LOCK (lockError ok)
  | .unlockBytes c locktype => do
    let f ← s.files c
    if !ok then return unlockEnd s c f P locktype .IOERR
    let s := { s with locks := s.locks.unset pid [.PENDING_BYTE, .RESERVED_BYTE] }
    let P := { P with pLock.locktype := .SHARED_LOCK }
    if locktype = .NO_LOCK then return countDown s c f P
    else return unlockEnd s c f P locktype .OK
  | .unlockAll c => do
    let f ← s.files c
    if !ok then return unlockEnd s c f { P with pLock.cnt := 1 } .NO_LOCK .IOERR
    return dropCount { s with locks := s.locks.drop pid } c f
      { P with pLock.locktype := .NO_LOCK }
  | .closePending c i rc => do
    let f ← s.files c
    match P.pOpen.aPending[i]? with
    | some h =>
      if h < 0 then return (.none, s.put c f { P with pc := .closePending c (i + 1) rc })
      else if !ok then return (.none, s.put c f { P with pc := .closePending c (i + 1) false })
      else
        return (.none, { s with locks := s.locks.drop pid }.put c f
          { P with
            pOpen.aPending := P.pOpen.aPending.set i (-1)
            pc := .closePending c (i + 1) rc })
    | none =>
      if rc then return unlockEnd s c f { P with pOpen.aPending := [] } .NO_LOCK .OK
      else return unlockEnd s c f P .NO_LOCK .IOERR

/-! ### Closing, and asking for a lock -/

/-- `unixClose`, up to the end of its call of `unixUnlock`; the rest is a step of its own. -/
def unixClose : SqlRet × PosixState :=
  let f := { f with closing := true }
  unixUnlock (s.put c f P) c f P .NO_LOCK

/-- The rest of `unixClose`; `realloc` says whether there is memory for the new `aPending`, and
    `close` whether the descriptor could be closed. -/
def closeFile (realloc close : Bool) : SqlRet × PosixState :=
  let deferred := P.pOpen.nLock ≠ 0 ∧ realloc = true
  let P :=
    if deferred then { P with pOpen.aPending := P.pOpen.aPending ++ [f.h] } else P
  let P := { P with pLock := releaseLockInfo P.pLock, pOpen := releaseOpenCnt P.pOpen }
  let locks := if ¬deferred ∧ close = true then s.locks.drop f.pid else s.locks
  (.rc (if ¬deferred ∧ close = false then .IOERR else .OK),
    { locks
      procs := Function.update s.procs f.pid P
      files := Function.update s.files c none })

/-- `unixCheckReservedLock`: the process asks itself first, and then the kernel. -/
def unixCheckReservedLock (ok : Bool) : SqlRet :=
  if LockType.SHARED_LOCK.num < P.pLock.locktype.num then .reserved true
  else if !ok then .rc .IOERR
  else .reserved (s.locks.Blocked f.pid [.RESERVED_BYTE] .write)

/-! ### The steps -/

/-- A step, of a connection or of the thread that is in the middle of a call. -/
inductive PosixCall
  /-- `fillInUnixFile`, for the connection `c` of the process `pid`. -/
  | «open» (c pid : Nat) (h : Int)
  /-- `fillInUnixFile` has failed, and closes its descriptor. -/
  | openFailed (pid : Nat)
  | lock (c : Nat) (locktype : LockType)
  | unlock (c : Nat) (locktype : LockType)
  | close (c : Nat)
  | closeFile (c : Nat) (realloc close : Bool)
  | checkReservedLock (c : Nat) (ok : Bool)
  /-- A system call of the thread in the mutex of the process. -/
  | sys (pid : Nat) (ok : Bool)
  /-- The process ends. -/
  | exit (pid : Nat)
  deriving DecidableEq, Repr

/-- A connection whose process has no thread in the mutex, with its process. -/
def PosixState.free (c : Nat) (closing : Bool) : Option (PosixFile × PosixProc) := do
  let f ← s.files c
  let P := s.procs f.pid
  if P.pc = .idle ∧ f.closing = closing then some (f, P) else none

/-- A step: the result of the call, if it returns, and the state afterwards. -/
def posixCall (s : PosixState) : PosixCall → Option (SqlRet × PosixState)
  | .open c pid h =>
    if s.files c = none ∧ (s.procs pid).pc = .idle then
      some (.rc .OK, s.put c ⟨pid, h, .NO_LOCK, false⟩ (findLockInfo (s.procs pid)))
    else none
  | .openFailed pid => some (.rc .IOERR, { s with locks := s.locks.drop pid })
  | .lock c locktype => do
    let (f, P) ← s.free c false
    -- the assertions on the arguments
    if (f.locktype ≠ .NO_LOCK ∨ locktype = .SHARED_LOCK) ∧ locktype ≠ .PENDING_LOCK ∧
        (locktype ≠ .RESERVED_LOCK ∨ f.locktype = .SHARED_LOCK) ∨
        locktype.num ≤ f.locktype.num then
      some (unixLock s c f P locktype)
    else none
  | .unlock c locktype => do
    let (f, P) ← s.free c false
    if locktype.num ≤ LockType.SHARED_LOCK.num then some (unixUnlock s c f P locktype) else none
  | .close c => do
    let (f, P) ← s.free c false
    some (unixClose s c f P)
  | .closeFile c realloc close => do
    let (f, P) ← s.free c true
    some (closeFile s c f P realloc close)
  | .checkReservedLock c ok => do
    let (f, P) ← s.free c false
    some (unixCheckReservedLock s f P ok, s)
  | .sys pid ok => sysCall s pid ok
  | .exit pid =>
    some (.none,
      { locks := s.locks.drop pid
        procs := Function.update s.procs pid .new
        files := fun c => (s.files c).filter fun f => f.pid ≠ pid })

/-- Nobody has the file open, and the file has no locks. -/
def PosixState.init : PosixState := ⟨.empty, fun _ => .new, fun _ => none⟩

/-- The processes and their steps, in any order: each step is a call, or the next system call of
    one that is under way. -/
def posixSystem : LTS PosixState (PosixCall × SqlRet) := .ofFun .init posixCall

end Ecos.Sqlite
