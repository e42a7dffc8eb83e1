import Ecos.Lib.RefList
import Ecos.Posix.SemaphoreTable

namespace Ecos.Sqlite

open Ecos.Lib Ecos.Posix

/-!
# Connections with named-semaphore locking

The part of `os_unix.c` that opens, locks and closes a database file through `semIoMethods`, with
the file ids, the lists of lock information, and the named semaphores behind them.

* `vxworksSimplifyName`, `semName` — the canonical form of a pathname, and the semaphore's name;
* `UnixFile`, `SqlState` — a connection, and everything that connections share;
* `findFileId`, `openSem`, `semLock`, `semUnlock`, `semCheckReservedLock`, `semPostBack`,
  `semClose`, `releaseInfo`, `releaseFileId` — the steps of the calls;
* `sqlCall` — the steps as one function.

A step is a section under the mutex, or a semaphore operation with the assignments to the fields
of the connection around it, which only its own calls read.
-/

/-! ### Names -/

/-- The loop of `vxworksSimplifyName`, on what is left of the name; `i` more characters are
    skipped, `zn` is the character behind the name, and `out` is `z[0..j-1]`, last one first. -/
def simplifyLoop (zn : UInt8) : Nat → List UInt8 → List UInt8 → List UInt8
  | _, [], out => out.reverse
  | i + 1, _ :: z, out => simplifyLoop zn i z out
  | 0, c :: z, out =>
    -- `//`, `/./` and `/../`
    if c = 47 ∧ z.headD zn = 47 then simplifyLoop zn 0 z out
    else if c = 47 ∧ [46, 47].isPrefixOf z then simplifyLoop zn 1 z out
    else if c = 47 ∧ [46, 46, 47].isPrefixOf z then
      simplifyLoop zn 2 z ((out.dropWhile (· ≠ 47)).drop 1)
    else simplifyLoop zn 0 z (c :: out)

/-- `vxworksSimplifyName`: `//` and `/./` become `/`, and `/../` takes the component before it
    away. -/
def vxworksSimplifyName (z : List UInt8) : List UInt8 :=
  -- `while( n>1 && z[n-1]=='/' ){ n--; }`
  let n := max (min 1 z.length) (z.reverse.dropWhile (· = 47)).length
  simplifyLoop (z.getD n 0) 0 (z.take n) []

/-- The canonical name of the file id of a pathname: the spelling by which connections share a
    semaphore. -/
def canonicalName (path : List UInt8) : List UInt8 := vxworksSimplifyName (cstr path)

/-- The semaphore's name: `"%s.sem"` with each `/` turned into a `_`, cut off after
    `MAX_PATHNAME - 1` characters. -/
def semName (zCanonicalName : List UInt8) : List UInt8 :=
  ((zCanonicalName ++ [46, 115, 101, 109]).take 511).map fun c => if c = 47 then 95 else c

/-! ### Connections -/

/-- The lock types, from none to exclusive, in their order. -/
inductive LockType
  | NO_LOCK | SHARED_LOCK | RESERVED_LOCK | PENDING_LOCK | EXCLUSIVE_LOCK
  deriving DecidableEq, Repr

/-- Where a connection is between its calls, and between the parts of opening and closing it. -/
inductive FileStage
  /-- `fillInUnixFile` has found the file id. -/
  | opening
  | opened
  /-- `fillInUnixFile` has failed; nobody gives back what it took. -/
  | failed
  /-- `semClose` has unlocked the file. -/
  | closing
  /-- `semClose` has given back the lock information. -/
  | released
  deriving DecidableEq, Repr

/-- `struct unixFile`, as far as this locking style uses it. -/
structure UnixFile where
  /-- `zFilename` -/
  path : List UInt8
  stage : FileStage
  /-- The pointer to the `vxworksFileId`. -/
  pId : Addr
  pLock : Option Addr
  pOpen : Option Addr
  locktype : LockType
  /-- Is `semCheckReservedLock` between `sem_trywait` and `sem_post`? -/
  probing : Bool
  deriving DecidableEq, Repr

/-- The part of `struct unixOpenCnt` that this locking style uses. -/
structure UnixOpenCnt where
  pSem : Addr
  deriving DecidableEq, Repr

/-- What connections share, and the connections.  The device number in the keys of `lockList` and
    `openList` is 0 on FAT. -/
structure SqlState where
  sem : SemState
  /-- `vxworksFileList`, by canonical names -/
  fileList : RefList (List UInt8) Unit
  /-- `lockList`, by file ids -/
  lockList : RefList Addr Unit
  /-- `openList`, by file ids -/
  openList : RefList Addr UnixOpenCnt
  files : Nat → Option UnixFile

/-- The connection `c` becomes `f`, and the others stay what they are. -/
def SqlState.setFile (s : SqlState) (c : Nat) (f : UnixFile) : SqlState :=
  { s with files := Function.update s.files c (some f) }

/-- The result codes that the modelled functions return. -/
inductive SqlRc
  | OK | BUSY | NOMEM | IOERR
  deriving DecidableEq, Repr

/-- What a step returns: a result code, the answer about the reserved lock, or nothing yet. -/
inductive SqlRet
  | rc (rc : SqlRc)
  | reserved (pResOut : Bool)
  /-- The call goes on. -/
  | none
  deriving DecidableEq, Repr

variable (semValueMax : Nat) (s : SqlState) (c : Nat) (f : UnixFile)

/-! ### `fillInUnixFile` -/

/-- `pNew->pId = vxworksFindFileId(zFilename)`; `id` is the address of a new file id, when none has
    the name. -/
def findFileId (path : List UInt8) (id : Addr) : Option (SqlRet × SqlState) :=
  match s.fileList.acquire (canonicalName path) id () with
  | none => some (.rc .NOMEM, s)
  | some (pId, fileList) =>
    some (.none, { s with fileList }.setFile c ⟨path, .opening, pId, none, none, .NO_LOCK, false⟩)

/-- `pNew->pOpen->pSem`, which `sem_open` makes if it is not there yet; the addresses are the
    allocator's answers. -/
def openPSem (pOpen buf new : Addr) : Option (SqlRet × SqlState) := do
  let o ← s.openList.get pOpen
  if o.val.pSem ≠ 0 then
    return (.rc .OK, s.setFile c { f with stage := .opened })
  let fileId ← s.fileList.get f.pId
  let (r, sem) ← Posix.semOpen semValueMax s.sem (semName fileId.key) ⟨true, false⟩ 1 buf new
  let s := { s with sem, openList := s.openList.change pOpen id fun _ => ⟨r.val⟩ }
  if r.val = SEM_FAILED then
    return (.rc .NOMEM, s.setFile c { f with stage := .failed })
  return (.rc .OK, s.setFile c { f with stage := .opened })

/-- `findLockInfo` and what follows it under the mutex; `lock` and `opn` are the addresses of new
    objects. -/
def openSem (lock opn buf new : Addr) : Option (SqlRet × SqlState) :=
  match s.lockList.acquire f.pId lock () with
  | none => some (.rc .NOMEM, s.setFile c { f with stage := .failed })
  | some (pLock, lockList) =>
    match s.openList.acquire f.pId opn ⟨0⟩ with
    | none => do
      -- `releaseLockInfo(pLock)`
      let lockList ← lockList.release pLock
      return (.rc .NOMEM, { s with lockList }.setFile c { f with stage := .failed })
    | some (pOpen, openList) =>
      openPSem semValueMax { s with lockList, openList } c
        { f with pLock := some pLock, pOpen := some pOpen } pOpen buf new

/-! ### Locks -/

/-- `pFile->pOpen->pSem`: the semaphore that all connections with this file id share. -/
def pSem : Option Addr := do
  let o ← s.openList.get (← f.pOpen)
  return o.val.pSem

/-- `semLock`, for a lock type above `NO_LOCK`: every lock is exclusive, whatever its type. -/
def semLock (locktype : LockType) : Option (SqlRet × SqlState) := do
  let sem ← pSem s f
  -- if we already have a lock, it is exclusive
  if f.locktype ≠ .NO_LOCK then
    return (.rc .OK, s.setFile c { f with locktype })
  let (r, sem) ← s.sem.trywait sem
  if r.val = -1 then return (.rc .BUSY, { s with sem })
  return (.rc .OK, { s with sem }.setFile c { f with locktype })

/-- `semUnlock`: for `SHARED_LOCK` it only sets the lock type, even of a connection that has no
    lock. -/
def semUnlock (locktype : LockType) : Option (SqlRet × SqlState) := do
  let sem ← pSem s f
  if f.locktype = locktype then return (.rc .OK, s)
  if locktype = .SHARED_LOCK then
    return (.rc .OK, s.setFile c { f with locktype })
  -- no, really unlock
  let (r, sem) ← s.sem.post sem
  if r.val = -1 then return (.rc .IOERR, { s with sem })
  return (.rc .OK, { s with sem }.setFile c { f with locktype := .NO_LOCK })

/-- `semCheckReservedLock`, up to `sem_trywait`; the semaphore may be taken from here to the next
    part. -/
def semCheckReservedLock : Option (SqlRet × SqlState) := do
  let sem ← pSem s f
  if f.locktype ≠ .NO_LOCK ∧ f.locktype ≠ .SHARED_LOCK then return (.reserved true, s)
  let (r, sem) ← s.sem.trywait sem
  if r.val = -1 then return (.reserved (f.locktype = .NO_LOCK), { s with sem })
  return (.none, { s with sem }.setFile c { f with probing := true })

/-- `semCheckReservedLock`, from `sem_post` on, by which it gives back what it took. -/
def semPostBack : Option (SqlRet × SqlState) := do
  let (_, sem) ← s.sem.post (← pSem s f)
  return (.reserved false, { s with sem }.setFile c { f with probing := false })

/-! ### `semClose` -/

/-- `semUnlock(id, NO_LOCK)`, the first part of `semClose`, outside of the mutex. -/
def semClose : Option (SqlRet × SqlState) := do
  let (_, s) ← semUnlock s c f .NO_LOCK
  let f ← s.files c
  return (.none, s.setFile c { f with stage := .closing })

/-- `releaseLockInfo(pFile->pLock)` and `releaseOpenCnt(pFile->pOpen)`; the semaphore is not closed
    with them. -/
def releaseInfo : Option (SqlRet × SqlState) := do
  let lockList ← s.lockList.release (← f.pLock)
  let openList ← s.openList.release (← f.pOpen)
  let f := { f with stage := .released, pLock := none, pOpen := none }
  return (.none, { s with lockList, openList }.setFile c f)

/-- `vxworksReleaseFileId(pFile->pId)`, with which the connection is gone -/
def releaseFileId : Option (SqlRet × SqlState) := do
  let fileList ← s.fileList.release f.pId
  return (.rc .OK, { s with fileList, files := Function.update s.files c none })

/-! ### The steps as one function -/

/-- A step of a connection, with the addresses that `malloc` gives in it. -/
inductive SqlCall
  | findFileId (path : List UInt8) (id : Addr)
  | openSem (lock opn buf new : Addr)
  | lock (locktype : LockType)
  | unlock (locktype : LockType)
  | checkReservedLock
  | postBack
  | close
  | releaseInfo
  | releaseFileId
  deriving DecidableEq, Repr

/-- A step of the connection `a.1`: its result, and the state afterwards.  An open connection
    makes one call at a time. -/
def sqlCall (a : Nat × SqlCall) : Option (SqlRet × SqlState) :=
  match s.files a.1, a.2 with
  | none, .findFileId path id => findFileId s a.1 path id
  | some f, .openSem lock opn buf new =>
    if f.stage = .opening then openSem semValueMax s a.1 f lock opn buf new else none
  | some f, .lock locktype =>
    if f.stage = .opened ∧ f.probing = false ∧ locktype ≠ .NO_LOCK then semLock s a.1 f locktype
    else none
  | some f, .unlock locktype =>
    -- `assert( locktype<=SHARED_LOCK )`
    if f.stage = .opened ∧ f.probing = false ∧ (locktype = .NO_LOCK ∨ locktype = .SHARED_LOCK) then
      semUnlock s a.1 f locktype
    else none
  | some f, .checkReservedLock =>
    if f.stage = .opened ∧ f.probing = false then semCheckReservedLock s a.1 f else none
  | some f, .postBack =>
    if f.stage = .opened ∧ f.probing = true then semPostBack s a.1 f else none
  | some f, .close => if f.stage = .opened ∧ f.probing = false then semClose s a.1 f else none
  | some f, .releaseInfo => if f.stage = .closing then releaseInfo s a.1 f else none
  | some f, .releaseFileId => if f.stage = .released then releaseFileId s a.1 f else none
  | _, _ => none

/-- Before the first connection: the registry of semaphores is in some state that it can reach. -/
structure SqlState.Fresh (semValueMax : Nat) (s : SqlState) : Prop where
  sem : (semSystem semValueMax).Reachable s.sem
  fileList : s.fileList = .empty
  lockList : s.lockList = .empty
  openList : s.openList = .empty
  files : s.files = fun _ => none

/-- No connection, no shared information and no semaphore: the state at the start. -/
def SqlState.empty : SqlState := ⟨.empty, .empty, .empty, .empty, fun _ => none⟩

/-- The empty state is one that a run may begin in. -/
theorem empty_fresh (m : Nat) : SqlState.empty.Fresh m := ⟨.init rfl, rfl, rfl, rfl, rfl⟩

/-- The connections as a transition system, from the state `s`: any of them takes a step at any
    time. -/
def sqlSystem (semValueMax : Nat) (s : SqlState) : LTS SqlState ((Nat × SqlCall) × SqlRet) :=
  .ofFun s (sqlCall semValueMax)

/-! ### The semaphore's name -/

/-- A simplified name has characters of the name only, so that it has no zero byte. -/
theorem mem_simplifyLoop {zn b : UInt8} {i : Nat} {z out : List UInt8}
    (h : b ∈ simplifyLoop zn i z out) : b ∈ z ∨ b ∈ out := by
  induction z generalizing i out with
  | nil =>
    rw [simplifyLoop, List.mem_reverse] at h
    exact Or.inr h
  | cons c z ih =>
    cases i with
    | succ i =>
      rw [simplifyLoop] at h
      exact (ih h).imp_left (List.mem_cons_of_mem c)
    | zero =>
      rw [simplifyLoop] at h
      split at h
      · exact (ih h).imp_left (List.mem_cons_of_mem c)
      split at h
      · exact (ih h).imp_left (List.mem_cons_of_mem c)
      split at h
      · -- a directory name is dropped
        refine (ih h).imp (List.mem_cons_of_mem c) fun hout => ?_
        exact (List.dropWhile_suffix _).subset (List.mem_of_mem_drop hout)
      · rcases ih h with hz | hout
        · exact Or.inl (List.mem_cons_of_mem c hz)
        · rcases List.mem_cons.mp hout with rfl | hout
          · exact Or.inl List.mem_cons_self
          · exact Or.inr hout

/-- No byte of a canonical name is zero, as for any string. -/
theorem ne_zero_of_mem_canonicalName {path : List UInt8} {b : UInt8}
    (h : b ∈ canonicalName path) : b ≠ 0 := by
  rcases mem_simplifyLoop h with hz | hout
  · exact ne_zero_of_mem_cstr (List.mem_of_mem_take hz)
  · cases hout

/-- The semaphore's name has no zero byte, so that `sem_open` is given all of it. -/
theorem cstr_semName (path : List UInt8) :
    cstr (semName (canonicalName path)) = semName (canonicalName path) := by
  unfold cstr
  rw [List.takeWhile_eq_self_iff]
  intro b hb
  obtain ⟨c, hc, rfl⟩ := List.mem_map.mp hb
  have hne : c ≠ 0 := by
    rcases List.mem_append.mp (List.mem_of_mem_take hc) with hname | hsuffix
    · exact ne_zero_of_mem_canonicalName hname
    · rintro rfl
      exact absurd hsuffix (by decide)
  split
  · rfl
  · simpa using hne

/-- The semaphore's name is not empty, so that `sem_open` does not refuse it. -/
theorem semName_ne_nil (z : List UInt8) : semName z ≠ [] := by
  intro h
  have hlen := congrArg List.length h
  simp [semName] at hlen

/-- `/db//./x/../t.db` is `/db/t.db`. -/
example : canonicalName [47, 100, 98, 47, 47, 46, 47, 120, 47, 46, 46, 47, 116, 46, 100, 98]
    = [47, 100, 98, 47, 116, 46, 100, 98] := by decide

end Ecos.Sqlite
