import Ecos.Lib.CrashProgram
import Ecos.Sqlite.JournalFormat
import Ecos.Sqlite.UnixFile

namespace Ecos.Sqlite.Rollback

open Ecos.Lib

/-!
# The pager

The part of `pager.c` that makes a transaction atomic: a file on disk, in full-sync mode, with
`journal_mode` `DELETE`, that is not locked exclusively for good.  (This mode is the default; for
the port `PERSIST` is recommended, since a deletion is not synced.  Here the deletion may be
undone.)  No call of the operating system fails, other than a lock that is not granted.

* `OsCall`, `Disk`, `pagerMachine` — the calls that the pager makes, and what they do; a program
  may be cut off in front of each of them;
* `PgHdr`, `Pager` — a page in the cache, and the pager;
* `writeJournalHdr`, `readJournalHdr`, `syncJournal` — the journal;
* `pagerPlaybackOnePage`, `pagerPlayback`, `pagerEndTransaction` — rollback;
* `pagerWritePagelist`, `pagerStress`, `pagerWrite` — changing the database;
* `pagerSharedLock`, `sqlite3PagerAcquire`, `sqlite3PagerBegin`, `sqlite3PagerCommitPhaseOne`,
  `sqlite3PagerCommitPhaseTwo`, `sqlite3PagerRollback` — what the layer above calls.
-/

/-! ### The operating system -/

/-- The two files that the pager has open: the database, `fd`, and its rollback journal, `jfd`. -/
inductive FileId
  | db | journal
  deriving DecidableEq, Repr

/-- The calls that the pager makes of the operating system, and the two choices that are not its
    own: a random number and the page to recycle. -/
inductive OsCall
  /-- `sqlite3OsFileSize` -/
  | fileSize (f : FileId)
  /-- `sqlite3OsRead` -/
  | read (f : FileId) (offset n : Nat)
  /-- `sqlite3OsWrite` -/
  | write (f : FileId) (offset : Nat) (d : List UInt8)
  /-- `sqlite3OsTruncate` -/
  | truncate (f : FileId) (n : Nat)
  /-- `sqlite3OsSync` -/
  | sync (f : FileId)
  /-- `sqlite3OsAccess` to the journal -/
  | access
  /-- `sqlite3OsAccess` to a master journal -/
  | accessMaster (zMaster : List UInt8)
  /-- `sqlite3OsOpen` of the journal, which has to be new if it is created -/
  | openJournal (create : Bool)
  /-- `sqlite3OsDelete` of the journal -/
  | delete
  /-- `sqlite3OsLock`, until the busy handler gives up -/
  | lock (locktype : LockType)
  /-- `sqlite3OsUnlock` -/
  | unlock (locktype : LockType)
  /-- `sqlite3OsCheckReservedLock` -/
  | checkReservedLock
  /-- `sqlite3_randomness` -/
  | randomness
  /-- The page cache is full, and this dirty page is to make room. -/
  | recycle

/-- What a call returns.  `read` fills up with zeros, and says whether it need not. -/
def OsCall.Ret : OsCall → Type
  | .fileSize _ => Nat
  | .read .. => List UInt8 × Bool
  | .write .. | .truncate .. | .sync _ | .delete | .unlock _ => Unit
  | .access | .accessMaster _ | .openJournal _ | .lock _ | .checkReservedLock => Bool
  | .randomness => BitVec 32
  | .recycle => Option Nat

/-- What the environment decides about a call: whether a lock is granted, which number comes out,
    and which page has to go. -/
structure PagerEnv where
  /-- Is the lock granted? -/
  granted : Bool
  random : BitVec 32
  victim : Option Nat

/-- The database file and the journal, with what a power failure may leave of them.  The journal is
    deleted without a sync of its directory: `sqlite3OsDelete` is called with `dirSync` 0, and the
    port defines `SQLITE_DISABLE_DIRSYNC`.  So a deleted journal may be there again after a power
    failure, until a file is synced: `fatfs_fo_fsync` writes all that is in the cache of the volume,
    the directory included. -/
structure Disk where
  db : Storage UInt8
  journal : Option (Storage UInt8)
  /-- The journals whose deletion may be undone by a power failure, the last one first. -/
  deleted : List (Storage UInt8)
  /-- The database file has changes that are not synced and are not covered by the journal that a
      power failure may leave: a journal was deleted behind them, or the deletion of one may be
      undone that was there before them. -/
  exposed : Bool

/-- The file, an empty one if it is not there. -/
def Disk.file (D : Disk) : FileId → Storage UInt8
  | .db => D.db
  | .journal => D.journal.getD (.synced .empty)

/-- The content of the file becomes `c`, not synced yet.  A change to the database file is exposed
    when the deletion of a journal may still be undone. -/
def Disk.update (D : Disk) (f : FileId) (c : Content UInt8) : Disk :=
  match f with
  | .db => { D with db := D.db.update c, exposed := D.exposed || !D.deleted.isEmpty }
  | .journal => { D with journal := D.journal.map (·.update c) }

/-- The file is on the disk as it is now, and so is the directory. -/
def Disk.sync (D : Disk) : FileId → Disk
  | .db => { D with db := D.db.sync, deleted := [], exposed := false }
  | .journal => { D with journal := D.journal.map Storage.sync, deleted := [] }

/-- The journal is deleted, for now: a power failure may bring it back.  What is not synced in the
    database file is then exposed. -/
def Disk.delete (D : Disk) : Disk where
  db := D.db
  journal := none
  deleted := D.journal.toList ++ D.deleted
  exposed := D.exposed || !D.db.past.isEmpty

/-- The calls of a process that is the only one to write.  `ftruncate` cuts the file off; the one
    that the port suggests to the application does nothing, and then the database file never gets
    shorter. -/
def pagerMachine : Machine OsCall.Ret Disk PagerEnv where
  perform D e
    | .fileSize f => ((D.file f).cur.size, D)
    | .read f offset n =>
      (((D.file f).cur.read offset n, decide (offset + n ≤ (D.file f).cur.size)), D)
    | .write f offset d => ((), D.update f ((D.file f).cur.write offset d))
    | .truncate f n => ((), D.update f ((D.file f).cur.truncate n))
    | .sync f => ((), D.sync f)
    | .access => (D.journal.isSome, D)
    | .accessMaster _ => (e.granted, D)
    | .openJournal true =>
      if D.journal.isSome then (false, D) else (true, { D with journal := some (.synced .empty) })
    | .openJournal false => (D.journal.isSome, D)
    | .delete => ((), D.delete)
    | .lock _ => (e.granted, D)
    | .unlock _ => ((), D)
    -- no other process has it
    | .checkReservedLock => (false, D)
    | .randomness => (e.random, D)
    | .recycle => (e.victim, D)

/-- The programs of the pager, which may be cut off in front of each of their calls. -/
abbrev PagerProgram := Program OsCall.Ret

/-- The program that makes a single call, and returns what it returns. -/
def osCall (c : OsCall) : PagerProgram c.Ret := Program.perform c

/-- `sqlite3OsFileSize`, the size of the file in bytes -/
def osFileSize (f : FileId) : PagerProgram Nat := osCall (.fileSize f)

/-- `sqlite3OsRead`; the second result is false where SQLite has `SQLITE_IOERR_SHORT_READ`. -/
def osRead (f : FileId) (offset n : Nat) : PagerProgram (List UInt8 × Bool) :=
  osCall (.read f offset n)

/-- `sqlite3OsWrite`, which makes the file longer where it has to -/
def osWrite (f : FileId) (offset : Nat) (d : List UInt8) : PagerProgram Unit :=
  osCall (.write f offset d)

/-- `sqlite3OsTruncate`, by `ftruncate` -/
def osTruncate (f : FileId) (n : Nat) : PagerProgram Unit := osCall (.truncate f n)

/-- `sqlite3OsSync`, which writes all that is in the cache of the volume -/
def osSync (f : FileId) : PagerProgram Unit := osCall (.sync f)

/-- `sqlite3OsAccess`, for the journal: is it there? -/
def osAccess : PagerProgram Bool := osCall .access

/-- `sqlite3OsAccess`, for the master journal that is named at the end of the journal. -/
def osAccessMaster (zMaster : List UInt8) : PagerProgram Bool := osCall (.accessMaster zMaster)

/-- `sqlite3OsOpen`, for the journal.  With `create` it has to be new, without it has to be
    there. -/
def osOpenJournal (create : Bool) : PagerProgram Bool := osCall (.openJournal create)

/-- `sqlite3OsDelete` of the journal, with `dirSync` 0: without a sync of the directory. -/
def osDelete : PagerProgram Unit := osCall .delete

/-- `sqlite3OsLock` of the database file, which another process may refuse -/
def osLock (locktype : LockType) : PagerProgram Bool := osCall (.lock locktype)

/-- `sqlite3OsUnlock` of the database file, down to the level `locktype` -/
def osUnlock (locktype : LockType) : PagerProgram Unit := osCall (.unlock locktype)

/-- `sqlite3OsCheckReservedLock`: does another process hold the reserved lock? -/
def osCheckReservedLock : PagerProgram Bool := osCall .checkReservedLock

/-- `sqlite3Randomness`, asked for the `cksumInit` of a journal header -/
def osRandomness : PagerProgram (BitVec 32) := osCall .randomness

/-- The page that the cache picks to recycle when it is full, if it has to recycle one. -/
def osRecycle : PagerProgram (Option Nat) := osCall .recycle

/-! ### The pager's state -/

/-- The lock states of the pager, `PAGER_UNLOCK`, ..., `PAGER_SYNCED`, in their order. -/
inductive PagerState
  | UNLOCK | SHARED | RESERVED | EXCLUSIVE | SYNCED
  deriving DecidableEq, Repr

/-- The value of the state, by which the source compares states; there is no state 3. -/
def PagerState.num : PagerState → Nat
  | .UNLOCK => 0
  | .SHARED => 1
  | .RESERVED => 2
  | .EXCLUSIVE => 4
  | .SYNCED => 5

/-- The result codes of the pager, `SQLITE_OK`, ..., `SQLITE_DONE`, and one for a case that is left
    out. -/
inductive PagerRc
  | OK | BUSY | IOERR | CORRUPT | FULL | CANTOPEN | ERROR | DONE
  /-- The journal has other sizes than the pager, a case that is left out. -/
  | resize
  deriving DecidableEq, Repr

/-- A page in the cache, with `PGHDR_DIRTY` and `PGHDR_NEED_SYNC`. -/
structure PgHdr where
  pgno : Nat
  data : List UInt8
  dirty : Bool
  needSync : Bool

/-- The fields of the pager that a transaction reads or changes; the cache is a list of pages, the
    set of journaled pages a list of their numbers. -/
structure Pager where
  state : PagerState
  dbModified : Bool
  needSync : Bool
  journalStarted : Bool
  changeCountDone : Bool
  dbSizeValid : Bool
  dbSize : Nat
  dbOrigSize : Nat
  dbFileSize : Nat
  nRec : Nat
  cksumInit : BitVec 32
  /-- `pInJournal`, the set of pages in the journal -/
  pInJournal : Option (List Nat)
  /-- `isOpen(jfd)` -/
  jfdOpen : Bool
  journalOff : Nat
  journalHdr : Nat
  dbFileVers : List UInt8
  mxPgno : Nat
  /-- `pPCache` -/
  cache : List PgHdr

namespace Pager

/-- A pager that was just opened, as `sqlite3PagerOpen` leaves it: no lock, no journal, an empty
    cache. -/
def init : Pager where
  state := .UNLOCK
  dbModified := false
  needSync := false
  journalStarted := false
  changeCountDone := false
  dbSizeValid := false
  dbSize := 0
  dbOrigSize := 0
  dbFileSize := 0
  nRec := 0
  cksumInit := 0
  pInJournal := none
  jfdOpen := false
  journalOff := 0
  journalHdr := 0
  dbFileVers := List.replicate 16 0
  mxPgno := 1073741823
  cache := []

/-- `pager_lookup`: the page of this number, if it is in the cache -/
def lookup (P : Pager) (pgno : Nat) : Option PgHdr := P.cache.find? (·.pgno = pgno)

/-- `pageInJournal`: has the page of this number been journaled by this transaction? -/
def pageInJournal (P : Pager) (pgno : Nat) : Bool := (P.pInJournal.getD []).contains pgno

/-- A change to the page `pgno` in the cache, if it is there; the other pages stay as they are. -/
def mapPage (P : Pager) (pgno : Nat) (f : PgHdr → PgHdr) : Pager :=
  { P with cache := P.cache.map fun pg => if pg.pgno = pgno then f pg else pg }

/-- `sqlite3PcacheMakeDirty`, of the page `pgno` -/
def makeDirty (P : Pager) (pgno : Nat) : Pager := P.mapPage pgno fun pg => { pg with dirty := true }

/-- `sqlite3PcacheMakeClean`: the page is as it is in the file, and waits for no sync -/
def makeClean (P : Pager) (pgno : Nat) : Pager :=
  P.mapPage pgno fun pg => { pg with dirty := false, needSync := false }

/-- `sqlite3PcacheCleanAll`: `sqlite3PcacheMakeClean` for every page of the cache -/
def cleanAll (P : Pager) : Pager :=
  { P with cache := P.cache.map fun pg => { pg with dirty := false, needSync := false } }

/-- `sqlite3PcacheClearSyncFlags`: the journal was synced, and no page waits for it any more -/
def clearSyncFlags (P : Pager) : Pager :=
  { P with cache := P.cache.map fun pg => { pg with needSync := false } }

/-- `sqlite3PcacheTruncate`, no page being referenced if `pgno` is 0 -/
def pcacheTruncate (P : Pager) (pgno : Nat) : Pager :=
  { P with cache := P.cache.filter (·.pgno ≤ pgno) }

/-- The cache makes room by itself, and drops the page. -/
def drop (P : Pager) (pgno : Nat) : Pager := { P with cache := P.cache.filter (·.pgno ≠ pgno) }

/-- `pager_reset`: the cache is emptied, whatever is in it -/
def reset (P : Pager) : Pager := { P with cache := [] }

/-- `sqlite3PcacheDirtyList`: the dirty pages, sorted by their numbers -/
def dirtyList (P : Pager) : List PgHdr :=
  (P.cache.filter (·.dirty)).insertionSort fun p q => p.pgno ≤ q.pgno

end Pager

/-- `&pData[24]`, as far as `dbFileVers` goes: the 16 bytes of page 1 by which a change of the file
    by another process is noticed. -/
def fileVers (data : List UInt8) : List UInt8 := (data.drop 24).take 16

variable (C : PagerConfig)

/-! ### The journal -/

/-- `readMasterJournal`; the name is empty when there is none. -/
def readMasterJournal : PagerProgram (PagerRc × List UInt8) := do
  let szJ ← osFileSize .journal
  if szJ < 16 then return (.OK, [])
  let (bytes, _) ← osRead .journal (szJ - 16) 4
  let len := (sqlite3Get4byte bytes).toNat
  -- `mxPathname + 1`
  if 513 ≤ len then return (.OK, [])
  let (bytes, _) ← osRead .journal (szJ - 12) 4
  let cksum := sqlite3Get4byte bytes
  let (aMagic, _) ← osRead .journal (szJ - 8) 8
  if aMagic ≠ aJournalMagic then return (.OK, [])
  -- the offset is negative
  if szJ - 16 < len then return (.IOERR, [])
  let (zMaster, _) ← osRead .journal (szJ - 16 - len) len
  if zMaster.foldl (fun cksum z => cksum - z.toBitVec.signExtend 32) cksum ≠ 0 then
    return (.OK, [])
  return (.OK, zMaster)

/-- `writeJournalHdr`; a header is a sector, and fits into a page. -/
def writeJournalHdr (P : Pager) : PagerProgram Pager := do
  let P := { P with
    journalHdr := journalHdrOffset C P.journalOff
    journalOff := journalHdrOffset C P.journalOff }
  let cksumInit ← osRandomness
  let P := { P with cksumInit }
  osWrite .journal P.journalOff (journalHdr C 0 P.cksumInit P.dbOrigSize)
  return { P with journalOff := P.journalOff + C.sectorSize }

/-- `readJournalHdr`, with `*pNRec` and `*pDbSize`; it answers `SQLITE_DONE` when there is no whole
    header at the next sector boundary. -/
def readJournalHdr (P : Pager) (journalSize : Nat) :
    PagerProgram (PagerRc × Nat × Nat × Pager) := do
  let P := { P with journalOff := journalHdrOffset C P.journalOff }
  if journalSize < P.journalOff + C.sectorSize then return (.DONE, 0, 0, P)
  let iHdrOff := P.journalOff
  let (aMagic, _) ← osRead .journal iHdrOff 8
  if aMagic ≠ aJournalMagic then return (.DONE, 0, 0, P)
  let (nRec, _) ← osRead .journal (iHdrOff + 8) 4
  let (cksumInit, _) ← osRead .journal (iHdrOff + 12) 4
  let (dbSize, _) ← osRead .journal (iHdrOff + 16) 4
  let P := { P with cksumInit := sqlite3Get4byte cksumInit }
  let pNRec := (sqlite3Get4byte nRec).toNat
  let pDbSize := (sqlite3Get4byte dbSize).toNat
  if P.journalOff = 0 then
    let (sectorSize, _) ← osRead .journal (iHdrOff + 20) 4
    let (pageSize, _) ← osRead .journal (iHdrOff + 24) 4
    let iSectorSize := sqlite3Get4byte sectorSize
    let iPageSize := sqlite3Get4byte pageSize
    if iPageSize < 512 ∨ iSectorSize < 512 ∨ 32768 < iPageSize ∨ 0x0100000 < iSectorSize ∨
        (iPageSize - 1) &&& iPageSize ≠ 0 ∨ (iSectorSize - 1) &&& iSectorSize ≠ 0 then
      return (.DONE, pNRec, pDbSize, P)
    if iPageSize ≠ .ofNat 32 C.pageSize ∨ iSectorSize ≠ .ofNat 32 C.sectorSize then
      return (.resize, pNRec, pDbSize, P)
    return (.OK, pNRec, pDbSize, { P with journalOff := P.journalOff + C.sectorSize })
  return (.OK, pNRec, pDbSize, { P with journalOff := P.journalOff + C.sectorSize })

/-- `syncJournal`; the device is neither sequential nor safe to append to. -/
def syncJournal (P : Pager) : PagerProgram Pager := do
  if !P.needSync then return P
  let iNextHdrOffset := journalHdrOffset C P.journalOff
  let (aMagic, full) ← osRead .journal iNextHdrOffset 8
  if full = true ∧ aMagic = aJournalMagic then osWrite .journal iNextHdrOffset [0]
  osSync .journal
  osWrite .journal (P.journalHdr + 8) (put32bits (.ofNat 32 P.nRec))
  osSync .journal
  return { P with needSync := false, journalStarted := true }.clearSyncFlags

/-! ### Locks and sizes -/

/-- `pager_wait_on_lock` for `EXCLUSIVE_LOCK`, for which the busy handler waits -/
def waitForExclusive (P : Pager) : PagerProgram (PagerRc × Pager) := do
  if PagerState.EXCLUSIVE.num ≤ P.state.num then return (.OK, P)
  if ← osLock .EXCLUSIVE_LOCK then return (.OK, { P with state := .EXCLUSIVE })
  return (.BUSY, P)

/-- `sqlite3PagerPagecount`: the size of the database in pages, from the file unless it is known -/
def sqlite3PagerPagecount (P : Pager) : PagerProgram (Nat × Pager) := do
  if P.dbSizeValid then return (P.dbSize, { P with mxPgno := max P.mxPgno P.dbSize })
  let n ← osFileSize .db
  let nPage := if 0 < n ∧ n < C.pageSize then 1 else n / C.pageSize
  let P := if P.state ≠ .UNLOCK then
    { P with dbSize := nPage, dbFileSize := nPage, dbSizeValid := true } else P
  return (nPage, { P with mxPgno := max P.mxPgno nPage })

/-- `pager_truncate`: the file gets `nPage` pages, if the lock allows to change it.  It is cut off,
    or made longer by its last page. -/
def pagerTruncate (P : Pager) (nPage : Nat) : PagerProgram Pager := do
  if P.state.num < PagerState.EXCLUSIVE.num then return P
  let currentSize ← osFileSize .db
  let newSize := C.pageSize * nPage
  if currentSize = newSize then return P
  if newSize < currentSize then osTruncate .db newSize
  else osWrite .db (newSize - 1) [0]
  return { P with dbFileSize := nPage }

/-! ### Rollback -/

/-- `pager_end_transaction`: the journal is deleted, and the lock goes down to a shared one. -/
def pagerEndTransaction (P : Pager) : PagerProgram Pager := do
  if P.state.num < PagerState.RESERVED.num then return P
  let P ← if P.jfdOpen then do
      osDelete
      pure { P.cleanAll with jfdOpen := false, pInJournal := none, nRec := 0 }
    else pure P
  osUnlock .SHARED_LOCK
  return { P.pcacheTruncate P.dbSize with
    state := .SHARED
    changeCountDone := false
    needSync := false
    dbModified := false
    dbOrigSize := 0
    dbSizeValid := false }

/-- The page `pgno` was restored from the journal: if it is in the cache, it gets the old content
    there too. -/
def Pager.restore (P : Pager) (pgno : Nat) (aData : List UInt8) : Pager :=
  let P' := P.mapPage pgno fun pg => { pg with data := aData, dirty := false, needSync := false }
  if (P.lookup pgno).isSome = true ∧ pgno = 1 then { P' with dbFileVers := fileVers aData } else P'

/-- `pager_playback_one_page`, from the main journal and not for a savepoint -/
def pagerPlaybackOnePage (P : Pager) (isUnsync : Bool) : PagerProgram (PagerRc × Pager) := do
  let (bytes, full) ← osRead .journal P.journalOff 4
  if !full then return (.IOERR, P)
  let (aData, full) ← osRead .journal (P.journalOff + 4) C.pageSize
  if !full then return (.IOERR, P)
  let pgno := (sqlite3Get4byte bytes).toNat
  let P := { P with journalOff := P.journalOff + C.journalPgSz }
  if pgno = 0 ∨ pgno = C.mjPgno then return (.DONE, P)
  if P.dbSize < pgno then return (.OK, P)
  let (bytes, full) ← osRead .journal (P.journalOff - 4) 4
  if !full then return (.IOERR, P)
  if pagerCksum C P.cksumInit aData ≠ sqlite3Get4byte bytes then return (.DONE, P)
  if PagerState.EXCLUSIVE.num ≤ P.state.num ∧ (P.lookup pgno).all (!·.needSync) = true ∧
      isUnsync = false then
    osWrite .db ((pgno - 1) * C.pageSize) aData
    return (.OK, { P with dbFileSize := max P.dbFileSize pgno }.restore pgno aData)
  return (.OK, P.restore pgno aData)

/-- The inner loop of `pager_playback`, over the records behind one header, with `needPagerReset`:
    the cache is emptied before the first record of a hot journal. -/
def playbackRecords (isUnsync : Bool) :
    Nat → Pager → Bool → PagerProgram (PagerRc × Pager × Bool)
  | 0, P, needPagerReset => return (.OK, P, needPagerReset)
  | u + 1, P, needPagerReset => do
    let P := if needPagerReset then P.reset else P
    let (rc, P) ← pagerPlaybackOnePage C P isUnsync
    if rc = .OK then playbackRecords isUnsync u P false
    else return (rc, P, false)

/-- The outer loop of `pager_playback`; each round goes on by a header, so that `fuel` rounds are
    enough when the journal is shorter than `fuel` headers. -/
def playbackLoop (szJ : Nat) (isHot : Bool) :
    Nat → Pager → Bool → PagerProgram (PagerRc × Pager)
  | 0, P, _ => return (.ERROR, P)
  | fuel + 1, P, needPagerReset => do
    let (rc, nRec, mxPg, P) ← readJournalHdr C P szJ
    if rc = .DONE then return (.OK, P)
    if rc ≠ .OK then return (rc, P)
    let nRec := if nRec = 0xffffffff then (szJ - C.sectorSize) / C.journalPgSz else nRec
    -- the chunk that was not synced yet, when its own process rolls back
    let isUnsync := decide (nRec = 0 ∧ isHot = false ∧ P.journalHdr + C.sectorSize = P.journalOff)
    let nRec := if isUnsync then (szJ - P.journalOff) / C.journalPgSz else nRec
    let P ← if P.journalOff = C.sectorSize then do
        let P ← pagerTruncate C P mxPg
        pure { P with dbSize := mxPg }
      else pure P
    let (rc, P, needPagerReset) ← playbackRecords C isUnsync nRec P needPagerReset
    if rc = .DONE then playbackLoop szJ isHot fuel { P with journalOff := szJ } needPagerReset
    else if rc ≠ .OK then return (.CORRUPT, P)
    else playbackLoop szJ isHot fuel P needPagerReset

/-- `pager_playback`, up to `end_playback`: nothing is played back from an empty journal, nor when
    the master journal that it names is gone. -/
def playbackJournal (P : Pager) (isHot : Bool) : PagerProgram (PagerRc × Pager) := do
  let szJ ← osFileSize .journal
  if szJ = 0 then return (.OK, P)
  let (rc, zMaster) ← readMasterJournal
  if rc ≠ .OK then return (rc, P)
  let res ← if zMaster.headD 0 ≠ 0 then osAccessMaster zMaster else pure true
  if !res then return (.OK, P)
  playbackLoop C szJ isHot (szJ / C.sectorSize + 1) { P with journalOff := 0 } isHot

/-- `pager_playback`, without `pager_delmaster`: the journal is played back, and deleted when that
    went well. -/
def pagerPlayback (P : Pager) (isHot : Bool) : PagerProgram (PagerRc × Pager) := do
  let (rc, P) ← playbackJournal C P isHot
  let P := { P with changeCountDone := false }
  if rc ≠ .OK then return (rc, P)
  let (rc, _) ← readMasterJournal
  if rc ≠ .OK then return (rc, P)
  let P ← pagerEndTransaction P
  return (.OK, P)

/-- `pager_unlock`: the pager lets go of the file, and forgets what it knew about it -/
def pagerUnlock (P : Pager) : PagerProgram Pager := do
  osUnlock .NO_LOCK
  return { P with
    jfdOpen := false
    pInJournal := none
    dbSizeValid := false
    changeCountDone := false
    state := .UNLOCK }

/-- `sqlite3PagerRollback`: by the journal when something was changed, and just by ending the
    transaction when nothing was. -/
def sqlite3PagerRollback (P : Pager) : PagerProgram (PagerRc × Pager) := do
  if !P.dbModified || !P.jfdOpen then
    let P ← pagerEndTransaction P
    return (.OK, P)
  if P.state = .RESERVED then
    let (rc, P) ← pagerPlayback C P false
    let P ← pagerEndTransaction P
    return (rc, { P with dbSizeValid := false })
  let (rc, P) ← pagerPlayback C P false
  return (rc, { P with dbSizeValid := false })

/-- `pagerUnlockAndRollback`: a transaction that is not finished is rolled back, and then the lock
    is given up. -/
def pagerUnlockAndRollback (P : Pager) : PagerProgram Pager := do
  let P ← if PagerState.RESERVED.num ≤ P.state.num then do
      let (_, P) ← sqlite3PagerRollback C P
      pure P
    else pure P
  pagerUnlock P

/-! ### Reading -/

/-- `hasHotJournal`: there is a journal and nobody is writing.  The journal of an empty database is
    deleted instead. -/
def hasHotJournal (P : Pager) : PagerProgram (Bool × Pager) := do
  let exists_ ← osAccess
  if !exists_ then return (false, P)
  let locked ← osCheckReservedLock
  if locked then return (false, P)
  let (nPage, P) ← sqlite3PagerPagecount C P
  if nPage = 0 then
    osDelete
    return (false, P)
  return (true, P)

/-- The part of `pagerSharedLock` that rolls back a hot journal. -/
def rollbackHot (P : Pager) : PagerProgram (PagerRc × Pager) := do
  let granted ← osLock .EXCLUSIVE_LOCK
  if !granted then return (.BUSY, P)
  let P := { P with state := .EXCLUSIVE }
  let res ← osAccess
  if !res then return (.BUSY, P)
  let opened ← osOpenJournal false
  if !opened then return (.CANTOPEN, P)
  pagerPlayback C
    { P with jfdOpen := true, journalStarted := false, journalOff := 0, journalHdr := 0 } true

/-- The part of `pagerSharedLock` that looks whether the cache is still up to date. -/
def checkCache (P : Pager) : PagerProgram (PagerRc × Pager) := do
  if P.cache.isEmpty then return (.OK, P)
  let (_, P) ← sqlite3PagerPagecount C P
  if P.dbSize = 0 then
    return (.OK, if P.dbFileVers ≠ List.replicate 16 0 then P.reset else P)
  let (dbFileVers, full) ← osRead .db 24 16
  if !full then return (.IOERR, P)
  return (.OK, if P.dbFileVers ≠ dbFileVers then P.reset else P)

/-- `pagerSharedLock`: the pager gets a shared lock, rolls back a hot journal, and drops a cache
    that is not up to date. -/
def pagerSharedLock (P : Pager) : PagerProgram (PagerRc × Pager) := do
  if P.state ≠ .UNLOCK then return (.OK, P)
  let granted ← osLock .SHARED_LOCK
  if !granted then return (.BUSY, P)
  let P := { P with state := .SHARED }
  let (isHotJournal, P) ← hasHotJournal C P
  let (rc, P) ← if isHotJournal then rollbackHot C P else pure (.OK, P)
  if rc ≠ .OK then
    let P ← pagerUnlock P
    return (rc, P)
  let (rc, P) ← checkCache C P
  if rc ≠ .OK then
    let P ← pagerUnlock P
    return (rc, P)
  return (.OK, P)

/-! ### Writing -/

/-- The loop of `pager_write_pagelist`; pages behind the end of the database are skipped. -/
def writePages (P : Pager) (pList : List PgHdr) : PagerProgram Pager :=
  pList.foldlM (fun P pg => do
    if P.dbSize < pg.pgno then return P
    osWrite .db ((pg.pgno - 1) * C.pageSize) pg.data
    return { P with
      dbFileVers := if pg.pgno = 1 then fileVers pg.data else P.dbFileVers
      dbFileSize := max P.dbFileSize pg.pgno }) P

/-- `pager_write_pagelist`: the pages are written to the database file under an exclusive lock -/
def pagerWritePagelist (P : Pager) (pList : List PgHdr) : PagerProgram (PagerRc × Pager) := do
  if pList.isEmpty then return (.OK, P)
  let (rc, P) ← waitForExclusive P
  if rc ≠ .OK then return (rc, P)
  let P ← writePages C P pList
  return (.OK, P)

/-- `pagerStress` for a dirty page, which is written back before the transaction commits; when the
    journal has to be synced first, a new header follows. -/
def pagerStress (P : Pager) (pg : PgHdr) : PagerProgram (PagerRc × Pager) := do
  let P ← if pg.needSync then do
      let P ← syncJournal C P
      writeJournalHdr C { P with nRec := 0 }
    else pure P
  let (rc, P) ← pagerWritePagelist C P [pg]
  if rc ≠ .OK then return (rc, P)
  return (.OK, P.makeClean pg.pgno)

/-- `sqlite3PcacheFetch`, as far as it writes pages back: a full cache recycles a page that the
    environment chooses. -/
def pcacheFetch (P : Pager) : PagerProgram (PagerRc × Pager) := do
  match ← osRecycle with
  | none => return (.OK, P)
  | some victim =>
    match P.lookup victim with
    | none => return (.OK, P)
    | some pg =>
      if !pg.dirty then return (.OK, P)
      let (rc, P) ← pagerStress C P pg
      return (if rc = .BUSY then .OK else rc, P)

/-- `sqlite3PagerAcquire` with content: from the cache, from the file, or zeros behind the end of
    the file -/
def sqlite3PagerAcquire (P : Pager) (pgno : Nat) : PagerProgram (PagerRc × Pager) := do
  if 2147483647 < pgno ∨ pgno = 0 ∨ pgno = C.mjPgno then return (.CORRUPT, P)
  let (rc, P) ← pagerSharedLock C P
  if rc ≠ .OK then return (rc, P)
  if (P.lookup pgno).isSome then return (.OK, P)
  let (rc, P) ← pcacheFetch C P
  if rc ≠ .OK then return (rc, P)
  let (nMax, P) ← sqlite3PagerPagecount C P
  if nMax < pgno then
    if P.mxPgno < pgno then return (.FULL, P)
    return (.OK, { P with cache := ⟨pgno, List.replicate C.pageSize 0, false, false⟩ :: P.cache })
  let (data, _) ← osRead .db ((pgno - 1) * C.pageSize) C.pageSize
  return (.OK, { P with
    dbFileVers := if pgno = 1 then fileVers data else P.dbFileVers
    cache := ⟨pgno, data, false, false⟩ :: P.cache })

/-- `pager_open_journal`: a new journal is created, with its first header -/
def pagerOpenJournal (P : Pager) : PagerProgram (PagerRc × Pager) := do
  let (_, P) ← sqlite3PagerPagecount C P
  let opened ← if P.jfdOpen then pure true else osOpenJournal true
  if !opened then return (.CANTOPEN, P)
  let P ← writeJournalHdr C { P with
    pInJournal := some []
    jfdOpen := true
    dbOrigSize := P.dbSize
    journalStarted := false
    needSync := false
    nRec := 0
    journalOff := 0
    journalHdr := 0 }
  return (.OK, P)

/-- `sqlite3PagerBegin`: the reserved lock, on demand the exclusive one, and the journal of the
    transaction -/
def sqlite3PagerBegin (P : Pager) (exFlag : Bool) : PagerProgram (PagerRc × Pager) := do
  if P.state = .SHARED then
    let granted ← osLock .RESERVED_LOCK
    if !granted then return (.BUSY, P)
    let P := { P with state := .RESERVED }
    let (rc, P) ← if exFlag then waitForExclusive P else pure (.OK, P)
    if rc ≠ .OK then return (rc, P)
    pagerOpenJournal C P
  else if P.jfdOpen = true ∧ P.journalOff = 0 then pagerOpenJournal C P
  else return (.OK, P)

/-- The page is written to the journal, with its number and its checksum, and has to wait for the
    next sync of the journal. -/
def journalPage (P : Pager) (pg : PgHdr) : PagerProgram Pager := do
  osWrite .journal P.journalOff (put32bits (.ofNat 32 pg.pgno))
  osWrite .journal (P.journalOff + 4) pg.data
  osWrite .journal (P.journalOff + 4 + C.pageSize) (put32bits (pagerCksum C P.cksumInit pg.data))
  return { P.mapPage pg.pgno fun pg => { pg with needSync := true } with
    journalOff := P.journalOff + C.journalPgSz
    needSync := true
    nRec := P.nRec + 1
    pInJournal := P.pInJournal.map (pg.pgno :: ·) }

/-- The end of `pager_write`, when "the transaction journal now exists" -/
def writeUnjournaled (P : Pager) (pg : PgHdr) : PagerProgram (PagerRc × Pager) := do
  let P := { P with dbModified := true }
  let P ← if pg.pgno ≤ P.dbOrigSize then journalPage C P pg
    else if P.journalStarted then pure P
    else pure { P.mapPage pg.pgno fun pg => { pg with needSync := true } with needSync := true }
  return (.OK, { P with dbSize := max P.dbSize pg.pgno })

/-- `pager_write`, which `sqlite3PagerWrite` is when a sector is not larger than a page, for a page
    in the cache -/
def pagerWrite (P : Pager) (pg : PgHdr) : PagerProgram (PagerRc × Pager) := do
  let P := P.makeDirty pg.pgno
  if P.pageInJournal pg.pgno then
    return (.OK, { P with dbModified := true, dbSize := max P.dbSize pg.pgno })
  let (rc, P) ← sqlite3PagerBegin C P false
  if rc ≠ .OK then return (rc, P)
  let (rc, P) ← if P.jfdOpen then pure (.OK, P) else pagerOpenJournal C P
  if rc ≠ .OK then return (rc, P)
  writeUnjournaled C P pg

/-- `sqlite3PagerGet`, then `sqlite3PagerWrite`, as the commit does it with the pages it needs
    itself -/
def getAndWrite (P : Pager) (pgno : Nat) : PagerProgram (PagerRc × Pager) := do
  let (rc, P) ← sqlite3PagerAcquire C P pgno
  if rc ≠ .OK then return (rc, P)
  match P.lookup pgno with
  | none => return (.ERROR, P)
  | some pg => pagerWrite C P pg

/-- The bytes from offset 24 on are set to `v`: the change counter in the header of the database. -/
def setCounter (data : List UInt8) (v : BitVec 32) : List UInt8 :=
  data.take 24 ++ put32bits v ++ data.drop 28

/-- `pager_incr_changecounter`: page 1 is written like any other, once in a transaction. -/
def pagerIncrChangecounter (P : Pager) : PagerProgram (PagerRc × Pager) := do
  if P.changeCountDone = true ∨ P.dbSize = 0 then return (.OK, P)
  let (rc, P) ← getAndWrite C P 1
  if rc ≠ .OK then return (rc, P)
  let changeCounter := sqlite3Get4byte P.dbFileVers + 1
  return (.OK, { P.mapPage 1 fun pg => { pg with data := setCounter pg.data changeCounter } with
    changeCountDone := true })

/-- The loop of `sqlite3PagerCommitPhaseOne` over the pages that are cut off and not in the journal
    yet. -/
def journalCut (P : Pager) (is : List Nat) : PagerProgram (PagerRc × Pager) :=
  is.foldlM (fun (rc, P) i =>
    if rc ≠ .OK ∨ P.pageInJournal i = true ∨ i = C.mjPgno then return (rc, P)
    else getAndWrite C P i) (.OK, P)

/-- The part of `sqlite3PagerCommitPhaseOne` that journals the pages that are cut off. -/
def journalDiscarded (P : Pager) : PagerProgram (PagerRc × Pager) := do
  if P.dbSize < P.dbOrigSize then
    let dbSize := P.dbSize
    let (rc, P) ← journalCut C { P with dbSize := P.dbOrigSize }
      (List.range' (dbSize + 1) (P.dbOrigSize - dbSize))
    if rc ≠ .OK then return (rc, P)
    return (.OK, { P with dbSize })
  else return (.OK, P)

/-- The end of `sqlite3PagerCommitPhaseOne`, when the pages are in the file: its size, and the
    sync. -/
def resizeAndSync (P : Pager) : PagerProgram (PagerRc × Pager) := do
  let P := P.cleanAll
  let P ← if P.dbSize ≠ P.dbFileSize then
      pagerTruncate C P (P.dbSize - if P.dbSize = C.mjPgno then 1 else 0)
    else pure P
  osSync .db
  return (.OK, { P with state := .SYNCED })

/-- `sqlite3PagerCommitPhaseOne`, of a transaction that changed something, step after step until an
    error. -/
def commitChanges (P : Pager) : PagerProgram (PagerRc × Pager) := do
  let (rc, P) ← pagerIncrChangecounter C P
  if rc ≠ .OK then return (rc, P)
  let (rc, P) ← journalDiscarded C P
  if rc ≠ .OK then return (rc, P)
  let P ← syncJournal C P
  let (rc, P) ← pagerWritePagelist C P P.dirtyList
  if rc ≠ .OK then return (rc, P)
  resizeAndSync C P

/-- `sqlite3PagerTruncateImage`: only the pager's count changes; the file is cut by the commit. -/
def sqlite3PagerTruncateImage (P : Pager) (nPage : Nat) : Pager := { P with dbSize := nPage }

/-- `sqlite3PagerCommitPhaseOne` without a master journal; nothing to do when nothing was
    written. -/
def sqlite3PagerCommitPhaseOne (P : Pager) : PagerProgram (PagerRc × Pager) := do
  if P.state = .SYNCED ∨ P.dbModified = false then return (.OK, P)
  commitChanges C P

/-- `sqlite3PagerCommitPhaseTwo`: the journal is deleted, by which the transaction is committed. -/
def sqlite3PagerCommitPhaseTwo (P : Pager) : PagerProgram (PagerRc × Pager) := do
  if P.state.num < PagerState.RESERVED.num then return (.ERROR, P)
  let P ← pagerEndTransaction P
  return (.OK, P)

end Ecos.Sqlite.Rollback
