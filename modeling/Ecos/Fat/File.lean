import Ecos.Lib.Bytes
import Mathlib.Logic.Function.Basic

namespace Ecos.Fat

/-!
# FAT files: open, seek, read and write

The model of `fatfs_open`, `fatfs_fo_lseek`, `fatfs_fo_read` and `fatfs_fo_write`.  The
code that moves data between a file's clusters and memory is not part of the file; it is the
parameter `FatSupport`, and what is known of it are hypotheses of the theorems.

* `Handle` — what an open file descriptor reaches: the disk, the directory entry of its node,
  its disk cursor `fd->pos`, its flags and its offset `fp->f_offset`;
* `foLseek`, `foRead`, `foWrite` — the file operations on a handle, with their loops;
* `FatState` — the disk, the nodes, the descriptor pool and the file table;
* `fatfsOpen`, `fileOp` — opening a file, and the file operations on an entry of the table.

`off_t` and `cyg_uint32` are both 32 bits wide.  The code copies `f_offset` to a `cyg_uint32`
before it uses it, and compares an `off_t` with a `cyg_uint32` as unsigned numbers; where it
tests an `off_t` against zero the comparison is signed.  A loop takes fuel and is undefined
when it runs out of it.
-/

open Ecos.Lib

/-- The error codes of the file system, as far as the modelled functions return or compare them. -/
inductive Err
  | ENOERR | ENOENT | EIO | EINVAL | ENOSPC | EMFILE | EEXIST | ENOTDIR | EISDIR | EACCES | EEOF
  | EBUSY | EPERM
  deriving DecidableEq, Repr

/-- The part of a directory entry that the file operations read or write. -/
structure Dentry where
  /-- The size of the file in bytes. -/
  size : BitVec 32
  /-- `S_ISDIR(mode)` -/
  isDir : Bool
  /-- `S_FATFS_ISRDONLY(attrib)` -/
  rdOnly : Bool
  /-- The first cluster. -/
  cluster : BitVec 32
  deriving DecidableEq, Repr

/-- The FAT support code, over the state of a disk and a position in the data of a file. -/
structure FatSupport (Disk Pos : Type) where
  /-- `fatfs_initpos` -/
  initpos : Disk → Dentry → Pos
  /-- `fatfs_setpos`: move the position to the given offset. -/
  setpos : Disk → Dentry → Pos → BitVec 32 → Err × Disk × Pos
  /-- `fatfs_read_data`: the bytes read, at most as many as asked for. -/
  readData : Disk → Dentry → Pos → BitVec 32 → Err × Disk × Pos × List UInt8
  /-- `fatfs_write_data`: how many of the given bytes were written. -/
  writeData : Disk → Dentry → Pos → List UInt8 → Err × Disk × Dentry × Pos × BitVec 32
  /-- `fatfs_trunc_file`; its result is not used. -/
  truncFile : Disk → Dentry → Disk × Dentry

/-- A `cyg_iovec`: a buffer whose length fits its `ssize_t`. -/
structure Iovec where
  /-- The memory at `iov_base`, of length `iov_len`. -/
  buf : List UInt8
  len_lt : buf.length < 2 ^ 31

/-- The length of the three-byte vectors of the runs on concrete files. -/
theorem Iovec.three_lt : 3 < 2 ^ 31 := by decide

/-- A `cyg_uio`: the vectors of a request, and the count of the bytes that are left. -/
structure Uio where
  /-- `uio_iov`, of length `uio_iovcnt`. -/
  iov : List Iovec
  /-- `uio_resid` -/
  resid : BitVec 32

/-- The lengths of the vectors, in the order in which they are written or read. -/
def Uio.lens (uio : Uio) : List Nat := uio.iov.map fun v => v.buf.length

/-- The bytes of all vectors, in order: what a write is asked to write. -/
def Uio.data (uio : Uio) : List UInt8 := uio.iov.flatMap Iovec.buf

/-- What an open file reaches: the disk, its directory entry, and its own position. -/
structure Handle (Disk Pos : Type) where
  disk : Disk
  /-- `fd->node->dentry` -/
  dentry : Dentry
  /-- The disk cursor `fd->pos`. -/
  pos : Pos
  /-- `fp->f_flag & CYG_FAPPEND` -/
  append : Bool
  /-- `fp->f_offset` -/
  offset : BitVec 32

/-- What the transfer loops work on: the disk, the directory entry, the disk cursor, and the
    local variables `pos` and `resid`. -/
structure Xfer (Disk Pos : Type) where
  disk : Disk
  dentry : Dentry
  cursor : Pos
  pos : BitVec 32
  resid : BitVec 32

variable {Disk Pos : Type} (S : FatSupport Disk Pos)

/-- Where a transfer starts: the local variables of the read and write loops. -/
def Handle.xfer (h : Handle Disk Pos) (uio : Uio) : Xfer Disk Pos :=
  ⟨h.disk, h.dentry, h.pos, h.offset, uio.resid⟩

/-- What a transfer that did not complete leaves behind: the data and the disk cursor have
    moved, the offset has not. -/
def Handle.partialXfer (h : Handle Disk Pos) (x : Xfer Disk Pos) : Handle Disk Pos :=
  { h with disk := x.disk, dentry := x.dentry, pos := x.cursor }

/-! ### Reading -/

/-- The loop of `fatfs_fo_read` that fills one vector with `len` bytes, one call of the support
    code a turn. -/
def readVec : Nat → Xfer Disk Pos → Nat → Option (Err × Xfer Disk Pos × List UInt8)
  | 0, _, _ => none
  | fuel + 1, x, len =>
    if 0 < len ∧ x.pos < x.dentry.size then
      -- adjust the size to the end of the file if necessary
      let rest := x.dentry.size - x.pos
      let l := if rest < BitVec.ofNat 32 len then rest else BitVec.ofNat 32 len
      match S.readData x.disk x.dentry x.cursor l with
      | (.ENOERR, disk, cursor, buf) =>
        let n := BitVec.ofNat 32 buf.length
        let x' := { x with disk, cursor, pos := x.pos + n, resid := x.resid - n }
        (readVec fuel x' (len - buf.length)).map fun (err, x', tail) => (err, x', buf ++ tail)
      | (err, disk, cursor, buf) => some (err, { x with disk, cursor }, buf)
    else some (.ENOERR, x, [])

/-- The loop of `fatfs_fo_read` over the vectors, until an error or the end of the request. -/
def readVecs (fuel : Nat) :
    Xfer Disk Pos → List Nat → Option (Err × Xfer Disk Pos × List (List UInt8))
  | x, [] => some (.ENOERR, x, [])
  | x, len :: lens =>
    match readVec S fuel x len with
    | none => none
    | some (.ENOERR, x', buf) =>
      (readVecs fuel x' lens).map fun (err, x', bufs) => (err, x', buf :: bufs)
    | some (err, x', buf) => some (err, x', [buf])

/-- `fatfs_fo_read`: the result, the handle, what was read into each vector, and `uio_resid`. -/
def foRead (fuel : Nat) (h : Handle Disk Pos) (uio : Uio) :
    Option (Err × Handle Disk Pos × List (List UInt8) × BitVec 32) :=
  match readVecs S fuel (h.xfer uio) uio.lens with
  | none => none
  | some (.ENOERR, x, bufs) =>
    some (.ENOERR, { h.partialXfer x with offset := x.pos }, bufs, x.resid)
  | some (err, x, bufs) => some (err, h.partialXfer x, bufs, uio.resid)

/-! ### Writing -/

/-- The loop of `fatfs_fo_write` that writes zeros from the end of the file to the offset;
    the buffer is what is left to write. -/
def fillHole : Nat → Xfer Disk Pos → List UInt8 → Option (Err × Xfer Disk Pos)
  | 0, _, _ => none
  | fuel + 1, x, buf =>
    if buf = [] then some (.ENOERR, x)
    else
      match S.writeData x.disk x.dentry x.cursor buf with
      | (.ENOERR, disk, dentry, cursor, l) =>
        fillHole fuel { x with disk, dentry, cursor } (buf.drop l.toNat)
      | (err, disk, dentry, cursor, _) => some (err, { x with disk, dentry, cursor })

/-- How the writing of one vector ends, since an error in it does not always end the function. -/
inductive Flow
  /-- The loop goes on with the next vector; `err` keeps its value. -/
  | next (err : Err)
  /-- The function returns. -/
  | ret (err : Err)

/-- The loop of `fatfs_fo_write` that writes one vector; `ENOSPC` ends it only, and the loop over
    the vectors goes on. -/
def writeVec : Nat → Err → Xfer Disk Pos → List UInt8 → Option (Flow × Xfer Disk Pos)
  | 0, _, _, _ => none
  | fuel + 1, err, x, buf =>
    if buf = [] then some (.next err, x)
    else
      match S.writeData x.disk x.dentry x.cursor buf with
      | (err, disk, dentry, cursor, l) =>
        let x' := ⟨disk, dentry, cursor, x.pos + l, x.resid - l⟩
        -- stop writing this vector if there is no more space
        if err = .ENOSPC then some (.next err, x')
        else if err ≠ .ENOERR then some (.ret err, x')
        else writeVec fuel err x' (buf.drop l.toNat)

/-- The loop of `fatfs_fo_write` over the vectors, until an error returns or the vectors are
    done. -/
def writeVecs (fuel : Nat) : Err → Xfer Disk Pos → List Iovec → Option (Flow × Xfer Disk Pos)
  | err, x, [] => some (.next err, x)
  | err, x, v :: vs =>
    match writeVec S fuel err x v.buf with
    | none => none
    | some (.next err, x') => writeVecs fuel err x' vs
    | some (.ret err, x') => some (.ret err, x')

/-- The end of `fatfs_fo_write`, from the loop over the vectors on: offset, size and `uio_resid`
    are stored. -/
def writeData (fuel : Nat) (h : Handle Disk Pos) (uio : Uio) :
    Option (Err × Handle Disk Pos × BitVec 32) :=
  match writeVecs S fuel .ENOERR (h.xfer uio) uio.iov with
  | none => none
  | some (.ret err, x) => some (err, h.partialXfer x, uio.resid)
  | some (.next err, x) =>
    let size := if x.dentry.size < x.pos then x.pos else x.dentry.size
    some (err, { h.partialXfer x with dentry := { x.dentry with size }, offset := x.pos },
      x.resid)

/-- In append mode, go to the end of the file; the result of `fatfs_setpos` is not used. -/
def Handle.toEnd (h : Handle Disk Pos) : Handle Disk Pos :=
  if h.append then
    let (_, disk, pos) := S.setpos h.disk h.dentry h.pos h.dentry.size
    { h with disk, pos, offset := h.dentry.size }
  else h

/-- The zeros between the end of the file and the offset.  Their number is an `off_t`: when it
    is negative, nothing is written. -/
def Handle.hole (h : Handle Disk Pos) : List UInt8 :=
  let len := h.offset - h.dentry.size
  if BitVec.slt 0 len then List.replicate len.toNat 0 else []

/-- `fatfs_fo_write`, after the offset is known.  The test `pos < 0` of a `cyg_uint32` never
    succeeds.  `mem` says whether `calloc` finds memory for the zeros. -/
def writeAtOffset (fuel : Nat) (mem : Bool) (h : Handle Disk Pos) (uio : Uio) :
    Option (Err × Handle Disk Pos × BitVec 32) :=
  if h.dentry.size < h.offset then
    if mem then
      match fillHole S fuel (h.xfer uio) h.hole with
      | none => none
      | some (.ENOERR, x) => writeData S fuel (h.partialXfer x) uio
      | some (err, x) => some (err, h.partialXfer x, uio.resid)
    else some (.EINVAL, h, uio.resid)
  else writeData S fuel h uio

/-- `fatfs_fo_write`: the result, the handle and `uio_resid`; an append goes to the end of the file
    first. -/
def foWrite (fuel : Nat) (mem : Bool) (h : Handle Disk Pos) (uio : Uio) :
    Option (Err × Handle Disk Pos × BitVec 32) :=
  writeAtOffset S fuel mem (h.toEnd S) uio

/-! ### Seeking -/

/-- The `whence` argument of `fatfs_fo_lseek`: one of three, or something that it does not know. -/
inductive Whence
  | SEEK_SET | SEEK_CUR | SEEK_END
  | other
  deriving DecidableEq, Repr

/-- The position that a seek asks for, in the 32 bits in which the code adds. -/
def Handle.seekTo (h : Handle Disk Pos) (apos : BitVec 32) : Whence → Option (BitVec 32)
  | .SEEK_SET => some apos
  | .SEEK_CUR => some (apos + h.offset)
  | .SEEK_END => some (apos + h.dentry.size)
  | .other => none

/-- `fatfs_fo_lseek`: the result, the handle and `*apos`.  The disk cursor is parked at the end
    of the file when the new position is beyond it. -/
def foLseek (h : Handle Disk Pos) (apos : BitVec 32) (whence : Whence) :
    Err × Handle Disk Pos × BitVec 32 :=
  match h.seekTo apos whence with
  | none => (.EINVAL, h, apos)
  | some pos =>
    if BitVec.slt pos 0 then (.EINVAL, h, apos)
    else
      let target := if h.dentry.size < pos then h.dentry.size else pos
      match S.setpos h.disk h.dentry h.pos target with
      | (.ENOERR, disk, cursor) => (.ENOERR, { h with disk, pos := cursor, offset := pos }, pos)
      | (err, disk, cursor) => (err, { h with disk, pos := cursor }, apos)

/-! ### The file operations as one function -/

/-- A call of a file operation, with what it reads of its arguments. -/
inductive FileCall
  | lseek (apos : BitVec 32) (whence : Whence)
  | read (uio : Uio)
  | write (mem : Bool) (uio : Uio)

/-- What a file operation returns, apart from its error code. -/
inductive FileRet
  /-- `*apos` -/
  | pos (apos : BitVec 32)
  /-- What was read into each vector, and `uio_resid`. -/
  | data (bufs : List (List UInt8)) (resid : BitVec 32)
  /-- `uio_resid` -/
  | resid (resid : BitVec 32)
  deriving DecidableEq, Repr

/-- A file operation on a handle, with its result and the handle afterwards. -/
def Handle.call (fuel : Nat) (h : Handle Disk Pos) :
    FileCall → Option ((Err × FileRet) × Handle Disk Pos)
  | .lseek apos whence =>
    let (err, h, apos) := foLseek S h apos whence
    some ((err, .pos apos), h)
  | .read uio => (foRead S fuel h uio).map fun (err, h, bufs, resid) => ((err, .data bufs resid), h)
  | .write mem uio =>
    (foWrite S fuel mem h uio).map fun (err, h, resid) => ((err, .resid resid), h)

/-! ### The file table -/

/-- A `fatfs_fd_t`: a node, shared by all its descriptors, and a position of its own. -/
structure Fd (Pos : Type) where
  node : Nat
  pos : Pos

/-- What the file operations use of a `cyg_file`, the entry of the file table. -/
structure CygFile where
  /-- `f_flag & CYG_FAPPEND` -/
  append : Bool
  /-- `f_offset` -/
  offset : BitVec 32
  /-- `f_data`, as an index of `fatfs_fds_base` -/
  data : Nat
  deriving DecidableEq, Repr

/-- The state of the file system: the disk, its nodes, the descriptors and the open files. -/
structure FatState (Disk Pos : Type) where
  disk : Disk
  /-- The directory entries of the nodes. -/
  node : Nat → Dentry
  /-- `fatfs_fds_base` -/
  fd : Nat → Fd Pos
  /-- The free entries of `fatfs_fds_pool`, the next one to be taken first. -/
  pool : List Nat
  /-- The file table; `none` is an entry that is not in use. -/
  file : Nat → Option CygFile

/-- What an open file reaches, through its descriptor and the node of it. -/
def FatState.handleOf (s : FatState Disk Pos) (f : CygFile) : Handle Disk Pos :=
  ⟨s.disk, s.node (s.fd f.data).node, (s.fd f.data).pos, f.append, f.offset⟩

/-- What the `i`-th file reaches, if it is open. -/
def FatState.handle (s : FatState Disk Pos) (i : Nat) : Option (Handle Disk Pos) :=
  (s.file i).map s.handleOf

/-- Write back what the `i`-th file reaches: its node, its descriptor and its entry. -/
def FatState.store (s : FatState Disk Pos) (i : Nat) (h : Handle Disk Pos) :
    FatState Disk Pos :=
  match s.file i with
  | none => s
  | some f =>
    let n := (s.fd f.data).node
    { s with
      disk := h.disk
      node := Function.update s.node n h.dentry
      fd := Function.update s.fd f.data ⟨n, h.pos⟩
      file := Function.update s.file i (some ⟨h.append, h.offset, f.data⟩) }

/-- A file operation on the `i`-th file, of those that are open. -/
def fileOp (fuel i : Nat) (s : FatState Disk Pos) (c : FileCall) :
    Option ((Err × FileRet) × FatState Disk Pos) := do
  let h ← s.handle i
  let (r, h) ← h.call S fuel c
  return (r, s.store i h)

/-! ### Opening a file -/

/-- The bits of the `mode` argument of `fatfs_open` that it tests. -/
structure OpenMode where
  creat : Bool
  excl : Bool
  trunc : Bool
  append : Bool
  wronly : Bool
  deriving DecidableEq, Repr

/-- A node that a lookup or the creation of a file returned; with its directory entry when the
    node was allocated by that call, without it when it was in the node cache. -/
structure Found where
  node : Nat
  loaded : Option Dentry
  deriving DecidableEq, Repr

/-- An error code other than `ENOERR`, which a failing call returns. -/
abbrev Failure := { err : Err // err ≠ .ENOERR }

/-- The outcome of `fatfs_find`, as `fatfs_open` tells its cases apart. -/
inductive Find
  | found (f : Found)
  /-- `ENOENT`, with `ds.last`. -/
  | missing (last : Bool)
  | failed (err : Failure)

/-- The arguments of `fatfs_open` and the outcome of the lookups it makes, which are not modelled
    here. -/
structure OpenArgs (Disk : Type) where
  /-- The entry of the file table that is opened. -/
  file : Nat
  mode : OpenMode
  find : Find
  /-- The outcome of `fatfs_create_file` and `fatfs_node_alloc`, when they are called. -/
  create : Failure ⊕ Found
  /-- The disk after these calls. -/
  disk : Disk
  /-- Is `CYGCFG_FS_FAT_USE_ATTRIBUTES` set? -/
  useAttributes : Bool

/-- The node table after a lookup, which may have read a node from the disk. -/
def FatState.load (s : FatState Disk Pos) (f : Found) : FatState Disk Pos :=
  match f.loaded with
  | none => s
  | some e => { s with node := Function.update s.node f.node e }

/-- `fatfs_trunc_file` on a node, which all descriptors of the file share. -/
def FatState.trunc (s : FatState Disk Pos) (n : Nat) : FatState Disk Pos :=
  let (disk, e) := S.truncFile s.disk (s.node n)
  { s with disk, node := Function.update s.node n e }

/-- `fatfs_open` from `alloc_fatfs_fd` on: a descriptor is taken, and the entry of the file table
    filled. -/
def allocFile (s : FatState Disk Pos) (o : OpenArgs Disk) (n : Nat) : Err × FatState Disk Pos :=
  match s.pool with
  | [] => (.EMFILE, s)
  | d :: pool =>
    let e := s.node n
    let start := S.initpos s.disk e
    let (disk, pos) :=
      if o.mode.append then (S.setpos s.disk e start e.size).2 else (s.disk, start)
    (.ENOERR, { s with
      disk
      pool
      fd := Function.update s.fd d ⟨n, pos⟩
      file := Function.update s.file o.file
        (some ⟨o.mode.append, if o.mode.append then e.size else 0, d⟩) })

/-- `fatfs_open`, when a node was found or created: truncation, the checks of the mode, and the
    descriptor. -/
def openNode (s : FatState Disk Pos) (o : OpenArgs Disk) (n : Nat) : Err × FatState Disk Pos :=
  let s := if o.mode.trunc then s.trunc S n else s
  if (s.node n).isDir then (.EISDIR, s)
  else if o.useAttributes ∧ (s.node n).rdOnly ∧ o.mode.wronly then (.EACCES, s)
  else allocFile S s o n

/-- `fatfs_open`, from the outcome of its lookup on: what is checked, created and cut to no
    bytes. -/
def fatfsOpen (s : FatState Disk Pos) (o : OpenArgs Disk) : Err × FatState Disk Pos :=
  let s := { s with disk := o.disk }
  match o.find with
  | .found f =>
    if o.mode.creat ∧ o.mode.excl then (.EEXIST, s.load f) else openNode S (s.load f) o f.node
  | .missing last =>
    if last ∧ o.mode.creat then
      match o.create with
      | .inl err => (err.1, s)
      | .inr f => openNode S (s.load f) o f.node
    else (.ENOENT, s)
  | .failed err => (err.1, s)

end Ecos.Fat
