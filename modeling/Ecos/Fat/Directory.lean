import Ecos.Fat.Lookup

namespace Ecos.Fat

/-!
# FAT directories

The operations that work on names: `fatfs_open`, `fatfs_opendir`, `fatfs_fo_close`,
`fatfs_chdir`, `fatfs_rename`, `fatfs_unlink`, `fatfs_mkdir`, `fatfs_rmdir` and `fatfs_umount`,
with the descriptor pool and the references that they take and drop.

* `Mounted` — a mounted disk with the descriptors and what its users hold: the descriptors of
  the open files, and the directories that `fatfs_chdir` gave out;
* `Mounted.openNode_cases`, `Mounted.opendir_cases`, `Mounted.foClose_cases`,
  `Mounted.chdir_cases` — the ways through operations;
* `DirCall`, `dirCall` — the operations as one step function.

What the operations do to the data of a file, to its times and to the position of a descriptor
is left out.  The directory that an operation starts from is the root directory or one that
`fatfs_chdir` gave out.
-/

/-- Is `CYGCFG_FS_FAT_USE_ATTRIBUTES` set, and `CYGNUM_FILEIO_NFD`, the number of descriptors. -/
structure FatConfig where
  useAttributes : Bool
  nfd : Nat

/-- A mounted disk and its users: the nodes, the descriptors, and who was given which directory. -/
structure Mounted (Disk Cache : Type) extends Volume Disk Cache where
  /-- `fatfs_fds_base[i].node` -/
  fdNode : Nat → Nat
  /-- `fatfs_fds_pool`, as indices of `fatfs_fds_base` -/
  pool : Nat → Nat
  /-- `fatfs_fds_free_cnt` -/
  freeCnt : Nat
  /-- The descriptors of the open files. -/
  files : List Nat
  /-- The directories that `fatfs_chdir` gave out and that were not given back. -/
  cwd : List Nat

variable {Disk Cache : Type} (D : DirSupport Disk) (N : NodeCache Cache) (cfg : FatConfig)

namespace Mounted

/-! ### Parts of the operations -/

/-- `*node`, of a node that is in the cache. -/
def node (s : Mounted Disk Cache) (n : Nat) : Option FatNode := N.node s.cache n

/-- `fatfs_node_ref`: one user more, of a node that is in the cache. -/
def ref (s : Mounted Disk Cache) (n : Nat) : Option (Mounted Disk Cache) := do
  let _ ← s.node N n
  return { s with cache := N.ref s.cache n }

/-- `fatfs_node_unref`: one user less, of a node that is in the cache. -/
def unref (s : Mounted Disk Cache) (n : Nat) : Option (Mounted Disk Cache) := do
  let _ ← s.node N n
  return { s with cache := N.unref s.cache n }

/-- `alloc_fatfs_fd`: the descriptor on top of the pool, which then refers to the node. -/
def allocFd (s : Mounted Disk Cache) (n : Nat) : Option (Nat × Mounted Disk Cache) :=
  if 0 < s.freeCnt then
    let d := s.pool (s.freeCnt - 1)
    some (d, { s with freeCnt := s.freeCnt - 1, fdNode := Function.update s.fdNode d n })
  else none

/-- `free_fatfs_fd`: the descriptor is put back on top of the pool. -/
def freeFd (s : Mounted Disk Cache) (d : Nat) : Mounted Disk Cache :=
  { s with pool := Function.update s.pool s.freeCnt d, freeCnt := s.freeCnt + 1 }

/-- May an operation start from this directory? The caller was given it, or it is the root. -/
def holds (s : Mounted Disk Cache) (dir : Option Nat) : Bool :=
  dir.all fun n => n = s.root || s.cwd.contains n

/-- `init_dirsearch` and `fatfs_find`, as each operation on a pathname begins. -/
def find (fuel : Nat) (s : Mounted Disk Cache) (dir : Option Nat) (name : List UInt8) :
    Option (Err × Mounted Disk Cache × DirSearch) := do
  let (err, v, ds) ← fatfsFind D N fuel s.toVolume (initDirsearch s.root dir name)
  return (err, { s with toVolume := v }, ds)

/-- The end of `fatfs_open` and of `fatfs_opendir`: a descriptor for the node, and a reference
    to it. -/
def openNode (s : Mounted Disk Cache) (n : Nat) : Option (Err × Mounted Disk Cache) :=
  match s.allocFd n with
  | none => some (.EMFILE, s)
  | some (d, s) => do
    let s ← s.ref N n
    return (.ENOERR, { s with files := d :: s.files })

/-- A lookup does not write, whatever it finds. -/
theorem find_disk {D : DirSupport Disk} {N : NodeCache Cache} {fuel : Nat}
    {s s' : Mounted Disk Cache} {dir : Option Nat} {name : List UInt8} {err : Err}
    {ds : DirSearch} (h : s.find D N fuel dir name = some (err, s', ds)) : s'.disk = s.disk := by
  obtain ⟨⟨err₁, v, ds₁⟩, hfind, h⟩ := Option.bind_eq_some_iff.mp h
  cases h
  exact fatfsFind_disk hfind

/-! ### The operations -/

/-- `fatfs_open`, when a node was found or created: truncation, the checks, and a descriptor. -/
def openFile (s : Mounted Disk Cache) (mode : OpenMode) (n : Nat) :
    Option (Err × Mounted Disk Cache) := do
  let x ← s.node N n
  -- clean out the file data
  let s := if mode.trunc then
      let (disk, e) := D.truncFile s.disk x.dentry
      { s with disk, cache := N.store s.cache n e }
    else s
  let x ← s.node N n
  if x.dentry.isDir then return (.EISDIR, s)
  if cfg.useAttributes ∧ x.dentry.rdOnly ∧ mode.wronly then return (.EACCES, s)
  s.openNode N n

/-- `fatfs_open`, with its lookup: the file is found, created, or the call fails. -/
def fatfsOpen (fuel : Nat) (s : Mounted Disk Cache) (dir : Option Nat) (name : List UInt8)
    (mode : OpenMode) : Option (Err × Mounted Disk Cache) := do
  let (err, s, ds) ← s.find D N fuel dir name
  if err = .ENOENT then
    if ds.last ∧ mode.creat then
      let x ← s.node N ds.dir
      let (err, disk, e) := D.createFile s.disk x.dentry ds.component
      let s := { s with disk }
      if err ≠ .ENOERR then return (err, s)
      match N.alloc s.cache e with
      | none => return (.EMFILE, s)
      | some (n, cache) => openFile D N cfg { s with cache } mode n
    else return (.ENOENT, s)
  else if err = .ENOERR then
    if mode.creat ∧ mode.excl then return (.EEXIST, s)
    openFile D N cfg s mode (← ds.node)
  else return (err, s)

/-- `fatfs_opendir`: the directory is looked up, checked, and given a descriptor. -/
def opendir (fuel : Nat) (s : Mounted Disk Cache) (dir : Option Nat) (name : List UInt8) :
    Option (Err × Mounted Disk Cache) := do
  let (err, s, ds) ← s.find D N fuel dir name
  if err ≠ .ENOERR then return (err, s)
  let n ← ds.node
  let x ← s.node N n
  if x.dentry.isDir = false then return (.ENOTDIR, s)
  s.openNode N n

/-- `fatfs_fo_close`, of the open file with the descriptor `d`: its entry is written back, and the
    reference dropped. -/
def foClose (s : Mounted Disk Cache) (d : Nat) : Option (Err × Mounted Disk Cache) := do
  let n := s.fdNode d
  let x ← s.node N n
  let (err, disk) := if n ≠ s.root then D.writeDirEntry s.disk x.dentry else (.ENOERR, s.disk)
  let s ← { s with disk }.unref N n
  return (err, { s.freeFd d with files := s.files.erase d })

/-- `fatfs_chdir`, when it gives out a directory: a reference for the new one. -/
def chdir (fuel : Nat) (s : Mounted Disk Cache) (dir : Option Nat) (name : List UInt8) :
    Option (Err × Mounted Disk Cache) := do
  let (err, s, ds) ← s.find D N fuel dir name
  if err ≠ .ENOERR then return (err, s)
  let n ← ds.node
  let x ← s.node N n
  if x.dentry.isDir = false then return (.ENOTDIR, s)
  let s ← if n ≠ s.root then s.ref N n else some s
  return (.ENOERR, { s with cwd := n :: s.cwd })

/-- `fatfs_chdir`, when a directory is given back: its reference goes, unless it is the root. -/
def chdirLeave (s : Mounted Disk Cache) (n : Nat) : Option (Err × Mounted Disk Cache) := do
  let s ← if n ≠ s.root then s.unref N n else some s
  return (.ENOERR, { s with cwd := s.cwd.erase n })

/-- `fatfs_rename`, between the references that protect the source and the label `out`.  A lookup
    of the target that fails otherwise than with `ENOENT` goes on to `fatfs_rename_file`. -/
def renameTo (fuel : Nat) (s : Mounted Disk Cache) (dir1 node1 : Nat) (dir2 : Option Nat)
    (name2 : List UInt8) : Option (Err × Mounted Disk Cache) := do
  let (err, s, ds2) ← s.find D N fuel dir2 name2
  if err = .ENOERR ∧ ds2.last then return (.EEXIST, s)
  if err = .ENOENT ∧ ds2.last = false then return (.ENOENT, s)
  if some node1 = ds2.node then return (.ENOERR, s)
  let d1 ← s.node N dir1
  let x ← s.node N node1
  let d2 ← s.node N ds2.dir
  let (err, disk, e) := D.renameFile s.disk d1.dentry x.dentry d2.dentry ds2.component
  return (err, { s with disk, cache := N.rehash s.cache node1 e })

/-- `fatfs_rename`: two lookups with references held across them, the checks, and the renaming of
    the entry. -/
def rename (fuel : Nat) (s : Mounted Disk Cache) (dir1 : Option Nat) (name1 : List UInt8)
    (dir2 : Option Nat) (name2 : List UInt8) : Option (Err × Mounted Disk Cache) := do
  let (err, s, ds1) ← s.find D N fuel dir1 name1
  if err ≠ .ENOERR then return (err, s)
  let n ← ds1.node
  let x ← s.node N n
  if cfg.useAttributes ∧ x.dentry.rdOnly then return (.EPERM, s)
  -- protect the found nodes from being reused by the second search
  let s ← s.ref N ds1.dir
  let s ← s.ref N n
  let (err, s) ← renameTo D N fuel s ds1.dir n dir2 name2
  let s ← s.unref N ds1.dir
  let s ← s.unref N n
  return (err, s)

/-- `fatfs_unlink`: refused for a node that is used or read only, and otherwise the file is deleted
    and its node freed. -/
def unlink (fuel : Nat) (s : Mounted Disk Cache) (dir : Option Nat) (name : List UInt8) :
    Option (Err × Mounted Disk Cache) := do
  let (err, s, ds) ← s.find D N fuel dir name
  if err ≠ .ENOERR then return (err, s)
  let n ← ds.node
  let x ← s.node N n
  if 0 < x.refcnt then return (.EBUSY, s)
  if cfg.useAttributes ∧ x.dentry.rdOnly then return (.EPERM, s)
  let (err, disk) := D.deleteFile s.disk x.dentry
  if err = .ENOERR then return (err, { s with disk, cache := N.free s.cache n })
  return (err, { s with disk })

/-- `fatfs_mkdir`: the last component must be missing, and its parent be there. -/
def mkdir (fuel : Nat) (s : Mounted Disk Cache) (dir : Option Nat) (name : List UInt8) :
    Option (Err × Mounted Disk Cache) := do
  let (err, s, ds) ← s.find D N fuel dir name
  if err = .ENOENT then
    if ds.last then
      let x ← s.node N ds.dir
      let (err, disk, e) := D.createDir s.disk x.dentry ds.component
      let s := { s with disk }
      if err ≠ .ENOERR then return (err, s)
      match N.alloc s.cache e with
      | none => return (.ENOERR, s)
      | some (_, cache) => return (.ENOERR, { s with cache })
    else return (.ENOENT, s)
  else if err = .ENOERR then return (.EEXIST, s)
  else return (err, s)

/-- `node = fatfs_node_find(disk, name, len, cluster); if (node != NULL) fatfs_node_free(...)` -/
def freeNamed (s : Mounted Disk Cache) (name : List UInt8) (cluster : BitVec 32) :
    Mounted Disk Cache :=
  match N.find s.cache name cluster with
  | some n => { s with cache := N.free s.cache n }
  | none => s

/-- `fatfs_rmdir`, from the lookup on: the node must be a directory that nobody uses; whether it is
    empty is found by the deletion. -/
def rmdirNode (s : Mounted Disk Cache) (n : Nat) : Option (Err × Mounted Disk Cache) := do
  let x ← s.node N n
  if x.dentry.isDir = false then return (.EPERM, s)
  if 0 < x.refcnt then return (.EBUSY, s)
  let (err, disk) := D.deleteFile s.disk x.dentry
  let s := { s with disk }
  if err ≠ .ENOERR then return (err, s)
  let s := (s.freeNamed N dot x.dentry.cluster).freeNamed N dotdot x.dentry.cluster
  return (.ENOERR, { s with cache := N.free s.cache n })

/-- `fatfs_rmdir`: the directory is looked up first, then checked, and its entry deleted at last. -/
def rmdir (fuel : Nat) (s : Mounted Disk Cache) (dir : Option Nat) (name : List UInt8) :
    Option (Err × Mounted Disk Cache) := do
  let (err, s, ds) ← s.find D N fuel dir name
  if err ≠ .ENOERR then return (err, s)
  rmdirNode D N s (← ds.node)

/-- `fatfs_umount`: does it find the disk in use? The root's count, then the number of live
    nodes. -/
def umount (s : Mounted Disk Cache) : Option Err := do
  let root ← s.node N s.root
  if 1 < root.refcnt then return .EBUSY
  if N.liveCount s.cache ≠ 1 then return .EBUSY
  return .ENOERR

end Mounted

/-! ### The ways through the operations -/

section Cases

variable {D : DirSupport Disk} {N : NodeCache Cache} {s s' : Mounted Disk Cache} {fuel n d : Nat}
  {dir : Option Nat} {name : List UInt8} {err : Err}

/-- There is no descriptor, or one is taken from the pool, with a reference to the node. -/
theorem Mounted.openNode_cases (h : s.openNode N n = some (err, s')) :
    s' = s ∨ 0 < s.freeCnt ∧ ∃ s₁,
      ({ s with
        freeCnt := s.freeCnt - 1
        fdNode := Function.update s.fdNode (s.pool (s.freeCnt - 1)) n } : Mounted Disk Cache).ref
          N n = some s₁ ∧
      s' = { s₁ with files := s.pool (s.freeCnt - 1) :: s₁.files } := by
  unfold Mounted.openNode Mounted.allocFd at h
  by_cases hfree : 0 < s.freeCnt
  · simp only [if_pos hfree] at h
    obtain ⟨s₁, href, h⟩ := Option.bind_eq_some_iff.mp h
    obtain ⟨-, rfl⟩ := Prod.mk.inj (Option.some.inj h)
    exact Or.inr ⟨hfree, s₁, href, rfl⟩
  · simp only [if_neg hfree] at h
    exact Or.inl (Prod.mk.inj (Option.some.inj h)).2.symm

/-- After its lookup, `fatfs_opendir` fails or opens a node, in one step of the account. -/
theorem Mounted.opendir_cases (h : s.opendir D N fuel dir name = some (err, s')) :
    ∃ err₁ s₁ ds, s.find D N fuel dir name = some (err₁, s₁, ds) ∧
      (s' = s₁ ∨ ∃ m, s₁.openNode N m = some (err, s')) := by
  obtain ⟨⟨err₁, s₁, ds⟩, hfind, h⟩ := Option.bind_eq_some_iff.mp h
  refine ⟨err₁, s₁, ds, hfind, ?_⟩
  dsimp only at h
  split at h
  · exact Or.inl (Prod.mk.inj (Option.some.inj h)).2.symm
  obtain ⟨m, -, h⟩ := Option.bind_eq_some_iff.mp h
  obtain ⟨x, -, h⟩ := Option.bind_eq_some_iff.mp h
  split at h
  · exact Or.inl (Prod.mk.inj (Option.some.inj h)).2.symm
  · exact Or.inr ⟨m, h⟩

/-- `fatfs_fo_close` drops the reference, and puts the descriptor back, whether or not the entry
    could be written. -/
theorem Mounted.foClose_cases (h : s.foClose D N d = some (err, s')) :
    ∃ x s₁, s.node N (s.fdNode d) = some x ∧
      ({ s with
        disk := (if s.fdNode d ≠ s.root then D.writeDirEntry s.disk x.dentry
          else (.ENOERR, s.disk)).2 } : Mounted Disk Cache).unref N (s.fdNode d) = some s₁ ∧
      s' = { s₁.freeFd d with files := s₁.files.erase d } := by
  obtain ⟨x, hx, h⟩ := Option.bind_eq_some_iff.mp h
  obtain ⟨s₁, hunref, h⟩ := Option.bind_eq_some_iff.mp h
  obtain ⟨-, rfl⟩ := Prod.mk.inj (Option.some.inj h)
  exact ⟨x, s₁, hx, hunref, rfl⟩

/-- After its lookup, `fatfs_chdir` fails or gives out a directory; it takes no reference to the
    root directory. -/
theorem Mounted.chdir_cases (h : s.chdir D N fuel dir name = some (err, s')) :
    ∃ err₁ s₁ ds, s.find D N fuel dir name = some (err₁, s₁, ds) ∧
      (s' = s₁ ∨ ∃ m s₂, (m = s₁.root ∧ s₂ = s₁ ∨ m ≠ s₁.root ∧ s₁.ref N m = some s₂) ∧
        s' = { s₂ with cwd := m :: s₂.cwd }) := by
  obtain ⟨⟨err₁, s₁, ds⟩, hfind, h⟩ := Option.bind_eq_some_iff.mp h
  refine ⟨err₁, s₁, ds, hfind, ?_⟩
  dsimp only at h
  split at h
  · exact Or.inl (Prod.mk.inj (Option.some.inj h)).2.symm
  obtain ⟨m, -, h⟩ := Option.bind_eq_some_iff.mp h
  obtain ⟨x, -, h⟩ := Option.bind_eq_some_iff.mp h
  split at h
  · exact Or.inl (Prod.mk.inj (Option.some.inj h)).2.symm
  split at h
  · rename_i hroot
    obtain ⟨s₂, href, h⟩ := Option.bind_eq_some_iff.mp h
    exact Or.inr ⟨m, s₂, Or.inr ⟨hroot, href⟩, (Prod.mk.inj (Option.some.inj h)).2.symm⟩
  · rename_i hroot
    exact Or.inr ⟨m, s₁, Or.inl ⟨Decidable.not_not.mp hroot, rfl⟩,
      (Prod.mk.inj (Option.some.inj h)).2.symm⟩

end Cases

/-! ### The operations as one function -/

/-- A call of an operation, by the names and directories that its caller passes. -/
inductive DirCall
  | open (dir : Option Nat) (name : List UInt8) (mode : OpenMode)
  | opendir (dir : Option Nat) (name : List UInt8)
  | close (d : Nat)
  | chdir (dir : Option Nat) (name : List UInt8)
  | leave (n : Nat)
  | rename (dir1 : Option Nat) (name1 : List UInt8) (dir2 : Option Nat) (name2 : List UInt8)
  | unlink (dir : Option Nat) (name : List UInt8)
  | mkdir (dir : Option Nat) (name : List UInt8)
  | rmdir (dir : Option Nat) (name : List UInt8)
  deriving DecidableEq, Repr

/-- May the users of the disk make this call? They start from directories that they hold, and close
    what is open. -/
def DirCall.allowed (s : Mounted Disk Cache) : DirCall → Bool
  | .open dir _ _ | .opendir dir _ | .chdir dir _ | .unlink dir _ | .mkdir dir _ | .rmdir dir _ =>
    s.holds dir
  | .rename dir1 _ dir2 _ => s.holds dir1 && s.holds dir2
  | .close d => s.files.contains d
  | .leave n => s.cwd.contains n

/-- A call of an operation: its result, and the state afterwards; none where its lookup does not
    come to an end. -/
def dirCall (fuel : Nat) (s : Mounted Disk Cache) (call : DirCall) :
    Option (Err × Mounted Disk Cache) :=
  if call.allowed s then
    match call with
    | .open dir name mode => Mounted.fatfsOpen D N cfg fuel s dir name mode
    | .opendir dir name => Mounted.opendir D N fuel s dir name
    | .close d => Mounted.foClose D N s d
    | .chdir dir name => Mounted.chdir D N fuel s dir name
    | .leave n => Mounted.chdirLeave N s n
    | .rename dir1 name1 dir2 name2 => Mounted.rename D N cfg fuel s dir1 name1 dir2 name2
    | .unlink dir name => Mounted.unlink D N cfg fuel s dir name
    | .mkdir dir name => Mounted.mkdir D N fuel s dir name
    | .rmdir dir name => Mounted.rmdir D N fuel s dir name
  else none

end Ecos.Fat
