import Ecos.Fat.File
import Mathlib.Data.Finset.Card

namespace Ecos.Fat

/-!
# FAT path lookup

The model of `find_direntry`, `find_entry` and `fatfs_find`, with the node cache that they use.

* `DirEntry`, `FatNode` — a directory entry, and the cached node made of it;
* `NodeCache`, `DirSupport` — the node cache and the code that reads and writes directories,
  which are not part of the file; `CacheLaws` says what is known of the cache;
* `findDirentry`, `findEntry`, `fatfsFind` — the lookup of one name, of the next element of a
  path, and of a path;
* `Kept` — a lookup forgets no node that has references, and changes no reference count.

A path is the list of its bytes without the terminator.  The variable `namelen` of `find_entry`
is a plain `char`, which is signed on some targets (the i386 among them) and unsigned on others:
`DirSupport.charSigned` says which.  Reading through the address of a node that is not cached is
undefined, and so is the lookup of a name with a negative length: `fatfs_node_find` gets it as the
length of the name, and `find_direntry` reads in front of `dentry.filename`.
-/

/-! ### Nodes -/

/-- What the lookup uses of a `fatfs_dir_entry_t`: the name, and the directory it was read from. -/
structure DirEntry extends Dentry where
  filename : List UInt8
  /-- `parent_cluster`: the first cluster of the directory that the entry was read from. -/
  parentCluster : BitVec 32
  deriving DecidableEq, Repr

/-- A `fatfs_node_t`: a directory entry in memory, with the number of its users. -/
structure FatNode where
  dentry : DirEntry
  refcnt : Nat
  deriving DecidableEq, Repr

/-- `tolower`, of the letters that it changes in the C locale. -/
def toLower (c : UInt8) : UInt8 := if 65 ≤ c ∧ c ≤ 90 then c + 32 else c

/-- Is the name of the entry the given one, in any case? So the disk and the cache compare names. -/
def DirEntry.named (e : DirEntry) (name : List UInt8) : Bool :=
  e.filename.map toLower = name.map toLower

/-- `"."`, the name by which a directory has itself -/
def dot : List UInt8 := [46]

/-- `".."`, the name by which a directory has its parent -/
def dotdot : List UInt8 := [46, 46]

/-- The node cache, over its state: a parameter, since its lists and hash are not modelled here. -/
structure NodeCache (Cache : Type) where
  /-- The cached node at an address. -/
  node : Cache → Nat → Option FatNode
  /-- `fatfs_node_find`, by name and parent cluster. -/
  find : Cache → List UInt8 → BitVec 32 → Option Nat
  /-- `fatfs_node_touch` -/
  touch : Cache → Nat → Cache
  /-- `fatfs_node_alloc` -/
  alloc : Cache → DirEntry → Option (Nat × Cache)
  /-- `fatfs_node_free` -/
  free : Cache → Nat → Cache
  /-- `fatfs_node_ref` -/
  ref : Cache → Nat → Cache
  /-- `fatfs_node_unref` -/
  unref : Cache → Nat → Cache
  /-- `fatfs_node_rehash`, after the name and the place of the node were changed to the given
      ones. -/
  rehash : Cache → Nat → DirEntry → Cache
  /-- The rest of the directory entry of a node is changed. -/
  store : Cache → Nat → Dentry → Cache
  /-- `fatfs_get_live_node_count` -/
  liveCount : Cache → Nat

/-- The code that reads and writes directories, over the state of a disk, and what the target makes
    of a `char`. -/
structure DirSupport (Disk : Type) where
  /-- Is a plain `char` signed? -/
  charSigned : Bool
  /-- What `fatfs_read_dir_entry` delivers from the start of a directory on: the entries, and
      the error that ends them. -/
  readDir : Disk → DirEntry → List DirEntry × Failure
  /-- `fatfs_create_file` -/
  createFile : Disk → DirEntry → List UInt8 → Err × Disk × DirEntry
  /-- `fatfs_create_dir` -/
  createDir : Disk → DirEntry → List UInt8 → Err × Disk × DirEntry
  /-- `fatfs_delete_file` -/
  deleteFile : Disk → DirEntry → Err × Disk
  /-- `fatfs_rename_file`, with the entry of the renamed node afterwards. -/
  renameFile : Disk → DirEntry → DirEntry → DirEntry → List UInt8 → Err × Disk × DirEntry
  /-- `fatfs_write_dir_entry` -/
  writeDirEntry : Disk → DirEntry → Err × Disk
  /-- `fatfs_trunc_file` -/
  truncFile : Disk → DirEntry → Disk × Dentry

variable {Disk Cache : Type}

/-- The reference count of a node, 0 when it is not cached. -/
def NodeCache.refs (N : NodeCache Cache) (c : Cache) (n : Nat) : Nat :=
  ((N.node c n).map FatNode.refcnt).getD 0

/-- What is known of the node cache: which nodes an operation may move, and which it leaves. -/
structure CacheLaws (N : NodeCache Cache) : Prop where
  /-- A node that is found has the name and the parent cluster. -/
  find_some : ∀ {c name p n}, N.find c name p = some n →
    ∃ x, N.node c n = some x ∧ x.dentry.named name = true ∧ x.dentry.parentCluster = p
  /-- A node that has them is found. -/
  find_none : ∀ {c name p n x}, N.find c name p = none → N.node c n = some x →
    x.dentry.named name = true → x.dentry.parentCluster ≠ p
  touch : ∀ c n, N.node (N.touch c n) = N.node c
  /-- A new node takes the place of one without references, or a free one. -/
  alloc : ∀ {c e n c'}, N.alloc c e = some (n, c') →
    N.refs c n = 0 ∧ N.node c' = Function.update (N.node c) n (some ⟨e, 0⟩)
  free : ∀ c n, N.node (N.free c n) = Function.update (N.node c) n none
  ref : ∀ {c n x}, N.node c n = some x →
    N.node (N.ref c n) = Function.update (N.node c) n (some { x with refcnt := x.refcnt + 1 })
  unref : ∀ {c n x}, N.node c n = some x →
    N.node (N.unref c n) = Function.update (N.node c) n (some { x with refcnt := x.refcnt - 1 })
  rehash : ∀ {c n x} e, N.node c n = some x →
    N.node (N.rehash c n e) = Function.update (N.node c) n (some { x with dentry := e })
  store : ∀ {c n x} e, N.node c n = some x →
    N.node (N.store c n e)
      = Function.update (N.node c) n (some { x with dentry := { x.dentry with toDentry := e } })
  /-- The live nodes are those with references. -/
  live : ∀ c, ∃ ns : Finset Nat, (∀ n, n ∈ ns ↔ 0 < N.refs c n) ∧ N.liveCount c = ns.card

/-- A mounted disk: its state, the node cache, and the node of the root directory. -/
structure Volume (Disk Cache : Type) where
  disk : Disk
  cache : Cache
  root : Nat

/-- A `fatfs_dirsearch_t`: where a lookup is on its way along the path. -/
structure DirSearch where
  dir : Nat
  path : List UInt8
  node : Option Nat
  name : List UInt8
  namelen : Nat
  last : Bool
  deriving DecidableEq, Repr

/-- `init_dirsearch`; the root directory stands for no directory. -/
def initDirsearch (root : Nat) (dir : Option Nat) (name : List UInt8) : DirSearch :=
  let dir := dir.getD root
  { dir, path := name, node := some dir, name, namelen := 0, last := false }

/-- The name that is looked up, the first `namelen` letters of what is left. -/
def DirSearch.component (ds : DirSearch) : List UInt8 := ds.name.take ds.namelen

variable (D : DirSupport Disk) (N : NodeCache Cache)

/-! ### Looking up a name -/

/-- The node found for an entry: a cached one, or a new one. -/
def cachedNode (v : Volume Disk Cache) (ds : DirSearch) (name : List UInt8)
    (parentCluster : BitVec 32) (e : DirEntry) : Err × Volume Disk Cache × DirSearch :=
  match N.find v.cache name parentCluster with
  | some n => (.ENOERR, { v with cache := N.touch v.cache n }, { ds with node := some n })
  | none =>
    match N.alloc v.cache e with
    | some (n, cache) => (.ENOERR, { v with cache }, { ds with node := some n })
    | none => (.EMFILE, v, { ds with node := none })

/-- The branch of `find_direntry` for the entry `".."`: the parent directory is known by the
    entry `"."` in it. -/
def findParent (v : Volume Disk Cache) (ds : DirSearch) (e : DirEntry) :
    Err × Volume Disk Cache × DirSearch :=
  if e.cluster = 0 then (.ENOERR, v, { ds with node := some v.root })
  else
    let (entries, err) := D.readDir v.disk e
    match entries.find? (fun x => x.filename = dot) with
    | none => (err.1, v, { ds with node := none })
    | some x => cachedNode N v ds x.filename x.parentCluster x

/-- `find_direntry`: the directory itself for `"."`, then the cache, and then the entries on the
    disk. -/
def findDirentry (v : Volume Disk Cache) (ds : DirSearch) :
    Option (Err × Volume Disk Cache × DirSearch) := do
  let dir ← N.node v.cache ds.dir
  if dot.take ds.namelen = ds.component then
    return (.ENOERR, v, { ds with node := some ds.dir })
  match N.find v.cache ds.component dir.dentry.cluster with
  | some n => return (.ENOERR, { v with cache := N.touch v.cache n }, { ds with node := some n })
  | none =>
    -- not in the cache: search the directory
    let (entries, err) := D.readDir v.disk dir.dentry
    match entries.find? (fun e => e.named ds.component) with
    | none => return (if err.1 = .EEOF then .ENOERR else err.1, v, { ds with node := none })
    | some e =>
      if ds.component = dotdot.take ds.namelen then return findParent D N v ds e
      match N.alloc v.cache e with
      | some (n, cache) => return (.ENOERR, { v with cache }, { ds with node := some n })
      | none => return (.EMFILE, v, { ds with node := none })

/-! ### Looking up a path -/

/-- The next element of the path, as `find_entry` notes it; `namelen` is the byte of the `char` in
    which its characters are counted. -/
def DirSearch.isolate (ds : DirSearch) : DirSearch :=
  let element := ds.path.takeWhile (· ≠ 47)
  { ds with
    name := ds.path
    namelen := element.length % 2 ^ 8
    last := ds.last || element.length = ds.path.length }

/-- Is the length of the name negative?  That is what a signed `char` makes of a byte from `2 ^ 7`
    on. -/
def DirSupport.negative (D : DirSupport Disk) (ds : DirSearch) : Bool :=
  D.charSigned && 2 ^ 7 ≤ ds.namelen

/-- `find_entry`: one component is isolated and looked for in its directory; `ENOENT` when it is
    not there. -/
def findEntry (v : Volume Disk Cache) (ds : DirSearch) :
    Option (Err × Volume Disk Cache × DirSearch) := do
  let dir ← N.node v.cache ds.dir
  if dir.dentry.isDir = false then return (.ENOTDIR, v, ds)
  guard (D.negative ds.isolate = false)
  let (err, v, ds) ← findDirentry D N v ds.isolate
  if err ≠ .ENOERR then return (err, v, ds)
  return (if ds.node.isSome then .ENOERR else .ENOENT, v, ds)

/-- The directory for the next element, and the rest of the path behind its slash. -/
def DirSearch.descend (ds : DirSearch) (n : Nat) : DirSearch :=
  let path := ds.path.drop ds.namelen
  { ds with dir := n, path := if path.head? = some 47 then path.tail else path }

/-- The loop of `fatfs_find`: one component a turn, until the last or an error. -/
def findLoop : Nat → Volume Disk Cache → DirSearch →
    Option (Err × Volume Disk Cache × DirSearch)
  | 0, _, _ => none
  | fuel + 1, v, ds => do
    let (err, v, ds) ← findEntry D N v ds
    if err ≠ .ENOERR then return (err, v, ds)
    if ds.last then return (.ENOERR, v, ds)
    findLoop fuel v (ds.descend (← ds.node))

/-- `fatfs_find`: an empty path ends where it starts, and any other goes into the loop. -/
def fatfsFind (fuel : Nat) (v : Volume Disk Cache) (ds : DirSearch) :
    Option (Err × Volume Disk Cache × DirSearch) :=
  if ds.path = [] then some (.ENOERR, v, ds) else findLoop D N fuel v ds

/-! ### What a lookup leaves alone -/

variable {D : DirSupport Disk} {N : NodeCache Cache} {v v' v'' : Volume Disk Cache}
  {ds ds' : DirSearch} {err : Err} {e : DirEntry} {fuel n : Nat} {c c' : Cache} {x : FatNode}

/-- Is there a node at this address, one in use or one that is kept for later? -/
def Volume.cached (N : NodeCache Cache) (v : Volume Disk Cache) (n : Nat) : Prop :=
  (N.node v.cache n).isSome = true

/-- A node with references is cached, which is why a user may go on with it. -/
theorem cached_of_refs (h : 0 < N.refs v.cache n) : v.cached N n := by
  unfold Volume.cached
  cases hx : N.node v.cache n with
  | none => simp [NodeCache.refs, hx] at h
  | some x => rfl

/-- The references of a cached node are its count. -/
theorem refs_of_node (hx : N.node c n = some x) : N.refs c n = x.refcnt := by
  simp [NodeCache.refs, hx]

/-- Reference counts after a change of one node: its own is the new one, the others are as
    before. -/
theorem refs_of_update {x : Option FatNode} (h : N.node c' = Function.update (N.node c) n x) :
    N.refs c' = Function.update (N.refs c) n ((x.map FatNode.refcnt).getD 0) := by
  ext m
  by_cases hm : m = n
  · subst hm
    simp [NodeCache.refs, h]
  · simp [NodeCache.refs, h, hm]

/-- Nothing with references is forgotten: `v'` has the nodes of `v`, and those without references
    may have been replaced. -/
structure Kept (N : NodeCache Cache) (v v' : Volume Disk Cache) : Prop where
  disk : v'.disk = v.disk
  root : v'.root = v.root
  node : ∀ n x, N.node v.cache n = some x → 0 < x.refcnt → N.node v'.cache n = some x
  refs : N.refs v'.cache = N.refs v.cache
  cached : ∀ n, v.cached N n → v'.cached N n

/-- Nothing is lost when nothing happens, so every node is kept. -/
theorem Kept.refl (v : Volume Disk Cache) : Kept N v v :=
  ⟨rfl, rfl, fun _ _ hx _ => hx, rfl, fun _ h => h⟩

/-- Nothing is lost in two steps that lose nothing. -/
theorem Kept.trans (h : Kept N v v') (h' : Kept N v' v'') : Kept N v v'' :=
  ⟨h'.disk.trans h.disk, h'.root.trans h.root,
    fun n x hx hr => h'.node n x (h.node n x hx hr) hr, h'.refs.trans h.refs,
    fun n hn => h'.cached n (h.cached n hn)⟩

/-- A touch loses nothing, since it only moves a node in the list. -/
theorem CacheLaws.touch_kept (L : CacheLaws N) (v : Volume Disk Cache) (n : Nat) :
    Kept N v { v with cache := N.touch v.cache n } := by
  have hnode := L.touch v.cache n
  refine ⟨rfl, rfl, fun m x hx _ => ?_, ?_, fun m hm => ?_⟩
  · show N.node (N.touch v.cache n) m = some x
    rw [hnode]
    exact hx
  · ext m
    show N.refs (N.touch v.cache n) m = _
    simp only [NodeCache.refs, hnode]
  · show (N.node (N.touch v.cache n) m).isSome = true
    rw [hnode]
    exact hm

/-- A new node takes a place that nobody holds, so that no user loses a node. -/
theorem CacheLaws.alloc_kept (L : CacheLaws N) (h : N.alloc v.cache e = some (n, c)) :
    Kept N v { v with cache := c } ∧ N.node c n = some ⟨e, 0⟩ := by
  obtain ⟨hzero, hnode⟩ := L.alloc h
  refine ⟨⟨rfl, rfl, fun m x hx hr => ?_, ?_, fun m hm => ?_⟩, by rw [hnode]; simp⟩
  · show N.node c m = some x
    -- a node with references is not recycled
    have hne : m ≠ n := by
      intro heq
      subst heq
      rw [refs_of_node hx] at hzero
      omega
    rw [hnode, Function.update_of_ne hne]
    exact hx
  · show N.refs c = N.refs v.cache
    rw [refs_of_update hnode]
    ext m
    by_cases hm : m = n
    · subst hm
      simp [hzero]
    · simp [hm]
  · show (N.node c m).isSome = true
    rw [hnode]
    by_cases hne : m = n
    · subst hne
      simp
    · rw [Function.update_of_ne hne]
      exact hm

/-! ### The ways through a lookup -/

/-- The ways through `find_direntry`, with the result and the state that each leaves. -/
inductive DirentryStep (D : DirSupport Disk) (N : NodeCache Cache) (v : Volume Disk Cache)
    (ds : DirSearch) (dir : FatNode) : Err → Volume Disk Cache → DirSearch → Prop
  /-- The name is `"."`, or empty. -/
  | stay (hdot : dot.take ds.namelen = ds.component) :
    DirentryStep D N v ds dir .ENOERR v { ds with node := some ds.dir }
  /-- The name is in the cache. -/
  | hit {n : Nat} (hnot : dot.take ds.namelen ≠ ds.component)
      (hfind : N.find v.cache ds.component dir.dentry.cluster = some n) :
    DirentryStep D N v ds dir .ENOERR { v with cache := N.touch v.cache n }
      { ds with node := some n }
  /-- The name is not in the directory. -/
  | missing {err : Err} (hnot : dot.take ds.namelen ≠ ds.component)
      (hfind : N.find v.cache ds.component dir.dentry.cluster = none)
      (hscan : (D.readDir v.disk dir.dentry).1.find? (fun e => e.named ds.component) = none) :
    DirentryStep D N v ds dir err v { ds with node := none }
  /-- The parent is the root directory. -/
  | rootParent {e : DirEntry}
      (hnot : dot.take ds.namelen ≠ ds.component)
      (he : e ∈ (D.readDir v.disk dir.dentry).1)
      (hname : e.named ds.component = true) (hdots : ds.component = dotdot.take ds.namelen)
      (hzero : e.cluster = 0) :
    DirentryStep D N v ds dir .ENOERR v { ds with node := some v.root }
  /-- No node was allocated, or the parent has no entry `"."`. -/
  | failed {err : Err} (herr : err ≠ .ENOERR)
      (hwhy : err = .EMFILE ∨ ∃ e, err = (D.readDir v.disk e).2.1) :
    DirentryStep D N v ds dir err v { ds with node := none }
  /-- The parent is in the cache, by the entry `"."` in it. -/
  | parentHit {e x : DirEntry} {n : Nat}
      (hnot : dot.take ds.namelen ≠ ds.component)
      (he : e ∈ (D.readDir v.disk dir.dentry).1)
      (hname : e.named ds.component = true) (hdots : ds.component = dotdot.take ds.namelen)
      (hzero : e.cluster ≠ 0) (hx : x ∈ (D.readDir v.disk e).1) (hdot : x.filename = dot)
      (hfind : N.find v.cache x.filename x.parentCluster = some n) :
    DirentryStep D N v ds dir .ENOERR { v with cache := N.touch v.cache n }
      { ds with node := some n }
  /-- A node is allocated for the parent, by the entry `"."` in it. -/
  | parentNew {e x : DirEntry} {n : Nat} {c : Cache}
      (hnot : dot.take ds.namelen ≠ ds.component)
      (he : e ∈ (D.readDir v.disk dir.dentry).1)
      (hname : e.named ds.component = true) (hdots : ds.component = dotdot.take ds.namelen)
      (hzero : e.cluster ≠ 0) (hx : x ∈ (D.readDir v.disk e).1) (hdot : x.filename = dot)
      (hfind : N.find v.cache x.filename x.parentCluster = none)
      (halloc : N.alloc v.cache x = some (n, c)) :
    DirentryStep D N v ds dir .ENOERR { v with cache := c } { ds with node := some n }
  /-- A node is allocated for an entry of the directory. -/
  | new {e : DirEntry} {n : Nat} {c : Cache} (hnot : dot.take ds.namelen ≠ ds.component)
      (he : e ∈ (D.readDir v.disk dir.dentry).1)
      (hname : e.named ds.component = true) (hdots : ds.component ≠ dotdot.take ds.namelen)
      (hfind : N.find v.cache ds.component dir.dentry.cluster = none)
      (halloc : N.alloc v.cache e = some (n, c)) :
    DirentryStep D N v ds dir .ENOERR { v with cache := c } { ds with node := some n }

/-- The exits of `find_direntry`: it looks up in the node of `ds->dir`, and does one of its
    steps. -/
theorem findDirentry_cases (h : findDirentry D N v ds = some (err, v', ds')) :
    ∃ dir, N.node v.cache ds.dir = some dir ∧ DirentryStep D N v ds dir err v' ds' := by
  unfold findDirentry at h
  obtain ⟨dir, hdir, h⟩ := Option.bind_eq_some_iff.mp h
  refine ⟨dir, hdir, ?_⟩
  by_cases hdot : dot.take ds.namelen = ds.component
  · simp only [hdot, if_true, Option.pure_def, Option.some.injEq, Prod.mk.injEq] at h
    obtain ⟨rfl, rfl, rfl⟩ := h
    exact .stay hdot
  rw [if_neg hdot] at h
  cases hfind : N.find v.cache ds.component dir.dentry.cluster with
  | some n =>
    simp only [hfind, Option.pure_def, Option.some.injEq, Prod.mk.injEq] at h
    obtain ⟨rfl, rfl, rfl⟩ := h
    exact .hit hdot hfind
  | none =>
    simp only [hfind] at h
    cases hscan : (D.readDir v.disk dir.dentry).1.find? (fun e => e.named ds.component) with
    | none =>
      simp only [hscan, Option.pure_def, Option.some.injEq, Prod.mk.injEq] at h
      obtain ⟨rfl, rfl, rfl⟩ := h
      exact .missing hdot hfind hscan
    | some e =>
      have he := List.mem_of_find?_eq_some hscan
      have hname : e.named ds.component = true := by simpa using List.find?_some hscan
      simp only [hscan] at h
      by_cases hdots : ds.component = dotdot.take ds.namelen
      · -- the parent directory
        rw [if_pos hdots] at h
        simp only [findParent, Option.pure_def, Option.some.injEq] at h
        by_cases hzero : e.cluster = 0
        · rw [if_pos hzero] at h
          simp only [Prod.mk.injEq] at h
          obtain ⟨rfl, rfl, rfl⟩ := h
          exact .rootParent hdot he hname hdots hzero
        rw [if_neg hzero] at h
        cases hparent : (D.readDir v.disk e).1.find? (fun x => x.filename = dot) with
        | none =>
          simp only [hparent, Prod.mk.injEq] at h
          obtain ⟨rfl, rfl, rfl⟩ := h
          exact .failed (D.readDir v.disk e).2.2 (Or.inr ⟨e, rfl⟩)
        | some x =>
          have hx := List.mem_of_find?_eq_some hparent
          have hdot' : x.filename = dot := by simpa using List.find?_some hparent
          simp only [hparent, cachedNode] at h
          split at h
          · rename_i n hcache
            simp only [Prod.mk.injEq] at h
            obtain ⟨rfl, rfl, rfl⟩ := h
            exact .parentHit hdot he hname hdots hzero hx hdot' hcache
          · rename_i hcache
            split at h
            · rename_i n c halloc
              simp only [Prod.mk.injEq] at h
              obtain ⟨rfl, rfl, rfl⟩ := h
              exact .parentNew hdot he hname hdots hzero hx hdot' hcache halloc
            · simp only [Prod.mk.injEq] at h
              obtain ⟨rfl, rfl, rfl⟩ := h
              exact .failed nofun (Or.inl rfl)
      · rw [if_neg hdots] at h
        cases halloc : N.alloc v.cache e with
        | some r =>
          simp only [halloc, Option.pure_def, Option.some.injEq, Prod.mk.injEq] at h
          obtain ⟨rfl, rfl, rfl⟩ := h
          exact .new hdot he hname hdots hfind halloc
        | none =>
          simp only [halloc, Option.pure_def, Option.some.injEq, Prod.mk.injEq] at h
          obtain ⟨rfl, rfl, rfl⟩ := h
          exact .failed nofun (Or.inl rfl)

/-- What the lookup of a name leaves: the nodes with references, and a node that is cached. -/
structure Looked (N : NodeCache Cache) (v v' : Volume Disk Cache) (ds ds' : DirSearch) :
    Prop where
  kept : Kept N v v'
  dir : v'.cached N ds'.dir
  node : ∀ n, ds'.node = some n → v'.cached N n

/-- A node that is found at an address is cached there. -/
theorem cached_of_node (hx : N.node v.cache n = some x) : v.cached N n := by
  unfold Volume.cached
  rw [hx]
  rfl

/-- **The spec of `find_direntry`**, for the cache: no held node is lost, and success comes with a
    node. -/
theorem findDirentry_looked (L : CacheLaws N) (hroot : v.cached N v.root)
    (h : findDirentry D N v ds = some (err, v', ds')) : Looked N v v' ds ds' := by
  obtain ⟨dir, hdir, hstep⟩ := findDirentry_cases h
  have hcached : v.cached N ds.dir := cached_of_node hdir
  -- the two ways in which a lookup gets a node: from the cache, or made anew
  have hhit : ∀ name p m, N.find v.cache name p = some m →
      Looked N v { v with cache := N.touch v.cache m } ds { ds with node := some m } := by
    intro name p m hfind
    obtain ⟨x, hx, -⟩ := L.find_some hfind
    have hk := L.touch_kept v m
    refine ⟨hk, hk.cached _ hcached, fun m' hm' => ?_⟩
    cases hm'
    exact hk.cached _ (cached_of_node hx)
  have hnew : ∀ e m c, N.alloc v.cache e = some (m, c) →
      Looked N v { v with cache := c } ds { ds with node := some m } := by
    intro e m c halloc
    obtain ⟨hk, hm⟩ := L.alloc_kept halloc
    refine ⟨hk, hk.cached _ hcached, fun m' hm' => ?_⟩
    cases hm'
    exact cached_of_node hm
  cases hstep with
  | stay hdot =>
    refine ⟨.refl v, hcached, fun m hm => ?_⟩
    cases hm
    exact hcached
  | hit hnot hfind => exact hhit _ _ _ hfind
  | missing hnot hfind hscan => exact ⟨.refl v, hcached, nofun⟩
  | rootParent hnot he hname hdots hzero =>
    refine ⟨.refl v, hcached, fun m hm => ?_⟩
    cases hm
    exact hroot
  | failed herr hwhy => exact ⟨.refl v, hcached, nofun⟩
  | parentHit hnot he hname hdots hzero hx hdot hfind => exact hhit _ _ _ hfind
  | parentNew hnot he hname hdots hzero hx hdot hfind halloc => exact hnew _ _ _ halloc
  | new hnot he hname hdots hfind halloc => exact hnew _ _ _ halloc

/-- The ways through `find_entry`: not a directory, an error of `find_direntry`, or its answer. -/
theorem findEntry_cases (h : findEntry D N v ds = some (err, v', ds')) :
    ∃ dir, N.node v.cache ds.dir = some dir ∧
      ((dir.dentry.isDir = false ∧ err = .ENOTDIR ∧ v' = v ∧ ds' = ds) ∨
        dir.dentry.isDir = true ∧ ∃ err', findDirentry D N v ds.isolate = some (err', v', ds') ∧
          (err' ≠ .ENOERR ∧ err = err' ∨
            err' = .ENOERR ∧ err = if ds'.node.isSome then .ENOERR else .ENOENT)) := by
  unfold findEntry at h
  obtain ⟨dir, hdir, h⟩ := Option.bind_eq_some_iff.mp h
  refine ⟨dir, hdir, ?_⟩
  by_cases hisDir : dir.dentry.isDir = false
  · simp only [hisDir, if_true, Option.pure_def, Option.some.injEq, Prod.mk.injEq] at h
    obtain ⟨rfl, rfl, rfl⟩ := h
    exact Or.inl ⟨hisDir, rfl, rfl, rfl⟩
  rw [if_neg hisDir] at h
  obtain ⟨-, -, h⟩ := Option.bind_eq_some_iff.mp h
  obtain ⟨⟨err', v₁, ds₁⟩, hfind, h⟩ := Option.bind_eq_some_iff.mp h
  refine Or.inr ⟨by simpa using hisDir, err', ?_⟩
  by_cases herr : err' ≠ .ENOERR
  · simp only [ne_eq, herr, not_false_eq_true, if_true, Option.pure_def, Option.some.injEq,
      Prod.mk.injEq] at h
    obtain ⟨rfl, rfl, rfl⟩ := h
    exact ⟨hfind, Or.inl ⟨herr, rfl⟩⟩
  · simp only [herr, if_false, Option.pure_def, Option.some.injEq, Prod.mk.injEq] at h
    obtain ⟨rfl, rfl, rfl⟩ := h
    exact ⟨hfind, Or.inr ⟨Decidable.not_not.mp herr, rfl⟩⟩

/-- `find_entry` loses no node, whichever way it goes. -/
theorem findEntry_kept (L : CacheLaws N) (hroot : v.cached N v.root)
    (h : findEntry D N v ds = some (err, v', ds')) : Kept N v v' := by
  obtain ⟨dir, -, ⟨-, -, rfl, -⟩ | ⟨-, err', hfind, -⟩⟩ := findEntry_cases h
  · exact .refl _
  · exact (findDirentry_looked L hroot hfind).kept

/-- **The spec of `find_entry`**, for the cache: success comes with a node. -/
theorem findEntry_looked (L : CacheLaws N) (hroot : v.cached N v.root)
    (h : findEntry D N v ds = some (err, v', ds')) (hnode : ∀ n, ds.node = some n → v.cached N n) :
    Looked N v v' ds ds' ∧ (err = .ENOERR → ds'.node.isSome = true) := by
  obtain ⟨dir, hdir, ⟨-, rfl, rfl, rfl⟩ | ⟨-, err', hfind, hres⟩⟩ := findEntry_cases h
  · exact ⟨⟨.refl _, cached_of_node hdir, hnode⟩, nofun⟩
  · have hlook := findDirentry_looked L hroot hfind
    refine ⟨⟨hlook.kept, hlook.dir, hlook.node⟩, fun herr => ?_⟩
    rcases hres with ⟨hne, heq⟩ | ⟨-, heq⟩
    · exact absurd (heq.symm.trans herr) hne
    · rw [herr] at heq
      split at heq
      · assumption
      · cases heq

/-- **The loop of `fatfs_find`.**  What `find_entry` hands on from one element to the next holds of
    the result of the last one. -/
theorem findLoop_induction {P : Volume Disk Cache → DirSearch → Prop}
    {Q : Err → Volume Disk Cache → DirSearch → Prop}
    (hstep : ∀ {v ds err v' ds'}, P v ds → findEntry D N v ds = some (err, v', ds') →
      Q err v' ds' ∧ (err = .ENOERR → ∀ n, ds'.node = some n → P v' (ds'.descend n)))
    (h : findLoop D N fuel v ds = some (err, v', ds')) (hP : P v ds) : Q err v' ds' := by
  induction fuel generalizing v ds with
  | zero => cases h
  | succ fuel ih =>
    simp only [findLoop] at h
    obtain ⟨⟨err₁, v₁, ds₁⟩, hentry, h⟩ := Option.bind_eq_some_iff.mp h
    obtain ⟨hQ, hnext⟩ := hstep hP hentry
    dsimp only at h
    split at h
    · cases h
      exact hQ
    rename_i herr
    have hok : err₁ = .ENOERR := Decidable.not_not.mp herr
    split at h
    · cases h
      rw [← hok]
      exact hQ
    · -- the next element, in the directory that was found
      obtain ⟨n, hn, h⟩ := Option.bind_eq_some_iff.mp h
      exact ih h (hnext hok n hn)

/-- The same for `fatfs_find`, where an empty path is not looked at. -/
theorem fatfsFind_induction {P : Volume Disk Cache → DirSearch → Prop}
    {Q : Err → Volume Disk Cache → DirSearch → Prop}
    (hstep : ∀ {v ds err v' ds'}, P v ds → findEntry D N v ds = some (err, v', ds') →
      Q err v' ds' ∧ (err = .ENOERR → ∀ n, ds'.node = some n → P v' (ds'.descend n)))
    (hempty : P v ds → Q .ENOERR v ds)
    (h : fatfsFind D N fuel v ds = some (err, v', ds')) (hP : P v ds) : Q err v' ds' := by
  unfold fatfsFind at h
  split at h
  · cases h
    exact hempty hP
  · exact findLoop_induction hstep h hP

/-- **A lookup** keeps everything that has references; the node that it finds, and the directory
    where it ends, are cached. -/
theorem fatfsFind_looked (L : CacheLaws N) (hroot : v.cached N v.root)
    (hdir : v.cached N ds.dir) (hnode : ds.node = some ds.dir)
    (h : fatfsFind D N fuel v ds = some (err, v', ds')) :
    Looked N v v' ds ds' ∧ (err = .ENOERR → ds'.node.isSome = true) := by
  have hstart : ∀ n, ds.node = some n → v.cached N n := by
    intro n hn
    rw [hnode] at hn
    cases hn
    exact hdir
  -- before each element: what was kept so far, and that the node found last is cached
  refine fatfsFind_induction
    (P := fun w d => (Kept N v w ∧ w.cached N w.root) ∧ ∀ n, d.node = some n → w.cached N n)
    (Q := fun err w d => Looked N v w ds d ∧ (err = .ENOERR → d.node.isSome = true))
    ?_ ?_ h ⟨⟨.refl v, hroot⟩, hstart⟩
  · rintro w d err w' d' ⟨⟨hkept, hroot⟩, hnode⟩ hentry
    obtain ⟨hlook, hsome⟩ := findEntry_looked L hroot hentry hnode
    have hkept' := hkept.trans hlook.kept
    refine ⟨⟨⟨hkept', hlook.dir, hlook.node⟩, hsome⟩, fun _ n hn => ⟨⟨hkept', ?_⟩, hlook.node⟩⟩
    rw [hlook.kept.root]
    exact hlook.kept.cached _ hroot
  · intro _
    exact ⟨⟨.refl v, hdir, hstart⟩, fun _ => by rw [hnode]; rfl⟩

/-- A lookup of one component does not write to the disk. -/
theorem findEntry_disk (h : findEntry D N v ds = some (err, v', ds')) : v'.disk = v.disk := by
  obtain ⟨dir, -, ⟨-, -, rfl, -⟩ | ⟨-, err', hfind, -⟩⟩ := findEntry_cases h
  · rfl
  · obtain ⟨dir', -, hstep⟩ := findDirentry_cases hfind
    cases hstep <;> rfl

/-- `fatfs_find` does not write to the disk, however many components it goes through. -/
theorem fatfsFind_disk (h : fatfsFind D N fuel v ds = some (err, v', ds')) :
    v'.disk = v.disk := by
  refine fatfsFind_induction (P := fun w _ => w.disk = v.disk)
    (Q := fun _ w _ => w.disk = v.disk) ?_ id h rfl
  intro w d err w' d' hdisk hentry
  have hdisk' := (findEntry_disk hentry).trans hdisk
  exact ⟨hdisk', fun _ _ _ => hdisk'⟩

end Ecos.Fat
