import Ecos.Fat.Lookup

namespace Ecos.Fat

/-!
# Cached nodes and the directories of a disk

Which directories the nodes of the cache stand for.  A directory has a node under its own name,
and may have a second one under the name `"."`, which the lookup of `".."` allocates.

* `DirLaws` — the directories of a disk form a tree, and how the support code changes it;
* `NodeOk`, `CacheInv` — every cached node stands for a directory of the disk, and no two nodes
  have the same key;
* `fatfsFind_ended` — a path ends at a node that somebody holds, at a node with a name of its
  own, or at the node `"."` of a directory that has a subdirectory.
-/

/-! ### Directories on the disk -/

/-- Has the entry a name of its own? -/
def DirEntry.own (e : DirEntry) : Prop := e.filename ≠ dot ∧ e.filename ≠ dotdot

variable {Disk Cache : Type} (D : DirSupport Disk)

/-- The entries of a directory, in the order in which they are read, up to an error. -/
def DirSupport.entries (d : Disk) (dir : DirEntry) : List DirEntry := (D.readDir d dir).1

/-- Is there an entry, with a name of its own, for the directory with this first cluster? -/
def DirSupport.Listed (d : Disk) (c : BitVec 32) : Prop :=
  ∃ dir e, e ∈ D.entries d dir ∧ e.own ∧ e.isDir = true ∧ e.cluster = c

/-- Has the directory a subdirectory? -/
def DirSupport.HasChild (d : Disk) (dir : DirEntry) : Prop :=
  ∃ e ∈ D.entries d dir, e.own ∧ e.isDir = true

/-- The entries of directories that are on the disk `d` are on `d'`. -/
def DirSupport.Keeps (d d' : Disk) : Prop :=
  ∀ dir e, e ∈ D.entries d dir → e.own → e.isDir = true → e ∈ D.entries d' dir

/-- What is known of the directories of a disk: the disks in the states `ok` hold a tree of
    directories, whose root has the first cluster `root`. -/
structure DirLaws (ok : Disk → Prop) (root : BitVec 32) : Prop where
  /-- Reading a directory does not end with `ENOENT`. -/
  ends : ∀ d dir, (D.readDir d dir).2.1 ≠ .ENOENT
  /-- A directory is read by its first cluster. -/
  reads : ∀ {d} {dir dir' : DirEntry}, dir.cluster = dir'.cluster →
    D.readDir d dir = D.readDir d dir'
  place : ∀ {d dir e}, e ∈ D.entries d dir → e.parentCluster = dir.cluster
  /-- The entry `"."` denotes the directory itself. -/
  self : ∀ {d dir e}, ok d → e ∈ D.entries d dir → e.filename = dot →
    e.isDir = true ∧ e.cluster = dir.cluster
  /-- The entry `".."` denotes a directory that has the directory as a subdirectory, or has the
      cluster 0. -/
  parent : ∀ {d dir e}, ok d → D.Listed d dir.cluster → e ∈ D.entries d dir →
    e.filename = dotdot → e.cluster ≠ 0 → D.Listed d e.cluster ∧ D.HasChild d e
  /-- The root directory has no entry `".."`. -/
  noParent : ∀ {d dir e}, ok d → e ∈ D.entries d dir → e.filename = dotdot →
    dir.cluster ≠ root
  /-- A directory has one entry with a name of its own. -/
  unique : ∀ {d dir dir' e e'}, ok d → e ∈ D.entries d dir → e' ∈ D.entries d dir' →
    e.own → e'.own → e.isDir = true → e'.isDir = true → e.cluster = e'.cluster →
    e.filename = e'.filename ∧ e.parentCluster = e'.parentCluster
  top : ∀ {d}, ok d → ¬D.Listed d root
  /-- A created directory has the given name, which is not `"."` or `".."`. -/
  create : ∀ {d dir name err d' e}, ok d → dir.cluster = root ∨ D.Listed d dir.cluster →
    D.createDir d dir name = (err, d', e) → ok d' ∧ D.Keeps d d' ∧
      (err = .ENOERR → e ∈ D.entries d' dir ∧ e.own ∧ e.isDir = true ∧ e.named name = true)
  /-- Only a directory without subdirectories is removed, and its entry goes. -/
  delete : ∀ {d e err d'}, ok d → e.isDir = true → D.deleteFile d e = (err, d') → ok d' ∧
    (∀ dir x, x ∈ D.entries d dir → x.own → x.isDir = true →
      (err = .ENOERR → x.cluster ≠ e.cluster) → x ∈ D.entries d' dir) ∧
    (err = .ENOERR → ¬D.HasChild d e)
  /-- Writing an entry back keeps the directories. -/
  write : ∀ {d e err d'}, ok d → D.writeDirEntry d e = (err, d') → ok d' ∧ D.Keeps d d'

/-! ### Nodes -/

variable {D} {N : NodeCache Cache} {ok : Disk → Prop} {rootCluster : BitVec 32}
  {v v' : Volume Disk Cache} {ds ds' : DirSearch} {err : Err} {e : DirEntry} {fuel n m : Nat}
  {c : Cache} {x y : FatNode}

/-- What a cached node stands for: the root directory; a directory, under the name `"."`; or an
    entry with a name of its own. -/
inductive NodeOk (D : DirSupport Disk) (rootCluster : BitVec 32) (v : Volume Disk Cache) (n : Nat)
    (e : DirEntry) : Prop
  | root (hn : n = v.root) (hname : e.filename = []) (hcluster : e.cluster = rootCluster)
  | dot (hn : n ≠ v.root) (hname : e.filename = dot) (hdir : e.isDir = true)
      (hplace : e.parentCluster = e.cluster) (hlisted : D.Listed v.disk e.cluster)
  | own (hn : n ≠ v.root) (hown : e.own)
      (hlisted : e.isDir = true → ∃ dir, e ∈ D.entries v.disk dir)

/-- Have two entries the same key? The cache finds a node by its name and its parent cluster. -/
def SameKey (e e' : DirEntry) : Prop :=
  e.filename.map toLower = e'.filename.map toLower ∧ e.parentCluster = e'.parentCluster

/-- **The invariant of the node cache.**  Cached nodes are on the disk where their entries say, and
    no two of them have one key. -/
structure CacheInv (D : DirSupport Disk) (N : NodeCache Cache) (ok : Disk → Prop)
    (rootCluster : BitVec 32) (v : Volume Disk Cache) : Prop where
  disk : ok v.disk
  node : ∀ n x, N.node v.cache n = some x → NodeOk D rootCluster v n x.dentry
  keys : ∀ n m x y, N.node v.cache n = some x → N.node v.cache m = some y →
    n ≠ v.root → m ≠ v.root → SameKey x.dentry y.dentry → n = m

/-- The nodes of `v'` are nodes of `v`, perhaps with other reference counts. -/
def Thinned (N : NodeCache Cache) (v v' : Volume Disk Cache) : Prop :=
  ∀ n y, N.node v'.cache n = some y → ∃ x, N.node v.cache n = some x ∧ y.dentry = x.dentry

/-- With fewer nodes the invariant of the cache holds as well, so that throwing nodes out is
    harmless. -/
theorem CacheInv.thin (h : CacheInv D N ok rootCluster v) (ht : Thinned N v v')
    (hdisk : v'.disk = v.disk) (hroot : v'.root = v.root) :
    CacheInv D N ok rootCluster v' := by
  refine ⟨by rw [hdisk]; exact h.disk, fun n y hy => ?_, fun n m y z hy hz hn hm hkey => ?_⟩
  · obtain ⟨x, hx, heq⟩ := ht n y hy
    rw [heq]
    cases h.node n x hx with
    | root hn hname hcluster => exact .root (hn.trans hroot.symm) hname hcluster
    | dot hn hname hisDir hplace hlisted =>
      exact .dot (by rw [hroot]; exact hn) hname hisDir hplace (by rw [hdisk]; exact hlisted)
    | own hn hown hlisted =>
      exact .own (by rw [hroot]; exact hn) hown (by rw [hdisk]; exact hlisted)
  · obtain ⟨x, hx, heq⟩ := ht n y hy
    obtain ⟨x', hx', heq'⟩ := ht m z hz
    rw [heq, heq'] at hkey
    rw [hroot] at hn hm
    exact h.keys n m x x' hx hx' hn hm hkey

/-- The disk changes, and the directories that the nodes stand for are still there. -/
theorem CacheInv.change (h : CacheInv D N ok rootCluster v) {d : Disk} (hd : ok d)
    (hkeep : ∀ n x dir, N.node v.cache n = some x → x.dentry.own → x.dentry.isDir = true →
      x.dentry ∈ D.entries v.disk dir → ∃ dir, x.dentry ∈ D.entries d dir)
    (hlisted : ∀ n x, N.node v.cache n = some x → x.dentry.filename = dot →
      D.Listed v.disk x.dentry.cluster → D.Listed d x.dentry.cluster) :
    CacheInv D N ok rootCluster { v with disk := d } := by
  refine ⟨hd, fun n x hx => ?_, h.keys⟩
  cases h.node n x hx with
  | root hn hname hcluster => exact .root hn hname hcluster
  | dot hn hname hisDir hplace hl => exact .dot hn hname hisDir hplace (hlisted n x hx hname hl)
  | own hn hown hl =>
    refine .own hn hown fun hdir => ?_
    obtain ⟨dir, he⟩ := hl hdir
    exact hkeep n x dir hx hown hdir he

/-- A directory that is kept is still listed. -/
theorem DirSupport.Keeps.listed {d d' : Disk} (h : D.Keeps d d') {k : BitVec 32}
    (hl : D.Listed d k) : D.Listed d' k := by
  obtain ⟨dir, e, he, hown, hdir, hk⟩ := hl
  exact ⟨dir, e, h dir e he hown hdir, hown, hdir, hk⟩

/-- A change of the disk that keeps its directories keeps the invariant of the cache. -/
theorem CacheInv.keep (h : CacheInv D N ok rootCluster v) {d : Disk} (hd : ok d)
    (hkeep : D.Keeps v.disk d) : CacheInv D N ok rootCluster { v with disk := d } :=
  h.change hd (fun _ _ dir _ hown hdir he => ⟨dir, hkeep dir _ he hown hdir⟩)
    fun _ _ _ _ hl => hkeep.listed hl

/-- A new node, whose key no cached node has, and whose entry is on the disk. -/
theorem CacheInv.alloc (h : CacheInv D N ok rootCluster v) (L : CacheLaws N)
    (hroot : 0 < N.refs v.cache v.root) (halloc : N.alloc v.cache e = some (n, c))
    (hok : n ≠ v.root → NodeOk D rootCluster v n e)
    (hnew : ∀ m y, N.node v.cache m = some y → ¬SameKey e y.dentry) :
    CacheInv D N ok rootCluster { v with cache := c } := by
  obtain ⟨hzero, hnode⟩ := L.alloc halloc
  -- a new node has no references, and the root directory has
  have hn : n ≠ v.root := by
    intro heq
    rw [heq] at hzero
    omega
  refine ⟨h.disk, fun m y hy => ?_, fun m k y z hy hz hm hk hkey => ?_⟩
  · replace hy : N.node c m = some y := hy
    rw [hnode] at hy
    have hsame : ∀ e', NodeOk D rootCluster v m e' →
        NodeOk D rootCluster { v with cache := c } m e' := by
      intro e' he'
      cases he' with
      | root hn hname hcluster => exact .root hn hname hcluster
      | dot hn hname hisDir hplace hl => exact .dot hn hname hisDir hplace hl
      | own hn hown hl => exact .own hn hown hl
    by_cases hm : m = n
    · subst hm
      rw [Function.update_self] at hy
      cases hy
      exact hsame e (hok hn)
    · rw [Function.update_of_ne hm] at hy
      exact hsame _ (h.node m y hy)
  · replace hy : N.node c m = some y := hy
    replace hz : N.node c k = some z := hz
    rw [hnode] at hy hz
    -- two nodes of one key: is one of them the new one?
    by_cases hmn : m = n
    · by_cases hkn : k = n
      · rw [hmn, hkn]
      · rw [hmn, Function.update_self] at hy
        rw [Function.update_of_ne hkn] at hz
        cases hy
        exact absurd hkey (hnew k z hz)
    · rw [Function.update_of_ne hmn] at hy
      by_cases hkn : k = n
      · rw [hkn, Function.update_self] at hz
        cases hz
        exact absurd ⟨hkey.1.symm, hkey.2.symm⟩ (hnew m y hy)
      · rw [Function.update_of_ne hkn] at hz
        exact h.keys m k y z hy hz hm hk hkey

/-! ### Names -/

/-- A dot has no other case, so that no other name is taken for `"."`. -/
theorem toLower_eq_dot {b : UInt8} (h : toLower b = 46) : b = 46 := by
  unfold toLower at h
  split at h
  · -- lowering a capital letter gives no dot
    rename_i hupper
    have hsum := congrArg UInt8.toNat h
    have hlow := UInt8.le_iff_toNat_le.mp hupper.1
    have hhigh := UInt8.le_iff_toNat_le.mp hupper.2
    simp only [UInt8.toNat_add, UInt8.reduceToNat] at hsum hlow hhigh
    omega
  · exact h

/-- A name that is `"."` in some case is `"."`. -/
theorem eq_dot_of_lower {a : List UInt8} (h : a.map toLower = dot.map toLower) : a = dot := by
  obtain ⟨b, rfl, hb⟩ : ∃ b, a = [b] ∧ toLower b = 46 := by
    rcases a with _ | ⟨b, _ | ⟨b', l⟩⟩
    · cases h
    · exact ⟨b, rfl, (List.cons.inj h).1⟩
    · cases (List.cons.inj h).2
  rw [toLower_eq_dot hb]
  rfl

/-- A name that is `".."` in some case is `".."`. -/
theorem eq_dotdot_of_lower {a : List UInt8} (h : a.map toLower = dotdot.map toLower) :
    a = dotdot := by
  obtain ⟨b, b', rfl, hb, hb'⟩ : ∃ b b', a = [b, b'] ∧ toLower b = 46 ∧ toLower b' = 46 := by
    rcases a with _ | ⟨b, _ | ⟨b', _ | ⟨b'', l⟩⟩⟩
    · cases h
    · cases (List.cons.inj h).2
    · exact ⟨b, b', rfl, (List.cons.inj h).1, (List.cons.inj (List.cons.inj h).2).1⟩
    · cases (List.cons.inj (List.cons.inj h).2).2
  rw [toLower_eq_dot hb, toLower_eq_dot hb']
  rfl

/-- Names are compared without regard to the case. -/
theorem DirEntry.named_iff {name : List UInt8} :
    e.named name = true ↔ e.filename.map toLower = name.map toLower := by
  simp [DirEntry.named]

/-- A node that is found by a name of more than dots has a name of its own. -/
theorem CacheInv.own_of_find (h : CacheInv D N ok rootCluster v) {name : List UInt8}
    (hne : name ≠ []) (hdot : name ≠ dot) (hx : N.node v.cache n = some x)
    (hname : x.dentry.named name = true) : x.dentry.own := by
  have hlower := DirEntry.named_iff.mp hname
  cases h.node n x hx with
  | root hn hempty hcluster =>
    rw [hempty] at hlower
    exact absurd (List.map_eq_nil_iff.mp hlower.symm) hne
  | dot hn hfile hisDir hplace hlisted =>
    rw [hfile] at hlower
    exact absurd (eq_dot_of_lower hlower.symm) hdot
  | own hn hown hlisted => exact hown

/-! ### Lookups -/

/-- A node where a path may end: somebody holds it, or it has a name of its own, or its directory
    has a subdirectory. -/
def Arrived (D : DirSupport Disk) (N : NodeCache Cache) (v : Volume Disk Cache) (n : Nat) : Prop :=
  ∀ x, N.node v.cache n = some x →
    0 < x.refcnt ∨ x.dentry.own ∨ D.HasChild v.disk x.dentry

/-- A cached directory is the root directory or is on the disk, in the directory that its entry
    names. -/
theorem CacheInv.listed (h : CacheInv D N ok rootCluster v) (hx : N.node v.cache n = some x)
    (hdir : x.dentry.isDir = true) :
    x.dentry.cluster = rootCluster ∨ D.Listed v.disk x.dentry.cluster := by
  cases h.node n x hx with
  | root hn hempty hcluster => exact Or.inl hcluster
  | dot hn hfile hisDir hplace hlisted => exact Or.inr hlisted
  | own hn hown hlisted =>
    obtain ⟨dir, he⟩ := hlisted hdir
    exact Or.inr ⟨dir, x.dentry, he, hown, hdir, rfl⟩

/-- The lookup of a name that is not `"."` looks for more than a dot. -/
theorem component_ne (hlen : ds.component.length = ds.namelen)
    (hnot : dot.take ds.namelen ≠ ds.component) : ds.component ≠ [] ∧ ds.component ≠ dot := by
  constructor
  · intro hnil
    rw [hnil] at hlen hnot
    rw [← hlen] at hnot
    exact hnot rfl
  · intro hdot
    rw [hdot] at hlen hnot
    rw [← hlen] at hnot
    exact hnot rfl

/-- The name `".."`, once `"."` has been ruled out, by the comparison that the code makes. -/
theorem component_dotdot (hlen : ds.component.length = ds.namelen)
    (hnot : dot.take ds.namelen ≠ ds.component)
    (hdots : ds.component = dotdot.take ds.namelen) : ds.component = dotdot := by
  obtain ⟨hne, hdot⟩ := component_ne hlen hnot
  have hle : ds.namelen ≤ 2 := by
    rw [hdots, List.length_take] at hlen
    have htwo : dotdot.length = 2 := rfl
    omega
  generalize ds.namelen = k at hdots hle
  match k, hle with
  | 0, _ => exact absurd hdots hne
  | 1, _ => exact absurd hdots hdot
  | 2, _ => exact hdots

/-- What a directory has in it depends on its cluster only, not on the entry through which it is
    read. -/
theorem DirLaws.hasChild (T : DirLaws D ok rootCluster) {d : Disk} {e e' : DirEntry}
    (hcluster : e.cluster = e'.cluster) (h : D.HasChild d e) : D.HasChild d e' := by
  unfold DirSupport.HasChild DirSupport.entries at h ⊢
  rw [← T.reads hcluster]
  exact h

/-- The parent directory, as the entry `".."` denotes it: it is on the disk, and it has a
    subdirectory. -/
theorem CacheInv.parent (h : CacheInv D N ok rootCluster v) (T : DirLaws D ok rootCluster)
    (hx : N.node v.cache n = some x) (hdir : x.dentry.isDir = true)
    (he : e ∈ D.entries v.disk x.dentry) (hname : e.named dotdot = true) (hzero : e.cluster ≠ 0) :
    D.Listed v.disk e.cluster ∧ D.HasChild v.disk e := by
  have hfile : e.filename = dotdot := eq_dotdot_of_lower (DirEntry.named_iff.mp hname)
  have hlisted := (h.listed hx hdir).resolve_left (T.noParent h.disk he hfile)
  exact T.parent h.disk hlisted he hfile hzero

/-- A touch takes no node away, since it only moves one in the list. -/
theorem touch_thinned (L : CacheLaws N) (v : Volume Disk Cache) (n : Nat) :
    Thinned N v { v with cache := N.touch v.cache n } := by
  intro m y hy
  replace hy : N.node (N.touch v.cache n) m = some y := hy
  rw [L.touch] at hy
  exact ⟨y, hy, rfl⟩

/-- The lookup of a name keeps the invariant, and what it finds is a node where a path may
    end. -/
theorem findDirentry_inv (L : CacheLaws N) (T : DirLaws D ok rootCluster)
    (h : CacheInv D N ok rootCluster v) (hroot : 0 < N.refs v.cache v.root)
    (harr : Arrived D N v ds.dir) (hlen : ds.component.length = ds.namelen)
    (hdir : ∀ x, N.node v.cache ds.dir = some x → x.dentry.isDir = true)
    (hfind : findDirentry D N v ds = some (err, v', ds')) :
    CacheInv D N ok rootCluster v' ∧ ∀ n, ds'.node = some n → Arrived D N v' n := by
  obtain ⟨dir, hx, hstep⟩ := findDirentry_cases hfind
  -- a node that is found keeps its entry
  have htouch : ∀ m, CacheInv D N ok rootCluster { v with cache := N.touch v.cache m } :=
    fun m => h.thin (touch_thinned L v m) rfl rfl
  cases hstep with
  | stay hdot =>
    refine ⟨h, fun n hn => ?_⟩
    cases hn
    exact harr
  | @hit k hnot hhit =>
    refine ⟨htouch k, fun n hn y hy => ?_⟩
    cases hn
    replace hy : N.node (N.touch v.cache k) k = some y := hy
    rw [L.touch] at hy
    obtain ⟨z, hz, hname, -⟩ := L.find_some hhit
    obtain ⟨hne, hdot⟩ := component_ne hlen hnot
    rw [hz] at hy
    cases hy
    exact Or.inr (Or.inl (h.own_of_find hne hdot hz hname))
  | missing hnot hnone hscan => exact ⟨h, nofun⟩
  | rootParent hnot he hname hdots hzero =>
    refine ⟨h, fun n hn y hy => ?_⟩
    cases hn
    rw [refs_of_node hy] at hroot
    exact Or.inl hroot
  | failed herr hwhy => exact ⟨h, nofun⟩
  | @parentHit e z k hnot he hname hdots hzero hz hzdot hhit =>
    refine ⟨htouch k, fun n hn y hy => ?_⟩
    cases hn
    replace hy : N.node (N.touch v.cache k) k = some y := hy
    rw [L.touch] at hy
    obtain ⟨y', hy', hnamed, hplace⟩ := L.find_some hhit
    rw [hy'] at hy
    cases hy
    rw [component_dotdot hlen hnot hdots] at hname
    obtain ⟨-, hchild⟩ := h.parent T hx (hdir _ hx) he hname hzero
    rw [T.place hz] at hplace
    have hlower := DirEntry.named_iff.mp hnamed
    rw [hzdot] at hlower
    have hfile := eq_dot_of_lower hlower
    cases h.node k y hy' with
    | root hn hempty hcluster =>
      rw [hempty] at hfile
      cases hfile
    | dot hn hfile hisDir hself hlisted =>
      -- the node is the entry `"."` of that directory
      rw [hself] at hplace
      exact Or.inr (Or.inr (T.hasChild hplace.symm hchild))
    | own hn hown hlisted => exact absurd hfile hown.1
  | @parentNew e z k c hnot he hname hdots hzero hz hzdot hnone halloc =>
    rw [component_dotdot hlen hnot hdots] at hname
    obtain ⟨hlisted, hchild⟩ := h.parent T hx (hdir _ hx) he hname hzero
    obtain ⟨hisDir, hself⟩ := T.self h.disk hz hzdot
    have hplace : z.parentCluster = z.cluster := (T.place hz).trans hself.symm
    refine ⟨h.alloc L hroot halloc
      (fun hk => .dot hk hzdot hisDir hplace (by rw [hself]; exact hlisted)) ?_, ?_⟩
    · intro m y hy hkey
      apply L.find_none hnone hy
      · rw [DirEntry.named_iff, ← hkey.1]
      · exact hkey.2.symm
    · intro n hn y hy
      cases hn
      have hnode := (L.alloc_kept (v := v) halloc).2
      replace hy : N.node c k = some y := hy
      rw [hnode] at hy
      cases hy
      exact Or.inr (Or.inr (T.hasChild hself.symm hchild))
  | @new e k c hnot he hname hdots hnone halloc =>
    obtain ⟨hne, hdot⟩ := component_ne hlen hnot
    have hlower := DirEntry.named_iff.mp hname
    have hown : e.own := by
      constructor
      · intro hfile
        rw [hfile] at hlower
        exact hdot (eq_dot_of_lower hlower.symm)
      · intro hfile
        rw [hfile] at hlower
        have hcomp := eq_dotdot_of_lower hlower.symm
        rw [hcomp] at hlen hdots
        rw [← hlen] at hdots
        exact hdots rfl
    have hplace : e.parentCluster = dir.dentry.cluster := T.place he
    refine ⟨h.alloc L hroot halloc (fun hk => .own hk hown fun _ => ⟨_, he⟩) ?_, ?_⟩
    · intro m y hy hkey
      apply L.find_none hnone hy
      · rw [DirEntry.named_iff, ← hkey.1, hlower]
      · rw [← hkey.2, hplace]
    · intro n hn y hy
      cases hn
      have hnode := (L.alloc_kept (v := v) halloc).2
      replace hy : N.node c k = some y := hy
      rw [hnode] at hy
      cases hy
      exact Or.inr (Or.inl hown)

/-- The name that `find_entry` isolates has the length that it notes. -/
theorem isolate_length (ds : DirSearch) :
    ds.isolate.component.length = ds.isolate.namelen := by
  have hle : (ds.path.takeWhile (· ≠ 47)).length ≤ ds.path.length :=
    (List.takeWhile_prefix _).length_le
  have hmod : (ds.path.takeWhile (· ≠ 47)).length % 2 ^ 8
      ≤ (ds.path.takeWhile (· ≠ 47)).length := Nat.mod_le _ _
  show (ds.path.take ((ds.path.takeWhile (· ≠ 47)).length % 2 ^ 8)).length
    = (ds.path.takeWhile (· ≠ 47)).length % 2 ^ 8
  rw [List.length_take]
  omega

/-- The name that was looked up is not in the cache; the lookup ended in a directory. -/
def Absent (N : NodeCache Cache) (v : Volume Disk Cache) (ds : DirSearch) : Prop :=
  ∃ x, N.node v.cache ds.dir = some x ∧ x.dentry.isDir = true ∧
    N.find v.cache ds.component x.dentry.cluster = none

/-- What is known when a lookup ends: the invariant, the node that was found, and the place where
    a name was missed. -/
structure Ended (D : DirSupport Disk) (N : NodeCache Cache) (ok : Disk → Prop)
    (rootCluster : BitVec 32) (v : Volume Disk Cache) (ds : DirSearch) (err : Err) : Prop where
  inv : CacheInv D N ok rootCluster v
  arrived : err = .ENOERR → ∀ n, ds.node = some n → Arrived D N v n
  absent : err = .ENOENT → Absent N v ds

/-- **The spec of `find_entry`**, for the tree: the node that it ends with is where the path
    says. -/
theorem findEntry_ended (L : CacheLaws N) (T : DirLaws D ok rootCluster)
    (h : CacheInv D N ok rootCluster v) (hroot : 0 < N.refs v.cache v.root)
    (harr : Arrived D N v ds.dir) (hentry : findEntry D N v ds = some (err, v', ds')) :
    Ended D N ok rootCluster v' ds' err := by
  obtain ⟨dir, hx, ⟨-, rfl, rfl, rfl⟩ | ⟨hdir, err', hfind, hres⟩⟩ := findEntry_cases hentry
  · exact ⟨h, nofun, nofun⟩
  have hisDir : ∀ x, N.node v.cache ds.isolate.dir = some x → x.dentry.isDir = true := by
    intro x hx'
    have heq : some x = some dir := hx'.symm.trans hx
    cases heq
    exact hdir
  have harr' : Arrived D N v ds.isolate.dir := harr
  obtain ⟨hinv, hnode⟩ := findDirentry_inv L T h hroot harr' (isolate_length ds) hisDir hfind
  refine ⟨hinv, fun _ => hnode, fun herr => ?_⟩
  -- only a name that is missing gives `ENOENT`
  have hmiss : err' = .ENOERR → ds'.node = none := by
    intro hok
    rcases hres with ⟨hne, -⟩ | ⟨-, heq⟩
    · exact absurd hok hne
    · rw [herr] at heq
      split at heq
      · cases heq
      · simpa using ‹¬ds'.node.isSome = true›
  obtain ⟨dir', hx', hstep⟩ := findDirentry_cases hfind
  have hdir' : dir'.dentry.isDir = true := hisDir _ hx'
  cases hstep with
  | stay hdot => cases hmiss rfl
  | hit hnot hhit => cases hmiss rfl
  | missing hnot hnone hscan => exact ⟨dir', hx', hdir', hnone⟩
  | rootParent hnot he hname hdots hzero => cases hmiss rfl
  | failed hbad hwhy =>
    exfalso
    have heq : err = err' := by
      rcases hres with ⟨-, heq⟩ | ⟨hok, -⟩
      · exact heq
      · exact absurd hok hbad
    rw [← heq, herr] at hwhy
    rcases hwhy with hfull | ⟨e, hread⟩
    · cases hfull
    · exact T.ends _ e hread.symm
  | parentHit hnot he hname hdots hzero hz hzdot hhit => cases hmiss rfl
  | parentNew hnot he hname hdots hzero hz hzdot hnone halloc => cases hmiss rfl
  | new hnot he hname hdots hnone halloc => cases hmiss rfl

/-- **The end of a path.**  The invariant is kept, and the node found is where the last component
    says. -/
theorem fatfsFind_ended (L : CacheLaws N) (T : DirLaws D ok rootCluster)
    (h : CacheInv D N ok rootCluster v) (hroot : 0 < N.refs v.cache v.root)
    (harr : Arrived D N v ds.dir) (hnode : ds.node = some ds.dir)
    (hfind : fatfsFind D N fuel v ds = some (err, v', ds')) :
    Ended D N ok rootCluster v' ds' err := by
  refine fatfsFind_induction
    (P := fun w d => (CacheInv D N ok rootCluster w ∧ 0 < N.refs w.cache w.root) ∧
      Arrived D N w d.dir)
    (Q := fun err w d => Ended D N ok rootCluster w d err) ?_ ?_ hfind ⟨⟨h, hroot⟩, harr⟩
  · rintro w d err w' d' ⟨⟨hinv, hroot⟩, harr⟩ hentry
    have hend := findEntry_ended L T hinv hroot harr hentry
    refine ⟨hend, fun hok n hn => ⟨⟨hend.inv, ?_⟩, hend.arrived hok n hn⟩⟩
    have hk := findEntry_kept L (cached_of_refs hroot) hentry
    rw [hk.refs, hk.root]
    exact hroot
  · intro _
    refine ⟨h, fun _ n hn => ?_, nofun⟩
    rw [hnode] at hn
    cases hn
    exact harr

end Ecos.Fat
