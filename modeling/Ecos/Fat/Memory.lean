import Ecos.Fat.Directory
import Ecos.Fat.NodeTree

namespace Ecos.Fat

/-!
# A FAT disk in memory

An instance of the code that the directory operations rest on.

* `tableCache` — the node cache as a table of nodes, searched from the front;
* `MemDisk`, `memDirs` — the directory entries of a disk, where the entries `"."` and `".."` are
  made when a directory is read;
* `MemDisk.Tree`, `memDirs_laws` — when the entries form a tree, and that the operations keep it.
-/

/-! ### The node cache -/

/-- A table of nodes; `none` is a place that is free, and the number of a place stands for its
    address. -/
abbrev NodeTable := List (Option FatNode)

/-- The node at a place of the table, if there is one. -/
def NodeTable.node (nodes : NodeTable) (n : Nat) : Option FatNode := nodes[n]?.join

/-- Change the node at a place of the table; a free place stays free. -/
def NodeTable.modify (nodes : NodeTable) (n : Nat) (f : FatNode → FatNode) : NodeTable :=
  match nodes.node n with
  | some x => nodes.set n (some (f x))
  | none => nodes

/-- Has the place a node with this name and parent cluster? -/
def isNamed (name : List UInt8) (p : BitVec 32) : Option FatNode → Bool
  | some x => x.dentry.named name && x.dentry.parentCluster = p
  | none => false

/-- The node cache as a table that grows as needed, so that no node has to be thrown out. -/
def tableCache : NodeCache NodeTable where
  node := NodeTable.node
  find nodes name p := nodes.findIdx? (isNamed name p)
  touch nodes _ := nodes
  alloc nodes e := some (nodes.length, nodes ++ [some ⟨e, 0⟩])
  free nodes n := nodes.set n none
  ref nodes n := nodes.modify n fun x => { x with refcnt := x.refcnt + 1 }
  unref nodes n := nodes.modify n fun x => { x with refcnt := x.refcnt - 1 }
  rehash nodes n e := nodes.modify n fun x => { x with dentry := e }
  store nodes n e := nodes.modify n fun x => { x with dentry := { x.dentry with toDentry := e } }
  liveCount nodes :=
    ((Finset.range nodes.length).filter fun n =>
      0 < ((nodes.node n).map FatNode.refcnt).getD 0).card

/-- A node that is there has its place in the table. -/
theorem NodeTable.node_lt {nodes : NodeTable} {n : Nat} {x : FatNode} (hx : nodes.node n = some x) :
    n < nodes.length := by
  by_contra hge
  have hnone : nodes[n]? = none := List.getElem?_eq_none (by omega)
  simp [NodeTable.node, hnone] at hx

/-- Writing to a place of the table. -/
theorem NodeTable.node_set {nodes : NodeTable} {n : Nat} (x : Option FatNode)
    (hn : n < nodes.length ∨ x = none) :
    NodeTable.node (nodes.set n x) = Function.update (NodeTable.node nodes) n x := by
  ext1 m
  unfold NodeTable.node
  by_cases hm : m = n
  · subst hm
    rw [Function.update_self]
    by_cases hlt : m < nodes.length
    · simp [hlt]
    · have hnone : x = none := hn.resolve_left hlt
      rw [hnone, List.set_eq_of_length_le (by omega), List.getElem?_eq_none (by omega)]
      rfl
  · rw [Function.update_of_ne hm, List.getElem?_set_ne (Ne.symm hm)]

/-- A change to one node. -/
theorem NodeTable.node_modify {nodes : NodeTable} {n : Nat} {x : FatNode} (f : FatNode → FatNode)
    (hx : nodes.node n = some x) :
    NodeTable.node (nodes.modify n f) = Function.update (NodeTable.node nodes) n (some (f x)) := by
  simp only [NodeTable.modify, hx]
  exact NodeTable.node_set _ (Or.inl (NodeTable.node_lt hx))

/-- The table of nodes is a cache, so that what is proved of all caches can be run on it. -/
theorem tableCache_laws : CacheLaws tableCache where
  find_some := by
    intro nodes name p n hfind
    obtain ⟨hlt, hnamed, -⟩ := List.findIdx?_eq_some_iff_getElem.mp hfind
    cases hx : nodes[n] with
    | none =>
      rw [hx] at hnamed
      cases hnamed
    | some x =>
      rw [hx] at hnamed
      refine ⟨x, ?_, ?_⟩
      · show NodeTable.node nodes n = some x
        simp [NodeTable.node, hlt, hx]
      · simpa [isNamed] using hnamed
  find_none := by
    intro nodes name p n x hfind hx hnamed hp
    have hlt := NodeTable.node_lt hx
    have hget : nodes[n] = some x := by
      have hnode : NodeTable.node nodes n = some x := hx
      simpa [NodeTable.node, hlt] using hnode
    have hnone := List.findIdx?_eq_none_iff.mp hfind nodes[n] (List.getElem_mem hlt)
    rw [hget] at hnone
    simp [isNamed, hnamed, hp] at hnone
  touch nodes n := rfl
  alloc := by
    intro nodes e n c' h
    obtain ⟨rfl, rfl⟩ := Prod.mk.inj (Option.some.inj h)
    constructor
    · show ((NodeTable.node nodes nodes.length).map FatNode.refcnt).getD 0 = 0
      simp [NodeTable.node]
    · ext1 m
      show ((nodes ++ [some ⟨e, 0⟩])[m]?).join
        = Function.update (NodeTable.node nodes) nodes.length _ m
      -- the new node comes behind the others
      by_cases hm : m = nodes.length
      · subst hm
        simp
      · rw [Function.update_of_ne hm]
        unfold NodeTable.node
        rcases Nat.lt_or_ge m nodes.length with hlt | hge
        · rw [List.getElem?_append_left hlt]
        · rw [List.getElem?_eq_none (by simp; omega), List.getElem?_eq_none (by omega)]
  free nodes n := NodeTable.node_set none (Or.inr rfl)
  ref := fun hx => NodeTable.node_modify _ hx
  unref := fun hx => NodeTable.node_modify _ hx
  rehash := fun _ hx => NodeTable.node_modify _ hx
  store := fun _ hx => NodeTable.node_modify _ hx
  live nodes := by
    -- the nodes with references are in the table, of which there is a finite part
    refine ⟨(Finset.range nodes.length).filter fun n =>
      0 < ((NodeTable.node nodes n).map FatNode.refcnt).getD 0, fun n => ?_, rfl⟩
    rw [Finset.mem_filter, Finset.mem_range]
    constructor
    · exact fun h => h.2
    · intro hpos
      refine ⟨?_, hpos⟩
      have hpos' : 0 < ((NodeTable.node nodes n).map FatNode.refcnt).getD 0 := hpos
      cases hx : NodeTable.node nodes n with
      | none =>
        rw [hx] at hpos'
        cases hpos'
      | some x => exact NodeTable.node_lt hx

/-! ### The directories -/

/-- The directory entries of a disk, and the number of its next free cluster.  The root directory
    has the cluster 0. -/
structure MemDisk where
  entries : List DirEntry
  next : Nat
  deriving DecidableEq, Repr

namespace MemDisk

variable (d : MemDisk)

/-- The entries of a directory that have names of their own, in the order of the disk. -/
def children (c : BitVec 32) : List DirEntry := d.entries.filter fun e => e.parentCluster = c

/-- The first cluster of the parent of a directory, 0 for that of the root directory. -/
def parent (c : BitVec 32) : BitVec 32 :=
  match d.entries.find? fun e => e.isDir && e.cluster = c with
  | some e => e.parentCluster
  | none => 0

/-- An entry of the directory `c` for a directory, with the cluster of its contents. -/
def dirEntry (c : BitVec 32) (name : List UInt8) (cluster : BitVec 32) : DirEntry :=
  { size := 0, isDir := true, rdOnly := false, cluster, filename := name, parentCluster := c }

/-- What is read from a directory: `"."` and `".."` first, except in the root directory. -/
def list (c : BitVec 32) : List DirEntry :=
  (if c = 0 then [] else [dirEntry c dot c, dirEntry c dotdot (d.parent c)]) ++ d.children c

end MemDisk

/-- The directories of a disk in memory.  A directory that is not empty is not removed, and no
    entry is created with the names `"."` and `".."`. -/
def memDirs : DirSupport MemDisk where
  charSigned := true
  readDir d e := (d.list e.cluster, ⟨.EEOF, nofun⟩)
  createFile d dir name :=
    let e := { MemDisk.dirEntry dir.cluster name 0 with isDir := false }
    (.ENOERR, { d with entries := d.entries ++ [e] }, e)
  createDir d dir name :=
    let e := MemDisk.dirEntry dir.cluster name (BitVec.ofNat 32 d.next)
    if d.next < 2 ^ 32 ∧ name ≠ dot ∧ name ≠ dotdot then
      (.ENOERR, ⟨d.entries ++ [e], d.next + 1⟩, e)
    else (.ENOSPC, d, e)
  deleteFile d e :=
    if e.isDir then
      if d.children e.cluster = [] then
        (.ENOERR,
          { d with entries := d.entries.filter fun x => ¬(x.isDir ∧ x.cluster = e.cluster) })
      else (.EPERM, d)
    else (.ENOERR, { d with entries := d.entries.erase e })
  renameFile d _ e dir name :=
    let e' := { e with filename := name, parentCluster := dir.cluster }
    (.ENOERR, { d with entries := d.entries.map fun x => if x = e then e' else x }, e')
  writeDirEntry d _ := (.ENOERR, d)
  truncFile d e := (d, { e.toDentry with size := 0 })

/-- The directory entries form a tree: every directory has one entry, with a name of its own, in
    a directory that has an entry too. -/
structure MemDisk.Tree (d : MemDisk) : Prop where
  own : ∀ e ∈ d.entries, e.own
  cluster : ∀ e ∈ d.entries, e.isDir = true → e.cluster ≠ 0 ∧ e.cluster.toNat < d.next
  unique : ∀ e ∈ d.entries, ∀ e' ∈ d.entries, e.isDir = true → e'.isDir = true →
    e.cluster = e'.cluster → e = e'
  place : ∀ e ∈ d.entries, e.parentCluster = 0 ∨
    ∃ p ∈ d.entries, p.isDir = true ∧ p.cluster = e.parentCluster
  next : 0 < d.next

namespace MemDisk

variable {d : MemDisk} {c : BitVec 32} {dir e : DirEntry}

/-- The entries of the directory at `c`. -/
theorem mem_children : e ∈ d.children c ↔ e ∈ d.entries ∧ e.parentCluster = c := by
  simp [children]

/-- An entry of a directory is `"."`, `".."` or one with a name of its own. -/
theorem mem_list : e ∈ d.list c ↔
    c ≠ 0 ∧ (e = dirEntry c dot c ∨ e = dirEntry c dotdot (d.parent c)) ∨
      e ∈ d.entries ∧ e.parentCluster = c := by
  unfold list
  rw [List.mem_append, mem_children]
  apply or_congr_left
  split
  · simp_all
  · simp_all

/-- The entries with names of their own that are read are those of the directory. -/
theorem mem_list_own (hown : e.own) : e ∈ d.list c ↔ e ∈ d.entries ∧ e.parentCluster = c := by
  rw [mem_list]
  constructor
  · rintro (⟨-, rfl | rfl⟩ | he)
    · exact absurd rfl hown.1
    · exact absurd rfl hown.2
    · exact he
  · exact Or.inr

/-- A directory is listed where its entry is, and nowhere else. -/
theorem listed_iff (h : d.Tree) :
    memDirs.Listed d c ↔ ∃ e ∈ d.entries, e.isDir = true ∧ e.cluster = c := by
  constructor
  · rintro ⟨dir, e, he, hown, hdir, hc⟩
    exact ⟨e, ((mem_list_own hown).mp he).1, hdir, hc⟩
  · rintro ⟨e, he, hdir, hc⟩
    have hown := h.own e he
    exact ⟨dirEntry 0 [] e.parentCluster, e, (mem_list_own hown).mpr ⟨he, rfl⟩, hown, hdir, hc⟩

/-- The entry `".."` leads to the place of the directory, as the tree has it. -/
theorem parent_eq (h : d.Tree) (he : e ∈ d.entries) (hdir : e.isDir = true) :
    d.parent e.cluster = e.parentCluster := by
  unfold parent
  cases hfind : d.entries.find? fun x => x.isDir && x.cluster = e.cluster with
  | none =>
    have hnone := List.find?_eq_none.mp hfind e he
    simp [hdir] at hnone
  | some x =>
    have hx := List.find?_some hfind
    obtain ⟨hxdir, hc⟩ : x.isDir = true ∧ x.cluster = e.cluster := by simpa using hx
    rw [h.unique x (List.mem_of_find?_eq_some hfind) e he hxdir hdir hc]

/-- A new directory keeps the disk a tree: its cluster is new, and its place is there. -/
theorem Tree.create (h : d.Tree) {name : List UInt8} (hname : name ≠ dot ∧ name ≠ dotdot)
    (hnext : d.next < 2 ^ 32)
    (hplace : c = 0 ∨ ∃ p ∈ d.entries, p.isDir = true ∧ p.cluster = c) :
    Tree ⟨d.entries ++ [dirEntry c name (BitVec.ofNat 32 d.next)], d.next + 1⟩ := by
  have hpos := h.next
  have hnat : (BitVec.ofNat 32 d.next).toNat = d.next := by
    rw [BitVec.toNat_ofNat, Nat.mod_eq_of_lt hnext]
  have hmem : ∀ e, e ∈ d.entries ++ [dirEntry c name (BitVec.ofNat 32 d.next)] ↔
      e ∈ d.entries ∨ e = dirEntry c name (BitVec.ofNat 32 d.next) := by
    intro e
    rw [List.mem_append, List.mem_singleton]
  -- no directory has the new cluster
  have hfresh : ∀ e ∈ d.entries, e.isDir = true → e.cluster ≠ BitVec.ofNat 32 d.next := by
    intro e he hdir heq
    have hlt := (h.cluster e he hdir).2
    rw [heq, hnat] at hlt
    omega
  refine ⟨fun e he => ?_, fun e he hdir => ?_, fun e he e' he' hdir hdir' hc => ?_,
    fun e he => ?_, Nat.succ_pos _⟩
  · rcases (hmem e).mp he with he | rfl
    · exact h.own e he
    · exact hname
  · rcases (hmem e).mp he with he | rfl
    · obtain ⟨hne, hlt⟩ := h.cluster e he hdir
      exact ⟨hne, Nat.lt_succ_of_lt hlt⟩
    · refine ⟨fun heq => ?_, ?_⟩
      · have hzero := congrArg BitVec.toNat heq
        have hnew : (BitVec.ofNat 32 d.next).toNat = 0 := hzero
        omega
      · show (BitVec.ofNat 32 d.next).toNat < d.next + 1
        omega
  · rcases (hmem e).mp he with he | rfl
    · rcases (hmem e').mp he' with he' | rfl
      · exact h.unique e he e' he' hdir hdir' hc
      · exact absurd hc (hfresh e he hdir)
    · rcases (hmem e').mp he' with he' | rfl
      · exact absurd hc.symm (hfresh e' he' hdir')
      · rfl
  · have hgrow : (∃ p ∈ d.entries, p.isDir = true ∧ p.cluster = e.parentCluster) →
        ∃ p ∈ d.entries ++ [dirEntry c name (BitVec.ofNat 32 d.next)],
          p.isDir = true ∧ p.cluster = e.parentCluster := by
      rintro ⟨p, hp, hpdir⟩
      exact ⟨p, List.mem_append_left _ hp, hpdir⟩
    rcases (hmem e).mp he with he | rfl
    · exact (h.place e he).imp_right hgrow
    · exact hplace.imp_right hgrow

/-- The removal of a directory without entries keeps the disk a tree. -/
theorem Tree.delete (h : d.Tree) (hempty : d.children e.cluster = []) :
    Tree { d with entries := d.entries.filter fun x => ¬(x.isDir ∧ x.cluster = e.cluster) } := by
  have hmem : ∀ x, x ∈ d.entries.filter (fun x => ¬(x.isDir ∧ x.cluster = e.cluster)) ↔
      x ∈ d.entries ∧ ¬(x.isDir = true ∧ x.cluster = e.cluster) := by
    intro x
    rw [List.mem_filter, decide_eq_true_iff]
  refine ⟨fun x hx => h.own x ((hmem x).mp hx).1, fun x hx => h.cluster x ((hmem x).mp hx).1,
    fun x hx y hy => h.unique x ((hmem x).mp hx).1 y ((hmem y).mp hy).1, fun x hx => ?_, h.next⟩
  obtain ⟨hx', -⟩ := (hmem x).mp hx
  refine (h.place x hx').imp_right ?_
  rintro ⟨p, hp, hpdir, hpc⟩
  refine ⟨p, (hmem p).mpr ⟨hp, fun hgone => ?_⟩, hpdir, hpc⟩
  -- the removed directory would have the entry `x`
  have hchild : x ∈ d.children e.cluster := mem_children.mpr ⟨hx', hpc.symm.trans hgone.2⟩
  rw [hempty] at hchild
  cases hchild

end MemDisk

/-- The directories in memory obey the laws, so that what is assumed of the support code can be
    met. -/
theorem memDirs_laws : DirLaws memDirs MemDisk.Tree 0 where
  ends _ _ := nofun
  reads := by
    intro d dir dir' hc
    show (d.list dir.cluster, _) = (d.list dir'.cluster, _)
    rw [hc]
  place := by
    intro d dir e he
    rcases MemDisk.mem_list.mp he with ⟨-, rfl | rfl⟩ | ⟨-, hplace⟩
    · rfl
    · rfl
    · exact hplace
  self := by
    intro d dir e hd he hname
    rcases MemDisk.mem_list.mp he with ⟨-, rfl | rfl⟩ | ⟨hmem, -⟩
    · exact ⟨rfl, rfl⟩
    · cases hname
    · exact absurd hname (hd.own e hmem).1
  parent := by
    intro d dir e hd hlisted he hname hzero
    obtain ⟨x, hx, hxdir, hxc⟩ := (MemDisk.listed_iff hd).mp hlisted
    rcases MemDisk.mem_list.mp he with ⟨-, rfl | rfl⟩ | ⟨hmem, -⟩
    · cases hname
    -- `".."` has the cluster where the directory itself is listed
    · have hparent := MemDisk.parent_eq hd hx hxdir
      rw [hxc] at hparent
      have hc : (MemDisk.dirEntry dir.cluster dotdot (d.parent dir.cluster)).cluster
          = x.parentCluster := hparent
      rw [MemDisk.listed_iff hd, hc]
      refine ⟨(hd.place x hx).resolve_left (by rw [← hc]; exact hzero), x, ?_, hd.own x hx, hxdir⟩
      exact (MemDisk.mem_list_own (hd.own x hx)).mpr ⟨hx, hc.symm⟩
    · exact absurd hname (hd.own e hmem).2
  noParent := by
    intro d dir e hd he hname
    rcases MemDisk.mem_list.mp he with ⟨hne, -⟩ | ⟨hmem, -⟩
    · exact hne
    · exact absurd hname (hd.own e hmem).2
  unique := by
    intro d dir dir' e e' hd he he' hown hown' hdir hdir' hc
    have heq := hd.unique e ((MemDisk.mem_list_own hown).mp he).1 e'
      ((MemDisk.mem_list_own hown').mp he').1 hdir hdir' hc
    rw [heq]
    exact ⟨rfl, rfl⟩
  top := by
    intro d hd hlisted
    obtain ⟨e, he, hdir, hc⟩ := (MemDisk.listed_iff hd).mp hlisted
    exact (hd.cluster e he hdir).1 hc
  create := by
    intro d dir name err d' e hd hplace hcreate
    rw [MemDisk.listed_iff hd] at hplace
    simp only [memDirs] at hcreate
    split at hcreate
    · rename_i hok
      obtain ⟨rfl, rfl, rfl⟩ := hcreate
      have hown : (MemDisk.dirEntry dir.cluster name (BitVec.ofNat 32 d.next)).own := hok.2
      refine ⟨hd.create hok.2 hok.1 hplace, fun dir' x hx hxown _ => ?_,
        fun _ => ⟨?_, hown, rfl, ?_⟩⟩
      -- an entry that was there is there, and the new one is added
      · obtain ⟨hmem, hp⟩ := (MemDisk.mem_list_own hxown).mp hx
        exact (MemDisk.mem_list_own hxown).mpr ⟨List.mem_append_left _ hmem, hp⟩
      · exact (MemDisk.mem_list_own hown).mpr ⟨List.mem_append_right _ List.mem_cons_self, rfl⟩
      · exact DirEntry.named_iff.mpr rfl
    · obtain ⟨rfl, rfl, rfl⟩ := hcreate
      exact ⟨hd, fun _ _ hx _ _ => hx, nofun⟩
  delete := by
    intro d e err d' hd hdir hdelete
    simp only [memDirs, if_pos hdir] at hdelete
    split at hdelete
    · rename_i hempty
      obtain ⟨rfl, rfl⟩ := hdelete
      refine ⟨hd.delete hempty, fun dir x hx hxown hxdir hne => ?_, fun _ hchild => ?_⟩
      · obtain ⟨hmem, hp⟩ := (MemDisk.mem_list_own hxown).mp hx
        refine (MemDisk.mem_list_own hxown).mpr ⟨List.mem_filter.mpr ⟨hmem, ?_⟩, hp⟩
        exact decide_eq_true fun hgone => hne rfl hgone.2
      -- only an empty directory is removed
      · obtain ⟨x, hx, hxown, -⟩ := hchild
        have hmem := MemDisk.mem_children.mpr ((MemDisk.mem_list_own hxown).mp hx)
        rw [hempty] at hmem
        cases hmem
    · obtain ⟨rfl, rfl⟩ := hdelete
      exact ⟨hd, fun _ _ hx _ _ _ => hx, nofun⟩
  write := by
    intro d e err d' hd hwrite
    obtain ⟨-, rfl⟩ := Prod.mk.inj hwrite
    exact ⟨hd, fun _ _ hx _ _ => hx⟩

/-- The entry of the root directory. -/
def rootEntry : DirEntry := MemDisk.dirEntry 0 [] 0

/-- A disk in memory that has just been mounted, with the root directory in the cache. -/
def mounted (d : MemDisk) (nfd : Nat) : Mounted MemDisk NodeTable where
  disk := d
  cache := [some ⟨rootEntry, 1⟩]
  root := 0
  fdNode := fun _ => 0
  pool := id
  freeCnt := nfd
  files := []
  cwd := []

end Ecos.Fat
