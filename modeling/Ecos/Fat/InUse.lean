import Ecos.Fat.References
import Ecos.Fat.NodeTree

namespace Ecos.Fat

open Ecos.Lib

/-!
# Directories in use

When `fatfs_rmdir` removes a directory that somebody uses.

* `Mounted.inUse` — an open descriptor or a directory that was given out denotes the directory;
* `RemovedUnused` — what a removal should be like: the directory was not in use, and no node
  with references was freed;
* `DotFree` — the node `"."` of the directory, if there is one, has no references;
* `directory_in_use` — as long as `fatfs_rmdir` removes only directories that are `DotFree`, a
  removal is as it should be exactly when this one is too.

The busy check of `fatfs_rmdir` looks at the node that the path leads to.  A directory that was
given out by a path ending in `".."` is held by its node `"."`.
-/

variable {Disk Cache : Type} {D : DirSupport Disk} {N : NodeCache Cache} {cfg : FatConfig}
  {ok : Disk → Prop} {rootCluster : BitVec 32} {s s' s₁ : Mounted Disk Cache} {err : Err}
  {fuel n d nfd : Nat} {dir : Option Nat} {name : List UInt8} {ds : DirSearch} {x : FatNode}

/-! ### Removing a directory -/

/-- The state after the lookup of `fatfs_rmdir`, with the node that it found. -/
def Mounted.rmdirTarget (D : DirSupport Disk) (N : NodeCache Cache) (fuel : Nat)
    (s : Mounted Disk Cache) (dir : Option Nat) (name : List UInt8) :
    Option (Mounted Disk Cache × Nat × FatNode) := do
  let (err, s, ds) ← s.find D N fuel dir name
  if err ≠ .ENOERR then none
  let n ← ds.node
  return (s, n, ← s.node N n)

/-- Does an open descriptor, or a directory that was given out, denote the directory with the
    first cluster `c`? -/
def Mounted.inUse (N : NodeCache Cache) (s : Mounted Disk Cache) (c : BitVec 32) : Prop :=
  ∃ n x, (n ∈ s.files.map s.fdNode ∨ n ∈ s.cwd) ∧ s.node N n = some x ∧
    x.dentry.isDir = true ∧ x.dentry.cluster = c

/-- **A proper removal.**  The directory with the first cluster `c` was not in use, and every node
    that had references is still there. -/
structure RemovedUnused (N : NodeCache Cache) (s : Mounted Disk Cache) (c : BitVec 32)
    (s' : Mounted Disk Cache) : Prop where
  unused : ¬s.inUse N c
  kept : ∀ n, 0 < N.refs s.cache n → s'.cached N n

/-- Nobody holds the node `"."` of the directory with the first cluster `c`. -/
def DotFree (N : NodeCache Cache) (s : Mounted Disk Cache) (c : BitVec 32) : Prop :=
  ∀ n, N.find s.cache dot c = some n → N.refs s.cache n = 0

/-! ### The invariant -/

/-- The references are balanced, and the cached nodes stand for directories of the disk. -/
structure UseInv (D : DirSupport Disk) (N : NodeCache Cache) (ok : Disk → Prop)
    (rootCluster : BitVec 32) (nfd : Nat) (s : Mounted Disk Cache) : Prop where
  balanced : (s.ledger N).Balanced nfd
  cache : CacheInv D N ok rootCluster s.toVolume

/-- A lookup keeps the invariant of the cache, whatever it finds or reads in. -/
theorem UseInv.find (h : UseInv D N ok rootCluster nfd s) (L : CacheLaws N)
    (T : DirLaws D ok rootCluster) (hdir : s.holds dir = true)
    (hfind : s.find D N fuel dir name = some (err, s', ds)) :
    UseInv D N ok rootCluster nfd s' ∧ Ended D N ok rootCluster s'.toVolume ds err ∧
      Kept N s.toVolume s'.toVolume ∧ s'.files = s.files ∧ s'.fdNode = s.fdNode ∧
      s'.cwd = s.cwd := by
  obtain ⟨hl, hlook, -⟩ :=
    find_ledger L h.balanced.root_cached (h.balanced.dir_cached hdir) hfind
  obtain ⟨⟨err', v, ds'⟩, hf, hfind⟩ := Option.bind_eq_some_iff.mp hfind
  simp only [Option.pure_def, Option.some.injEq, Prod.mk.injEq] at hfind
  obtain ⟨rfl, rfl, rfl⟩ := hfind
  have hstart : Arrived D N s.toVolume (initDirsearch s.root dir name).dir := by
    intro x hx
    have hpos := h.balanced.dir_refs hdir
    have hx' : N.node s.cache (dir.getD s.root) = some x := hx
    rw [refs_of_node hx'] at hpos
    exact Or.inl hpos
  have hend := fatfsFind_ended L T h.cache h.balanced.root_refs hstart rfl hf
  exact ⟨⟨by rw [hl]; exact h.balanced, hend.inv⟩, hend, hlook.kept, rfl, rfl, rfl⟩

/-- A change of a reference count changes no entry, so that the invariant of the cache stays. -/
theorem thinned_of_count {v : Volume Disk Cache} {c : Cache} {k : Nat}
    (hx : N.node v.cache n = some x)
    (hc : N.node c = Function.update (N.node v.cache) n (some { x with refcnt := k })) :
    Thinned N v { v with cache := c } := by
  intro m y hy
  replace hy : N.node c m = some y := hy
  rw [hc] at hy
  by_cases hm : m = n
  · subst hm
    rw [Function.update_self] at hy
    cases hy
    exact ⟨x, hx, rfl⟩
  · rw [Function.update_of_ne hm] at hy
    exact ⟨y, hy, rfl⟩

/-- A reference that is taken keeps the invariant of the cache. -/
theorem CacheInv.ref (h : CacheInv D N ok rootCluster s.toVolume) (L : CacheLaws N)
    (hs : s.ref N n = some s') : CacheInv D N ok rootCluster s'.toVolume := by
  obtain ⟨x, hx, hs⟩ := Option.bind_eq_some_iff.mp hs
  obtain rfl := Option.some.inj hs
  exact h.thin (thinned_of_count hx (L.ref hx)) rfl rfl

/-- A reference that is dropped keeps the invariant of the cache. -/
theorem CacheInv.unref (h : CacheInv D N ok rootCluster s.toVolume) (L : CacheLaws N)
    (hs : s.unref N n = some s') : CacheInv D N ok rootCluster s'.toVolume := by
  obtain ⟨x, hx, hs⟩ := Option.bind_eq_some_iff.mp hs
  obtain rfl := Option.some.inj hs
  exact h.thin (thinned_of_count hx (L.unref hx)) rfl rfl

/-- A descriptor for a node keeps the invariant of the cache: only counts change. -/
theorem CacheInv.openNode (h : CacheInv D N ok rootCluster s.toVolume) (L : CacheLaws N)
    (hs : s.openNode N n = some (err, s')) : CacheInv D N ok rootCluster s'.toVolume := by
  rcases Mounted.openNode_cases hs with rfl | ⟨-, s₁, href, rfl⟩
  · exact h
  · have hinv : CacheInv D N ok rootCluster s₁.toVolume := CacheInv.ref (by exact h) L href
    exact hinv

/-- `fatfs_opendir` keeps the invariant of the cache: a lookup, and a descriptor. -/
theorem UseInv.opendir (h : UseInv D N ok rootCluster nfd s) (L : CacheLaws N)
    (T : DirLaws D ok rootCluster) (hdir : s.holds dir = true)
    (hs : s.opendir D N fuel dir name = some (err, s')) :
    CacheInv D N ok rootCluster s'.toVolume := by
  obtain ⟨err₁, s₁, ds, hfind, hcase⟩ := Mounted.opendir_cases hs
  obtain ⟨hinv, -⟩ := h.find L T hdir hfind
  rcases hcase with rfl | ⟨m, hopen⟩
  · exact hinv.cache
  · exact hinv.cache.openNode L hopen

/-- `fatfs_fo_close` keeps the invariant of the cache: writing an entry back keeps the
    directories. -/
theorem UseInv.foClose (h : UseInv D N ok rootCluster nfd s) (L : CacheLaws N)
    (T : DirLaws D ok rootCluster) (hs : s.foClose D N d = some (err, s')) :
    CacheInv D N ok rootCluster s'.toVolume := by
  obtain ⟨x, s₁, hx, hunref, rfl⟩ := Mounted.foClose_cases hs
  have hwrite : CacheInv D N ok rootCluster
      { s.toVolume with disk := (if s.fdNode d ≠ s.root then
        D.writeDirEntry s.disk x.dentry else (.ENOERR, s.disk)).2 } := by
    split
    · have hw := T.write h.cache.disk (rfl : D.writeDirEntry s.disk x.dentry = _)
      exact h.cache.keep hw.1 hw.2
    · exact h.cache
  have hinv : CacheInv D N ok rootCluster s₁.toVolume := CacheInv.unref (by exact hwrite) L hunref
  exact hinv

/-- `fatfs_chdir` keeps the invariant of the cache: a lookup, and a reference. -/
theorem UseInv.chdir (h : UseInv D N ok rootCluster nfd s) (L : CacheLaws N)
    (T : DirLaws D ok rootCluster) (hdir : s.holds dir = true)
    (hs : s.chdir D N fuel dir name = some (err, s')) :
    CacheInv D N ok rootCluster s'.toVolume := by
  obtain ⟨err₁, s₁, ds, hfind, hcase⟩ := Mounted.chdir_cases hs
  obtain ⟨hinv, -⟩ := h.find L T hdir hfind
  rcases hcase with rfl | ⟨m, s₂, ⟨-, rfl⟩ | ⟨-, href⟩, rfl⟩
  · exact hinv.cache
  · exact hinv.cache
  · have hgiven : CacheInv D N ok rootCluster s₂.toVolume := hinv.cache.ref L href
    exact hgiven

/-- Leaving a current directory keeps the invariant of the cache. -/
theorem UseInv.chdirLeave (h : UseInv D N ok rootCluster nfd s) (L : CacheLaws N)
    (hs : s.chdirLeave N n = some (err, s')) : CacheInv D N ok rootCluster s'.toVolume := by
  unfold Mounted.chdirLeave at hs
  split at hs
  · obtain ⟨s₁, hunref, hs⟩ := Option.bind_eq_some_iff.mp hs
    obtain ⟨-, rfl⟩ : _ = err ∧ ({ s₁ with cwd := s₁.cwd.erase n } : Mounted Disk Cache) = s' := by
      simpa using hs
    have hinv : CacheInv D N ok rootCluster s₁.toVolume := h.cache.unref L hunref
    exact hinv
  · obtain ⟨-, rfl⟩ : _ = err ∧ ({ s with cwd := s.cwd.erase n } : Mounted Disk Cache) = s' := by
      simpa using hs
    exact h.cache

/-- `fatfs_mkdir` keeps the invariant of the cache: its new node is for the entry that is on the
    disk. -/
theorem UseInv.mkdir (h : UseInv D N ok rootCluster nfd s) (L : CacheLaws N)
    (T : DirLaws D ok rootCluster) (hdir : s.holds dir = true)
    (hs : s.mkdir D N fuel dir name = some (err, s')) :
    CacheInv D N ok rootCluster s'.toVolume := by
  obtain ⟨⟨err₁, s₁, ds⟩, hfind, hs⟩ := Option.bind_eq_some_iff.mp hs
  obtain ⟨hinv, hend, -⟩ := h.find L T hdir hfind
  dsimp only at hs
  split at hs
  · rename_i hnoent
    obtain ⟨x', hx', hisDir, hnone⟩ := hend.absent hnoent
    split at hs
    · obtain ⟨x, hx, hs⟩ := Option.bind_eq_some_iff.mp hs
      rcases hcreate : D.createDir s₁.disk x.dentry ds.component with ⟨err₂, disk, e⟩
      simp only [hcreate] at hs
      have hxx : some x' = some x := hx'.symm.trans hx
      cases hxx
      have hlisted := hinv.cache.listed hx' hisDir
      obtain ⟨hok, hkeeps, hentry⟩ := T.create hinv.cache.disk hlisted hcreate
      have hkept : CacheInv D N ok rootCluster { s₁.toVolume with disk } :=
        hinv.cache.keep hok hkeeps
      split at hs
      · obtain ⟨-, rfl⟩ : _ = err ∧ ({ s₁ with disk } : Mounted Disk Cache) = s' := by
          simpa using hs
        exact hkept
      rename_i herr
      obtain ⟨hmem, hown, -, hname⟩ := hentry (Decidable.not_not.mp herr)
      split at hs
      · obtain ⟨-, rfl⟩ : _ = err ∧ ({ s₁ with disk } : Mounted Disk Cache) = s' := by
          simpa using hs
        exact hkept
      · -- the node of the new directory
        rename_i m c halloc
        obtain ⟨-, rfl⟩ : _ = err ∧ ({ s₁ with disk, cache := c } : Mounted Disk Cache) = s' := by
          simpa using hs
        refine hkept.alloc L hinv.balanced.root_refs halloc
          (fun hm => .own hm hown fun _ => ⟨_, hmem⟩) ?_
        intro k y hy hkey
        apply L.find_none hnone hy
        · rw [DirEntry.named_iff, ← hkey.1]
          exact DirEntry.named_iff.mp hname
        · rw [← hkey.2]
          exact T.place hmem
    · obtain ⟨-, rfl⟩ : _ = err ∧ s₁ = s' := by simpa using hs
      exact hinv.cache
  split at hs
  · obtain ⟨-, rfl⟩ : _ = err ∧ s₁ = s' := by simpa using hs
    exact hinv.cache
  · obtain ⟨-, rfl⟩ : _ = err ∧ s₁ = s' := by simpa using hs
    exact hinv.cache

/-! ### The ways through `fatfs_rmdir` -/

/-- The nodes after a successful `fatfs_rmdir` of the node `n`: it is freed, and those for `"."`
    and `".."` in it. -/
def Mounted.cleared (N : NodeCache Cache) (s : Mounted Disk Cache) (n : Nat) (c : BitVec 32) :
    Mounted Disk Cache :=
  let s := (s.freeNamed N dot c).freeNamed N dotdot c
  { s with cache := N.free s.cache n }

/-- `fatfs_rmdir` either leaves the nodes alone, or removes the directory and clears its nodes. -/
theorem rmdirNode_cases (hx : s.node N n = some x)
    (hs : s.rmdirNode D N n = some (err, s')) :
    (err ≠ .ENOERR ∧ (s' = s ∨ x.dentry.isDir = true ∧
      ∃ disk, D.deleteFile s.disk x.dentry = (err, disk) ∧ s' = { s with disk })) ∨
    (err = .ENOERR ∧ x.dentry.isDir = true ∧ x.refcnt = 0 ∧
      ∃ disk, D.deleteFile s.disk x.dentry = (.ENOERR, disk) ∧
        s' = { s with disk }.cleared N n x.dentry.cluster) := by
  obtain ⟨y, hy, hs⟩ := Option.bind_eq_some_iff.mp hs
  rw [hx] at hy
  cases hy
  split at hs
  · obtain ⟨rfl, rfl⟩ : .EPERM = err ∧ s = s' := by simpa using hs
    exact Or.inl ⟨nofun, Or.inl rfl⟩
  rename_i hdir
  split at hs
  · obtain ⟨rfl, rfl⟩ : .EBUSY = err ∧ s = s' := by simpa using hs
    exact Or.inl ⟨nofun, Or.inl rfl⟩
  rename_i hbusy
  rcases hdelete : D.deleteFile s.disk x.dentry with ⟨err₁, disk⟩
  simp only [hdelete] at hs
  split at hs
  · rename_i herr
    obtain ⟨rfl, rfl⟩ : err₁ = err ∧ ({ s with disk } : Mounted Disk Cache) = s' := by
      simpa using hs
    exact Or.inl ⟨herr, Or.inr ⟨by simpa using hdir, disk, rfl, rfl⟩⟩
  · rename_i herr
    obtain rfl : err₁ = .ENOERR := Decidable.not_not.mp herr
    obtain ⟨rfl, rfl⟩ : .ENOERR = err ∧ ({ s with disk } : Mounted Disk Cache).cleared N n
        x.dentry.cluster = s' := by simpa [Mounted.cleared] using hs
    exact Or.inr ⟨rfl, by simpa using hdir, by omega, disk, rfl, rfl⟩

/-- What `fatfs_rmdir` does after its lookup: a refusal, or a removal with the nodes cleared. -/
theorem rmdir_cases (hs : s.rmdir D N fuel dir name = some (err, s')) :
    ∃ err₁ s₁ ds, s.find D N fuel dir name = some (err₁, s₁, ds) ∧
      ((err₁ ≠ .ENOERR ∧ err = err₁ ∧ s' = s₁) ∨
        err₁ = .ENOERR ∧ ∃ n, ds.node = some n ∧ s₁.rmdirNode D N n = some (err, s')) := by
  obtain ⟨⟨err₁, s₁, ds⟩, hfind, hs⟩ := Option.bind_eq_some_iff.mp hs
  refine ⟨err₁, s₁, ds, hfind, ?_⟩
  dsimp only at hs
  split at hs
  · rename_i herr
    obtain ⟨rfl, rfl⟩ : err₁ = err ∧ s₁ = s' := by simpa using hs
    exact Or.inl ⟨herr, rfl, rfl⟩
  · rename_i herr
    obtain ⟨n, hn, hs⟩ := Option.bind_eq_some_iff.mp hs
    exact Or.inr ⟨Decidable.not_not.mp herr, n, hn, hs⟩

/-! ### The nodes that are cleared -/

/-- A node that is freed is one node less, and the others are what they were. -/
theorem free_thinned (L : CacheLaws N) (v : Volume Disk Cache) (n : Nat) :
    Thinned N v { v with cache := N.free v.cache n } := by
  intro m y hy
  replace hy : N.node (N.free v.cache n) m = some y := hy
  rw [L.free] at hy
  by_cases hm : m = n
  · subst hm
    rw [Function.update_self] at hy
    cases hy
  · rw [Function.update_of_ne hm] at hy
    exact ⟨y, hy, rfl⟩

/-- No node has the name `".."`, so that clearing it does nothing. -/
theorem CacheInv.find_dotdot {v : Volume Disk Cache} (h : CacheInv D N ok rootCluster v)
    (L : CacheLaws N) (c : BitVec 32) : N.find v.cache dotdot c = none := by
  cases hfind : N.find v.cache dotdot c with
  | none => rfl
  | some m =>
    exfalso
    obtain ⟨x, hx, hname, -⟩ := L.find_some hfind
    have hown := h.own_of_find (by decide) (by decide) hx hname
    exact hown.2 (eq_dotdot_of_lower (DirEntry.named_iff.mp hname))

/-- The nodes of the cleared cache: all but the node itself and the node `"."`. -/
theorem cleared_node (L : CacheLaws N) (h : CacheInv D N ok rootCluster s.toVolume)
    (c : BitVec 32) (m : Nat) :
    N.node (s.cleared N n c).cache m
      = if m = n ∨ N.find s.cache dot c = some m then none else N.node s.cache m := by
  -- no node has the name `".."`, so that the second search finds none
  have hdotdot : ∀ s₂ : Mounted Disk Cache, s₂ = s.freeNamed N dot c →
      s₂.freeNamed N dotdot c = s₂ := by
    intro s₂ hs₂
    have hinv : CacheInv D N ok rootCluster s₂.toVolume := by
      subst hs₂
      unfold Mounted.freeNamed
      split
      · exact h.thin (free_thinned L s.toVolume _) rfl rfl
      · exact h
    simp only [Mounted.freeNamed, hinv.find_dotdot L c]
  show N.node (N.free ((s.freeNamed N dot c).freeNamed N dotdot c).cache n) m = _
  rw [hdotdot _ rfl, L.free]
  by_cases hm : m = n
  · subst hm
    simp
  rw [Function.update_of_ne hm]
  unfold Mounted.freeNamed
  split
  · rename_i k hk
    show N.node (N.free s.cache k) m = _
    rw [L.free]
    by_cases hmk : m = k
    · subst hmk
      simp [hk]
    · rw [Function.update_of_ne hmk]
      have hne : ¬(m = n ∨ some k = some m) := by
        rintro (h' | h')
        · exact hm h'
        · exact hmk (Option.some.inj h').symm
      rw [hk, if_neg hne]
  · rename_i hk
    have hne : ¬(m = n ∨ (none : Option Nat) = some m) := by
      rintro (h' | h')
      · exact hm h'
      · cases h'
    rw [hk, if_neg hne]

/-! ### A removal -/

/-- The directory that is removed has a node with a name of its own. -/
theorem UseInv.removed_own (h : UseInv D N ok rootCluster nfd s) (T : DirLaws D ok rootCluster)
    (harr : Arrived D N s.toVolume n) (hx : s.node N n = some x) (hdir : x.dentry.isDir = true)
    (hzero : x.refcnt = 0) {disk : Disk}
    (hdelete : D.deleteFile s.disk x.dentry = (.ENOERR, disk)) :
    n ≠ s.root ∧ x.dentry.own ∧ ∃ dir, x.dentry ∈ D.entries s.disk dir := by
  have hn : n ≠ s.root := by
    intro heq
    have hroot := h.balanced.root_refs
    rw [← heq, refs_of_node hx, hzero] at hroot
    omega
  -- a node `"."` that a lookup of `".."` leads to belongs to a directory that is not empty
  have hown : x.dentry.own := by
    rcases harr x hx with hheld | hown | hchild
    · omega
    · exact hown
    · exact absurd hchild ((T.delete h.cache.disk hdir hdelete).2.2 rfl)
  refine ⟨hn, hown, ?_⟩
  cases h.cache.node n x hx with
  | root hroot hname hcluster => exact absurd hroot hn
  | dot hroot hname hisDir hplace hlisted => exact absurd hname hown.1
  | own hroot hown' hlisted => exact hlisted hdir

/-- Clearing the nodes changes the cache only, and does not read the disk. -/
theorem cleared_eq (s : Mounted Disk Cache) (disk : Disk) (n : Nat) (c : BitVec 32) :
    ({ s with disk } : Mounted Disk Cache).cleared N n c
      = { s with disk, cache := (s.cleared N n c).cache } := by
  have hnamed : ∀ (s : Mounted Disk Cache) name, ({ s with disk } : Mounted Disk Cache).freeNamed
      N name c = { s with disk, cache := (s.freeNamed N name c).cache } ∧
      s.freeNamed N name c = { s with cache := (s.freeNamed N name c).cache } := by
    intro s name
    unfold Mounted.freeNamed
    dsimp only
    split
    · exact ⟨rfl, rfl⟩
    · exact ⟨rfl, rfl⟩
  have hdot := hnamed s dot
  have hdotdot := hnamed (s.freeNamed N dot c) dotdot
  unfold Mounted.cleared
  dsimp only
  rw [hdot.1]
  rw [hdot.2] at hdotdot
  rw [hdotdot.1]
  rw [hdot.2]

/-- **The nodes of a directory** are the one with its own name and the one with the name `"."`. -/
theorem UseInv.node_of_cluster (h : UseInv D N ok rootCluster nfd s) (L : CacheLaws N)
    (T : DirLaws D ok rootCluster) (hx : s.node N n = some x) (hn : n ≠ s.root)
    (hown : x.dentry.own) (hdir : x.dentry.isDir = true) {place : DirEntry}
    (he : x.dentry ∈ D.entries s.disk place) {m : Nat} {y : FatNode}
    (hy : s.node N m = some y) (hdir' : y.dentry.isDir = true)
    (hc : y.dentry.cluster = x.dentry.cluster) :
    m = n ∨ N.find s.cache dot x.dentry.cluster = some m := by
  cases h.cache.node m y hy with
  -- the root directory is not listed in any directory
  | root hm hname hcluster =>
    exfalso
    apply T.top h.cache.disk
    exact ⟨place, x.dentry, he, hown, hdir, by rw [← hc, hcluster]⟩
  | dot hm hname hisDir hplace hlisted =>
    right
    have hkey : y.dentry.parentCluster = x.dentry.cluster := hplace.trans hc
    cases hfind : N.find s.cache dot x.dentry.cluster with
    | none =>
      have hnamed : y.dentry.named dot = true := by
        rw [DirEntry.named_iff, hname]
      exact absurd hkey (L.find_none hfind hy hnamed)
    | some k =>
      obtain ⟨z, hz, hnamed, hplace'⟩ := L.find_some hfind
      -- the root directory has no name
      have hk : k ≠ s.root := by
        intro hroot
        cases h.cache.node k z hz with
        | root hkr hempty hcluster =>
          have hlower := DirEntry.named_iff.mp hnamed
          rw [hempty] at hlower
          cases hlower
        | dot hkr hfile hisDir hself hl => exact hkr hroot
        | own hkr hz' hl => exact hkr hroot
      have hsame : SameKey y.dentry z.dentry := by
        refine ⟨?_, hkey.trans hplace'.symm⟩
        rw [hname]
        exact (DirEntry.named_iff.mp hnamed).symm
      rw [h.cache.keys m k y z hy hz hm hk hsame]
  | own hm hown' hlisted =>
    -- two entries of their own for one cluster are one
    left
    obtain ⟨place', he'⟩ := hlisted hdir'
    obtain ⟨hfile, hparent⟩ := T.unique h.cache.disk he' he hown' hown hdir' hdir hc
    exact h.cache.keys m n y x hy hx hm hn ⟨by rw [hfile], hparent⟩

/-- The invariant of the cache after a removal: no node is left that is in the directory. -/
theorem UseInv.removed_cache (h : UseInv D N ok rootCluster nfd s) (L : CacheLaws N)
    (T : DirLaws D ok rootCluster) (harr : Arrived D N s.toVolume n) (hx : s.node N n = some x)
    (hdir : x.dentry.isDir = true) (hzero : x.refcnt = 0) {disk : Disk}
    (hdelete : D.deleteFile s.disk x.dentry = (.ENOERR, disk)) :
    CacheInv D N ok rootCluster
      (({ s with disk } : Mounted Disk Cache).cleared N n x.dentry.cluster).toVolume := by
  obtain ⟨hn, hown, place, he⟩ := h.removed_own T harr hx hdir hzero hdelete
  obtain ⟨hok, hkeep, -⟩ := T.delete h.cache.disk hdir hdelete
  have hcleared := cleared_node (n := n) L h.cache x.dentry.cluster
  -- what is left in the cache does not belong to the directory
  have hother : ∀ m y, N.node (s.cleared N n x.dentry.cluster).cache m = some y →
      N.node s.cache m = some y ∧
        (y.dentry.isDir = true → y.dentry.cluster ≠ x.dentry.cluster) := by
    intro m y hy
    rw [hcleared] at hy
    split at hy
    · cases hy
    · rename_i hnot
      refine ⟨hy, fun hdir' hc => ?_⟩
      exact hnot (h.node_of_cluster L T hx hn hown hdir he hy hdir' hc)
  have hthinned : Thinned N s.toVolume ⟨s.disk, (s.cleared N n x.dentry.cluster).cache, s.root⟩ :=
    fun m y hy => ⟨y, (hother m y hy).1, rfl⟩
  rw [cleared_eq]
  refine (h.cache.thin hthinned rfl rfl).change hok ?_ ?_
  · intro m y dir hy hown' hdir' hmem
    exact ⟨dir, hkeep dir _ hmem hown' hdir' fun _ => (hother m y hy).2 hdir'⟩
  · -- a directory that has a node `"."` is not the one that was removed
    intro m y hy hfile hlisted
    obtain ⟨dir, z, hz, hzown, hzdir, hzc⟩ := hlisted
    obtain ⟨hy', -⟩ := hother m y hy
    refine ⟨dir, z, hkeep dir z hz hzown hzdir fun _ hc => ?_, hzown, hzdir, hzc⟩
    have hyc : y.dentry.cluster = x.dentry.cluster := by rw [← hzc, hc]
    cases h.cache.node m y hy' with
    | root hm hname hcluster =>
      rw [hname] at hfile
      cases hfile
    | dot hm hname hisDir hplace hl => exact (hother m y hy).2 hisDir hyc
    | own hm hown' hl => exact hown'.1 hfile

/-- A removal with the node `"."` unheld changes no count, so that the account stays balanced. -/
theorem UseInv.removed_ledger (h : UseInv D N ok rootCluster nfd s) (L : CacheLaws N)
    (hx : s.node N n = some x) (hzero : x.refcnt = 0) (hfree : DotFree N s x.dentry.cluster)
    (disk : Disk) :
    (({ s with disk } : Mounted Disk Cache).cleared N n x.dentry.cluster).ledger N
      = s.ledger N := by
  rw [cleared_eq]
  have hrefs : N.refs (s.cleared N n x.dentry.cluster).cache = N.refs s.cache := by
    ext m
    have hm := cleared_node (n := n) L h.cache x.dentry.cluster m
    unfold NodeCache.refs
    rw [hm]
    split
    · rename_i hcase
      rcases hcase with heq | hdot
      · have hx' : N.node s.cache n = some x := hx
        rw [heq, hx']
        exact hzero.symm
      · exact (hfree m hdot).symm
    · rfl
  show Ledger.mk (N.refs (s.cleared N n x.dentry.cluster).cache) _ _ _ _ _ _ = _
  rw [hrefs]
  rfl

/-- **The removal of a directory** is proper exactly when nobody holds its node `"."`. -/
theorem UseInv.removed (h : UseInv D N ok rootCluster nfd s) (L : CacheLaws N)
    (T : DirLaws D ok rootCluster) (harr : Arrived D N s.toVolume n) (hx : s.node N n = some x)
    (hdir : x.dentry.isDir = true) (hzero : x.refcnt = 0) {disk : Disk}
    (hdelete : D.deleteFile s.disk x.dentry = (.ENOERR, disk)) :
    RemovedUnused N s x.dentry.cluster
      (({ s with disk } : Mounted Disk Cache).cleared N n x.dentry.cluster) ↔
      DotFree N s x.dentry.cluster := by
  obtain ⟨hn, hown, place, he⟩ := h.removed_own T harr hx hdir hzero hdelete
  have hcleared := cleared_node (n := n) L h.cache x.dentry.cluster
  rw [cleared_eq]
  constructor
  · -- a node `"."` with references would be freed
    intro hproper m hm
    by_contra hpos
    have hcached := hproper.kept m (by omega)
    unfold Volume.cached at hcached
    dsimp only at hcached
    rw [hcleared, if_pos (Or.inr hm)] at hcached
    cases hcached
  · intro hfree
    refine ⟨?_, fun m hpos => ?_⟩
    · rintro ⟨m, y, hheld, hy, hdir', hc⟩
      have hpos : 0 < N.refs s.cache m := by
        rcases hheld with hfile | hcwd
        · exact h.balanced.file_refs hfile
        · exact h.balanced.cwd_refs hcwd
      rcases h.node_of_cluster L T hx hn hown hdir he hy hdir' hc with heq | hdot
      · subst heq
        rw [refs_of_node hx, hzero] at hpos
        omega
      · rw [hfree m hdot] at hpos
        omega
    · have hkeep : ¬(m = n ∨ N.find s.cache dot x.dentry.cluster = some m) := by
        rintro (heq | hdot)
        · subst heq
          rw [refs_of_node hx, hzero] at hpos
          omega
        · rw [hfree m hdot] at hpos
          omega
      have hcached : s.cached N m := cached_of_refs hpos
      unfold Volume.cached at hcached ⊢
      dsimp only
      rw [hcleared, if_neg hkeep]
      exact hcached

/-! ### Runs -/

/-- The calls that work on directories, which are those of the runs here. -/
def DirCall.onDirectories : DirCall → Bool
  | .mkdir _ _ | .chdir _ _ | .leave _ | .opendir _ _ | .close _ | .rmdir _ _ => true
  | _ => false

/-- A call of `fatfs_rmdir` that removes a directory finds one whose node `"."` nobody holds. -/
def SparesDot (D : DirSupport Disk) (N : NodeCache Cache) (fuel : Nat) (s : Mounted Disk Cache)
    (a : DirCall × Err) : Prop :=
  ∀ dir name, a = (.rmdir dir name, .ENOERR) → ∀ s₁ n x,
    s.rmdirTarget D N fuel dir name = some (s₁, n, x) → DotFree N s₁ x.dentry.cluster

/-- A disk that has just been mounted, with a tree of directories; the only cached node is the
    one of the root directory. -/
structure Mounted.FreshTree (N : NodeCache Cache) (ok : Disk → Prop) (rootCluster : BitVec 32)
    (nfd : Nat) (s : Mounted Disk Cache) : Prop where
  fresh : s.Fresh N nfd
  disk : ok s.disk
  node : ∀ n x, N.node s.cache n = some x →
    n = s.root ∧ x.dentry.filename = [] ∧ x.dentry.cluster = rootCluster

/-- The calls on a mounted disk with a tree of directories. -/
def treeSystem (D : DirSupport Disk) (N : NodeCache Cache) (cfg : FatConfig) (fuel : Nat)
    (ok : Disk → Prop) (rootCluster : BitVec 32) : LTS (Mounted Disk Cache) (DirCall × Err) where
  init s := s.FreshTree N ok rootCluster cfg.nfd
  step s a s' := dirCall D N cfg fuel s a.1 = some (a.2, s')

/-- The invariant holds when the disk was just mounted, with the root as its only node. -/
theorem Mounted.FreshTree.inv (h : s.FreshTree N ok rootCluster nfd) :
    UseInv D N ok rootCluster nfd s := by
  refine ⟨h.fresh.balanced, h.disk, fun n x hx => ?_, fun n m x y hx _ hn => ?_⟩
  · obtain ⟨hn, hname, hcluster⟩ := h.node n x hx
    exact .root hn hname hcluster
  · exact absurd (h.node n x hx).1 hn

/-- What a lookup found, for a removal, in terms of the state before the call. -/
theorem rmdirTarget_eq (hfind : s.find D N fuel dir name = some (.ENOERR, s₁, ds))
    (hn : ds.node = some n) (hx : s₁.node N n = some x) :
    s.rmdirTarget D N fuel dir name = some (s₁, n, x) := by
  unfold Mounted.rmdirTarget
  rw [hfind]
  show (ds.node >>= fun n => s₁.node N n >>= fun x => some (s₁, n, x)) = _
  rw [hn]
  show (s₁.node N n >>= fun x => some (s₁, n, x)) = _
  rw [hx]
  rfl

/-- `fatfs_rmdir` keeps the invariant, when nobody holds the node `"."` of what it removes. -/
theorem UseInv.rmdir (h : UseInv D N ok rootCluster nfd s) (L : CacheLaws N)
    (T : DirLaws D ok rootCluster) (hdir : s.holds dir = true)
    (hspare : SparesDot D N fuel s (.rmdir dir name, err))
    (hs : s.rmdir D N fuel dir name = some (err, s')) : UseInv D N ok rootCluster nfd s' := by
  obtain ⟨err₁, s₁, ds, hfind, ⟨-, -, rfl⟩ | ⟨rfl, n, hn, hrm⟩⟩ := rmdir_cases hs
  · exact (h.find L T hdir hfind).1
  obtain ⟨hinv, hend, -⟩ := h.find L T hdir hfind
  obtain ⟨x, hx, -⟩ := Option.bind_eq_some_iff.mp hrm
  rcases rmdirNode_cases hx hrm with
    ⟨herr, rfl | ⟨hisDir, disk, hdelete, rfl⟩⟩ | ⟨rfl, hisDir, hzero, disk, hdelete, rfl⟩
  · exact hinv
  · obtain ⟨hok, hkeep, -⟩ := T.delete hinv.cache.disk hisDir hdelete
    refine ⟨hinv.balanced, hinv.cache.keep hok fun dir e he hown hd => ?_⟩
    exact hkeep dir e he hown hd fun hsuccess => absurd hsuccess herr
  · have hfree := hspare dir name rfl s₁ n x (rmdirTarget_eq hfind hn hx)
    refine ⟨?_, hinv.removed_cache L T (hend.arrived rfl n hn) hx hisDir hzero hdelete⟩
    rw [hinv.removed_ledger L hx hzero hfree]
    exact hinv.balanced

/-- **Step lemma.**  Every call keeps the invariant, a removal when it spares the node `"."`. -/
theorem UseInv.step (h : UseInv D N ok rootCluster cfg.nfd s) (L : CacheLaws N)
    (T : DirLaws D ok rootCluster) {a : DirCall × Err} (ha : a.1.onDirectories = true)
    (hspare : SparesDot D N fuel s a) (hs : dirCall D N cfg fuel s a.1 = some (a.2, s')) :
    UseInv D N ok rootCluster cfg.nfd s' := by
  obtain ⟨call, err⟩ := a
  have hledger : call.isRmdir = false → (s'.ledger N).Balanced cfg.nfd :=
    fun hcall => h.balanced.step (dirCall_ledger L h.balanced hcall hs)
  unfold dirCall at hs
  split at hs
  · rename_i hallowed
    cases call with
    | mkdir dir name => exact ⟨hledger rfl, h.mkdir L T hallowed hs⟩
    | chdir dir name => exact ⟨hledger rfl, h.chdir L T hallowed hs⟩
    | leave n => exact ⟨hledger rfl, h.chdirLeave L hs⟩
    | opendir dir name => exact ⟨hledger rfl, h.opendir L T hallowed hs⟩
    | close d => exact ⟨hledger rfl, h.foClose L T hs⟩
    | rmdir dir name => exact h.rmdir L T hallowed hspare hs
    | _ => cases ha
  · cases hs

/-- **Run lemma.**  The invariant holds along every run whose removals spare the node `"."`. -/
theorem useInv_run (L : CacheLaws N) (T : DirLaws D ok rootCluster) {as : List (DirCall × Err)}
    (h : ((treeSystem D N cfg fuel ok rootCluster).restrict (SparesDot D N fuel)).Run as s)
    (has : ∀ a ∈ as, a.1.onDirectories = true) : UseInv D N ok rootCluster cfg.nfd s := by
  refine h.invariant_trace (I := fun as s => (∀ a ∈ as, a.1.onDirectories = true) →
    UseInv D N ok rootCluster cfg.nfd s) (fun s hs _ => Mounted.FreshTree.inv hs) ?_ has
  rintro as s a s' - ih ⟨hs, hspare⟩ hall
  have hinv := ih fun b hb => hall b (List.mem_append_left _ hb)
  exact hinv.step L T (hall a (List.mem_append_right _ List.mem_cons_self)) hspare hs

/-- **No directory in use is removed**, as long as every `fatfs_rmdir` that removes one finds a
    directory whose node `"."` nobody holds: after every such run, a call that removes a directory
    is proper exactly when it finds one as well. -/
theorem directory_in_use (L : CacheLaws N) (T : DirLaws D ok rootCluster)
    {as : List (DirCall × Err)}
    (h : ((treeSystem D N cfg fuel ok rootCluster).restrict (SparesDot D N fuel)).Run as s)
    (has : ∀ a ∈ as, a.1.onDirectories = true)
    (hs : dirCall D N cfg fuel s (.rmdir dir name) = some (.ENOERR, s')) :
    ∃ s₁ n x, s.rmdirTarget D N fuel dir name = some (s₁, n, x) ∧
      (RemovedUnused N s x.dentry.cluster s' ↔ DotFree N s₁ x.dentry.cluster) := by
  have hinv := useInv_run L T h has
  unfold dirCall at hs
  split at hs
  swap
  · cases hs
  rename_i hallowed
  obtain ⟨err₁, s₁, ds, hfind, ⟨hne, heq, -⟩ | ⟨rfl, n, hn, hrm⟩⟩ := rmdir_cases hs
  · exact absurd heq.symm hne
  obtain ⟨hinv₁, hend, hkept, hfiles, hfd, hcwd⟩ := hinv.find L T hallowed hfind
  obtain ⟨x, hx, -⟩ := Option.bind_eq_some_iff.mp hrm
  refine ⟨s₁, n, x, rmdirTarget_eq hfind hn hx, ?_⟩
  rcases rmdirNode_cases hx hrm with ⟨herr, -⟩ | ⟨-, hisDir, hzero, disk, hdelete, rfl⟩
  · exact absurd rfl herr
  rw [← hinv₁.removed L T (hend.arrived rfl n hn) hx hisDir hzero hdelete]
  -- the lookup keeps what is held
  have hheld : ∀ m y, (m ∈ s.files.map s.fdNode ∨ m ∈ s.cwd) →
      (s.node N m = some y ↔ s₁.node N m = some y) := by
    intro m y hm
    have hpos : 0 < N.refs s.cache m := by
      rcases hm with hfile | hc
      · exact hinv.balanced.file_refs hfile
      · exact hinv.balanced.cwd_refs hc
    obtain ⟨z, hz⟩ := Option.isSome_iff_exists.mp (cached_of_refs (v := s.toVolume) hpos)
    rw [refs_of_node hz] at hpos
    have hz₁ : s₁.node N m = some z := hkept.node m z hz hpos
    have hz₀ : s.node N m = some z := hz
    rw [hz₀, hz₁]
  constructor
  · intro hproper
    refine ⟨fun huse => hproper.unused ?_, fun m hm => hproper.kept m ?_⟩
    swap
    · rw [← hkept.refs]
      exact hm
    obtain ⟨m, y, hm, hy, hd, hc⟩ := huse
    rw [hfiles, hfd, hcwd] at hm
    exact ⟨m, y, hm, (hheld m y hm).mpr hy, hd, hc⟩
  · intro hproper
    refine ⟨fun huse => hproper.unused ?_, fun m hm => hproper.kept m ?_⟩
    swap
    · rw [hkept.refs]
      exact hm
    obtain ⟨m, y, hm, hy, hd, hc⟩ := huse
    refine ⟨m, y, ?_, (hheld m y hm).mp hy, hd, hc⟩
    rw [hfiles, hfd, hcwd]
    exact hm

/-- A disk without directories. -/
def noDirectory : MemDisk := ⟨[], 1⟩

/-- The disk without directories is just mounted. -/
theorem mounted_freshTree (nfd : Nat) :
    (mounted noDirectory nfd).FreshTree tableCache MemDisk.Tree 0 nfd := by
  refine ⟨mounted_fresh noDirectory nfd, ⟨nofun, nofun, nofun, nofun, Nat.one_pos⟩, ?_⟩
  intro n x hx
  have hnode : (([some ⟨rootEntry, 1⟩] : NodeTable)[n]?).join = some x := hx
  cases n with
  | zero =>
    cases hnode
    exact ⟨rfl, rfl, rfl⟩
  | succ n => cases hnode

/-- A directory that was made and that nobody uses is removed as it should be. -/
theorem directory_in_use_made : ∃ s s' : Mounted MemDisk NodeTable,
    dirCall memDirs tableCache ⟨true, 2⟩ 5 (mounted noDirectory 2) (.mkdir none [97])
      = some (.ENOERR, s) ∧
    dirCall memDirs tableCache ⟨true, 2⟩ 5 s (.rmdir none [97]) = some (.ENOERR, s') ∧
    RemovedUnused tableCache s 1 s' := by
  obtain ⟨s, s', s₁, n, x, hmk, hrm, htarget, hcluster, hfind⟩ :
      ∃ s s' s₁ n x, dirCall memDirs tableCache ⟨true, 2⟩ 5 (mounted noDirectory 2)
          (.mkdir none [97]) = some (.ENOERR, s) ∧
        dirCall memDirs tableCache ⟨true, 2⟩ 5 s (.rmdir none [97]) = some (.ENOERR, s') ∧
        s.rmdirTarget memDirs tableCache 5 none [97] = some (s₁, n, x) ∧
        x.dentry.cluster = 1 ∧ tableCache.find s₁.cache dot 1 = none :=
    ⟨_, _, _, _, _, rfl, rfl, rfl, rfl, rfl⟩
  have hrun : ((treeSystem memDirs tableCache ⟨true, 2⟩ 5 MemDisk.Tree 0).restrict
      (SparesDot memDirs tableCache 5)).Run [(.mkdir none [97], .ENOERR)] s :=
    LTS.Run.step (.init (mounted_freshTree 2)) ⟨hmk, nofun⟩
  obtain ⟨s₂, m, y, htarget', hiff⟩ :=
    directory_in_use tableCache_laws memDirs_laws hrun (by decide) hrm
  obtain ⟨rfl, rfl, rfl⟩ : s₁ = s₂ ∧ n = m ∧ x = y := by simpa [htarget] using htarget'
  rw [hcluster] at hiff
  refine ⟨s, s', hmk, hrm, hiff.mpr fun k hk => ?_⟩
  rw [hfind] at hk
  cases hk

/-- **A directory in use is removed.**  After `mkdir a`, `mkdir a/b` and `chdir a/b/..` the
    directory `a` is held by its node `"."`; `rmdir a/b` and `rmdir a` succeed nevertheless. -/
theorem directory_in_use_removed : ¬∀ (as : List (DirCall × Err)) (s s' : Mounted MemDisk NodeTable)
    (dir : Option Nat) (name : List UInt8),
    (treeSystem memDirs tableCache ⟨true, 2⟩ 5 MemDisk.Tree 0).Run as s →
    (∀ a ∈ as, a.1.onDirectories = true) →
    dirCall memDirs tableCache ⟨true, 2⟩ 5 s (.rmdir dir name) = some (.ENOERR, s') →
    ∃ s₁ n x, s.rmdirTarget memDirs tableCache 5 dir name = some (s₁, n, x) ∧
      RemovedUnused tableCache s x.dentry.cluster s' := by
  intro hall
  let calls : List DirCall := [.mkdir none [97], .mkdir none [97, 47, 98],
    .chdir none [97, 47, 98, 47, 46, 46], .rmdir none [97, 47, 98]]
  obtain ⟨s, s', hex, hrm, hrefs, hgone⟩ : ∃ s s',
      LTS.exec (dirCall memDirs tableCache ⟨true, 2⟩ 5) calls (mounted noDirectory 2)
        = some ([.ENOERR, .ENOERR, .ENOERR, .ENOERR], s) ∧
      dirCall memDirs tableCache ⟨true, 2⟩ 5 s (.rmdir none [97]) = some (.ENOERR, s') ∧
      tableCache.refs s.cache 3 = 1 ∧ tableCache.node s'.cache 3 = none :=
    ⟨_, _, rfl, rfl, rfl, rfl⟩
  have hrun := LTS.Run.of_exec (N := treeSystem memDirs tableCache ⟨true, 2⟩ 5 MemDisk.Tree 0)
    (fun _ _ _ _ hs => hs) (.init (mounted_freshTree 2)) hex
  obtain ⟨s₂, m, y, -, hproper⟩ := hall _ s s' none [97] hrun (by decide) hrm
  -- the node that was given out is freed
  have hcached := hproper.kept 3 (by rw [hrefs]; exact Nat.one_pos)
  unfold Volume.cached at hcached
  rw [hgone] at hcached
  cases hcached

end Ecos.Fat
