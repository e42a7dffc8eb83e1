import Ecos.Fat.Memory

namespace Ecos.Fat

/-!
# A FAT open that fails

What `fatfs_open` leaves behind when it returns an error: it creates and truncates before the
checks that may still refuse the file.

* `FileLaws` — what is known of the creation and the truncation of files;
* `Mounted.accepts` — the checks at the end of the open;
* `openFile_cases` — the open of a node;
* `OpensSafely` — when an open that fails has changed nothing: a condition on what it creates and
  truncates;
* `failed_open` — it is exactly then.
-/

variable {Disk Cache : Type} (D : DirSupport Disk) (N : NodeCache Cache) (cfg : FatConfig)

/-- What is known of `fatfs_create_file` and `fatfs_trunc_file`. -/
structure FileLaws : Prop where
  /-- A creation that fails leaves the disk alone. -/
  create_error : ∀ {d dir name err d' e}, D.createFile d dir name = (err, d', e) →
    err ≠ .ENOERR → d' = d
  /-- A created file has an entry more in the directory. -/
  create : ∀ {d dir name d' e}, D.createFile d dir name = (.ENOERR, d', e) →
    (D.entries d' dir).length = (D.entries d dir).length + 1
  /-- A truncation adds and removes no entry. -/
  trunc : ∀ d e dir, (D.entries (D.truncFile d e).1 dir).length = (D.entries d dir).length
  /-- It leaves the kind of the file as it is. -/
  kind : ∀ d e, (D.truncFile d e).2.isDir = e.isDir ∧ (D.truncFile d e).2.rdOnly = e.rdOnly

namespace Mounted

/-- What the end of `fatfs_open` asks for: no directory, no file that is read-only if it is to be
    written, and a free descriptor. -/
def accepts (s : Mounted Disk Cache) (e : Dentry) (mode : OpenMode) : Prop :=
  e.isDir = false ∧ ¬(cfg.useAttributes = true ∧ e.rdOnly = true ∧ mode.wronly = true) ∧
    0 < s.freeCnt

/-- The state in which `fatfs_open` checks the node `n`, whose entry was `e`. -/
def cleaned (s : Mounted Disk Cache) (mode : OpenMode) (n : Nat) (e : DirEntry) :
    Mounted Disk Cache :=
  if mode.trunc then
    { s with
      disk := (D.truncFile s.disk e).1
      cache := N.store s.cache n (D.truncFile s.disk e).2 }
  else s

end Mounted

/-- **When a failing open changes nothing.**  A file that it creates gets a node and is accepted;
    and so is a file with data that it truncates. -/
structure OpensSafely (s : Mounted Disk Cache) (err : Err) (ds : DirSearch) (mode : OpenMode) :
    Prop where
  created : err = .ENOENT → ds.last = true → mode.creat = true → ∀ x d e,
    s.node N ds.dir = some x → D.createFile s.disk x.dentry ds.component = (.ENOERR, d, e) →
    (N.alloc s.cache e).isSome = true ∧ s.accepts cfg e.toDentry mode
  truncated : err = .ENOERR → ¬(mode.creat = true ∧ mode.excl = true) → mode.trunc = true →
    ∀ n x, ds.node = some n → s.node N n = some x →
    D.truncFile s.disk x.dentry ≠ (s.disk, x.dentry.toDentry) →
    s.accepts cfg x.dentry.toDentry mode

variable {D} {N} {cfg} {s s' s₁ : Mounted Disk Cache} {err : Err} {fuel n : Nat}
  {dir : Option Nat} {name : List UInt8} {mode : OpenMode} {ds : DirSearch} {x : FatNode}

/-! ### The open of a node -/

/-- No node is taken away when nothing happens. -/
theorem Thinned.refl (v : Volume Disk Cache) : Thinned N v v := fun _ y hy => ⟨y, hy, rfl⟩

/-- The node that is checked is of the kind that it was, also after the truncation. -/
theorem cleaned_node (L : CacheLaws N) (F : FileLaws D) (hx : s.node N n = some x) :
    ∃ y, (s.cleaned D N mode n x.dentry).node N n = some y ∧
      y.dentry.isDir = x.dentry.isDir ∧ y.dentry.rdOnly = x.dentry.rdOnly := by
  unfold Mounted.cleaned
  split
  · obtain ⟨hdir, hro⟩ := F.kind s.disk x.dentry
    refine ⟨{ x with dentry := { x.dentry with toDentry := (D.truncFile s.disk x.dentry).2 } }, ?_,
      hdir, hro⟩
    show N.node (N.store s.cache n _) n = some _
    rw [L.store _ hx, Function.update_self]
  · exact ⟨x, hx, rfl, rfl⟩

/-- The open of a node: it is accepted, or refused after the truncation. -/
theorem openFile_cases (L : CacheLaws N) (F : FileLaws D) (hx : s.node N n = some x)
    (h : s.openFile D N cfg mode n = some (err, s')) :
    s.accepts cfg x.dentry.toDentry mode ∧ err = .ENOERR ∨
      ¬s.accepts cfg x.dentry.toDentry mode ∧ err ≠ .ENOERR ∧
        s' = s.cleaned D N mode n x.dentry := by
  obtain ⟨y, hy, hdir, hro⟩ : ∃ y, (s.cleaned D N mode n x.dentry).node N n = some y ∧ _ :=
    cleaned_node L F hx
  -- a truncation takes no descriptor
  have hcnt : (s.cleaned D N mode n x.dentry).freeCnt = s.freeCnt := by
    unfold Mounted.cleaned
    split <;> rfl
  have hopen : s.openFile D N cfg mode n =
      if y.dentry.isDir = true then some (.EISDIR, s.cleaned D N mode n x.dentry)
      else if cfg.useAttributes = true ∧ y.dentry.rdOnly = true ∧ mode.wronly = true then
        some (.EACCES, s.cleaned D N mode n x.dentry)
      else (s.cleaned D N mode n x.dentry).openNode N n := by
    simp only [Mounted.openFile, hx, Option.bind_eq_bind, Option.bind_some]
    show (Mounted.node N (s.cleaned D N mode n x.dentry) n).bind _ = _
    rw [hy]
    rfl
  rw [hopen, hdir, hro] at h
  -- the checks in the order of the code: directory, read-only, descriptor
  unfold Mounted.accepts
  split at h
  · rename_i hisDir
    cases h
    exact Or.inr ⟨fun hacc => absurd (hisDir.symm.trans hacc.1) nofun, nofun, rfl⟩
  split at h
  · rename_i hwrite
    cases h
    exact Or.inr ⟨fun hacc => hacc.2.1 hwrite, nofun, rfl⟩
  rename_i hisDir hwrite
  unfold Mounted.openNode Mounted.allocFd at h
  rw [hcnt] at h
  by_cases hfree : 0 < s.freeCnt
  · rw [if_pos hfree] at h
    obtain ⟨s₂, -, h⟩ := Option.bind_eq_some_iff.mp h
    cases h
    exact Or.inl ⟨⟨by simpa using hisDir, hwrite, hfree⟩, rfl⟩
  · rw [if_neg hfree] at h
    cases h
    exact Or.inr ⟨fun hacc => hfree hacc.2.2, nofun, rfl⟩

/-- A truncation leaves everything alone if it has nothing to do. -/
theorem cleaned_same (L : CacheLaws N) (hx : s.node N n = some x) :
    ((s.cleaned D N mode n x.dentry).disk = s.disk ∧
        Thinned N s.toVolume (s.cleaned D N mode n x.dentry).toVolume) ↔
      (mode.trunc = true → D.truncFile s.disk x.dentry = (s.disk, x.dentry.toDentry)) := by
  unfold Mounted.cleaned
  split
  · rename_i htrunc
    have hnode := L.store (D.truncFile s.disk x.dentry).2 hx
    rw [htrunc]
    constructor
    -- the node that was stored is still there, and the same
    · rintro ⟨hdisk, hthin⟩ -
      obtain ⟨y, hy, heq⟩ := hthin n _ (by
        show N.node (N.store s.cache n _) n = some _
        rw [hnode, Function.update_self])
      have hyx : y = x := Option.some.inj (hy.symm.trans hx)
      rw [hyx] at heq
      exact Prod.ext hdisk (congrArg DirEntry.toDentry heq)
    · intro hsame
      have hentry := hsame rfl
      refine ⟨congrArg Prod.fst hentry, fun m y hy => ?_⟩
      replace hy : N.node (N.store s.cache n (D.truncFile s.disk x.dentry).2) m = some y := hy
      rw [hnode] at hy
      by_cases hm : m = n
      · subst hm
        rw [Function.update_self] at hy
        refine ⟨x, hx, ?_⟩
        rw [← Option.some.inj hy, hentry]
      · rw [Function.update_of_ne hm] at hy
        exact ⟨y, hy, rfl⟩
  · rename_i htrunc
    exact ⟨fun _ h => absurd h htrunc, fun _ => ⟨rfl, Thinned.refl _⟩⟩

/-! ### The open of a path -/

/-- What a failing open must leave alone: the disk, and the entries of the nodes. -/
def Mounted.Undisturbed (N : NodeCache Cache) (s s' : Mounted Disk Cache) : Prop :=
  s'.disk = s.disk ∧ Thinned N s.toVolume s'.toVolume

/-- A file that was created and refused is still there, since nothing removes it again. -/
theorem created_remains (F : FileLaws D) {e dir : DirEntry} {d : Disk} {c : Cache}
    (hcreate : D.createFile s₁.disk dir name = (.ENOERR, d, e))
    (hs : s = { s₁ with disk := d, cache := c }) :
    (s.cleaned D N mode n e).disk ≠ s₁.disk := by
  intro hdisk
  have hmore := F.create hcreate
  have hsame : (D.entries (s.cleaned D N mode n e).disk dir).length = (D.entries d dir).length := by
    subst hs
    unfold Mounted.cleaned
    split
    · exact F.trunc d e dir
    · rfl
  rw [hdisk] at hsame
  omega

/-- An open that creates a file: what it does with the entry before it checks the mode. -/
theorem fatfsOpen_create {err' : Err} {d : Disk} {e : DirEntry}
    (hfind : s.find D N fuel dir name = some (.ENOENT, s₁, ds))
    (hcreat : ds.last = true ∧ mode.creat = true) (hx : s₁.node N ds.dir = some x)
    (hcreate : D.createFile s₁.disk x.dentry ds.component = (err', d, e)) :
    s.fatfsOpen D N cfg fuel dir name mode =
      if err' ≠ .ENOERR then some (err', { s₁ with disk := d })
      else match N.alloc s₁.cache e with
        | none => some (.EMFILE, { s₁ with disk := d })
        | some (m, c) => Mounted.openFile D N cfg { s₁ with disk := d, cache := c } mode m := by
  by_cases herr' : err' = .ENOERR
  · cases halloc : N.alloc s₁.cache e with
    | none => simp [Mounted.fatfsOpen, hfind, hcreat, hx, hcreate, herr', halloc]
    | some r => simp [Mounted.fatfsOpen, hfind, hcreat, hx, hcreate, herr', halloc]
  · simp [Mounted.fatfsOpen, hfind, hcreat, hx, hcreate, herr']

/-- The open of a path whose last component is missing, with `O_CREAT`: when a failure leaves the
    disk as it was. -/
theorem create_safely (L : CacheLaws N) (F : FileLaws D)
    (hfind : s.find D N fuel dir name = some (.ENOENT, s₁, ds))
    (hcreat : ds.last = true ∧ mode.creat = true)
    (hopen : s.fatfsOpen D N cfg fuel dir name mode = some (err, s')) :
    (err ≠ .ENOERR → s₁.Undisturbed N s') ↔ OpensSafely D N cfg s₁ .ENOENT ds mode := by
  obtain ⟨x, hx⟩ : ∃ x, s₁.node N ds.dir = some x := by
    simp only [Mounted.fatfsOpen, hfind, Option.bind_eq_bind, Option.bind_some, if_true,
      if_pos hcreat] at hopen
    obtain ⟨x, hx, -⟩ := Option.bind_eq_some_iff.mp hopen
    exact ⟨x, hx⟩
  rcases hcreate : D.createFile s₁.disk x.dentry ds.component with ⟨err', d, e⟩
  rw [fatfsOpen_create hfind hcreat hx hcreate] at hopen
  -- the condition, for this directory and this entry
  have hsafe : OpensSafely D N cfg s₁ .ENOENT ds mode ↔ (err' = .ENOERR →
      (N.alloc s₁.cache e).isSome = true ∧ s₁.accepts cfg e.toDentry mode) := by
    constructor
    · intro h herr
      exact h.created rfl hcreat.1 hcreat.2 x d e hx (by rw [hcreate, herr])
    · intro h
      refine ⟨fun _ _ _ y d' e' hy hcreate' => ?_, by rintro ⟨⟩⟩
      rw [Option.some.inj (hy.symm.trans hx), hcreate] at hcreate'
      cases hcreate'
      exact h rfl
  rw [hsafe]
  split at hopen
  · -- nothing was created
    rename_i herr'
    cases hopen
    exact ⟨fun _ h => absurd h herr', fun _ _ =>
      ⟨F.create_error hcreate herr', fun n y hy => ⟨y, hy, rfl⟩⟩⟩
  rename_i herr'
  have herr' := Decidable.not_not.mp herr'
  subst herr'
  split at hopen
  · -- no node: the file was created all the same
    rename_i halloc
    cases hopen
    rw [halloc]
    refine ⟨fun h => absurd (h (by decide)).1 ?_, fun h => absurd (h rfl).1 Bool.false_ne_true⟩
    intro hdisk
    have hmore := F.create hcreate
    rw [show d = s₁.disk from hdisk] at hmore
    omega
  · rename_i m c halloc
    rw [halloc]
    have hm : ({ s₁ with disk := d, cache := c } : Mounted Disk Cache).node N m
        = some ⟨e, 0⟩ := (L.alloc_kept (v := s₁.toVolume) halloc).2
    rcases openFile_cases L F hm hopen with ⟨hacc, herr⟩ | ⟨hacc, herr, hs'⟩
    · exact ⟨fun _ _ => ⟨rfl, hacc⟩, fun _ h => absurd herr h⟩
    · refine ⟨fun h => absurd (h herr).1 ?_, fun h => absurd (h rfl).2 hacc⟩
      rw [hs']
      exact created_remains F hcreate rfl

/-- The open of a path that leads to a node: when a failure leaves the file as it was. -/
theorem found_safely (L : CacheLaws N) (F : FileLaws D)
    (hfind : s.find D N fuel dir name = some (.ENOERR, s₁, ds))
    (hexcl : ¬(mode.creat = true ∧ mode.excl = true))
    (hopen : s.fatfsOpen D N cfg fuel dir name mode = some (err, s')) :
    (err ≠ .ENOERR → s₁.Undisturbed N s') ↔ OpensSafely D N cfg s₁ .ENOERR ds mode := by
  simp only [Mounted.fatfsOpen, hfind, Option.bind_eq_bind, Option.bind_some, reduceCtorEq,
    if_false, if_true, if_neg hexcl] at hopen
  obtain ⟨n, hn, hopen⟩ := Option.bind_eq_some_iff.mp hopen
  obtain ⟨x, hx, -⟩ := Option.bind_eq_some_iff.mp hopen
  -- the condition, for this node
  have hsafe : OpensSafely D N cfg s₁ .ENOERR ds mode ↔ (mode.trunc = true →
      D.truncFile s₁.disk x.dentry ≠ (s₁.disk, x.dentry.toDentry) →
      s₁.accepts cfg x.dentry.toDentry mode) := by
    constructor
    · intro h htrunc
      exact h.truncated rfl hexcl htrunc n x hn hx
    · intro h
      refine ⟨nofun, fun _ _ htrunc m y hm hy => ?_⟩
      rw [hn] at hm
      cases hm
      rw [Option.some.inj (hy.symm.trans hx)]
      exact h htrunc
  rw [hsafe]
  rcases openFile_cases L F hx hopen with ⟨hacc, herr⟩ | ⟨hacc, herr, hs'⟩
  · exact ⟨fun _ _ _ => hacc, fun _ h => absurd herr h⟩
  · have hsame : s₁.Undisturbed N s' ↔ (mode.trunc = true →
        D.truncFile s₁.disk x.dentry = (s₁.disk, x.dentry.toDentry)) := by
      rw [hs']
      exact cleaned_same L hx
    constructor
    · intro h htrunc hne
      exact absurd (hsame.mp (h herr) htrunc) hne
    · intro h _
      refine hsame.mpr fun htrunc => ?_
      by_contra hne
      exact hacc (h htrunc hne)

/-- **A failing open.**  `fatfs_open` returns no error, or leaves the disk and the entries of the
    nodes as they were, if and only if a file that it creates, and a file with data that it
    truncates, gets a node and is accepted. -/
theorem failed_open (L : CacheLaws N) (F : FileLaws D)
    (hopen : s.fatfsOpen D N cfg fuel dir name mode = some (err, s')) :
    ∃ err₁ s₁ ds, s.find D N fuel dir name = some (err₁, s₁, ds) ∧ s₁.disk = s.disk ∧
      ((err ≠ .ENOERR → s₁.Undisturbed N s') ↔ OpensSafely D N cfg s₁ err₁ ds mode) := by
  obtain ⟨⟨err₁, s₁, ds⟩, hfind, hrest⟩ := Option.bind_eq_some_iff.mp hopen
  refine ⟨err₁, s₁, ds, hfind, Mounted.find_disk hfind, ?_⟩
  dsimp only at hrest
  -- an open that ends behind the lookup
  have hstop : s' = s₁ → (err ≠ .ENOERR → s₁.Undisturbed N s') := by
    intro heq _
    rw [heq]
    exact ⟨rfl, Thinned.refl _⟩
  by_cases hnoent : err₁ = .ENOENT
  · subst hnoent
    by_cases hcreat : ds.last = true ∧ mode.creat = true
    · exact create_safely L F hfind hcreat hopen
    · rw [if_pos rfl, if_neg hcreat] at hrest
      cases hrest
      exact ⟨fun _ => ⟨fun _ hlast hc => absurd ⟨hlast, hc⟩ hcreat, nofun⟩, fun _ => hstop rfl⟩
  rw [if_neg hnoent] at hrest
  by_cases hok : err₁ = .ENOERR
  · subst hok
    by_cases hexcl : mode.creat = true ∧ mode.excl = true
    · rw [if_pos rfl, if_pos hexcl] at hrest
      cases hrest
      exact ⟨fun _ => ⟨nofun, fun _ h => absurd hexcl h⟩, fun _ => hstop rfl⟩
    · exact found_safely L F hfind hexcl hopen
  · rw [if_neg hok] at hrest
    cases hrest
    exact ⟨fun _ => ⟨fun h => absurd h hnoent, fun h => absurd h hok⟩, fun _ => hstop rfl⟩

/-! ### A disk in memory -/

/-- The files in memory obey the laws, so that what is assumed of the support code can be met. -/
theorem memDirs_files : FileLaws memDirs where
  create_error h hne := absurd (Prod.mk.inj h).1.symm hne
  create := by
    intro d dir name d' e h
    obtain ⟨-, rfl, -⟩ := h
    show (MemDisk.list _ dir.cluster).length = (d.list dir.cluster).length + 1
    unfold MemDisk.list MemDisk.children
    rw [List.filter_append, List.length_append, List.length_append, List.length_append]
    have hnew : (List.filter (fun e => decide (e.parentCluster = dir.cluster))
        [{ MemDisk.dirEntry dir.cluster name 0 with isDir := false }]).length = 1 := by
      simp [MemDisk.dirEntry]
    rw [hnew]
    split
    · rfl
    · rfl
  trunc _ _ _ := rfl
  kind _ _ := ⟨rfl, rfl⟩

/-- A disk with the file `"f"`, of 5 bytes. -/
def fileF : MemDisk :=
  ⟨[{ MemDisk.dirEntry 0 [102] 1 with isDir := false, size := 5 }], 2⟩

/-- The file must not exist, and is not truncated. -/
theorem failed_open_excl : ∃ s', (mounted fileF 0).fatfsOpen memDirs tableCache ⟨true, 0⟩ 5 none
    [102] ⟨true, true, true, false, true⟩ = some (.EEXIST, s') ∧ s'.disk = fileF := by
  obtain ⟨s', hopen⟩ : ∃ s', (mounted fileF 0).fatfsOpen memDirs tableCache ⟨true, 0⟩ 5 none
      [102] ⟨true, true, true, false, true⟩ = some (.EEXIST, s') := ⟨_, rfl⟩
  obtain ⟨err₁, s₁, ds, hfind, hdisk, hiff⟩ := failed_open tableCache_laws memDirs_files hopen
  have herr : err₁ = .ENOERR := by cases hfind; rfl
  refine ⟨s', hopen, ((hiff.mpr ⟨fun h => ?_, fun _ h => absurd ⟨rfl, rfl⟩ h⟩) nofun).1.trans hdisk⟩
  rw [herr] at h
  cases h

/-- Without a free descriptor, `O_CREAT` leaves a new file behind, and `O_TRUNC` an empty one. -/
theorem refused_open_changes :
    (∃ s', (mounted fileF 0).fatfsOpen memDirs tableCache ⟨true, 0⟩ 5 none [103]
        ⟨true, false, false, false, true⟩ = some (.EMFILE, s') ∧
      fileF.entries.length = 1 ∧ s'.disk.entries.length = 2) ∧
    ∃ s', (mounted fileF 0).fatfsOpen memDirs tableCache ⟨true, 0⟩ 5 none [102]
        ⟨false, false, true, false, true⟩ = some (.EMFILE, s') ∧
      (fileF.entries.map fun e => e.size) = [5] ∧
      ((s'.node tableCache 1).map fun x => x.dentry.size) = some 0 :=
  ⟨⟨_, rfl, rfl, rfl⟩, _, rfl, rfl, rfl⟩

end Ecos.Fat
