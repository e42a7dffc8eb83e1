import Ecos.Sqlite.Links
import Ecos.Fat.Memory

namespace Ecos.Sqlite

open Ecos.Lib Ecos.Posix Ecos.Fat

/-!
# Locks on a database file

Whether two connections to one file can hold a lock at a time.

* `LockInv` — the invariant: the semaphore of a name has at most one owner, and is not free while
  it has one;
* `Careful` — a file is opened under pathnames with the same semaphore's name only, and
  `semUnlock` lowers the lock;
* `sem_exclusion` — in runs whose steps are careful one connection to a file has a lock at most;
* `sem_exclusion_spelling` — a file that is opened under two spellings has two semaphores.

Which file a pathname denotes is a parameter; `fatFile` is the lookup of the FAT file system.
-/

variable {ρ : Type} {resolve : List UInt8 → Option ρ} {s s' s₀ : SqlState}
  {t t' : List UInt8 → Option NamedSem} {c d m : Nat} {f f' g : UnixFile} {call : SqlCall}
  {r : SqlRet} {x : NamedSem}

/-- Do two pathnames denote one file? How the file system resolves them is a parameter. -/
def SameFile (resolve : List UInt8 → Option ρ) (path path' : List UInt8) : Prop :=
  ∃ file, resolve path = some file ∧ resolve path' = some file

/-- Which of the two is named first does not matter. -/
theorem SameFile.symm {path path' : List UInt8} (h : SameFile resolve path path') :
    SameFile resolve path' path := by
  obtain ⟨file, hpath, hpath'⟩ := h
  exact ⟨file, hpath', hpath⟩

/-- **The invariant of the locks.**  A semaphore counts at most one, it is 0 while a connection
    owns it, and no two do. -/
structure LockInv (resolve : List UInt8 → Option ρ) (s : SqlState)
    (t : List UInt8 → Option NamedSem) : Prop where
  count : ∀ path x, t (semName (canonicalName path)) = some x → x.count ≤ 1
  owner : ∀ c f, s.files c = some f → f.owns →
    f.stage = .opened ∧ ∀ x, t f.semName = some x → x.count = 0
  one : ∀ c d f g, s.files c = some f → s.files d = some g → f.owns → g.owns →
    f.semName = g.semName → c = d
  probing : ∀ c f, s.files c = some f → f.probing = true → f.locktype = .NO_LOCK
  agree : ∀ c d f g, s.files c = some f → s.files d = some g → f.stage = .opened →
    g.stage = .opened → SameFile resolve f.path g.path → f.semName = g.semName

/-- A step that keeps a file to one semaphore: no connection is opened to a file that is open
    under another semaphore's name, and `semUnlock` does not raise the lock. -/
structure Careful (resolve : List UInt8 → Option ρ) (s : SqlState) (a : (Nat × SqlCall) × SqlRet) :
    Prop where
  spelled : ∀ lock opn buf new, a.1.2 = .openSem lock opn buf new → ∀ f, s.files a.1.1 = some f →
    ∀ d g, s.files d = some g → g.stage = .opened → SameFile resolve g.path f.path →
      g.semName = f.semName
  lowers : a.1.2 = .unlock .SHARED_LOCK → ∀ f, s.files a.1.1 = some f → f.locktype ≠ .NO_LOCK

/-- A connection that keeps its pathname keeps its semaphore's name. -/
theorem semName_eq (h : f'.path = f.path) : f'.semName = f.semName := by
  unfold UnixFile.semName
  rw [h]

/-- A connection after a step is the one that made it, or was there before. -/
theorem files_cases (hother : ∀ d, d ≠ c → s'.files d = s.files d) (hf' : s'.files c = some f')
    (hg : s'.files d = some g) : (d = c ∧ g = f') ∨ (d ≠ c ∧ s.files d = some g) := by
  by_cases hd : d = c
  · subst hd
    rw [hf'] at hg
    exact Or.inl ⟨rfl, (Option.some.inj hg).symm⟩
  · rw [hother d hd] at hg
    exact Or.inr ⟨hd, hg⟩

/-! ### The invariant under a step -/

/-- Connections that are open under a name each were open before, under the same names. -/
theorem LockInv.agree_of (h : LockInv resolve s t)
    (hold : ∀ i g', s'.files i = some g' → g'.stage = .opened →
      ∃ g, s.files i = some g ∧ g.stage = .opened ∧ g'.path = g.path)
    (c d : Nat) (f' g' : UnixFile) (hf' : s'.files c = some f') (hg' : s'.files d = some g')
    (hfstage : f'.stage = .opened) (hgstage : g'.stage = .opened)
    (hfile : SameFile resolve f'.path g'.path) : f'.semName = g'.semName := by
  obtain ⟨f, hf, hfstage, hfpath⟩ := hold c f' hf' hfstage
  obtain ⟨g, hg, hgstage, hgpath⟩ := hold d g' hg' hgstage
  rw [hfpath, hgpath] at hfile
  rw [semName_eq hfpath, semName_eq hgpath]
  exact h.agree c d f g hf hg hfstage hgstage hfile

/-- A step of an open connection opens none, so that no new owner appears by it. -/
theorem opened_before (hother : ∀ d, d ≠ c → s'.files d = s.files d) (hf : s.files c = some f)
    (hf' : s'.files c = some f') (hpath : f'.path = f.path)
    (hstage : f'.stage = .opened → f.stage = .opened) (i : Nat) (g' : UnixFile)
    (hg' : s'.files i = some g') (hopened : g'.stage = .opened) :
    ∃ g, s.files i = some g ∧ g.stage = .opened ∧ g'.path = g.path := by
  rcases files_cases hother hf' hg' with ⟨rfl, rfl⟩ | ⟨-, hg'⟩
  · exact ⟨f, hf, hstage hopened, hpath⟩
  · exact ⟨g', hg', hopened, rfl⟩

/-- No connection takes or posts a semaphore, and counts and owners stay. -/
theorem LockInv.quiet (h : LockInv resolve s t) (hother : ∀ d, d ≠ c → s'.files d = s.files d)
    (hcalm : Calm (s.files c) (s'.files c)) : LockInv resolve s' t := by
  have hall : ∀ d, Calm (s.files d) (s'.files d) := by
    intro d
    by_cases hd : d = c
    · rw [hd]
      exact hcalm
    · rw [hother d hd]
      exact fun g hg => Or.inr ⟨g, hg, rfl, id, id, fun _ => id, fun hp => ⟨hp, rfl⟩⟩
  -- an owner, or an open connection, was one before
  have howner : ∀ d g', s'.files d = some g' → g'.owns →
      ∃ g, s.files d = some g ∧ Quieter g g' := by
    intro d g' hg' howns
    exact (hall d g' hg').resolve_left fun hnot => hnot.1 howns
  have hopened : ∀ d g', s'.files d = some g' → g'.stage = .opened →
      ∃ g, s.files d = some g ∧ Quieter g g' := by
    intro d g' hg' hstage
    exact (hall d g' hg').resolve_left fun hnot => hnot.2 hstage
  refine ⟨h.count, fun d g' hg' howns => ?_, fun d e g' k' hg' hk' hgowns hkowns hname => ?_,
    fun d g' hg' hp => ?_, h.agree_of fun d g' hg' hstage => ?_⟩
  · obtain ⟨g, hg, hq⟩ := howner d g' hg' howns
    obtain ⟨hstage, hcount⟩ := h.owner d g hg (hq.owns howns)
    refine ⟨hq.stays howns hstage, ?_⟩
    rw [semName_eq hq.path]
    exact hcount
  · obtain ⟨g, hg, hq⟩ := howner d g' hg' hgowns
    obtain ⟨k, hk, hq'⟩ := howner e k' hk' hkowns
    rw [semName_eq hq.path, semName_eq hq'.path] at hname
    exact h.one d e g k hg hk (hq.owns hgowns) (hq'.owns hkowns) hname
  · obtain ⟨g, hg, hq⟩ := howner d g' hg' (Or.inr hp)
    obtain ⟨hp', hlock⟩ := hq.probing hp
    rw [hlock]
    exact h.probing d g hg hp'
  · obtain ⟨g, hg, hq⟩ := hopened d g' hg' hstage
    exact ⟨g, hg, hq.opened hstage, hq.path⟩

/-- A connection is opened, and finds the semaphore of the file, or makes it. -/
theorem LockInv.opened (h : LockInv resolve s t) (hlink : s.Linked t)
    (hother : ∀ d, d ≠ c → s'.files d = s.files d) (hf : s.files c = some f)
    (hf' : s'.files c = some f') (hopened : Opened f f')
    (ht : ∀ n x', t' n = some x' →
      (∃ x, t n = some x ∧ x'.count = x.count) ∨ (t n = none ∧ x'.count = 1))
    (hspelled : ∀ d g, s.files d = some g → g.stage = .opened → SameFile resolve g.path f.path →
      g.semName = f.semName) : LockInv resolve s' t' := by
  have hname := semName_eq hopened.path
  -- the new connection owns nothing
  have howner : ∀ d g, s'.files d = some g → g.owns → s.files d = some g := by
    intro d g hg howns
    rcases files_cases hother hf' hg with ⟨rfl, rfl⟩ | ⟨-, hg⟩
    · obtain ⟨hstage, -⟩ := h.owner d f hf (hopened.owns howns)
      rw [hopened.before] at hstage
      cases hstage
    · exact hg
  refine ⟨fun path x' hx' => ?_, fun d g hg howns => ?_, fun d e g k hg hk hgowns hkowns => ?_,
    fun d g hg hp => ?_, fun d e g k hg hk hgstage hkstage hfile => ?_⟩
  · rcases ht _ x' hx' with ⟨x, hx, hcount⟩ | ⟨-, hone⟩
    · rw [hcount]
      exact h.count path x hx
    · omega
  · obtain ⟨hstage, hcount⟩ := h.owner d g (howner d g hg howns) howns
    refine ⟨hstage, fun x' hx' => ?_⟩
    rcases ht _ x' hx' with ⟨x, hx, hsame⟩ | ⟨hnone, -⟩
    · rw [hsame]
      exact hcount x hx
    · -- an owner has a semaphore
      obtain ⟨x, -, hx⟩ := pSem_eq hlink (howner d g hg howns) hstage
      rw [hnone] at hx
      cases hx
  · exact h.one d e g k (howner d g hg hgowns) (howner e k hk hkowns) hgowns hkowns
  · exact h.probing d g (howner d g hg (Or.inr hp)) hp
  · rcases files_cases hother hf' hg with ⟨rfl, rfl⟩ | ⟨-, hg⟩
    · rcases files_cases hother hf' hk with ⟨-, rfl⟩ | ⟨-, hk⟩
      · rfl
      · rw [hopened.path] at hfile
        rw [hname]
        exact (hspelled e k hk hkstage hfile.symm).symm
    · rcases files_cases hother hf' hk with ⟨rfl, rfl⟩ | ⟨-, hk⟩
      · rw [hopened.path] at hfile
        rw [hname]
        exact hspelled d g hg hgstage hfile
      · exact h.agree d e g k hg hk hgstage hkstage hfile

/-- A connection takes its semaphore, which nobody owned, and becomes the owner. -/
theorem LockInv.taken (h : LockInv resolve s t) (hother : ∀ d, d ≠ c → s'.files d = s.files d)
    (hf : s.files c = some f) (hf' : s'.files c = some f') (htakes : Takes f f')
    (hx : t f.semName = some x) (hpos : 0 < x.count) :
    LockInv resolve s' (Function.update t f.semName (some { x with count := x.count - 1 })) := by
  have hname := semName_eq htakes.path
  have hone : x.count ≤ 1 := h.count f.path x hx
  -- nobody owns the semaphore, for its count is not 0
  have hfree : ∀ d g, s.files d = some g → g.owns → g.semName ≠ f.semName := by
    intro d g hg howns hsame
    obtain ⟨-, hcount⟩ := h.owner d g hg howns
    rw [hsame] at hcount
    have hzero := hcount x hx
    omega
  refine ⟨fun path x' hx' => ?_, fun d g hg howns => ?_,
    fun d e g k hg hk hgowns hkowns hsame => ?_, fun d g hg hp => ?_,
    h.agree_of (opened_before hother hf hf' htakes.path fun _ => htakes.before)⟩
  · by_cases hn : semName (canonicalName path) = f.semName
    · rw [hn, Function.update_self] at hx'
      obtain rfl := Option.some.inj hx'
      show x.count - 1 ≤ 1
      omega
    · rw [Function.update_of_ne hn] at hx'
      exact h.count path x' hx'
  · rcases files_cases hother hf' hg with ⟨rfl, rfl⟩ | ⟨-, hg⟩
    · refine ⟨htakes.stage, fun x' hx' => ?_⟩
      rw [hname, Function.update_self] at hx'
      obtain rfl := Option.some.inj hx'
      show x.count - 1 = 0
      omega
    · rw [Function.update_of_ne (hfree d g hg howns)]
      exact h.owner d g hg howns
  · rcases files_cases hother hf' hg with ⟨rfl, rfl⟩ | ⟨-, hg⟩
    · rcases files_cases hother hf' hk with ⟨rfl, -⟩ | ⟨-, hk⟩
      · rfl
      · rw [hname] at hsame
        exact absurd hsame.symm (hfree e k hk hkowns)
    · rcases files_cases hother hf' hk with ⟨rfl, rfl⟩ | ⟨-, hk⟩
      · rw [hname] at hsame
        exact absurd hsame (hfree d g hg hgowns)
      · exact h.one d e g k hg hk hgowns hkowns hsame
  · rcases files_cases hother hf' hg with ⟨rfl, rfl⟩ | ⟨-, hg⟩
    · rw [htakes.probing hp]
      by_contra hlock
      exact hfree d f hf (Or.inl hlock) rfl
    · exact h.probing d g hg hp

/-- A connection posts its semaphore, which it owned, and nobody does. -/
theorem LockInv.posted (h : LockInv resolve s t) (hother : ∀ d, d ≠ c → s'.files d = s.files d)
    (hf : s.files c = some f) (hf' : s'.files c = some f') (hposts : Posts f f')
    (hx : t f.semName = some x) :
    LockInv resolve s' (Function.update t f.semName (some { x with count := x.count + 1 })) := by
  have hzero : x.count = 0 := (h.owner c f hf hposts.before).2 x hx
  -- the connection owns its semaphore no more, and nobody else did
  have howner : ∀ d g, s'.files d = some g → g.owns →
      s.files d = some g ∧ g.semName ≠ f.semName := by
    intro d g hg howns
    rcases files_cases hother hf' hg with ⟨rfl, rfl⟩ | ⟨hd, hg⟩
    · obtain ⟨hprobing, hlock⟩ := hposts.owns howns
      exact absurd (h.probing d f hf hprobing) hlock
    · exact ⟨hg, fun hsame => hd (h.one d c g f hg hf howns hposts.before hsame)⟩
  refine ⟨fun path x' hx' => ?_, fun d g hg howns => ?_, fun d e g k hg hk hgowns hkowns => ?_,
    fun d g hg hp => ?_,
    h.agree_of (opened_before hother hf hf' hposts.path hposts.opened)⟩
  · by_cases hn : semName (canonicalName path) = f.semName
    · rw [hn, Function.update_self] at hx'
      obtain rfl := Option.some.inj hx'
      show x.count + 1 ≤ 1
      omega
    · rw [Function.update_of_ne hn] at hx'
      exact h.count path x' hx'
  · obtain ⟨hg, hne⟩ := howner d g hg howns
    rw [Function.update_of_ne hne]
    exact h.owner d g hg howns
  · exact h.one d e g k (howner d g hg hgowns).1 (howner e k hk hkowns).1 hgowns hkowns
  · exact h.probing d g (howner d g hg (Or.inr hp)).1 hp

/-! ### Runs -/

/-- **Step lemma.**  Each step is quiet, takes a semaphore or posts one, when it meets the
    condition. -/
theorem LockInv.step (h : LockInv resolve s t) (hlink : s.Linked t)
    (hcareful : Careful resolve s ((c, call), r)) (hs : sqlCall m s (c, call) = some (r, s')) :
    ∃ t', s'.Linked t' ∧ LockInv resolve s' t' := by
  obtain ⟨hother, t', hlink', hstep⟩ := sqlCall_result hlink hs
  refine ⟨t', hlink', ?_⟩
  cases hstep with
  | quiet hcalm => exact h.quiet hother hcalm
  | shared hf hf' hopened =>
    exact h.opened hlink hother hf hf' hopened (fun n x' hx' => Or.inl ⟨x', hx', rfl⟩)
      (hcareful.spelled _ _ _ _ rfl _ hf)
  | @reopened _ _ _ _ _ f _ x hf hf' hopened _ hx =>
    apply h.opened hlink hother hf hf' hopened ?_ (hcareful.spelled _ _ _ _ rfl _ hf)
    intro n x' hx'
    -- the semaphore that was opened is the one that was there
    by_cases hn : n = f.semName
    · subst hn
      rw [Function.update_self] at hx'
      obtain rfl := Option.some.inj hx'
      exact Or.inl ⟨x, hx, rfl⟩
    · rw [Function.update_of_ne hn] at hx'
      exact Or.inl ⟨x', hx', rfl⟩
  | @created _ _ _ _ _ f _ hf hf' hopened _ hx =>
    apply h.opened hlink hother hf hf' hopened ?_ (hcareful.spelled _ _ _ _ rfl _ hf)
    intro n x' hx'
    -- a semaphore that is made anew can be taken once
    by_cases hn : n = f.semName
    · subst hn
      rw [Function.update_self] at hx'
      obtain rfl := Option.some.inj hx'
      exact Or.inr ⟨hx, rfl⟩
    · rw [Function.update_of_ne hn] at hx'
      exact Or.inl ⟨x', hx', rfl⟩
  | taken hf hf' htakes _ hx hpos => exact h.taken hother hf hf' htakes hx hpos
  | posted hf hf' hposts _ hx => exact h.posted hother hf hf' hposts hx
  -- a careful run does not raise the count of a semaphore that it has not taken
  | raised hf hlow => exact absurd hlow (hcareful.lowers rfl _ hf)

/-- Before the first connection nobody owns a semaphore. -/
theorem SqlState.Fresh.lockInv (h : s.Fresh m) (ht : TableOf s.sem t)
    (hcount : ∀ path, s.sem.count (semName (canonicalName path)) ≤ 1) : LockInv resolve s t := by
  have hfile : ∀ c f, s.files c ≠ some f := by
    intro c f
    rw [h.files]
    exact nofun
  refine ⟨fun path x hx => ?_, fun c f hf => absurd hf (hfile c f),
    fun c d f g hf => absurd hf (hfile c f), fun c f hf => absurd hf (hfile c f),
    fun c d f g hf => absurd hf (hfile c f)⟩
  have hone := hcount path
  rw [ht.count_eq (by rw [cstr_semName]; exact semName_ne_nil _), cstr_semName, hx] at hone
  exact hone

/-- **Run lemma.**  The invariant holds along every run whose steps meet the condition. -/
theorem lockInv_run (h : s₀.Fresh m)
    (hcount : ∀ path, s₀.sem.count (semName (canonicalName path)) ≤ 1)
    {as : List ((Nat × SqlCall) × SqlRet)}
    (hrun : ((sqlSystem m s₀).restrict (Careful resolve)).Run as s) :
    ∃ t, s.Linked t ∧ LockInv resolve s t := by
  apply hrun.invariant (I := fun s => ∃ t, s.Linked t ∧ LockInv resolve s t)
  · rintro _ rfl
    obtain ⟨t, ht, hlink⟩ := h.linked
    exact ⟨t, hlink, h.lockInv ht hcount⟩
  · rintro s ⟨⟨c, call⟩, r⟩ s' ⟨t, hlink, hinv⟩ ⟨hs, hcareful⟩
    exact hinv.step hlink hcareful hs

/-- The file that the lookup of the FAT file system finds under a pathname. -/
def fatFile {Disk Cache : Type} (D : DirSupport Disk) (N : NodeCache Cache) (fuel : Nat)
    (v : Volume Disk Cache) (path : List UInt8) : Option DirEntry := do
  let (err, v, ds) ← fatfsFind D N fuel v (initDirsearch v.root none (cstr path))
  if err ≠ .ENOERR then none
  else
    let x ← N.node v.cache (← ds.node)
    return x.dentry

variable {Disk Cache : Type} {D : DirSupport Disk} {N : NodeCache Cache} {fuel : Nat}
  {v : Volume Disk Cache} {as : List ((Nat × SqlCall) × SqlRet)}

/-- **Two connections to one file do not hold locks at a time**, as long as a file is opened under
    pathnames with the same semaphore's name only, and `semUnlock` lowers the lock. -/
theorem sem_exclusion (h : s₀.Fresh m)
    (hcount : ∀ path, s₀.sem.count (semName (canonicalName path)) ≤ 1)
    (hrun : ((sqlSystem m s₀).restrict (Careful (fatFile D N fuel v))).Run as s)
    (hf : s.files c = some f) (hg : s.files d = some g)
    (hfile : SameFile (fatFile D N fuel v) f.path g.path)
    (hfl : f.locktype ≠ .NO_LOCK) (hgl : g.locktype ≠ .NO_LOCK) : c = d := by
  obtain ⟨t, -, hinv⟩ := lockInv_run h hcount hrun
  obtain ⟨hfstage, -⟩ := hinv.owner c f hf (Or.inl hfl)
  obtain ⟨hgstage, -⟩ := hinv.owner d g hg (Or.inl hgl)
  exact hinv.one c d f g hf hg (Or.inl hfl) (Or.inl hgl)
    (hinv.agree c d f g hf hg hfstage hgstage hfile)

/-- A disk with the file `t.db`. -/
def databaseDisk : Volume MemDisk NodeTable :=
  (mounted ⟨[{ MemDisk.dirEntry 0 [116, 46, 100, 98] 1 with isDir := false }], 2⟩ 2).toVolume

/-- The file of a pathname on this disk. -/
def databaseFile : List UInt8 → Option DirEntry := fatFile memDirs tableCache 5 databaseDisk

/-- Connections with the same pathname have the same semaphore's name, and so meet the condition. -/
theorem careful_of_path {path : List UInt8} {a : (Nat × SqlCall) × SqlRet}
    (hpath : ∀ d g, s.files d = some g → g.path = path) (ha : a.1.2 ≠ .unlock .SHARED_LOCK) :
    Careful resolve s a := by
  refine ⟨fun _ _ _ _ _ f hf d g hg _ _ => ?_, fun hcall => absurd hcall ha⟩
  apply semName_eq
  rw [hpath d g hg, hpath _ f hf]

/-- A careful step continues a run of careful steps. -/
theorem run_step {i : Nat × SqlCall}
    (h : ((sqlSystem m s₀).restrict (Careful resolve)).Run as s)
    (hs : sqlCall m s i = some (r, s')) (hcareful : Careful resolve s (i, r)) :
    ((sqlSystem m s₀).restrict (Careful resolve)).Run (as ++ [(i, r)]) s' :=
  .step h ⟨hs, hcareful⟩

/-- A step of a connection to this path leaves only connections to it. -/
theorem path_step {path : List UInt8} (hlink : ∃ t, s.Linked t)
    (hs : sqlCall m s (c, call) = some (r, s'))
    (h : ∀ d g, s.files d = some g → g.path = path)
    (hc : (s'.files c).map UnixFile.path = some path) :
    (∃ t, s'.Linked t) ∧ ∀ d g, s'.files d = some g → g.path = path := by
  obtain ⟨t, hlink⟩ := hlink
  obtain ⟨hother, t', hlink', -⟩ := sqlCall_result hlink hs
  refine ⟨⟨t', hlink'⟩, fun d g hg => ?_⟩
  by_cases hd : d = c
  · subst hd
    rw [hg] at hc
    exact Option.some.inj hc
  · rw [hother d hd] at hg
    exact h d g hg

/-- After two connections were opened to `/t.db` and the first one was locked, no other connection
    to the file has a lock. -/
theorem sem_exclusion_locked : ∃ as s,
    ((sqlSystem 32767 .empty).restrict (Careful databaseFile)).Run as s ∧
      (s.files 0).map UnixFile.locktype = some .EXCLUSIVE_LOCK ∧
      (s.files 1).map UnixFile.stage = some .opened ∧
      ∀ c f, s.files c = some f → SameFile databaseFile f.path [47, 116, 46, 100, 98] →
        f.locktype ≠ .NO_LOCK → c = 0 := by
  obtain ⟨s₁, s₂, s₃, s₄, s₅, h₁, h₂, h₃, h₄, h₅, hpath₁, hpath₂, hpath₃, g, hg, hlock, hpath,
      hstage⟩ : ∃ s₁ s₂ s₃ s₄ s₅,
        sqlCall 32767 .empty (0, .findFileId [47, 116, 46, 100, 98] 8) = some (.none, s₁) ∧
        sqlCall 32767 s₁ (0, .openSem 16 24 100 200) = some (.rc .OK, s₂) ∧
        sqlCall 32767 s₂ (1, .findFileId [47, 116, 46, 100, 98] 8) = some (.none, s₃) ∧
        sqlCall 32767 s₃ (1, .openSem 16 24 100 200) = some (.rc .OK, s₄) ∧
        sqlCall 32767 s₄ (0, .lock .EXCLUSIVE_LOCK) = some (.rc .OK, s₅) ∧
        (s₁.files 0).map UnixFile.path = some [47, 116, 46, 100, 98] ∧
        (s₂.files 0).map UnixFile.path = some [47, 116, 46, 100, 98] ∧
        (s₃.files 1).map UnixFile.path = some [47, 116, 46, 100, 98] ∧
        ∃ g, s₅.files 0 = some g ∧ g.locktype = .EXCLUSIVE_LOCK ∧ g.path = [47, 116, 46, 100, 98] ∧
          (s₅.files 1).map UnixFile.stage = some .opened :=
    ⟨_, _, _, _, _, rfl, rfl, rfl, rfl, rfl, rfl, rfl, rfl, _, rfl, rfl, rfl, rfl⟩
  obtain ⟨t₀, -, hlink₀⟩ := (empty_fresh 32767).linked
  -- both connections open the file under one path
  obtain ⟨hlink₁, hpath₁⟩ := path_step ⟨t₀, hlink₀⟩ h₁ nofun hpath₁
  obtain ⟨hlink₂, hpath₂⟩ := path_step hlink₁ h₂ hpath₁ hpath₂
  obtain ⟨-, hpath₃⟩ := path_step hlink₂ h₃ hpath₂ hpath₃
  have hrun₀ : ((sqlSystem 32767 .empty).restrict (Careful databaseFile)).Run [] .empty :=
    .init rfl
  have hrun₂ := run_step (run_step hrun₀ h₁ ⟨nofun, nofun⟩) h₂ (careful_of_path hpath₁ nofun)
  have hrun₄ := run_step (run_step hrun₂ h₃ ⟨nofun, nofun⟩) h₄ (careful_of_path hpath₃ nofun)
  have hrun := run_step hrun₄ h₅ ⟨nofun, nofun⟩
  refine ⟨_, s₅, hrun, ?_, hstage, fun c f hf hfile hfl => ?_⟩
  · rw [hg, Option.map_some, hlock]
  · refine sem_exclusion (empty_fresh 32767) (fun _ => Nat.zero_le 1) hrun hf hg ?_ hfl ?_
    · rw [hpath]
      exact hfile
    · rw [hlock]
      decide

/-- **Two spellings of one file have two semaphores.**  `/t.db` and `/T.DB` are the same file, and
    two connections to it hold exclusive locks. -/
theorem sem_exclusion_spelling : ¬∀ (s₀ s : SqlState) (as : List ((Nat × SqlCall) × SqlRet))
    (c d : Nat) (f g : UnixFile), s₀.Fresh 32767 →
    (∀ path, s₀.sem.count (semName (canonicalName path)) ≤ 1) → (sqlSystem 32767 s₀).Run as s →
    s.files c = some f → s.files d = some g → SameFile databaseFile f.path g.path →
    f.locktype ≠ .NO_LOCK → g.locktype ≠ .NO_LOCK → c = d := by
  intro hall
  let calls : List (Nat × SqlCall) :=
    [(0, .findFileId [47, 116, 46, 100, 98] 8), (0, .openSem 16 24 100 200),
      (1, .findFileId [47, 84, 46, 68, 66] 32), (1, .openSem 40 48 300 400),
      (0, .lock .EXCLUSIVE_LOCK), (1, .lock .EXCLUSIVE_LOCK)]
  obtain ⟨s, f, g, hex, hf, hg, hfpath, hgpath, hfl, hgl⟩ : ∃ s f g,
      LTS.exec (sqlCall 32767) calls .empty
        = some ([.none, .rc .OK, .none, .rc .OK, .rc .OK, .rc .OK], s) ∧
      s.files 0 = some f ∧ s.files 1 = some g ∧ f.path = [47, 116, 46, 100, 98] ∧
      g.path = [47, 84, 46, 68, 66] ∧ f.locktype = .EXCLUSIVE_LOCK ∧
      g.locktype = .EXCLUSIVE_LOCK :=
    ⟨_, _, _, rfl, rfl, rfl, rfl, rfl, rfl, rfl⟩
  have hrun := LTS.Run.exec (.init rfl) hex
  have hfile : SameFile databaseFile f.path g.path := by
    rw [hfpath, hgpath]
    exact ⟨_, rfl, by decide⟩
  have heq := hall .empty s _ 0 1 f g (empty_fresh 32767) (fun _ => Nat.zero_le 1) hrun hf hg hfile
    (by rw [hfl]; decide) (by rw [hgl]; decide)
  cases heq

end Ecos.Sqlite
