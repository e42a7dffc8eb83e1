import Ecos.Sqlite.PagerRollback

namespace Ecos.Sqlite.Rollback

open Ecos.Lib Program

/-!
# Between transactions

* `Intact` — the database file is the image, and there is no journal; `safe_endTransaction` — so it
  is when a transaction ends;
* `Quiet` — the pager has no transaction, and its cache is of the image; `Idle`, `Reading` — without
  and with a lock;
* `Rolling.pagerPlayback` — a rollback ends so; `Quiet.rolling` — a hot journal is rolled back;
* `Idle.pagerSharedLock` — a pager that gets a lock has rolled back what there was;
* `Outside.acquire` — reading a page.
-/

variable {C : PagerConfig} {move : Image → Image → Prop} {B : Image} {D : Disk} {P P' : Pager}

/-! ### The end of a transaction -/

/-- The database file is the image, and there is no journal: how the disk is between
    transactions. -/
structure Intact (C : PagerConfig) (B : Image) (D : Disk) : Prop where
  journal : D.journal = none
  db : ∀ v ∈ D.dbVersions, DbHolds C B [] v ∧ v.size = B.n * C.pageSize

/-- An image that is intact can be recovered, for there is nothing to roll back. -/
theorem Intact.recoverable (h : Intact C B D) : Recoverable C B D := by
  unfold Recoverable
  rw [h.journal]
  exact h.db

/-- Without a journal an image that can be recovered is intact. -/
theorem Recoverable.intact (h : Recoverable C B D) (hnone : D.journal = none) : Intact C B D := by
  unfold Recoverable at h
  rw [hnone] at h
  exact ⟨hnone, h⟩

/-- The file has the pages of an intact image. -/
theorem Intact.hasPage (h : Intact C B D) {p : Nat} (hp : B.Used C p) :
    HasPage C D.db.cur p (B.page p) :=
  (h.db _ cur_mem_dbVersions).1.1 p hp List.not_mem_nil

/-- The file has the size of an intact image. -/
theorem Intact.size (h : Intact C B D) : D.db.cur.size = B.n * C.pageSize :=
  (h.db _ cur_mem_dbVersions).2

/-- When the journal is deleted, only the database file as it is now counts. -/
theorem intact_delete (hpages : ∀ p, B.Used C p → HasPage C D.db.cur p (B.page p))
    (hsize : D.db.cur.size = B.n * C.pageSize) :
    Intact C B D.delete where
  journal := rfl
  db v hv := by
    have hv : v = D.db.cur := by
      unfold Disk.dbVersions at hv
      split at hv
      · exact List.mem_singleton.mp hv
      · next hexp =>
        obtain ⟨-, hpast⟩ : D.exposed = false ∧ D.db.past = [] := by simpa [Disk.delete] using hexp
        have hversions : D.delete.db.versions = [D.db.cur] := by
          show D.db.versions = [D.db.cur]
          rw [Storage.versions, hpast]
        rw [hversions] at hv
        exact List.mem_singleton.mp hv
    subst hv
    refine ⟨⟨fun p hp _ => hpages p hp, fun hn => ?_⟩, hsize⟩
    rw [hsize]
    exact Nat.mul_pos hn C.pageSize_pos

/-- What a transaction has set in the pager, and its end sets back. -/
def Pager.flags (P : Pager) : Bool × Bool × Bool × Bool × Option (List Nat) :=
  (P.jfdOpen, P.needSync, P.dbModified, P.changeCountDone, P.pInJournal)

/-- The pager has no transaction, and what is in its cache is of the image. -/
structure Quiet (C : PagerConfig) (B : Image) (P : Pager) : Prop where
  unique : P.Unique
  valid : ∀ pg ∈ P.cache, pg.Valid C
  clean : ∀ pg ∈ P.cache, pg.dirty = false ∧ pg.needSync = false
  cached : ∀ p pg, B.Used C p → P.lookup p = some pg → pg.data = B.page p
  flags : P.flags = (false, false, false, false, none)

namespace Quiet

/-- The journal is not open while the pager is quiet. -/
theorem jfdOpen (h : Quiet C B P) : P.jfdOpen = false := congrArg (·.1) h.flags

/-- There is nothing in the journal that would have to be synced. -/
theorem needSync (h : Quiet C B P) : P.needSync = false := congrArg (·.2.1) h.flags

/-- Nothing was written since the pager got its lock. -/
theorem dbModified (h : Quiet C B P) : P.dbModified = false := congrArg (·.2.2.1) h.flags

/-- The change counter was not counted up yet, since nothing was written. -/
theorem changeCountDone (h : Quiet C B P) : P.changeCountDone = false :=
  congrArg (·.2.2.2.1) h.flags

/-- No page is in the journal, since there is none. -/
theorem pInJournal (h : Quiet C B P) : P.pInJournal = none := congrArg (·.2.2.2.2) h.flags

/-- The cache and the flags are all that counts for a quiet pager. -/
theorem congr (h : Quiet C B P) (hcache : P'.cache = P.cache) (hflags : P'.flags = P.flags) :
    Quiet C B P' := by
  have hunique : P'.Unique := by
    unfold Pager.Unique
    rw [hcache]
    exact h.unique
  refine ⟨hunique, hcache ▸ h.valid, hcache ▸ h.clean, fun p pg hp hpg => ?_,
    hflags.trans h.flags⟩
  unfold Pager.lookup at hpg
  rw [hcache] at hpg
  exact h.cached p pg hp hpg

end Quiet

/-- A pager without a lock, which may know nothing of the database any more. -/
structure Idle (C : PagerConfig) (B : Image) (D : Disk) (P : Pager) : Prop where
  quiet : Quiet C B P
  state : P.state = .UNLOCK
  dbSizeValid : P.dbSizeValid = false
  recoverable : Recoverable C B D

/-- A pager that reads, or has a lock to write but no journal yet. -/
structure Reading (C : PagerConfig) (B : Image) (D : Disk) (P : Pager) : Prop where
  quiet : Quiet C B P
  state : P.state ≠ .UNLOCK ∧ P.state ≠ .SYNCED
  intact : Intact C B D
  size : P.dbSizeValid = true → P.dbSize = B.n ∧ P.dbFileSize = B.n

/-- **The end of a transaction.**  The journal is deleted, and that makes the file the database. -/
theorem safe_endTransaction {B' : Image} (hmove : move B B') (hmove' : move B' B')
    (hrec : Recoverable C B D) (hstate : PagerState.RESERVED.num ≤ P.state.num)
    (hjfdOpen : P.jfdOpen = true) (hunique : P.Unique) (hvalid : ∀ pg ∈ P.cache, pg.Valid C)
    (hcached : ∀ p pg, B'.Used C p → P.lookup p = some pg → pg.data = B'.page p)
    (hpages : ∀ p, B'.Used C p → HasPage C D.db.cur p (B'.page p))
    (hsize : D.db.cur.size = B'.n * C.pageSize) :
    PagerSafe C move (pagerEndTransaction P) (fun P' D' B'' => B'' = B' ∧ D' = D.delete ∧
      P'.state = .SHARED ∧ P'.dbSizeValid = false ∧ Reading C B' D' P') D B := by
  have hintact := intact_delete hpages hsize
  unfold pagerEndTransaction
  rw [if_neg (Nat.not_lt.mpr hstate), hjfdOpen, if_pos rfl]
  -- the image moves when the journal is deleted, and stays what it is then
  refine .bind (.bind (safe_delete hmove hrec ?_))
  refine .bind ?_
  refine .bind (safe_unlock hmove' hintact.recoverable ?_)
  refine ⟨rfl, rfl, rfl, rfl, ⟨hunique.cleanAll.pcacheTruncate, ?_, ?_, ?_, rfl⟩,
    ⟨by rintro ⟨⟩, by rintro ⟨⟩⟩, hintact, fun hinvalid => by cases hinvalid⟩
  · intro pg hpg
    obtain ⟨pg', hpg', rfl⟩ := List.mem_map.mp (List.mem_of_mem_filter hpg)
    exact hvalid pg' hpg'
  · intro pg hpg
    obtain ⟨pg', hpg', rfl⟩ := List.mem_map.mp (List.mem_of_mem_filter hpg)
    exact ⟨rfl, rfl⟩
  · intro p pg hp hpg
    have hlookup := (Pager.lookup_pcacheTruncate (P := P.cleanAll) (p := p)).symm.trans hpg
    split at hlookup
    · rw [Pager.lookup_cleanAll] at hlookup
      obtain ⟨pg', hpg', rfl⟩ := Option.map_eq_some_iff.mp hlookup
      exact hcached p pg' hp hpg'
    · cases hlookup

/-! ### Rolling back to the image -/

section

variable {J : Storage UInt8} {sealed : List Segment} {c : Content UInt8} {n o e : Nat}

/-- **A rollback** ends with the image, record by record, whichever of them were unsynced. -/
theorem Rolling.pagerPlayback (hmove : move B B) (hB : B.Valid C) {isHot : Bool}
    {segs : List (Segment × Bool)} (h : Rolling C B D P J sealed (recordsOf segs))
    (hno : NoMaster J.cur) (hplays : Plays C J.cur B.n isHot P.journalHdr 0 segs)
    (hwhole : PagerState.EXCLUSIVE.num ≤ P.state.num ∨ D.db.cur.size = B.n * C.pageSize)
    (hnil : segs = [] → D.db.cur.size = B.n * C.pageSize)
    (hstate : PagerState.RESERVED.num ≤ P.state.num) (hjfdOpen : P.jfdOpen = true) :
    PagerSafe C move (pagerPlayback C P isHot) (fun x D' B' => x.1 = .OK ∧ B' = B ∧
      x.2.state = .SHARED ∧ x.2.dbSizeValid = false ∧ Reading C B D' x.2) D B := by
  unfold Rollback.pagerPlayback
  refine .bind ((h.playbackJournal hmove hB hno hplays hwhole hnil).imp ?_)
  rintro ⟨rc, P₁⟩ D₁ B ⟨rfl, rfl, hplay, hroll, hsize⟩
  dsimp -zeta only at hplay hroll ⊢
  extract_lets P₂
  rw [if_neg (fun hne => hne rfl)]
  have hrec := hroll.prot.recoverable
  refine .bind (safe_readMasterJournal hmove hrec hroll.prot.file_journal hno ?_)
  refine .bind ?_
  refine (safe_endTransaction (P := P₂) hmove hmove hrec ?_ ?_ hroll.unique hroll.valid ?_ ?_
    hsize).imp ?_
  · rw [show P₂.state = P.state from hplay.state]
    exact hstate
  · rw [show P₂.jfdOpen = P.jfdOpen from hplay.jfdOpen]
    exact hjfdOpen
  -- there is no record left to be played back
  · intro p pg hp hpg
    refine (hroll.cached p pg hp hpg).resolve_right ?_
    rintro ⟨x, hx, -⟩
    exact List.not_mem_nil hx
  · intro p hp
    refine (hroll.file p hp).resolve_right ?_
    rintro ⟨-, -, r, hr, -⟩
    exact List.not_mem_nil hr
  · rintro P' D' B' ⟨rfl, -, hrest⟩
    exact ⟨rfl, rfl, hrest⟩

/-- **A hot journal** brings the image back that can be recovered. -/
theorem Quiet.rolling (h : Quiet C B P) (hJ : D.journal = some J) (hrec : Recoverable C B D)
    (hstate : PagerState.EXCLUSIVE.num ≤ P.state.num) : ∃ sealed segs,
      Rolling C B D P J sealed (recordsOf segs) ∧ Plays C J.cur B.n true 0 0 segs ∧
      (segs = [] → D.db.cur.size = B.n * C.pageSize) := by
  unfold Recoverable at hrec
  rw [hJ] at hrec
  obtain ⟨sealed, hsafe, hdb, hwhole⟩ := hrec
  obtain ⟨segs, hpre, hok, e, hsegs, hle, hstop⟩ := hsafe J.cur Storage.crashImage_cur
  have hprot : Protected C B D J sealed := ⟨hJ, hsafe, hdb, hwhole⟩
  -- in a hot journal, every header counts its records
  have hmem : ∀ {r} {u : Bool}, (r, u) ∈ recordsOf (segs.map (·, false)) ↔
      u = false ∧ ∃ seg ∈ segs, r ∈ seg.recs := by
    intro r u
    simp only [recordsOf, List.flatMap_map, List.mem_flatMap, List.mem_map, Prod.mk.injEq]
    constructor
    · rintro ⟨seg, hseg, r', hr', rfl, rfl⟩
      exact ⟨rfl, seg, hseg, hr'⟩
    · rintro ⟨rfl, seg, hseg, hr⟩
      exact ⟨seg, hseg, r, hr, rfl, rfl⟩
  have hplays : Plays C J.cur B.n true 0 0 (segs.map (·, false) ++ []) :=
    hsegs.plays hle (fun seg hseg => (hok seg hseg).2) (.inl rfl) hstop
  rw [List.append_nil] at hplays
  refine ⟨sealed, segs.map (·, false), ⟨hprot, h.unique, h.valid, ?_, fun p hp => ?_, ?_⟩,
    hplays, fun hnil => ?_⟩
  · rintro ⟨r, u⟩ hr
    obtain ⟨-, seg, hseg, hr⟩ := hmem.mp hr
    exact (hok seg hseg).1 r hr
  · by_cases hK : p ∈ pagesOf sealed
    · -- the page is in the journal
      obtain ⟨seg, hseg, hp'⟩ := List.mem_flatMap.mp hK
      obtain ⟨r, hr, rfl⟩ := List.mem_map.mp hp'
      refine .inr ⟨hstate, ?_, r, hmem.mpr ⟨rfl, seg, hpre.subset hseg, hr⟩, rfl⟩
      cases hlookup : P.lookup r.pgno with
      | none => rfl
      | some pg => simp [(h.clean pg (Pager.mem_of_lookup hlookup)).2]
    · exact .inl (hprot.holds.1 p hp hK)
  · intro p pg hp hpg
    exact .inl (h.cached p pg hp hpg)
  · have hsegs : segs = [] := by simpa using hnil
    subst hsegs
    exact hwhole (List.prefix_nil.mp hpre) _ cur_mem_dbVersions

end

/-! ### Getting a lock -/

/-- The number of pages in a file of `n` bytes, as the pager counts them. -/
def filePages (C : PagerConfig) (n : Nat) : Nat :=
  if 0 < n ∧ n < C.pageSize then 1 else n / C.pageSize

/-- A file of whole pages has as many pages as it is made of. -/
theorem filePages_mul (n : Nat) : filePages C (n * C.pageSize) = n := by
  have hpos := C.pageSize_pos
  unfold filePages
  rw [if_neg, Nat.mul_div_cancel _ hpos]
  rintro ⟨hn, hlt⟩
  have hle := Nat.le_mul_of_pos_left C.pageSize (Nat.pos_of_mul_pos_right hn)
  omega

/-- A file without pages is empty: a part of a page counts as one. -/
theorem eq_zero_of_filePages {n : Nat} (h : filePages C n = 0) : n = 0 := by
  unfold filePages at h
  split at h
  · cases h
  · next hn =>
    rcases Nat.div_eq_zero_iff.mp h with hzero | hlt
    · exact absurd hzero (Nat.ne_of_gt C.pageSize_pos)
    · omega

/-- **The spec of `sqlite3PagerPagecount`.**  The number that the pager knows, or else that of the
    file. -/
theorem safe_pagecount (hmove : move B B) (hrec : Recoverable C B D) (hstate : P.state ≠ .UNLOCK) :
    PagerSafe C move (sqlite3PagerPagecount C P) (fun x D' B' => D' = D ∧ B' = B ∧ ∃ mxPgno,
      (P.dbSizeValid = true ∧ x = (P.dbSize, { P with mxPgno }) ∨
      P.dbSizeValid = false ∧ x = (filePages C D.db.cur.size, { P with
        mxPgno
        dbSize := filePages C D.db.cur.size
        dbFileSize := filePages C D.db.cur.size
        dbSizeValid := true }))) D B := by
  unfold sqlite3PagerPagecount
  by_cases hvalid : P.dbSizeValid = true
  · rw [if_pos hvalid]
    exact ⟨rfl, rfl, _, .inl ⟨hvalid, rfl⟩⟩
  · rw [if_neg hvalid]
    refine .bind (safe_fileSize hmove hrec ?_)
    simp only [if_pos hstate]
    exact ⟨rfl, rfl, _, .inr ⟨Bool.eq_false_iff.mpr hvalid, rfl⟩⟩

/-- A reader counts the pages of the image, from the size of the file or from memory. -/
theorem Reading.pagecount (hmove : move B B) (h : Reading C B D P) :
    PagerSafe C move (sqlite3PagerPagecount C P) (fun x D' B' => D' = D ∧ B' = B ∧ x.1 = B.n ∧
      Reading C B D x.2 ∧ x.2.dbSizeValid = true ∧ x.2.state = P.state ∧ x.2.cache = P.cache)
      D B := by
  refine (safe_pagecount hmove h.intact.recoverable h.state.1).imp ?_
  rintro x D' B' ⟨rfl, rfl, mxPgno, ⟨hvalid, rfl⟩ | ⟨-, rfl⟩⟩
  · exact ⟨rfl, rfl, (h.size hvalid).1, ⟨h.quiet.congr rfl rfl, h.state, h.intact, h.size⟩,
      hvalid, rfl, rfl⟩
  · have hpages : filePages C D'.db.cur.size = B'.n := by rw [h.intact.size, filePages_mul]
    exact ⟨rfl, rfl, hpages, ⟨h.quiet.congr rfl rfl, h.state, h.intact,
      fun _ => ⟨hpages, hpages⟩⟩, rfl, rfl, rfl⟩

/-- A reset forgets the cache, and the pager is quiet without it. -/
theorem Quiet.reset (h : Quiet C B P) : Quiet C B P.reset where
  unique := List.nodup_nil
  valid _ hpg := absurd hpg List.not_mem_nil
  clean _ hpg := absurd hpg List.not_mem_nil
  cached _ _ _ hpg := by cases hpg
  flags := h.flags

/-- `pager_unlock` gives the locks back, and the pager is idle. -/
theorem Quiet.pagerUnlock (hmove : move B B) (h : Quiet C B P) (hrec : Recoverable C B D) :
    PagerSafe C move (pagerUnlock P) (fun P' D' B' => D' = D ∧ B' = B ∧ Idle C B D P') D B := by
  unfold Rollback.pagerUnlock
  refine .bind (safe_unlock hmove hrec ?_)
  refine ⟨rfl, rfl, h.congr rfl ?_, rfl, rfl, hrec⟩
  rw [h.flags]
  simp [Pager.flags, h.needSync, h.dbModified]

/-- A journal is hot, or it is of an empty database, and deleted. -/
theorem Quiet.hasHotJournal (hmove : move B B) (h : Quiet C B P) (hrec : Recoverable C B D)
    (hstate : P.state = .SHARED) (hvalid : P.dbSizeValid = false) :
    PagerSafe C move (hasHotJournal C P) (fun x D' B' => B' = B ∧ x.2.state = .SHARED ∧
      (x.1 = false ∧ Reading C B D' x.2 ∨
        x.1 = true ∧ D' = D ∧ Quiet C B x.2 ∧ D.journal.isSome = true)) D B := by
  unfold Rollback.hasHotJournal
  refine .bind (safe_access hmove hrec ?_)
  cases hJ : D.journal with
  | none =>
    exact ⟨rfl, hstate,
      .inl ⟨rfl, h, by simp [hstate], hrec.intact hJ, fun hv => by simp [hvalid] at hv⟩⟩
  | some J =>
    show PagerSafe C move (osCheckReservedLock >>= _) _ D B
    refine .bind (safe_checkReservedLock hmove hrec ?_)
    show PagerSafe C move (sqlite3PagerPagecount C P >>= _) _ D B
    refine .bind ((safe_pagecount hmove hrec (by simp [hstate])).imp ?_)
    rintro x D B ⟨rfl, rfl, mxPgno, ⟨hv, -⟩ | ⟨-, rfl⟩⟩
    · simp [hvalid] at hv
    dsimp -zeta only
    split
    · next hzero =>
      -- a file without pages is the image only when this has none
      have hempty := eq_zero_of_filePages hzero
      have hn : B.n = 0 := by
        unfold Recoverable at hrec
        rw [hJ] at hrec
        obtain ⟨sealed, -, hdb, -⟩ := hrec
        by_contra hne
        have hpos := (hdb _ cur_mem_dbVersions).2 (Nat.pos_of_ne_zero hne)
        omega
      refine .bind (safe_delete hmove hrec ?_)
      refine ⟨rfl, hstate, .inl ⟨rfl, h.congr rfl rfl, by simp [hstate], ?_, fun _ => ?_⟩⟩
      · refine intact_delete (fun p hp => ?_) ?_
        · have hle := hp.2.1
          have hpos := hp.1
          omega
        · rw [hempty, hn, Nat.zero_mul]
      · exact ⟨hzero.trans hn.symm, hzero.trans hn.symm⟩
    · exact ⟨rfl, hstate, .inr ⟨rfl, rfl, h.congr rfl rfl, rfl⟩⟩

/-- A hot journal is rolled back, unless someone else reads; either way the image can be
    recovered. -/
theorem Quiet.rollbackHot (hmove : move B B) (hB : B.Valid C) (h : Quiet C B P)
    {J : Storage UInt8} (hJ : D.journal = some J) (hno : NoMaster J.cur)
    (hrec : Recoverable C B D) :
    PagerSafe C move (rollbackHot C P) (fun x D' B' => B' = B ∧
      (x.1 = .OK ∧ x.2.state = .SHARED ∧ Reading C B D' x.2 ∨
        x.1 = .BUSY ∧ D' = D ∧ Quiet C B x.2)) D B := by
  unfold Rollback.rollbackHot
  refine .bind (safe_lock hmove hrec fun granted => ?_)
  cases granted with
  | false => exact ⟨rfl, .inr ⟨rfl, rfl, h⟩⟩
  | true =>
    rw [if_neg (by decide)]
    extract_lets P₁
    have hquiet : Quiet C B P₁ := h.congr rfl rfl
    obtain ⟨sealed, segs, hroll, hplays, hnil⟩ := hquiet.rolling hJ hrec (Nat.le_refl _)
    refine .bind (safe_access hmove hrec ?_)
    rw [hJ, if_neg (by simp)]
    refine .bind (safe_openJournal hmove hrec ?_)
    rw [hJ, if_neg (by simp)]
    have hroll' : Rolling C B D { P₁ with
        jfdOpen := true
        journalStarted := false
        journalOff := 0
        journalHdr := 0 } J sealed (recordsOf segs) := hroll.congr rfl rfl
    refine (hroll'.pagerPlayback hmove hB hno hplays (.inl (Nat.le_refl _)) hnil ?_ rfl).imp ?_
    · exact Nat.le_of_ble_eq_true rfl
    · rintro x D' B' ⟨hrc, rfl, hstate, -, hreading⟩
      exact ⟨rfl, .inl ⟨hrc, hstate, hreading⟩⟩

/-- The cache is of the image in any case: it is thrown away when the change counter differs. -/
theorem Reading.checkCache (hmove : move B B) (h : Reading C B D P) :
    PagerSafe C move (checkCache C P) (fun x D' B' => D' = D ∧ B' = B ∧ x.1 = .OK ∧
      Reading C B D x.2 ∧ x.2.state = P.state) D B := by
  unfold Rollback.checkCache
  split
  · exact ⟨rfl, rfl, rfl, h, rfl⟩
  refine .bind ((h.pagecount hmove).imp ?_)
  rintro ⟨n, P₁⟩ D B ⟨rfl, rfl, hn, hreading, hvalid, hstate, -⟩
  dsimp -zeta only at hn hreading hvalid hstate ⊢
  -- the cache is kept, or thrown away
  have hdone : ∀ P₂, P₂ = P₁.reset ∨ P₂ = P₁ → Reading C B D P₂ ∧ P₂.state = P.state := by
    rintro P₂ (rfl | rfl)
    · exact ⟨⟨hreading.quiet.reset, hreading.state, hreading.intact, hreading.size⟩, hstate⟩
    · exact ⟨hreading, hstate⟩
  split
  · exact ⟨rfl, rfl, rfl, hdone _ (ite_eq_or_eq ..)⟩
  · next hne =>
    refine .bind (safe_read hmove hreading.intact.recoverable ?_)
    have hlong : 24 + 16 ≤ (D.file .db).cur.size := by
      show 24 + 16 ≤ D.db.cur.size
      have hps := C.pageSize_ge
      have hpos : 0 < B.n := by
        have hsize := (hreading.size hvalid).1
        omega
      have hmul := Nat.le_mul_of_pos_left C.pageSize hpos
      rw [hreading.intact.size]
      omega
    dsimp -zeta only
    rw [decide_eq_true hlong, if_neg (by decide)]
    exact ⟨rfl, rfl, rfl, hdone _ (ite_eq_or_eq ..)⟩

/-- No journal looks as if it named a master journal. -/
def NoMasterJournal (D : Disk) : Prop := ∀ J, D.journal = some J → NoMaster J.cur

/-- **The first lock.**  When it is granted, the database is the image, after a rollback if there
    was a journal. -/
theorem Idle.pagerSharedLock (hmove : move B B) (hB : B.Valid C) (h : Idle C B D P)
    (hno : NoMasterJournal D) :
    PagerSafe C move (pagerSharedLock C P) (fun x D' B' => B' = B ∧
      (x.1 = .OK ∧ x.2.state = .SHARED ∧ Reading C B D' x.2 ∨ x.1 = .BUSY ∧ Idle C B D' x.2))
      D B := by
  have hrec := h.recoverable
  unfold Rollback.pagerSharedLock
  rw [if_neg (fun hne => hne h.state)]
  refine .bind (safe_lock hmove hrec fun granted => ?_)
  cases granted with
  | false => exact ⟨rfl, .inr ⟨rfl, h⟩⟩
  | true =>
    rw [if_neg (by decide)]
    extract_lets P₁
    have hquiet : Quiet C B P₁ := h.quiet.congr rfl rfl
    -- a failure, and what is left to do after the rollback
    have hbusy : ∀ P₂, Quiet C B P₂ → PagerSafe C move (do
        let P ← pagerUnlock P₂
        return (PagerRc.BUSY, P)) (fun x D' B' => B' = B ∧
          (x.1 = .OK ∧ x.2.state = .SHARED ∧ Reading C B D' x.2 ∨ x.1 = .BUSY ∧ Idle C B D' x.2))
        D B := by
      intro P₂ hP₂
      refine .bind ((hP₂.pagerUnlock hmove hrec).imp ?_)
      rintro P₃ D B ⟨rfl, rfl, hidle⟩
      exact ⟨rfl, .inr ⟨rfl, hidle⟩⟩
    have hcheck : ∀ P₂ D₂, Reading C B D₂ P₂ → P₂.state = .SHARED → PagerSafe C move (do
        let checked ← checkCache C P₂
        if checked.1 ≠ .OK then
          let P ← pagerUnlock checked.2
          return (checked.1, P)
        return (.OK, checked.2)) (fun x D' B' => B' = B ∧
          (x.1 = .OK ∧ x.2.state = .SHARED ∧ Reading C B D' x.2 ∨ x.1 = .BUSY ∧ Idle C B D' x.2))
        D₂ B := by
      intro P₂ D₂ hreading hstate
      refine .bind ((hreading.checkCache hmove).imp ?_)
      rintro ⟨rc, P₃⟩ D₂ B ⟨rfl, rfl, rfl, hreading₃, hstate₃⟩
      exact ⟨rfl, .inl ⟨rfl, hstate₃.trans hstate, hreading₃⟩⟩
    refine .bind ((hquiet.hasHotJournal hmove hrec rfl h.dbSizeValid).imp ?_)
    rintro ⟨isHotJournal, P₂⟩ D₂ B ⟨rfl, hstate₂, ⟨rfl, hreading⟩ | ⟨rfl, rfl, hquiet₂, hsome⟩⟩
    · exact hcheck P₂ D₂ hreading hstate₂
    · obtain ⟨J, hJ⟩ := Option.isSome_iff_exists.mp hsome
      show PagerSafe C move (Rollback.rollbackHot C P₂ >>= _) _ D₂ B
      refine .bind ((hquiet₂.rollbackHot hmove hB hJ (hno J hJ) hrec).imp ?_)
      rintro ⟨rc, P₃⟩ D₃ B ⟨rfl, ⟨rfl, hstate₃, hreading₃⟩ | ⟨rfl, rfl, hquiet₃⟩⟩
      · exact hcheck P₃ D₃ hreading₃ hstate₃
      · exact hbusy P₃ hquiet₃

/-! ### Reading a page -/

/-- A pager without a transaction, with a shared lock or with none. -/
def Outside (C : PagerConfig) (B : Image) (D : Disk) (P : Pager) : Prop :=
  Idle C B D P ∨ Reading C B D P

/-- Outside of a transaction the image can be recovered. -/
theorem Outside.recoverable (h : Outside C B D P) : Recoverable C B D := by
  rcases h with h | h
  · exact h.recoverable
  · exact h.intact.recoverable

/-- Outside of a transaction the pager is quiet: it has no journal and no dirty page. -/
theorem Outside.quiet (h : Outside C B D P) : Quiet C B P := by
  rcases h with h | h
  · exact h.quiet
  · exact h.quiet

/-- What `sqlite3PagerAcquire` may return for page `p` of a database of `n` pages. -/
def AcquireRc (C : PagerConfig) (n p : Nat) (rc : PagerRc) : Prop :=
  rc = .OK ∨ rc = .BUSY ∨ rc = .FULL ∧ n < p ∨
    rc = .CORRUPT ∧ (2147483647 < p ∨ p = 0 ∨ p = C.mjPgno)

/-- No page has to be written back to make room in the cache. -/
theorem Quiet.pcacheFetch (hmove : move B B) (h : Quiet C B P) (hrec : Recoverable C B D) :
    PagerSafe C move (pcacheFetch C P) (fun x D' B' => D' = D ∧ B' = B ∧ x = (.OK, P)) D B := by
  unfold Rollback.pcacheFetch
  refine .bind (safe_recycle hmove hrec fun victim => ?_)
  cases victim with
  | none => exact ⟨rfl, rfl, rfl⟩
  | some victim =>
    cases hlookup : P.lookup victim with
    | none =>
      dsimp only
      rw [hlookup]
      exact ⟨rfl, rfl, rfl⟩
    | some pg =>
      dsimp only
      rw [hlookup]
      dsimp only
      rw [(h.clean pg (Pager.mem_of_lookup hlookup)).1]
      exact ⟨rfl, rfl, rfl⟩

/-- A page that is read into the cache is one of the image. -/
theorem Reading.cons (h : Reading C B D P) {p : Nat} {data : List UInt8} (hnone : P.lookup p = none)
    (hvalid : (⟨p, data, false, false⟩ : PgHdr).Valid C) (hdata : B.Used C p → data = B.page p)
    (hcache : P'.cache = ⟨p, data, false, false⟩ :: P.cache) (hflags : P'.flags = P.flags)
    (hstate : P'.state = P.state)
    (hsize : P'.dbSizeValid = true → P'.dbSize = B.n ∧ P'.dbFileSize = B.n) :
    Reading C B D P' where
  quiet := by
    refine ⟨h.quiet.unique.cons hcache hnone, ?_, ?_, ?_, hflags.trans h.quiet.flags⟩
    · rw [hcache]
      exact List.forall_mem_cons.mpr ⟨hvalid, h.quiet.valid⟩
    · rw [hcache]
      exact List.forall_mem_cons.mpr ⟨⟨rfl, rfl⟩, h.quiet.clean⟩
    · intro q pg hq hpg
      rw [Pager.lookup_cons _ hcache] at hpg
      split at hpg
      · next heq =>
        obtain rfl := Option.some.inj hpg
        obtain rfl : q = p := heq
        exact hdata hq
      · exact h.quiet.cached q pg hq hpg
  state := hstate ▸ h.state
  intact := h.intact
  size := hsize

/-- **Reading a page** outside of a transaction gives the page of the image, or an error. -/
theorem Outside.acquire (hmove : move B B) (hB : B.Valid C) (h : Outside C B D P)
    (hno : NoMasterJournal D) (p : Nat) :
    PagerSafe C move (sqlite3PagerAcquire C P p) (fun x D' B' => B' = B ∧
      AcquireRc C B.n p x.1 ∧ Outside C B D' x.2) D B := by
  unfold sqlite3PagerAcquire
  split
  · next hbad => exact ⟨rfl, .inr (.inr (.inr ⟨rfl, hbad⟩)), h⟩
  next hgood =>
  obtain ⟨hmax, hzero, hmj⟩ : ¬2147483647 < p ∧ ¬p = 0 ∧ ¬p = C.mjPgno := by
    simpa [not_or] using hgood
  -- the shared lock, with the playback of a hot journal if there is one
  refine .bind (Safe.imp (Q := fun x D' B' => B' = B ∧
    (x.1 = .OK ∧ Reading C B D' x.2 ∨ x.1 = .BUSY ∧ Idle C B D' x.2)) ?_ ?_)
  · rcases h with h | h
    · refine (h.pagerSharedLock hmove hB hno).imp ?_
      rintro x D B ⟨rfl, ⟨hrc, -, hreading⟩ | hbusy⟩
      · exact ⟨rfl, .inl ⟨hrc, hreading⟩⟩
      · exact ⟨rfl, .inr hbusy⟩
    · unfold pagerSharedLock
      rw [if_pos h.state.1]
      exact ⟨rfl, .inl ⟨rfl, h⟩⟩
  rintro ⟨rc, P₁⟩ D B ⟨rfl, ⟨rfl, hreading⟩ | ⟨rfl, hidle⟩⟩
  swap
  · exact ⟨rfl, .inr (.inl rfl), .inl hidle⟩
  dsimp -zeta only at hreading ⊢
  rw [if_neg (fun hne => hne rfl)]
  split
  · exact ⟨rfl, .inl rfl, .inr hreading⟩
  next hlookup =>
  -- the page is not in the cache, and is read
  have hnone : P₁.lookup p = none := by simpa using hlookup
  refine .bind ((hreading.quiet.pcacheFetch hmove hreading.intact.recoverable).imp ?_)
  rintro x D B ⟨rfl, rfl, rfl⟩
  dsimp -zeta only
  rw [if_neg (fun hne => hne rfl)]
  refine .bind ((hreading.pagecount hmove).imp ?_)
  rintro ⟨n, P₂⟩ D B ⟨rfl, rfl, hn, hreading₂, hvalid, hstate, hcache⟩
  dsimp -zeta only at hn hreading₂ hvalid hstate hcache ⊢
  have hnone₂ : P₂.lookup p = none := by
    unfold Pager.lookup
    rw [hcache]
    exact hnone
  have hform : ∀ data : List UInt8, data.length = C.pageSize →
      (⟨p, data, false, false⟩ : PgHdr).Valid C := fun data hlen =>
    ⟨Nat.pos_of_ne_zero hzero, Nat.not_lt.mp hmax, hmj, hlen⟩
  split
  · next hlt =>
    split
    · exact ⟨rfl, .inr (.inr (.inl ⟨rfl, hn ▸ hlt⟩)), .inr hreading₂⟩
    · refine ⟨rfl, .inl rfl, .inr (hreading₂.cons hnone₂ (hform _ List.length_replicate) ?_
        rfl rfl rfl hreading₂.size)⟩
      -- a page past the end of the image is not used
      intro hused
      have hle := hused.2.1
      omega
  · refine .bind (safe_read hmove hreading₂.intact.recoverable ?_)
    refine ⟨rfl, .inl rfl, .inr (hreading₂.cons hnone₂ (hform _ (Content.length_read ..)) ?_
      rfl rfl rfl hreading₂.size)⟩
    intro hused
    exact (hreading₂.intact.hasPage hused).2

end Ecos.Sqlite.Rollback
