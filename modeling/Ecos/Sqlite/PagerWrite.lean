import Ecos.Sqlite.PagerTransaction

namespace Ecos.Sqlite.Rollback

open Ecos.Lib Program

/-!
# Beginning a transaction, and changing pages

* `safe_pagerOpenJournal`, `Quiet.opened` — the journal is opened, and the transaction begins;
* `Marked` — the cache when a page was made dirty, and waits for a sync or not;
* `Txn.makeDirty`, `Txn.journaled`, `Txn.newSynced`, `Txn.newUnsynced` — the ways through
  `pager_write`;
* `Txn.pagerWrite`, `Reading.pagerWrite` — the whole of it, in a transaction and before there is a
  journal.
-/

variable {C : PagerConfig} {move : Image → Image → Prop} {B W W' : Image} {D : Disk}
  {P P' : Pager} {J : Storage UInt8} {sealed : List Segment} {tail : Option Segment}
  {seg : Segment} {pages : List Nat} {p q : Nat} {pg : PgHdr} {isOpen : Bool}

/-! ### Opening the journal -/

/-- What `pager_open_journal` makes of a pager: the journal is open, and nothing is in it. -/
def Pager.opened (P : Pager) (n mxPgno journalHdr journalOff : Nat) (cksumInit : BitVec 32) :
    Pager :=
  { P with
    mxPgno
    journalHdr
    journalOff
    cksumInit
    dbSizeValid := true
    dbSize := n
    dbFileSize := n
    dbOrigSize := n
    pInJournal := some []
    jfdOpen := true
    journalStarted := false
    needSync := false
    nRec := 0 }

/-- **The journal** is created, with a header that counts no records. -/
theorem safe_pagerOpenJournal (hmove : move B B) (h : Intact C B D) (hstate : P.state ≠ .UNLOCK)
    (hsize : P.dbSizeValid = true → P.dbSize = B.n ∧ P.dbFileSize = B.n)
    (hjfdOpen : P.jfdOpen = false) :
    PagerSafe C move (pagerOpenJournal C P) (fun x D' B' => B' = B ∧ x.1 = .OK ∧ D'.db = D.db ∧
      ∃ mxPgno journalHdr journalOff cksumInit J,
        x.2 = P.opened B.n mxPgno journalHdr journalOff cksumInit ∧
        Protected C B D' J [] ∧
        JournalOpen C B J [] ⟨cksumInit, []⟩ journalHdr journalOff) D B := by
  have hrec := h.recoverable
  -- the pages are counted
  have hcount : PagerSafe C move (sqlite3PagerPagecount C P) (fun x D' B' => D' = D ∧ B' = B ∧
      ∃ mxPgno, x.2 = { P with
        mxPgno, dbSizeValid := true, dbSize := B.n, dbFileSize := B.n }) D B := by
    refine (safe_pagecount hmove hrec hstate).imp ?_
    rintro x D B ⟨rfl, rfl, mxPgno, ⟨hvalid, rfl⟩ | ⟨-, rfl⟩⟩
    · obtain ⟨h1, h2⟩ := hsize hvalid
      refine ⟨rfl, rfl, mxPgno, ?_⟩
      simp [hvalid, h1, h2]
    · refine ⟨rfl, rfl, mxPgno, ?_⟩
      dsimp only
      rw [h.size, filePages_mul]
  unfold Rollback.pagerOpenJournal
  refine .bind (hcount.imp ?_)
  rintro ⟨n, P₁⟩ D B ⟨rfl, rfl, mxPgno, hP₁⟩
  dsimp -zeta only at hP₁ ⊢
  have hjfd : P₁.jfdOpen = false := by
    rw [hP₁]
    exact hjfdOpen
  have hsize₁ : P₁.dbSize = B.n := by rw [hP₁]
  rw [hjfd, hsize₁]
  refine .bind (safe_createJournal hmove hrec h.journal ?_)
  show PagerSafe C move (Rollback.writeJournalHdr C _ >>= _) _ _ B
  -- an empty journal protects a file that is not changed
  have hend : JournalEnd C B (.synced .empty) [] 0 :=
    ⟨rfl, fun _ hseg => absurd hseg List.not_mem_nil, rfl, rfl⟩
  have hprot : Protected C B { D with journal := some (.synced .empty) } (.synced .empty) [] :=
    ⟨rfl, hend.safe, fun v hv => (h.db v hv).1, fun _ v hv => (h.db v hv).2⟩
  refine .bind ((JournalEnd.writeJournalHdr (P := { P₁ with
    dbSize := B.n
    pInJournal := some []
    jfdOpen := true
    dbOrigSize := B.n
    journalStarted := false
    needSync := false
    nRec := 0
    journalOff := 0
    journalHdr := 0 }) hmove hprot hend rfl).imp ?_)
  rintro P₂ D₂ B ⟨rfl, hdisk, J, cksumInit, journalHdr, journalOff, hP₂, hprot₂, hjournal⟩
  refine ⟨rfl, rfl, hdisk.db, mxPgno, journalHdr, journalOff, cksumInit, J, ?_, hprot₂, hjournal⟩
  rw [hP₂, hP₁]
  rfl

/-- **A transaction** begins with the image, none of whose pages was journaled. -/
theorem Quiet.opened (h : Quiet C B P) (mxPgno : Nat) (hB : B.Valid C) {D' : Disk}
    (hintact : Intact C B D) (hdb : D'.db = D.db) (hstate : PagerState.RESERVED.num ≤ P.state.num)
    (hsynced : P.state ≠ .SYNCED)
    {journalHdr journalOff : Nat} {cksumInit : BitVec 32} (hprot : Protected C B D' J [])
    (hjournal : JournalOpen C B J [] ⟨cksumInit, []⟩ journalHdr journalOff) :
    Txn C B B D' (P.opened B.n mxPgno journalHdr journalOff cksumInit) J []
      (some ⟨cksumInit, []⟩) := by
  have hno := h.dbModified
  refine
    { prot := hprot
      journal := hjournal
      nodup := List.nodup_nil
      inJournal := ?_
      started := ?_
      filling := ?_
      closed := by rintro ⟨⟩
      state := hstate
      jfdOpen := rfl
      orig := rfl
      sizeValid := rfl
      size := Nat.le_refl _
      fileSize := ?_
      fileSize_ne := hB.n_ne
      caching := ?_
      reserved := fun _ => ?_
      unmodified := fun _ => ⟨rfl, rfl, rfl, fun pg hpg => (h.clean pg hpg).1⟩
      synced := fun hstate => absurd hstate hsynced }
  · exact ⟨[], rfl, fun p => by simp [pagesOf]⟩
  · simp [Pager.opened]
  · rintro seg ⟨⟩
    exact ⟨rfl, rfl, fun hne => absurd rfl hne⟩
  · rw [hdb]
    exact hintact.size
  · rw [hdb]
    refine ⟨h.unique, fun p pg hpg => ?_, fun p hp =>
      ⟨hintact.hasPage, fun hmem => absurd hmem List.not_mem_nil⟩⟩
    -- before the transaction every cached page is clean, and the one of the file
    have hclean := h.clean pg (Pager.mem_of_lookup hpg)
    refine ⟨h.valid pg (Pager.mem_of_lookup hpg), fun hp => h.cached p pg hp hpg,
      fun hp _ => hintact.hasPage hp, fun hp _ => h.cached p pg hp hpg, fun hdirty => ?_,
      fun hdirty => ?_, fun hneed => ?_, fun hmem => absurd hmem List.not_mem_nil⟩
    · simp [hclean.1] at hdirty
    · simp [hclean.1] at hdirty
    · simp [hclean.2] at hneed
  · rw [hdb]
    refine ⟨fun p hp => hintact.hasPage hp, hintact.size, fun hmod => ?_⟩
    rw [show P.dbModified = true from hmod] at hno
    cases hno

/-! ### Marking a page -/

/-- Page `pg` of the cache of `P` was made dirty, and waits for a sync or not. -/
structure Marked (P : Pager) (pg : PgHdr) (needSync : Bool) (P' : Pager) : Prop where
  unique : P'.Unique
  other : ∀ q, q ≠ pg.pgno → P'.lookup q = P.lookup q
  self : P'.lookup pg.pgno = some { pg with dirty := true, needSync }

/-- A page that is made dirty is marked. -/
theorem Marked.of_makeDirty (hunique : P.Unique) (hlookup : P.lookup pg.pgno = some pg)
    (hcache : P'.cache = (P.makeDirty pg.pgno).cache) : Marked P pg pg.needSync P' := by
  have hlookup' : ∀ q, P'.lookup q = (P.makeDirty pg.pgno).lookup q := fun q =>
    congrArg (List.find? _) hcache
  refine ⟨?_, fun q hq => ?_, ?_⟩
  · unfold Pager.Unique
    rw [hcache]
    exact Pager.Unique.mapPage (f := fun pg => { pg with dirty := true }) hunique fun _ => rfl
  · rw [hlookup']
    exact Pager.lookup_mapPage_of_ne (fun _ => rfl) hq
  · rw [hlookup']
    exact Pager.lookup_mapPage_self (fun _ => rfl) hlookup

/-- The page waits for a sync from now on, before it may be written to the file. -/
theorem Marked.needSync {P'' : Pager} {needSync : Bool} (h : Marked P pg needSync P')
    (hcache : P''.cache = (P'.mapPage pg.pgno fun pg => { pg with needSync := true }).cache) :
    Marked P pg true P'' := by
  have hlookup' : ∀ q, P''.lookup q = (P'.mapPage pg.pgno fun pg =>
      { pg with needSync := true }).lookup q := fun q => congrArg (List.find? _) hcache
  refine ⟨?_, fun q hq => ?_, ?_⟩
  · unfold Pager.Unique
    rw [hcache]
    exact Pager.Unique.mapPage (f := fun pg => { pg with needSync := true }) h.unique fun _ => rfl
  · rw [hlookup', ← h.other q hq]
    exact Pager.lookup_mapPage_of_ne (f := fun pg => { pg with needSync := true }) (fun _ => rfl) hq
  · rw [hlookup']
    exact Pager.lookup_mapPage_self (f := fun pg => { pg with needSync := true }) (fun _ => rfl)
      h.self

/-- A page that is marked is still one of the transaction. -/
theorem Caching.mark {c : Content UInt8} {pages' : List Nat} {needSync : Bool}
    (h : Caching C B W c P sealed pages) (hlookup : P.lookup pg.pgno = some pg)
    (hmarked : Marked P pg needSync P')
    (hpages : ∀ q, q ≠ pg.pgno → (q ∈ pages' ↔ q ∈ pages))
    (hmem : pg.pgno ∈ pages → pg.pgno ∈ pages') (hsync : P.needSync = true → P'.needSync = true)
    (hjournaled : pg.pgno ∈ pages' ∨ B.n < pg.pgno ∧ (needSync = false → sealed ≠ []))
    (hneed : needSync = true → P'.needSync = true ∧ pg.pgno ∉ pagesOf sealed)
    (hunsynced : pg.pgno ∈ pages' → pg.pgno ∉ pagesOf sealed → needSync = true) :
    Caching C B W c P' sealed pages' := by
  have hok := h.page _ pg hlookup
  refine h.update (p := pg.pgno) hmarked.unique hmarked.other hpages hsync
    (fun _ _ hq => ⟨hq, rfl⟩) (fun _ _ _ => id) (fun pg' hpg' => ?_) fun hnone => ?_
  · obtain rfl := Option.some.inj (hmarked.self.symm.trans hpg')
    refine ⟨hok.valid, hok.current, ?_, fun hused hno => hok.original hused fun hp => hno (hmem hp),
      fun _ => hjournaled.imp_right And.left, fun _ hclean => ?_, hneed,
      fun hp hno => ⟨hunsynced hp hno, rfl⟩⟩
    · rintro - ⟨⟩
    · dsimp only at hclean
      by_cases hp : pg.pgno ∈ pagesOf sealed
      · exact .inl hp
      rcases hjournaled with hp' | ⟨hlt, hne⟩
      · rw [hunsynced hp' hp] at hclean
        cases hclean
      · exact .inr ⟨hlt, hne hclean⟩
  · rw [hmarked.self] at hnone
    cases hnone

/-! ### Journaling a page -/

namespace Txn

/-- What `pager_write` makes of the state: a page that may be changed, or an error. -/
def Written (C : PagerConfig) (B W : Image) (D : Disk) (P : Pager) (pg : PgHdr) (P' : Pager) :
    Prop :=
  (∃ J sealed seg, Txn C B W D P' J sealed (some seg)) ∧ P'.dbModified = true ∧
  P'.dbSize = max P.dbSize pg.pgno ∧ P'.changeCountDone = P.changeCountDone ∧
  P'.state ≠ .SYNCED ∧
  (∃ needSync, P'.lookup pg.pgno = some { pg with dirty := true, needSync }) ∧
  ∀ q, P.pageInJournal q = true ∨ q = pg.pgno ∧ q ≤ B.n → P'.pageInJournal q = true

/-- The lock is the old one, and there is a dirty page now. -/
theorem reserved_mark {needSync : Bool} (h : Txn C B W D P J sealed tail)
    (hmarked : Marked P pg needSync P') (hres : P.state = .RESERVED) :
    (∀ p, B.Used C p → HasPage C D.db.cur p (B.page p)) ∧ D.db.cur.size = B.n * C.pageSize ∧
      (P'.dbModified = true → ∃ pg ∈ P'.cache, pg.dirty = true) := by
  obtain ⟨hpages, hsize, -⟩ := h.reserved hres
  exact ⟨hpages, hsize, fun _ => ⟨_, Pager.mem_of_lookup hmarked.self, rfl⟩⟩

/-- The page is in the journal already, and only has to be marked. -/
theorem makeDirty (h : Txn C B W D P J sealed (some seg)) (hlookup : P.lookup pg.pgno = some pg)
    (hstate : P.state ≠ .SYNCED) (hp : P.pageInJournal pg.pgno = true) :
    Written C B W D P pg
      { P.makeDirty pg.pgno with dbModified := true, dbSize := max P.dbSize pg.pgno } := by
  have hok := h.caching.page _ pg hlookup
  have hmarked : Marked P pg pg.needSync
      { P.makeDirty pg.pgno with dbModified := true, dbSize := max P.dbSize pg.pgno } :=
    .of_makeDirty h.caching.unique hlookup rfl
  refine ⟨⟨J, sealed, seg, { h with
    size := Nat.le_trans h.size (Nat.le_max_left ..)
    caching := ?_
    reserved := h.reserved_mark hmarked
    unmodified := by rintro ⟨⟩
    synced := fun hsynced => absurd hsynced hstate }⟩, rfl, rfl, rfl, hstate, ⟨_, hmarked.self⟩,
    fun q hq => ?_⟩
  · exact h.caching.mark hlookup hmarked (fun _ _ => Iff.rfl) id id
      (.inl (h.pageInJournal.mp hp)) hok.needSync fun hp hno => (hok.unsynced hp hno).1
  · rcases hq with hq | ⟨rfl, -⟩
    · exact hq
    · exact hp

/-- A page of the image was journaled, and waits for the sync. -/
theorem journaled (h : Txn C B W D P J sealed (some seg)) (hlookup : P.lookup pg.pgno = some pg)
    (hstate : P.state ≠ .SYNCED) (hno : pg.pgno ∉ pagesOf (sealed ++ [seg])) {D' : Disk}
    {J' : Storage UInt8} (hdb : D'.db = D.db) (hprot : Protected C B D' J' sealed)
    (hjournal : JournalOpen C B J' sealed { seg with recs := seg.recs ++ [⟨pg.pgno, pg.data⟩] }
      P.journalHdr (P.journalOff + C.journalPgSz)) :
    Written C B W D' P pg { (P.makeDirty pg.pgno).mapPage pg.pgno fun pg =>
        { pg with needSync := true } with
      dbModified := true
      dbSize := max P.dbSize pg.pgno
      journalOff := P.journalOff + C.journalPgSz
      needSync := true
      nRec := P.nRec + 1
      pInJournal := P.pInJournal.map (pg.pgno :: ·) } := by
  obtain ⟨l, hl, hmem⟩ := h.inJournal
  obtain ⟨hcksum, hnRec, -⟩ := h.filling seg rfl
  have hpages : ∀ q,
      q ∈ pagesOf (sealed ++ [{ seg with recs := seg.recs ++ [⟨pg.pgno, pg.data⟩] }]) ↔
        q ∈ pagesOf (sealed ++ [seg]) ∨ q = pg.pgno := by
    intro q
    simp [pagesOf, or_assoc]
  have hnsealed : pg.pgno ∉ pagesOf sealed := fun hmem => hno (mem_pagesOf_left hmem)
  have hmarked : ∀ P' : Pager, P'.cache = ((P.makeDirty pg.pgno).mapPage pg.pgno fun pg =>
      { pg with needSync := true }).cache → Marked P pg true P' := fun _ hcache =>
    (Marked.of_makeDirty h.caching.unique hlookup rfl).needSync hcache
  refine ⟨⟨J', sealed, _, { h with
    prot := hprot
    journal := hjournal
    nodup := ?_
    inJournal := ⟨pg.pgno :: l, by simp [hl], fun q => ?_⟩
    filling := ?_
    closed := by rintro ⟨⟩
    size := Nat.le_trans h.size (Nat.le_max_left ..)
    fileSize := hdb ▸ h.fileSize
    caching := ?_
    reserved := hdb ▸ h.reserved_mark (hmarked _ rfl)
    unmodified := by rintro ⟨⟩
    synced := fun hsynced => absurd hsynced hstate }⟩, rfl, rfl, rfl, hstate,
    ⟨true, (hmarked _ rfl).self⟩, fun q hq => ?_⟩
  · -- the page is the only new one
    show (pagesOf (sealed ++ [{ seg with recs := seg.recs ++ [⟨pg.pgno, pg.data⟩] }])).Nodup
    have hnodup : (pagesOf (sealed ++ [seg]) ++ [pg.pgno]).Nodup := by
      refine List.Nodup.append h.nodup (List.nodup_singleton _) ?_
      exact List.disjoint_singleton.mpr hno
    simpa [pagesOf] using hnodup
  · refine Iff.trans ?_ (hpages q).symm
    rw [List.mem_cons, hmem q]
    exact or_comm
  · rintro seg' ⟨⟩
    refine ⟨hcksum, ?_, fun _ => rfl⟩
    show P.nRec + 1 = (seg.recs ++ [_]).length
    rw [hnRec, List.length_append]
    rfl
  · rw [hdb]
    refine h.caching.mark hlookup (hmarked _ rfl) (fun q hq => ?_) (fun hp => absurd hp hno)
      (fun _ => rfl) (.inl ((hpages _).mpr (.inr rfl))) (fun _ => ⟨rfl, hnsealed⟩) fun _ _ => rfl
    refine (hpages q).trans ?_
    simp [hq]
  · unfold Pager.pageInJournal at hq ⊢
    dsimp only
    rw [hl, Option.map_some, Option.getD_some, List.contains_iff_mem, List.mem_cons]
    rw [hl, Option.getD_some, List.contains_iff_mem] at hq
    rcases hq with hq | ⟨rfl, -⟩
    · exact .inr hq
    · exact .inl rfl

/-- A new page is not journaled, since a rollback cuts it off. -/
theorem pageInJournal_new (hlt : B.n < pg.pgno) {q : Nat}
    (hq : P.pageInJournal q = true ∨ q = pg.pgno ∧ q ≤ B.n) : P.pageInJournal q = true := by
  rcases hq with hq | ⟨rfl, hle⟩
  · exact hq
  · omega

/-- When the journal was synced, a new page may be written to the file at any time. -/
theorem newSynced (h : Txn C B W D P J sealed (some seg)) (hlookup : P.lookup pg.pgno = some pg)
    (hstate : P.state ≠ .SYNCED) (hno : pg.pgno ∉ pagesOf (sealed ++ [seg]))
    (hlt : B.n < pg.pgno) (hstarted : P.journalStarted = true) :
    Written C B W D P pg
      { P.makeDirty pg.pgno with dbModified := true, dbSize := max P.dbSize pg.pgno } := by
  have hok := h.caching.page _ pg hlookup
  have hmarked : Marked P pg pg.needSync
      { P.makeDirty pg.pgno with dbModified := true, dbSize := max P.dbSize pg.pgno } :=
    .of_makeDirty h.caching.unique hlookup rfl
  refine ⟨⟨J, sealed, seg, { h with
    size := Nat.le_trans h.size (Nat.le_max_left ..)
    caching := ?_
    reserved := h.reserved_mark hmarked
    unmodified := by rintro ⟨⟩
    synced := fun hsynced => absurd hsynced hstate }⟩,
    rfl, rfl, rfl, hstate, ⟨_, hmarked.self⟩, fun q => pageInJournal_new hlt⟩
  exact h.caching.mark hlookup hmarked (fun _ _ => Iff.rfl) id id
    (.inr ⟨hlt, fun _ => h.started.mp hstarted⟩) hok.needSync fun hp => absurd hp hno

/-- When it was not journaled, the page waits for the sync. -/
theorem newUnsynced (h : Txn C B W D P J sealed (some seg)) (hlookup : P.lookup pg.pgno = some pg)
    (hstate : P.state ≠ .SYNCED) (hno : pg.pgno ∉ pagesOf (sealed ++ [seg]))
    (hlt : B.n < pg.pgno) :
    Written C B W D P pg { (P.makeDirty pg.pgno).mapPage pg.pgno fun pg =>
        { pg with needSync := true } with
      dbModified := true
      dbSize := max P.dbSize pg.pgno
      needSync := true } := by
  obtain ⟨hcksum, hnRec, -⟩ := h.filling seg rfl
  have hnsealed : pg.pgno ∉ pagesOf sealed := fun hmem => hno (mem_pagesOf_left hmem)
  have hmarked : ∀ P' : Pager, P'.cache = ((P.makeDirty pg.pgno).mapPage pg.pgno fun pg =>
      { pg with needSync := true }).cache → Marked P pg true P' := fun _ hcache =>
    (Marked.of_makeDirty h.caching.unique hlookup rfl).needSync hcache
  refine ⟨⟨J, sealed, seg, { h with
    filling := ?_
    closed := by rintro ⟨⟩
    size := Nat.le_trans h.size (Nat.le_max_left ..)
    caching := ?_
    reserved := h.reserved_mark (hmarked _ rfl)
    unmodified := by rintro ⟨⟩
    synced := fun hsynced => absurd hsynced hstate }⟩,
    rfl, rfl, rfl, hstate, ⟨_, (hmarked _ rfl).self⟩, fun q => pageInJournal_new hlt⟩
  · rintro seg' ⟨⟩
    exact ⟨hcksum, hnRec, fun _ => rfl⟩
  · exact h.caching.mark hlookup (hmarked _ rfl) (fun _ _ => Iff.rfl) id (fun _ => rfl)
      (.inr ⟨hlt, by rintro ⟨⟩⟩) (fun _ => ⟨rfl, hnsealed⟩) fun _ _ => rfl

/-- There is room for another record, since no page is recorded twice. -/
theorem length_lt (h : Txn C B W D P J sealed (some seg)) (hB : B.Valid C) (hp : B.Used C p)
    (hno : p ∉ pagesOf (sealed ++ [seg])) : seg.recs.length < 2147483647 := by
  have hn := hB.n_le
  have hnodup : (p :: pagesOf (sealed ++ [seg])).Nodup := List.nodup_cons.mpr ⟨hno, h.nodup⟩
  have hsub : p :: pagesOf (sealed ++ [seg]) ⊆ List.range' 1 B.n := by
    intro q hq
    have hused : B.Used C q := by
      rcases List.mem_cons.mp hq with rfl | hq
      · exact hp
      · exact h.used_of_mem hq
    have h1 := hused.1
    have h2 := hused.2.1
    simp
    omega
  -- different pages of the image, and those are not as many
  have hle := (hnodup.subperm hsub).length_le
  have hlen : seg.recs.length ≤ (pagesOf (sealed ++ [seg])).length := by
    simp [pagesOf]
  rw [List.length_cons, List.length_range'] at hle
  omega

/-- **A page is journaled**, unless it is new, before it is marked. -/
theorem writeUnjournaled (hmove : move B B) (hB : B.Valid C)
    (h : Txn C B W D P J sealed (some seg)) (hlookup : P.lookup pg.pgno = some pg)
    (hstate : P.state ≠ .SYNCED) (hno : P.pageInJournal pg.pgno = false) :
    PagerSafe C move (writeUnjournaled C (P.makeDirty pg.pgno) pg) (fun x D' B' => B' = B ∧
      x.1 = .OK ∧ Written C B W D' P pg x.2) D B := by
  have hok := h.caching.page _ pg hlookup
  have hvalid := hok.valid
  have hnmem : pg.pgno ∉ pagesOf (sealed ++ [seg]) := fun hmem => by
    rw [h.pageInJournal.mpr hmem] at hno
    cases hno
  unfold Rollback.writeUnjournaled
  extract_lets P₀
  split
  · -- a page of the image goes into the journal
    next hle =>
    have hused : B.Used C pg.pgno := by
      refine ⟨hvalid.1, ?_, hvalid.2.2.1⟩
      rw [← h.orig]
      exact hle
    have hrecorded : B.Recorded C ⟨pg.pgno, pg.data⟩ := ⟨hused, hok.original hused hnmem⟩
    refine .bind ((JournalOpen.journalPage (P := P₀) hmove hB h.prot h.journal
      (h.filling seg rfl).1 hrecorded (h.length_lt hB hused hnmem)).imp ?_)
    rintro P₁ D₁ B ⟨rfl, hdisk, rfl, J₁, hprot, hjournal⟩
    exact ⟨rfl, rfl, h.journaled hlookup hstate hnmem hdisk.db hprot hjournal⟩
  · -- a new page does not
    next hgt =>
    have hlt : B.n < pg.pgno := by
      rw [← h.orig]
      exact Nat.not_le.mp hgt
    split
    · next hstarted =>
      refine .bind ?_
      exact ⟨rfl, rfl, h.newSynced hlookup hstate hnmem hlt hstarted⟩
    · refine .bind ?_
      exact ⟨rfl, rfl, h.newUnsynced hlookup hstate hnmem hlt⟩

end Txn

/-- There is nothing to do for a pager that has begun, or has not even a lock. -/
theorem begin_eq (hstate : P.state ≠ .SHARED) (hjournal : P.jfdOpen = true → 0 < P.journalOff)
    (exFlag : Bool) : sqlite3PagerBegin C P exFlag = Pure.pure (PagerRc.OK, P) := by
  unfold sqlite3PagerBegin
  rw [if_neg hstate, if_neg]
  rintro ⟨hopen, hzero⟩
  have hpos := hjournal hopen
  omega

/-- **`pager_write`** in a transaction that has its journal. -/
theorem Txn.pagerWrite (hmove : move B B) (hB : B.Valid C)
    (h : Txn C B W D P J sealed (some seg)) (hlookup : P.lookup p = some pg)
    (hstate : P.state ≠ .SYNCED) :
    PagerSafe C move (pagerWrite C P pg) (fun x D' B' => B' = B ∧ x.1 = .OK ∧
      Written C B W D' P pg x.2) D B := by
  have hpgno := Pager.lookup_pgno hlookup
  subst hpgno
  have hbegin := begin_eq (C := C) (P := P.makeDirty pg.pgno) (ne_shared h.state) (fun _ => by
    have hlt := JournalOpen.lt_size h.journal
    have hpos := C.sectorSize_pos
    show 0 < P.journalOff
    omega) false
  unfold Rollback.pagerWrite
  dsimp only
  cases hp : P.pageInJournal pg.pgno with
  | true =>
    rw [if_pos (show (P.makeDirty pg.pgno).pageInJournal pg.pgno = true from hp)]
    exact ⟨rfl, rfl, h.makeDirty hlookup hstate hp⟩
  | false =>
    have hp' : ¬(P.makeDirty pg.pgno).pageInJournal pg.pgno = true := by
      rw [show (P.makeDirty pg.pgno).pageInJournal pg.pgno = false from hp]
      decide
    rw [if_neg hp', hbegin]
    refine .bind ?_
    show PagerSafe C move (if P.jfdOpen = true then _ else _) _ D B
    rw [if_pos h.jfdOpen]
    refine .bind ?_
    exact h.writeUnjournaled hmove hB hlookup hstate hp

/-- **`pager_write`** before there is a journal creates it first. -/
theorem Reading.pagerWrite (hmove : move B B) (hB : B.Valid C) (h : Reading C B D P)
    (hres : PagerState.RESERVED.num ≤ P.state.num) (hlookup : P.lookup p = some pg) :
    PagerSafe C move (pagerWrite C P pg) (fun x D' B' => B' = B ∧ x.1 = .OK ∧
      ∃ P₀, P₀.dbSize = B.n ∧ P₀.changeCountDone = false ∧ Txn.Written C B B D' P₀ pg x.2) D B := by
  have hpgno := Pager.lookup_pgno hlookup
  subst hpgno
  have hjfdOpen : (P.makeDirty pg.pgno).jfdOpen = false := h.quiet.jfdOpen
  have hbegin := begin_eq (C := C) (P := P.makeDirty pg.pgno) (ne_shared hres) (fun hopen => by
    rw [hjfdOpen] at hopen
    cases hopen) false
  -- without a journal no page is in it
  have hp : ¬(P.makeDirty pg.pgno).pageInJournal pg.pgno = true := by
    unfold Pager.pageInJournal
    rw [show (P.makeDirty pg.pgno).pInJournal = none from h.quiet.pInJournal]
    simp
  unfold Rollback.pagerWrite
  dsimp only
  rw [if_neg hp, hbegin]
  refine .bind ?_
  show PagerSafe C move (if (P.makeDirty pg.pgno).jfdOpen = true then _ else _) _ D B
  rw [if_neg (by simp [hjfdOpen])]
  -- the first write opens the journal
  refine .bind ((safe_pagerOpenJournal (P := P.makeDirty pg.pgno) hmove h.intact h.state.1 h.size
    hjfdOpen).imp ?_)
  rintro ⟨rc, P₂⟩ D₂ B ⟨rfl, rfl, hdb, mxPgno, journalHdr, journalOff, cksumInit, J, hP₂, hprot,
    hjournal⟩
  dsimp only at hP₂
  subst hP₂
  have htxn := h.quiet.opened mxPgno hB h.intact hdb hres h.state.2 hprot hjournal
  refine (htxn.writeUnjournaled hmove hB hlookup h.state.2 rfl).imp ?_
  rintro x D' B ⟨rfl, hrc, hwritten⟩
  exact ⟨rfl, hrc, P.opened B.n mxPgno journalHdr journalOff cksumInit, rfl,
    h.quiet.changeCountDone, hwritten⟩

end Ecos.Sqlite.Rollback
