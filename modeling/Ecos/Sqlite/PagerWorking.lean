import Ecos.Sqlite.PagerWrite

namespace Ecos.Sqlite.Rollback

open Ecos.Lib Program

/-!
# A transaction between its calls

* `Txn.grow`, `Txn.modify`, `Txn.truncate`, `Txn.evict` — the image that the database is to become
  changes, or the cache does;
* `Working` — a transaction between two calls, and what the calls make of it;
  `Reading.begin` — there is one.
-/

variable {C : PagerConfig} {move : Image → Image → Prop} {B W : Image} {D : Disk}
  {P P' : Pager} {J : Storage UInt8} {sealed : List Segment} {tail : Option Segment}
  {p q : Nat} {pg : PgHdr} {isOpen : Bool}

/-! ### Pages and sizes -/

/-- Page `p` becomes `d`, and the number of pages stays. -/
def Image.set (W : Image) (p : Nat) (d : List UInt8) : Image :=
  { W with page := fun q => if q = p then d else W.page q }

/-- Page `p` belongs to the database; it is `d` if it is new. -/
def Image.write (W : Image) (p : Nat) (d : List UInt8) : Image :=
  if p ≤ W.n then W else { W.set p d with n := p }

/-- A page that is replaced by one of its length leaves the image valid. -/
theorem Image.Valid.set (h : W.Valid C) {d : List UInt8} (hd : d.length = C.pageSize) :
    (W.set p d).Valid C where
  length_page q := by
    show (if q = p then d else W.page q).length = C.pageSize
    split
    · exact hd
    · exact h.length_page q
  n_le := h.n_le
  n_ne := h.n_ne

/-- A page that is written leaves the image valid, also when it is the next one. -/
theorem Image.Valid.write (h : W.Valid C) (hpg : pg.Valid C) :
    (W.write pg.pgno pg.data).Valid C := by
  unfold Image.write
  split
  · exact h
  · exact ⟨(h.set hpg.2.2.2).length_page, hpg.2.1, hpg.2.2.1⟩

/-- A page that is written is one of the image, which does not shrink. -/
theorem Image.le_n_write {d : List UInt8} : W.n ≤ (W.write p d).n ∧ p ≤ (W.write p d).n := by
  unfold Image.write
  split
  · next hle => exact ⟨Nat.le_refl _, hle⟩
  · next hlt => exact ⟨Nat.le_of_not_le hlt, Nat.le_refl _⟩

/-- Page `p` is the next one, or there already: no page of data is left out between. -/
def NextPage (C : PagerConfig) (n p : Nat) : Prop := ∀ q, n < q → q < p → q = C.mjPgno

namespace Txn

/-- A page that was written belongs to the database, which may grow by it. -/
theorem grow (h : Txn C B W D P J sealed tail) (hlookup : P.lookup pg.pgno = some pg)
    (hdirty : pg.dirty = true) (hle : pg.pgno ≤ P.dbSize) (hgap : NextPage C W.n pg.pgno)
    (hmod : P.dbModified = true) (hstate : P.state ≠ .SYNCED) :
    Txn C B (W.write pg.pgno pg.data) D P J sealed tail := by
  unfold Image.write
  split
  · exact h
  next hlt =>
  have hok := h.caching.page _ pg hlookup
  refine { h with
    size := hle
    caching := ?_
    unmodified := fun hno => ?_
    synced := fun hsynced => absurd hsynced hstate }
  · refine h.caching.update (p := pg.pgno) h.caching.unique (fun _ _ => rfl) (fun _ _ => Iff.rfl) id
      (fun q hq hused => ⟨⟨hused.1, ?_, hused.2.2⟩, if_neg hq⟩) (fun _ _ _ => id)
      (fun pg' hpg' => ?_) fun hnone => ?_
    -- between the old end and the new page there is nothing that is used
    · rcases Nat.lt_or_ge W.n q with hq' | hq'
      · exact absurd (hgap q hq' (Nat.lt_of_le_of_ne hused.2.1 hq)) hused.2.2
      · exact hq'
    · obtain rfl := Option.some.inj (hlookup.symm.trans hpg')
      refine { hok with current := fun _ => (if_pos rfl).symm, written := fun _ hclean => ?_ }
      rw [hdirty] at hclean
      cases hclean
    · rw [hlookup] at hnone
      cases hnone
  · rw [hmod] at hno
    cases hno

/-- A page is changed that may be changed. -/
theorem modify (h : Txn C B W D P J sealed tail) {f : PgHdr → PgHdr} {d : List UInt8}
    (hlookup : P.lookup p = some pg) (hdirty : pg.dirty = true) (hf : ∀ pg, (f pg).pgno = pg.pgno)
    (hfpg : f pg = { pg with data := d }) (hd : d.length = C.pageSize) :
    Txn C B (W.set p d) D (P.mapPage p f) J sealed tail := by
  have hok := h.caching.page p pg hlookup
  have hself : (P.mapPage p f).lookup p = some { pg with data := d } := by
    rw [Pager.lookup_mapPage_self hf hlookup, hfpg]
  -- a dirty page is in the journal, or was not in the file
  have hjournaled := hok.journaled hdirty
  refine { h with
    caching := ?_
    reserved := fun hres => ?_
    unmodified := fun hno => ?_
    synced := fun hsynced => ?_ }
  · refine h.caching.update (p := p) (h.caching.unique.mapPage hf) (fun q hq => ?_)
      (fun _ _ => Iff.rfl) id (fun q hq hused => ⟨hused, if_neg hq⟩) (fun _ _ _ => id)
      (fun pg' hpg' => ?_) fun hnone => ?_
    · exact Pager.lookup_mapPage_of_ne hf hq
    · obtain rfl := Option.some.inj (hself.symm.trans hpg')
      refine ⟨⟨hok.valid.1, hok.valid.2.1, hok.valid.2.2.1, hd⟩, fun _ => (if_pos rfl).symm,
        fun _ hclean => ?_, fun hused hno => ?_, hok.journaled, hok.synced, hok.needSync,
        hok.unsynced⟩
      · rw [show pg.dirty = false from hclean] at hdirty
        cases hdirty
      · rcases hjournaled with hmem | hlt
        · exact absurd hmem hno
        · exact absurd hused.2.1 (Nat.not_le.mpr hlt)
    · rw [hself] at hnone
      cases hnone
  · obtain ⟨h1, h2, -⟩ := h.reserved hres
    exact ⟨h1, h2, fun _ => ⟨_, Pager.mem_of_lookup hself, hdirty⟩⟩
  -- a pager with a dirty page has modified something, and has not written it
  · have hclean := (h.unmodified hno).2.2.2 pg (Pager.mem_of_lookup hlookup)
    rw [hdirty] at hclean
    cases hclean
  · have hclean := (h.synced hsynced).2 pg (Pager.mem_of_lookup hlookup)
    rw [hdirty] at hclean
    cases hclean

/-- The database is cut off, in memory; the journal has what is cut. -/
theorem truncate (h : Txn C B W D P J sealed tail) {m : Nat} (hm : m ≤ W.n)
    (hmod : P.dbModified = true) (hstate : P.state ≠ .SYNCED) :
    Txn C B { W with n := m } D (sqlite3PagerTruncateImage P m) J sealed tail := by
  have hused : ∀ q, Image.Used C { W with n := m } q → W.Used C q := fun q hq =>
    ⟨hq.1, Nat.le_trans hq.2.1 hm, hq.2.2⟩
  refine { h with
    size := Nat.le_refl _
    caching := ⟨h.caching.unique, fun p pg hpg => ?_, fun p hp => ?_⟩
    unmodified := fun hno => ?_
    synced := fun hsynced => absurd hsynced hstate }
  · have hok := h.caching.page p pg hpg
    exact ⟨hok.valid, fun hq => hok.current (hused p hq), fun hq => hok.written (hused p hq),
      hok.original, hok.journaled, hok.synced, hok.needSync, hok.unsynced⟩
  · have habsent := h.caching.absent p hp
    exact ⟨fun hq => habsent.1 (hused p hq), habsent.2⟩
  · rw [show P.dbModified = false from hno] at hmod
    cases hmod

/-- A clean page is dropped from the cache, for the file has it. -/
theorem evict (h : Txn C B W D P J sealed tail) (hlookup : P.lookup p = some pg)
    (hclean : pg.dirty = false) : Txn C B W D (P.drop p) J sealed tail := by
  have hok := h.caching.page p pg hlookup
  have hall : (∀ pg ∈ P.cache, pg.dirty = false) → ∀ pg ∈ (P.drop p).cache, pg.dirty = false :=
    fun hall pg hpg => hall pg (List.mem_of_mem_filter hpg)
  refine { h with
    caching := ?_
    reserved := fun hres => ?_
    unmodified := fun hno => ?_
    synced := fun hsynced => ?_ }
  · refine h.caching.update (p := p) h.caching.unique.drop (fun q hq => ?_) (fun _ _ => Iff.rfl) id
      (fun _ _ hq => ⟨hq, rfl⟩) (fun _ _ _ => id) (fun pg' hpg' => ?_) fun _ => ?_
    · rw [Pager.lookup_drop, if_neg hq]
    · rw [Pager.lookup_drop, if_pos rfl] at hpg'
      cases hpg'
    -- a clean page is in the file, and journaled if it has to be
    · refine ⟨fun hused => hok.written hused hclean, fun hmem => ?_⟩
      by_contra hno
      rw [(hok.unsynced hmem hno).2] at hclean
      cases hclean
  · obtain ⟨h1, h2, h3⟩ := h.reserved hres
    refine ⟨h1, h2, fun hmod => ?_⟩
    obtain ⟨pg', hpg', hdirty⟩ := h3 hmod
    -- the dirty page is another one
    refine ⟨pg', List.mem_filter.mpr ⟨hpg', decide_eq_true ?_⟩, hdirty⟩
    rintro rfl
    have hself := h.caching.unique.lookup hpg'
    rw [hlookup] at hself
    rw [Option.some.inj hself, hdirty] at hclean
    cases hclean
  · obtain ⟨h1, h2, h3, h4⟩ := h.unmodified hno
    exact ⟨h1, h2, h3, hall h4⟩
  · obtain ⟨h1, h2⟩ := h.synced hsynced
    exact ⟨h1, hall h2⟩

end Txn

/-- A page is dropped from the cache between transactions, when none is dirty. -/
theorem Quiet.drop (h : Quiet C B P) : Quiet C B (P.drop p) where
  unique := h.unique.drop
  valid pg hpg := h.valid pg (List.mem_of_mem_filter hpg)
  clean pg hpg := h.clean pg (List.mem_of_mem_filter hpg)
  cached q pg hq hpg := by
    rw [Pager.lookup_drop] at hpg
    split at hpg
    · cases hpg
    · exact h.cached q pg hq hpg
  flags := h.flags

/-- A page is dropped from the cache of a pager without a transaction. -/
theorem Outside.drop (h : Outside C B D P) : Outside C B D (P.drop p) := by
  rcases h with h | h
  · exact .inl ⟨h.quiet.drop, h.state, h.dbSizeValid, h.recoverable⟩
  · exact .inr ⟨h.quiet.drop, h.state, h.intact, h.size⟩

/-! ### The transaction, from outside -/

/-- A transaction between two calls: `W` is what the database is to become. -/
structure Working (C : PagerConfig) (B W : Image) (D : Disk) (P : Pager) : Prop where
  txn : ∃ isOpen, InTxn C B W D P isOpen ∧ (isOpen = false → P.changeCountDone = true ∧
    ∀ p, W.n < p → B.Used C p → P.pageInJournal p = true)
  valid : W.Valid C
  size : P.dbSize = W.n
  pos : P.dbModified = true → 1 ≤ W.n
  synced : P.state = .SYNCED → P.changeCountDone = true

/-- In the middle of a transaction the committed image can be recovered. -/
theorem Working.recoverable (h : Working C B W D P) : Recoverable C B D := by
  obtain ⟨isOpen, ⟨J, sealed, tail, -, htxn⟩, -⟩ := h.txn
  exact htxn.recoverable

/-- A pager that may write has its journal open, or is yet to create it. -/
theorem Working.open (h : Working C B W D P) (hcount : P.changeCountDone = false) :
    (∃ J sealed seg, Txn C B W D P J sealed (some seg)) ∧ P.state ≠ .SYNCED := by
  refine ⟨?_, fun hstate => ?_⟩
  · obtain ⟨isOpen, ⟨J, sealed, tail, htail, htxn⟩, hclosed⟩ := h.txn
    cases tail with
    | some seg => exact ⟨J, sealed, seg, htxn⟩
    | none =>
      rw [(hclosed htail.symm).1] at hcount
      cases hcount
  · rw [h.synced hstate] at hcount
    cases hcount

/-- **Reading a page** in a transaction gives the page that it works on. -/
theorem Working.acquire (hmove : move B B) (hB : B.Valid C) (h : Working C B W D P)
    (hp : InTxn.Readable P p) :
    PagerSafe C move (sqlite3PagerAcquire C P p) (fun x D' B' => B' = B ∧
      AcquireRc C W.n p x.1 ∧ Working C B W D' x.2) D B := by
  obtain ⟨isOpen, hin, hclosed⟩ := h.txn
  refine (hin.acquire hmove hB hp).imp ?_
  rintro x D' B ⟨rfl, hsame, hin', hrc, -⟩
  rw [h.size] at hrc
  refine ⟨rfl, hrc, ⟨isOpen, hin', fun hno => ?_⟩, h.valid, hsame.dbSize.trans h.size,
    fun hmod => h.pos (hsame.dbModified ▸ hmod), fun hstate => ?_⟩
  · unfold Pager.pageInJournal
    rw [hsame.changeCountDone, hsame.pInJournal]
    exact hclosed hno
  · rw [hsame.changeCountDone]
    exact h.synced (not_not.mp fun hne => hsame.unsynced hne hstate)

/-- A page was written that is the next one, or was there already. -/
theorem Txn.Written.working {D' : Disk} (h : Txn.Written C B W D' P pg P') (hW : W.Valid C)
    (hsize : P.dbSize = W.n) (hgap : NextPage C W.n pg.pgno) :
    Working C B (W.write pg.pgno pg.data) D' P' := by
  obtain ⟨⟨J, sealed, seg, htxn⟩, hmod, hsize', hcount', hstate, ⟨needSync, hlookup⟩, -⟩ := h
  have hvalid := (htxn.caching.page _ _ hlookup).valid
  -- the image has the page from now on
  have hgrow := fun pg' (hpg' : P'.lookup pg'.pgno = some pg') => htxn.grow (W := W) hpg'
  have hgrown := hgrow { pg with dirty := true, needSync } hlookup rfl
    (hsize' ▸ Nat.le_max_right ..) hgap hmod hstate
  refine ⟨⟨true, ⟨J, sealed, _, rfl, hgrown⟩, by rintro ⟨⟩⟩, hW.write hvalid, ?_, fun _ => ?_,
    fun hsynced => absurd hsynced hstate⟩
  · rw [hsize', hsize]
    unfold Image.write
    split
    · next hle => exact Nat.max_eq_left hle
    · next hlt => exact Nat.max_eq_right (Nat.le_of_not_le hlt)
  · exact Nat.le_trans hvalid.1 Image.le_n_write.2

/-- **A page is written** in a transaction, and may be changed from then on. -/
theorem Working.pagerWrite (hmove : move B B) (hB : B.Valid C) (h : Working C B W D P)
    (hcount : P.changeCountDone = false) (hlookup : P.lookup p = some pg)
    (hgap : NextPage C W.n p) :
    PagerSafe C move (pagerWrite C P pg) (fun x D' B' => B' = B ∧ x.1 = .OK ∧
      Working C B (W.write p pg.data) D' x.2) D B := by
  obtain rfl := Pager.lookup_pgno hlookup
  obtain ⟨⟨J, sealed, seg, htxn⟩, hstate⟩ := h.open hcount
  refine (htxn.pagerWrite hmove hB hlookup hstate).imp ?_
  rintro x D' B ⟨rfl, hrc, hwritten⟩
  exact ⟨rfl, hrc, hwritten.working h.valid h.size hgap⟩

/-- **The first page is written**, by a pager that has the lock for it. -/
theorem Reading.write (hmove : move B B) (hB : B.Valid C) (h : Reading C B D P)
    (hres : PagerState.RESERVED.num ≤ P.state.num) (hlookup : P.lookup p = some pg)
    (hgap : NextPage C B.n p) :
    PagerSafe C move (Rollback.pagerWrite C P pg) (fun x D' B' => B' = B ∧ x.1 = .OK ∧
      Working C B (B.write p pg.data) D' x.2) D B := by
  obtain rfl := Pager.lookup_pgno hlookup
  refine (h.pagerWrite hmove hB hres hlookup).imp ?_
  rintro x D' B ⟨rfl, hrc, P₀, hsize, -, hwritten⟩
  exact ⟨rfl, hrc, hwritten.working hB hsize hgap⟩

namespace Working

/-- The content of a page is changed. -/
theorem modify (h : Working C B W D P) {d : List UInt8} (hlookup : P.lookup p = some pg)
    (hdirty : pg.dirty = true) (hd : d.length = C.pageSize) :
    Working C B (W.set p d) D (P.mapPage p fun pg => { pg with data := d }) := by
  obtain ⟨isOpen, ⟨J, sealed, tail, htail, htxn⟩, hclosed⟩ := h.txn
  exact ⟨⟨isOpen, ⟨J, sealed, tail, htail,
    htxn.modify hlookup hdirty (fun _ => rfl) rfl hd⟩, hclosed⟩, h.valid.set hd, h.size, h.pos,
    h.synced⟩

/-- The database is cut off, as its user asks for. -/
theorem truncateImage (h : Working C B W D P) (hcount : P.changeCountDone = false)
    (hmod : P.dbModified = true) {m : Nat} (hpos : 1 ≤ m) (hm : m ≤ P.dbSize)
    (hmj : m ≠ C.mjPgno) :
    Working C B { W with n := m } D (sqlite3PagerTruncateImage P m) := by
  obtain ⟨⟨J, sealed, seg, htxn⟩, hstate⟩ := h.open hcount
  have hle : m ≤ W.n := h.size ▸ hm
  exact ⟨⟨true, ⟨J, sealed, _, rfl, htxn.truncate hle hmod hstate⟩, by rintro ⟨⟩⟩,
    ⟨h.valid.length_page, Nat.le_trans hle h.valid.n_le, hmj⟩, rfl, fun _ => hpos,
    fun hsynced => absurd hsynced hstate⟩

/-- The cache makes room by itself, by a page that is clean. -/
theorem drop (h : Working C B W D P) (hlookup : P.lookup p = some pg) (hclean : pg.dirty = false) :
    Working C B W D (P.drop p) := by
  obtain ⟨isOpen, ⟨J, sealed, tail, htail, htxn⟩, hclosed⟩ := h.txn
  exact ⟨⟨isOpen, ⟨J, sealed, tail, htail, htxn.evict hlookup hclean⟩, hclosed⟩, h.valid, h.size,
    h.pos, h.synced⟩

/-- There is nothing to begin, for the lock is there already. -/
theorem begin (h : Working C B W D P) (exFlag : Bool) :
    sqlite3PagerBegin C P exFlag = Pure.pure (PagerRc.OK, P) := by
  obtain ⟨isOpen, ⟨J, sealed, tail, htail, htxn⟩, -⟩ := h.txn
  refine begin_eq (ne_shared htxn.state) (fun _ => ?_) exFlag
  have hpos := C.sectorSize_pos
  -- the journal has a header already
  have hjournal := htxn.journal
  unfold JournalAt at hjournal
  cases tail with
  | some seg =>
    have hlt := JournalOpen.lt_size hjournal
    omega
  | none =>
    obtain ⟨init, seg, e, -, -, -, -, m, hrecs, hm⟩ := hjournal.last
    have hend := hrecs.end_eq
    obtain rfl : m = P.journalOff := hm
    have hle := le_journalHdrOffset C e
    omega

end Working

/-- **A transaction is begun**, if the lock is granted, and otherwise nothing happened. -/
theorem Reading.begin (hmove : move B B) (hB : B.Valid C) (h : Reading C B D P) (exFlag : Bool) :
    PagerSafe C move (sqlite3PagerBegin C P exFlag) (fun x D' B' => B' = B ∧
      (x.1 = .OK ∨ x.1 = .BUSY) ∧ (Reading C B D' x.2 ∨ Working C B B D' x.2)) D B := by
  by_cases hstate : P.state = .SHARED
  swap
  · -- the transaction has begun
    rw [begin_eq hstate (fun hopen => by
      rw [h.quiet.jfdOpen] at hopen
      cases hopen)]
    exact ⟨rfl, .inl rfl, .inl h⟩
  have hrec := h.intact.recoverable
  unfold sqlite3PagerBegin
  rw [if_pos hstate]
  refine .bind (safe_lock hmove hrec fun granted => ?_)
  cases granted with
  | false => exact ⟨rfl, .inr rfl, .inl h⟩
  | true =>
    rw [if_neg (by decide)]
    extract_lets P₁
    -- the journal is opened, with the one lock or the other
    have hopen : ∀ P₂, P₂.cache = P.cache → P₂.flags = P.flags →
        (P₂.dbSizeValid = true → P₂.dbSize = B.n ∧ P₂.dbFileSize = B.n) →
        PagerState.RESERVED.num ≤ P₂.state.num → P₂.state ≠ .UNLOCK ∧ P₂.state ≠ .SYNCED →
        PagerSafe C move (pagerOpenJournal C P₂) (fun x D' B' => B' = B ∧
          (x.1 = .OK ∨ x.1 = .BUSY) ∧ (Reading C B D' x.2 ∨ Working C B B D' x.2)) D B := by
      intro P₂ hcache hflags hsize hres hstate₂
      have hquiet := h.quiet.congr hcache hflags
      refine (safe_pagerOpenJournal hmove h.intact hstate₂.1 hsize hquiet.jfdOpen).imp ?_
      rintro ⟨rc, P₃⟩ D₃ B ⟨rfl, rfl, hdb, mxPgno, journalHdr, journalOff, cksumInit, J, hP₃, hprot,
        hjournal⟩
      dsimp only at hP₃
      subst hP₃
      have htxn := hquiet.opened mxPgno hB h.intact hdb hres hstate₂.2 hprot hjournal
      refine ⟨rfl, .inl rfl, .inr ⟨⟨true, ⟨J, [], _, rfl, htxn⟩, by rintro ⟨⟩⟩, hB, rfl,
        fun hmod => ?_, fun hsynced => absurd hsynced hstate₂.2⟩⟩
      have hno := hquiet.dbModified
      rw [show P₂.dbModified = true from hmod] at hno
      cases hno
    have hreading : Reading C B D P₁ :=
      ⟨h.quiet.congr rfl rfl, ⟨by rintro ⟨⟩, by rintro ⟨⟩⟩, h.intact, h.size⟩
    cases exFlag with
    | false =>
      refine .bind ?_
      exact hopen P₁ rfl rfl h.size (Nat.le_refl _) hreading.state
    | true =>
      refine .bind ?_
      show PagerSafe C move (waitForExclusive P₁) _ D B
      unfold waitForExclusive
      rw [if_neg (show ¬PagerState.EXCLUSIVE.num ≤ PagerState.RESERVED.num by decide)]
      refine .bind (safe_lock hmove hrec fun granted => ?_)
      cases granted with
      | false =>
        -- the `RESERVED` lock is kept, without a journal
        exact ⟨rfl, .inr rfl, .inl hreading⟩
      | true =>
        exact hopen { P₁ with state := .EXCLUSIVE } rfl rfl h.size (Nat.le_of_ble_eq_true rfl)
          ⟨by rintro ⟨⟩, by rintro ⟨⟩⟩

end Ecos.Sqlite.Rollback
