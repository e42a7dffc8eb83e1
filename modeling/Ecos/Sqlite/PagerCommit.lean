import Ecos.Sqlite.PagerWorking

namespace Ecos.Sqlite.Rollback

open Ecos.Lib Program

/-!
# The end of a transaction

* `Working.pagerIncrChangecounter`, `InTxn.journalCut` — the last changes, and the pages that are
  cut off;
* `Txn.cleanAll`, `Txn.pagerTruncate`, `Txn.resizeAndSync` — the file becomes the new image;
* `Working.commitPhaseOne`, `Working.commitPhaseTwo` — a commit;
* `Txn.rolling`, `Working.rollback` — a rollback by the process itself.
-/

variable {C : PagerConfig} {move : Image → Image → Prop} {B W : Image} {D : Disk} {P : Pager}
  {J : Storage UInt8} {sealed : List Segment} {tail : Option Segment} {p q : Nat} {pg : PgHdr}
  {isOpen : Bool}

/-! ### The change counter -/

/-- A page that is there is fetched, and journaled. -/
theorem InTxn.getAndWrite (hmove : move B B) (hB : B.Valid C) (h : InTxn C B W D P true)
    (hstate : P.state ≠ .SYNCED) (hle : p ≤ P.dbSize) (hpos : 1 ≤ p) (hmax : p ≤ 2147483647)
    (hmj : p ≠ C.mjPgno) :
    PagerSafe C move (getAndWrite C P p) (fun x D' B' => B' = B ∧ x.1 = .OK ∧
      InTxn C B W D' x.2 true ∧ x.2.dbModified = true ∧ x.2.state ≠ .SYNCED ∧
      x.2.dbSize = P.dbSize ∧ x.2.changeCountDone = P.changeCountDone ∧
      (∃ pg, x.2.lookup p = some pg ∧ pg.dirty = true) ∧
      ∀ q, P.pageInJournal q = true ∨ q = p ∧ q ≤ B.n → x.2.pageInJournal q = true) D B := by
  unfold Rollback.getAndWrite
  refine .bind ((h.acquire hmove hB (.inl hle)).imp ?_)
  rintro ⟨rc, P₁⟩ D₁ B ⟨rfl, hsame, ⟨J, sealed, tail, htail, htxn⟩, -, hsome, hok⟩
  obtain rfl : rc = .OK := hok hle hpos hmax hmj
  obtain ⟨pg, hlookup⟩ := Option.isSome_iff_exists.mp (hsome rfl)
  obtain ⟨seg, rfl⟩ := Option.isSome_iff_exists.mp htail
  obtain rfl := Pager.lookup_pgno hlookup
  dsimp -zeta only at hlookup hsame ⊢
  rw [if_neg (fun hne => hne rfl), hlookup]
  refine (htxn.pagerWrite hmove hB hlookup (hsame.unsynced hstate)).imp ?_
  rintro ⟨rc, P₂⟩ D₂ B ⟨rfl, rfl, ⟨J, sealed, seg, htxn₂⟩, hmod, hsize, hcount, hstate₂,
    ⟨needSync, hlookup₂⟩, hjournaled⟩
  refine ⟨rfl, rfl, ⟨J, sealed, _, rfl, htxn₂⟩, hmod, hstate₂, ?_,
    hcount.trans hsame.changeCountDone, ⟨_, hlookup₂, rfl⟩, fun q hq => hjournaled q ?_⟩
  · rw [hsize, hsame.dbSize]
    exact Nat.max_eq_left hle
  · unfold Pager.pageInJournal at hq ⊢
    rw [hsame.pInJournal]
    exact hq

/-- Setting the change counter leaves the page as long as it was. -/
theorem length_setCounter {data : List UInt8} (hlen : data.length = C.pageSize) (v : BitVec 32) :
    (setCounter data v).length = C.pageSize := by
  have hge := C.pageSize_ge
  unfold setCounter
  simp
  omega

/-- The change counter on page 1 may be another one. -/
def Image.Counted (W W' : Image) : Prop :=
  W' = W ∨ ∃ v, W' = W.set 1 (setCounter (W.page 1) v)

/-- Page 1 is not the one with the lock bytes. -/
theorem one_ne_mjPgno : 1 ≠ C.mjPgno := by
  have hle := C.pageSize_le
  have hdiv : 0x40000000 / 32768 ≤ 0x40000000 / C.pageSize :=
    Nat.div_le_div_left hle C.pageSize_pos
  unfold PagerConfig.mjPgno
  omega

/-- **The change counter** is set, once in a transaction. -/
theorem Working.pagerIncrChangecounter (hmove : move B B) (hB : B.Valid C) (h : Working C B W D P)
    (hmod : P.dbModified = true) (hstate : P.state ≠ .SYNCED) :
    PagerSafe C move (pagerIncrChangecounter C P) (fun x D' B' => B' = B ∧ x.1 = .OK ∧
      x.2.dbModified = true ∧ x.2.state ≠ .SYNCED ∧ x.2.changeCountDone = true ∧
      ∃ W', W.Counted W' ∧ W'.n = W.n ∧ Working C B W' D' x.2) D B := by
  have hpos := h.pos hmod
  unfold Rollback.pagerIncrChangecounter
  cases hcount : P.changeCountDone with
  | true =>
    rw [if_pos (.inl rfl)]
    exact ⟨rfl, rfl, hmod, hstate, hcount, W, .inl rfl, rfl, h⟩
  | false =>
    have hsize := h.size
    have hne : ¬(false = true ∨ P.dbSize = 0) := by
      simp
      omega
    rw [if_neg hne]
    -- the counter is set first, while the journal still takes pages
    obtain ⟨⟨J, sealed, seg, htxn⟩, -⟩ := h.open hcount
    have hin : InTxn C B W D P true := ⟨J, sealed, _, rfl, htxn⟩
    refine .bind ((hin.getAndWrite hmove hB hstate (by omega) (Nat.le_refl 1) (by decide)
      one_ne_mjPgno).imp ?_)
    rintro ⟨rc, P₁⟩ D₁ B ⟨rfl, rfl, ⟨J, sealed, tail, htail, htxn₁⟩, hmod₁, hstate₁, hsize₁, -,
      ⟨pg, hlookup, hdirty⟩, -⟩
    dsimp -zeta only at htxn₁ hmod₁ hstate₁ hsize₁ hlookup ⊢
    rw [if_neg (fun hne => hne rfl)]
    extract_lets changeCounter
    -- the page that is changed is the one of the image
    have hok := htxn₁.caching.page 1 pg hlookup
    have hdata : pg.data = W.page 1 := hok.current ⟨Nat.le_refl 1, hpos, one_ne_mjPgno⟩
    have hlen := length_setCounter (h.valid.length_page 1) changeCounter
    have hmodify := htxn₁.modify
      (f := fun pg => { pg with data := setCounter pg.data changeCounter })
      hlookup hdirty (fun _ => rfl) (by rw [hdata]) hlen
    refine ⟨rfl, rfl, hmod₁, hstate₁, rfl, _, .inr ⟨changeCounter, rfl⟩, rfl, ?_⟩
    refine ⟨⟨true, ⟨J, sealed, tail, htail,
      { hmodify with caching := hmodify.caching.congr rfl rfl }⟩, by rintro ⟨⟩⟩, h.valid.set hlen,
      hsize₁.trans hsize, fun _ => hpos, fun _ => rfl⟩

/-! ### The pages that are cut off -/

/-- **The pages that are cut off** are journaled, so that a rollback can bring them back. -/
theorem InTxn.journalCut (hmove : move B B) (hB : B.Valid C) {is : List Nat}
    (h : InTxn C B W D P isOpen) (hmod : P.dbModified = true) (hstate : P.state ≠ .SYNCED)
    (hsize : P.dbSize = B.n) (his : ∀ i ∈ is, 1 ≤ i ∧ i ≤ B.n)
    (hclosed : isOpen = false → ∀ i ∈ is, B.Used C i → P.pageInJournal i = true) :
    PagerSafe C move (journalCut C P is) (fun x D' B' => B' = B ∧ x.1 = .OK ∧
      InTxn C B W D' x.2 isOpen ∧ x.2.dbModified = true ∧ x.2.state ≠ .SYNCED ∧
      x.2.changeCountDone = P.changeCountDone ∧
      (∀ q, P.pageInJournal q = true → x.2.pageInJournal q = true) ∧
      ∀ i ∈ is, B.Used C i → x.2.pageInJournal i = true) D B := by
  induction is generalizing P D with
  | nil =>
    exact ⟨rfl, rfl, h, hmod, hstate, rfl, fun _ => id, fun _ hi => absurd hi List.not_mem_nil⟩
  | cons i is ih =>
    obtain ⟨hpos, hle⟩ := his i (List.mem_cons_self ..)
    have his' := fun j hj => his j (List.mem_cons_of_mem _ hj)
    -- the rest of the loop, once page `i` is in the journal or need not be
    have hrest : ∀ {P₁ D₁}, InTxn C B W D₁ P₁ isOpen → P₁.dbModified = true → P₁.state ≠ .SYNCED →
        P₁.dbSize = B.n → P₁.changeCountDone = P.changeCountDone →
        (∀ q, P.pageInJournal q = true → P₁.pageInJournal q = true) →
        (B.Used C i → P₁.pageInJournal i = true) →
        PagerSafe C move (Rollback.journalCut C P₁ is) (fun x D' B' => B' = B ∧ x.1 = .OK ∧
          InTxn C B W D' x.2 isOpen ∧ x.2.dbModified = true ∧ x.2.state ≠ .SYNCED ∧
          x.2.changeCountDone = P.changeCountDone ∧
          (∀ q, P.pageInJournal q = true → x.2.pageInJournal q = true) ∧
          ∀ j ∈ i :: is, B.Used C j → x.2.pageInJournal j = true) D₁ B := by
      intro P₁ D₁ h₁ hmod₁ hstate₁ hsize₁ hcount₁ hkeep₁ hi₁
      refine (ih h₁ hmod₁ hstate₁ hsize₁ his' fun hno j hj hused => ?_).imp ?_
      · exact hkeep₁ j (hclosed hno j (List.mem_cons_of_mem _ hj) hused)
      · rintro x D' B ⟨rfl, hrc, h₂, hmod₂, hstate₂, hcount₂, hkeep₂, hin₂⟩
        refine ⟨rfl, hrc, h₂, hmod₂, hstate₂, hcount₂.trans hcount₁,
          fun q hq => hkeep₂ q (hkeep₁ q hq), fun j hj hused => ?_⟩
        rcases List.mem_cons.mp hj with rfl | hj
        · exact hkeep₂ j (hi₁ hused)
        · exact hin₂ j hj hused
    unfold Rollback.journalCut
    rw [List.foldlM_cons]
    refine .bind ?_
    dsimp -zeta only
    split
    · -- the page is in the journal already, or holds the lock bytes
      next hskip =>
      refine hrest h hmod hstate hsize rfl (fun _ => id) fun hused => ?_
      rcases hskip with hne | hin | hmj
      · exact absurd rfl hne
      · exact hin
      · exact absurd hmj hused.2.2
    · next hnew =>
      obtain ⟨-, hno, hmj⟩ : ¬PagerRc.OK ≠ .OK ∧ ¬P.pageInJournal i = true ∧ ¬i = C.mjPgno := by
        simpa [not_or] using hnew
      -- a closed journal has all pages that are cut off
      have hopen : isOpen = true := by
        by_contra hne
        exact hno (hclosed (Bool.eq_false_iff.mpr hne) i (List.mem_cons_self ..) ⟨hpos, hle, hmj⟩)
      subst hopen
      have hn := hB.n_le
      refine (h.getAndWrite hmove hB hstate (hsize ▸ hle) hpos (by omega) hmj).imp ?_
      rintro ⟨rc, P₁⟩ D₁ B ⟨rfl, rfl, h₁, hmod₁, hstate₁, hsize₁, hcount₁, -, hkeep₁⟩
      exact hrest h₁ hmod₁ hstate₁ (hsize₁.trans hsize) hcount₁ (fun q hq => hkeep₁ q (.inl hq))
        fun _ => hkeep₁ i (.inr ⟨rfl, hle⟩)

/-- The pager's `dbSize` may be larger for a while. -/
theorem Txn.resize (h : Txn C B W D P J sealed tail) {n : Nat} (hn : W.n ≤ n) :
    Txn C B W D { P with dbSize := n } J sealed tail :=
  { h with
    size := hn
    caching := h.caching.congr rfl rfl }

/-- **What is cut off** is in the journal then. -/
theorem Working.journalDiscarded (hmove : move B B) (hB : B.Valid C) (h : Working C B W D P)
    (hmod : P.dbModified = true) (hstate : P.state ≠ .SYNCED) (hcount : P.changeCountDone = true) :
    PagerSafe C move (journalDiscarded C P) (fun x D' B' => B' = B ∧ x.1 = .OK ∧
      x.2.dbModified = true ∧ x.2.state ≠ .SYNCED ∧ x.2.changeCountDone = true ∧
      x.2.dbSize = W.n ∧ (∃ isOpen, InTxn C B W D' x.2 isOpen) ∧
      ∀ p, W.n < p → B.Used C p → x.2.pageInJournal p = true) D B := by
  obtain ⟨isOpen, ⟨J, sealed, tail, htail, htxn⟩, hclosed⟩ := h.txn
  have hsize := h.size
  have horig := htxn.orig
  unfold Rollback.journalDiscarded
  split
  · -- the loop runs with the old size, so that it may fetch the pages
    next hlt =>
    have hin : InTxn C B W D { P with dbSize := P.dbOrigSize } isOpen :=
      ⟨J, sealed, tail, htail, htxn.resize (by omega)⟩
    refine .bind ((hin.journalCut hmove hB hmod hstate horig (fun i hi => ?_)
      fun hno i hi hused => ?_).imp ?_)
    · rw [List.mem_range'_1] at hi
      omega
    · rw [List.mem_range'_1] at hi
      exact (hclosed hno).2 i (by omega) hused
    · rintro ⟨rc, P₁⟩ D₁ B
        ⟨rfl, rfl, ⟨J, sealed, tail, htail, htxn₁⟩, hmod₁, hstate₁, hcount₁, -, hcut⟩
      refine ⟨rfl, rfl, hmod₁, hstate₁, hcount₁.trans hcount, hsize,
        ⟨isOpen, J, sealed, tail, htail, htxn₁.resize (Nat.le_of_eq hsize.symm)⟩,
        fun p hp hused => ?_⟩
      have hle := hused.2.1
      refine hcut p ?_ hused
      rw [List.mem_range'_1]
      omega
  · -- nothing is cut off
    next hge =>
    refine ⟨rfl, rfl, hmod, hstate, hcount, hsize, ⟨isOpen, J, sealed, tail, htail, htxn⟩,
      fun p hp hused => ?_⟩
    have hle := hused.2.1
    omega

/-! ### The file -/

namespace Txn

/-- The journal is synced, whether or not it had to be. -/
theorem settle (hmove : move B B) (hB : B.Valid C) (h : Txn C B W D P J sealed tail) :
    PagerSafe C move (Rollback.syncJournal C P) (fun P' D' B' => B' = B ∧ SameTxn P P' ∧
      P'.needSync = false ∧ ∃ J' sealed' tail', Txn C B W D' P' J' sealed' tail' ∧
        ∀ p ∈ pagesOf (sealed' ++ tail'.toList), p ∈ pagesOf sealed') D B := by
  refine (h.syncJournal hmove hB).imp ?_
  rintro P' D' B ⟨rfl, ⟨hneed, rfl, rfl⟩ | ⟨-, rfl, -, J', seg, -, htxn⟩⟩
  · refine ⟨rfl, ⟨rfl, rfl, rfl, rfl, rfl, id⟩, hneed, J, sealed, tail, h, fun p hp => ?_⟩
    rw [pagesOf_append] at hp
    refine (List.mem_append.mp hp).resolve_right fun hmem => ?_
    cases tail with
    | none => exact List.not_mem_nil hmem
    | some seg =>
      -- a segment with records would have to be synced
      by_cases hnil : seg.recs = []
      · simp [pagesOf, hnil] at hmem
      · rw [(h.filling seg rfl).2.2 hnil] at hneed
        cases hneed
  · refine ⟨rfl, ⟨rfl, rfl, rfl, rfl, rfl, id⟩, rfl, J', sealed ++ [seg], none, htxn,
      fun p hp => ?_⟩
    simpa using hp

/-- All dirty pages may be written when the journal has been synced. -/
theorem writable_dirtyList (h : Txn C B W D P J sealed tail) (hneed : P.needSync = false) :
    ∀ pg ∈ P.dirtyList, Writable P pg := by
  intro pg hpg
  obtain ⟨hmem, hdirty⟩ := Pager.mem_dirtyList.mp hpg
  have hlookup := h.caching.unique.lookup hmem
  refine ⟨pg, hlookup, rfl, hdirty, ?_⟩
  by_contra hsync
  rw [((h.caching.page _ pg hlookup).needSync (by simpa using hsync)).1] at hneed
  cases hneed

/-- The pages that were dirty are in the file. -/
theorem cleanAll (h : Txn C B W D P J sealed tail)
    (hexcl : PagerState.EXCLUSIVE.num ≤ P.state.num)
    (hall : ∀ p ∈ pagesOf (sealed ++ tail.toList), p ∈ pagesOf sealed)
    (hhas : ∀ pg ∈ P.cache, pg.dirty = true → pg.pgno ≤ P.dbSize →
      HasPage C D.db.cur pg.pgno pg.data) :
    Txn C B W D P.cleanAll J sealed tail ∧ ∀ pg ∈ P.cleanAll.cache, pg.dirty = false := by
  have hclean : ∀ pg ∈ P.cleanAll.cache, pg.dirty = false := by
    intro pg hpg
    obtain ⟨pg', -, rfl⟩ := List.mem_map.mp hpg
    rfl
  refine ⟨{ h with
    caching := ⟨h.caching.unique.cleanAll, fun p pg hpg => ?_, fun p hp => ?_⟩
    reserved := fun hres => ?_
    unmodified := fun hno => ?_
    synced := fun hsynced => ?_ }, hclean⟩
  · rw [Pager.lookup_cleanAll] at hpg
    obtain ⟨pg', hpg', rfl⟩ := Option.map_eq_some_iff.mp hpg
    obtain rfl := Pager.lookup_pgno hpg'
    have hok := h.caching.page _ pg' hpg'
    refine ⟨hok.valid, hok.current, fun hused _ => ?_, hok.original, ?_, ?_, ?_,
      fun hmem hno => absurd (hall _ hmem) hno⟩
    · cases hdirty : pg'.dirty with
      | true =>
        rw [← hok.current hused]
        exact hhas pg' (Pager.mem_of_lookup hpg') hdirty (Nat.le_trans hused.2.1 h.size)
      | false => exact hok.written hused hdirty
    · rintro ⟨⟩
    · rintro ⟨⟩
    · rintro ⟨⟩
  · rw [Pager.lookup_cleanAll, Option.map_eq_none_iff] at hp
    exact h.caching.absent p hp
  · exact absurd hres (not_reserved hexcl)
  · obtain ⟨h1, h2, h3, -⟩ := h.unmodified hno
    exact ⟨h1, h2, h3, hclean⟩
  · exact ⟨(h.synced hsynced).1, hclean⟩

/-- The file has the new image when no page is dirty. -/
theorem hasAll (h : Txn C B W D P J sealed tail) (hclean : ∀ pg ∈ P.cache, pg.dirty = false)
    (hp : W.Used C p) : HasPage C D.db.cur p (W.page p) := by
  cases hlookup : P.lookup p with
  | none => exact (h.caching.absent p hlookup).1 hp
  | some pg =>
    exact (h.caching.page p pg hlookup).written hp (hclean pg (Pager.mem_of_lookup hlookup))

/-- **The file gets its size**, if that is another one. -/
theorem pagerTruncate (hmove : move B B) (hB : B.Valid C) (h : Txn C B W D P J sealed tail)
    (hexcl : PagerState.EXCLUSIVE.num ≤ P.state.num) (hmod : P.dbModified = true)
    (hstate : P.state ≠ .SYNCED) (hclean : ∀ pg ∈ P.cache, pg.dirty = false) (hW : W.Valid C)
    (hpos : 1 ≤ W.n) (hcut : ∀ q, W.n < q → B.Used C q → q ∈ pagesOf sealed)
    (hne : W.n ≠ P.dbFileSize) :
    PagerSafe C move (pagerTruncate C P W.n) (fun P' D' B' => B' = B ∧
      (∃ dbFileSize, P' = { P with dbFileSize }) ∧ Txn C B W D' P' J sealed tail ∧
      D'.db.cur.size = W.n * C.pageSize) D B := by
  have hpages := C.pageSize_pos
  have hfile := h.fileSize
  have hlast := (h.hasAll hclean (p := W.n) ⟨hpos, Nat.le_refl _, hW.n_ne⟩).1
  have hsize : C.pageSize * W.n = W.n * C.pageSize := Nat.mul_comm ..
  have hneq : W.n * C.pageSize ≠ P.dbFileSize * C.pageSize := fun heq =>
    hne (Nat.eq_of_mul_eq_mul_right hpages heq)
  unfold Rollback.pagerTruncate
  rw [if_neg (Nat.not_lt.mpr hexcl)]
  refine .bind (safe_fileSize hmove h.recoverable ?_)
  extract_lets newSize
  have hlt : newSize < (D.file .db).cur.size := by
    show C.pageSize * W.n < D.db.cur.size
    omega
  rw [if_neg (Nat.ne_of_gt hlt), if_pos hlt]
  refine .bind (safe_truncate hmove h.recoverable ?_)
  -- the pages behind the end are in the journal
  have hholds : DbHolds C B (pagesOf sealed) (D.db.cur.truncate newSize) := by
    refine h.prot.holds.truncate (fun _ => hpos) fun q hq hno => ?_
    by_contra hlt
    exact hno (hcut q (Nat.not_le.mp hlt) hq)
  refine ⟨rfl, ⟨W.n, rfl⟩, { h with
    prot := h.prot.update_db hholds fun hnil => ?_
    fileSize := hsize
    fileSize_ne := hW.n_ne
    caching := ⟨h.caching.unique, fun p pg hpg => ?_, fun p hp => ?_⟩
    reserved := fun hres => ?_
    unmodified := fun hno => ?_
    synced := fun hsynced => absurd hsynced hstate }, hsize⟩
  · -- with an empty journal, nothing was cut off, nor was anything added
    exfalso
    have hwhole := h.prot.whole hnil _ cur_mem_dbVersions
    have hle : W.n ≤ B.n := Nat.le_of_mul_le_mul_right (hwhole ▸ hlast) hpages
    rcases Nat.lt_or_eq_of_le hle with hlt | heq
    · have hmem := hcut B.n hlt ⟨by omega, Nat.le_refl _, hB.n_ne⟩
      rw [hnil] at hmem
      exact List.not_mem_nil hmem
    · rw [← heq, hfile] at hwhole
      exact hneq hwhole.symm
  · have hok := h.caching.page p pg hpg
    exact { hok with
      written := fun hused hc => (hok.written hused hc).truncate hused.1 hused.2.1 }
  · obtain ⟨h1, h2⟩ := h.caching.absent p hp
    exact ⟨fun hused => (h1 hused).truncate hused.1 hused.2.1, h2⟩
  · exact absurd hres (not_reserved hexcl)
  · rw [show P.dbModified = false from hno] at hmod
    cases hmod

/-- **The file is synced**, and has the size of the new image. -/
theorem syncDb (h : Txn C B W D P J sealed tail) (hmod : P.dbModified = true)
    (hclean : ∀ pg ∈ P.cache, pg.dirty = false) (hsize : D.db.cur.size = W.n * C.pageSize) :
    Txn C B W (D.sync .db) { P with state := .SYNCED } J sealed tail := by
  have hversions : ∀ v ∈ (D.sync .db).dbVersions, v = D.db.cur := fun v hv =>
    Storage.mem_versions_synced.mp hv
  refine { h with
    prot := ⟨h.prot.journal, h.prot.safe, fun v hv => ?_, fun hnil v hv => ?_⟩
    state := Nat.le_of_ble_eq_true rfl
    caching := h.caching.congr rfl rfl
    reserved := by rintro ⟨⟩
    unmodified := fun hno => ?_
    synced := fun _ => ⟨⟨hsize, rfl, rfl, rfl⟩, hclean⟩ }
  · rw [hversions v hv]
    exact h.prot.holds
  · rw [hversions v hv]
    exact h.prot.whole hnil _ cur_mem_dbVersions
  · rw [show P.dbModified = false from hno] at hmod
    cases hmod

/-- **The end of the first phase.**  The file gets its new size, and is synced. -/
theorem resizeAndSync (hmove : move B B) (hB : B.Valid C) (h : Txn C B W D P J sealed tail)
    (hexcl : PagerState.EXCLUSIVE.num ≤ P.state.num) (hmod : P.dbModified = true)
    (hstate : P.state ≠ .SYNCED) (hcount : P.changeCountDone = true) (hW : W.Valid C)
    (hpos : 1 ≤ W.n) (hsize : P.dbSize = W.n)
    (hall : ∀ p ∈ pagesOf (sealed ++ tail.toList), p ∈ pagesOf sealed)
    (hhas : ∀ pg ∈ P.cache, pg.dirty = true → pg.pgno ≤ P.dbSize →
      HasPage C D.db.cur pg.pgno pg.data)
    (hcut : ∀ p, W.n < p → B.Used C p → p ∈ pagesOf sealed) :
    PagerSafe C move (resizeAndSync C P) (fun x D' B' => B' = B ∧ x.1 = .OK ∧
      x.2.state = .SYNCED ∧ Working C B W D' x.2) D B := by
  obtain ⟨htxn, hclean⟩ := h.cleanAll hexcl hall hhas
  -- the sync, when the file has its size
  have hsync : ∀ {D₁ P₁}, Txn C B W D₁ P₁ J sealed tail → P₁.dbModified = true →
      P₁.changeCountDone = true → P₁.dbSize = W.n → (∀ pg ∈ P₁.cache, pg.dirty = false) →
      D₁.db.cur.size = W.n * C.pageSize →
      PagerSafe C move (do
        osSync .db
        return (PagerRc.OK, { P₁ with state := .SYNCED })) (fun x D' B' => B' = B ∧ x.1 = .OK ∧
          x.2.state = .SYNCED ∧ Working C B W D' x.2) D₁ B := by
    intro D₁ P₁ h₁ hmod₁ hcount₁ hsize₁ hclean₁ hfile₁
    refine .bind (safe_sync hmove h₁.recoverable ?_)
    have hsynced := h₁.syncDb hmod₁ hclean₁ hfile₁
    refine ⟨rfl, rfl, rfl,
      ⟨_, ⟨J, sealed, tail, rfl, hsynced⟩, fun _ => ⟨hcount₁, fun p hp hused => ?_⟩⟩,
      hW, hsize₁, fun _ => hpos, fun _ => hcount₁⟩
    exact hsynced.pageInJournal.mpr (mem_pagesOf_left (hcut p hp hused))
  unfold Rollback.resizeAndSync
  extract_lets P₀
  split
  · next hne =>
    rw [show P₀.dbSize = W.n from hsize, if_neg hW.n_ne, Nat.sub_zero]
    refine .bind ((htxn.pagerTruncate hmove hB hexcl hmod hstate hclean hW hpos hcut ?_).imp ?_)
    · intro heq
      exact hne (hsize.trans heq)
    · rintro P₁ D₁ B ⟨rfl, ⟨dbFileSize, rfl⟩, htxn₁, hfile⟩
      exact hsync htxn₁ hmod hcount hsize hclean hfile
  · next heq =>
    have heq : W.n = P.dbFileSize := hsize.symm.trans (not_not.mp heq)
    refine .bind ?_
    refine hsync htxn hmod hcount hsize hclean ?_
    rw [heq]
    exact h.fileSize

end Txn

/-- **The first phase**, of a transaction that changed something. -/
theorem Working.commitChanges (hmove : move B B) (hB : B.Valid C) (h : Working C B W D P)
    (hmod : P.dbModified = true) (hstate : P.state ≠ .SYNCED) :
    PagerSafe C move (commitChanges C P) (fun x D' B' => B' = B ∧
      (x.1 = .OK ∧ x.2.state = .SYNCED ∨ x.1 = .BUSY) ∧
      ∃ W', W.Counted W' ∧ Working C B W' D' x.2) D B := by
  unfold Rollback.commitChanges
  refine .bind ((h.pagerIncrChangecounter hmove hB hmod hstate).imp ?_)
  rintro ⟨rc, P₁⟩ D₁ B ⟨rfl, rfl, hmod₁, hstate₁, hcount₁, W', hcounted, hn, h₁⟩
  dsimp -zeta only at hmod₁ hstate₁ hcount₁ h₁ ⊢
  rw [if_neg (fun hne => hne rfl)]
  have hpos := h₁.pos hmod₁
  -- the image does not change any more
  refine .bind ((h₁.journalDiscarded hmove hB hmod₁ hstate₁ hcount₁).imp ?_)
  rintro ⟨rc, P₂⟩ D₂ B ⟨rfl, rfl, hmod₂, hstate₂, hcount₂, hsize₂,
    ⟨isOpen, J₂, sealed₂, tail₂, -, htxn₂⟩, hcut₂⟩
  dsimp -zeta only at hmod₂ hstate₂ hcount₂ hsize₂ htxn₂ hcut₂ ⊢
  rw [if_neg (fun hne => hne rfl)]
  refine .bind ((htxn₂.settle hmove hB).imp ?_)
  rintro P₃ D₃ B ⟨rfl, hsame, hneed, J₃, sealed₃, tail₃, htxn₃, hall⟩
  have hmod₃ := hsame.dbModified.trans hmod₂
  have hstate₃ := hsame.unsynced hstate₂
  have hcount₃ := hsame.changeCountDone.trans hcount₂
  have hsize₃ := hsame.dbSize.trans hsize₂
  have hcut₃ : ∀ p, W'.n < p → B.Used C p → P₃.pageInJournal p = true := by
    intro p hp hused
    unfold Pager.pageInJournal
    rw [hsame.pInJournal]
    exact hcut₂ p hp hused
  have hsealed : ∀ p, W'.n < p → B.Used C p → p ∈ pagesOf sealed₃ := fun p hp hused =>
    hall p (htxn₃.pageInJournal.mp (hcut₃ p hp hused))
  -- the end, when the dirty pages are in the file
  have hend : ∀ {P₄ D₄}, Txn C B W' D₄ P₄ J₃ sealed₃ tail₃ →
      PagerState.EXCLUSIVE.num ≤ P₄.state.num → P₄.dbModified = true → P₄.state ≠ .SYNCED →
      P₄.changeCountDone = true → P₄.dbSize = W'.n → (∀ pg ∈ P₄.cache, pg.dirty = true →
        pg.pgno ≤ P₄.dbSize → HasPage C D₄.db.cur pg.pgno pg.data) →
      PagerSafe C move (resizeAndSync C P₄) (fun x D' B' => B' = B ∧
        (x.1 = .OK ∧ x.2.state = .SYNCED ∨ x.1 = .BUSY) ∧
        ∃ W', W.Counted W' ∧ Working C B W' D' x.2) D₄ B := by
    intro P₄ D₄ htxn₄ hexcl hmod₄ hstate₄ hcount₄ hsize₄ hhas
    refine (htxn₄.resizeAndSync hmove hB hexcl hmod₄ hstate₄ hcount₄ h₁.valid hpos hsize₄ hall hhas
      hsealed).imp ?_
    rintro x D' B ⟨rfl, hrc, hstate', hworking⟩
    exact ⟨rfl, .inl ⟨hrc, hstate'⟩, W', hcounted, hworking⟩
  by_cases hnil : P₃.dirtyList = []
  · -- no page is dirty, so that one was written already, under the exclusive lock
    have hclean : ∀ pg ∈ P₃.cache, pg.dirty = false := by
      intro pg hpg
      by_contra hdirty
      have hmem := Pager.mem_dirtyList.mpr ⟨hpg, by simpa using hdirty⟩
      rw [hnil] at hmem
      exact List.not_mem_nil hmem
    have hexcl : PagerState.EXCLUSIVE.num ≤ P₃.state.num := by
      refine (reserved_or_exclusive htxn₃.state).resolve_left fun hst => ?_
      obtain ⟨pg, hpg, hdirty⟩ := (htxn₃.reserved hst).2.2 hmod₃
      rw [hclean pg hpg] at hdirty
      cases hdirty
    unfold Rollback.pagerWritePagelist
    rw [hnil, if_pos (by rfl)]
    refine .bind ?_
    refine hend htxn₃ hexcl hmod₃ hstate₃ hcount₃ hsize₃ fun pg hpg hdirty => ?_
    rw [hclean pg hpg] at hdirty
    cases hdirty
  · refine .bind ((htxn₃.pagerWritePagelist hmove hnil (htxn₃.writable_dirtyList hneed)).imp ?_)
    rintro ⟨rc, P₄⟩ D₄ B ⟨rfl, ⟨rfl, hexcl, ⟨_, _, _, hst, rfl⟩, htxn₄, hnew⟩ | ⟨rfl, heq⟩⟩
    · dsimp -zeta only
      rw [if_neg (fun hne => hne rfl)]
      refine hend htxn₄ hexcl hmod₃ ?_ hcount₃ hsize₃ fun pg hpg hdirty hle => ?_
      · rcases hst with rfl | rfl
        · exact hstate₃
        · rintro ⟨⟩
      · exact hnew pg (Pager.mem_dirtyList.mpr ⟨hpg, hdirty⟩) hle
    · -- there are readers: the transaction is as it was, with a closed journal
      obtain ⟨rfl, rfl⟩ := Prod.mk.inj heq
      exact ⟨rfl, .inr rfl, W', hcounted, ⟨_, ⟨J₃, sealed₃, tail₃, rfl, htxn₃⟩,
        fun _ => ⟨hcount₃, hcut₃⟩⟩, h₁.valid, hsize₃, fun _ => hpos, fun hst => absurd hst hstate₃⟩

/-- **The first phase of a commit** leaves the file with the image of the transaction, or fails to
    get the lock. -/
theorem Working.commitPhaseOne (hmove : move B B) (hB : B.Valid C) (h : Working C B W D P) :
    PagerSafe C move (sqlite3PagerCommitPhaseOne C P) (fun x D' B' => B' = B ∧
      (x.1 = .OK ∧ (x.2.dbModified = true → x.2.state = .SYNCED) ∨ x.1 = .BUSY) ∧
      ∃ W', W.Counted W' ∧ Working C B W' D' x.2) D B := by
  unfold sqlite3PagerCommitPhaseOne
  split
  · next hdone =>
    refine ⟨rfl, .inl ⟨rfl, fun hmod => hdone.resolve_right fun hno => ?_⟩, W, .inl rfl, h⟩
    rw [show P.dbModified = true from hmod] at hno
    cases hno
  · next hmore =>
    obtain ⟨hstate, hmod⟩ := not_or.mp hmore
    refine (h.commitChanges hmove hB (by simpa using hmod) hstate).imp ?_
    rintro x D' B ⟨rfl, hrc, hworking⟩
    exact ⟨rfl, hrc.imp_left fun ⟨hok, hsynced⟩ => ⟨hok, fun _ => hsynced⟩, hworking⟩

/-! ### The journal is deleted -/

/-- With no dirty page, the file is the new image when the journal is deleted. -/
theorem Txn.endTransaction (hmove : move B W) (hmove' : move W W)
    (h : Txn C B W D P J sealed tail) (hclean : ∀ pg ∈ P.cache, pg.dirty = false)
    (hsize : D.db.cur.size = W.n * C.pageSize) :
    PagerSafe C move (pagerEndTransaction P) (fun P' D' B' => B' = W ∧ D' = D.delete ∧
      P'.state = .SHARED ∧ P'.dbSizeValid = false ∧ Reading C W D' P') D B := by
  refine safe_endTransaction hmove hmove' h.recoverable h.state h.jfdOpen h.caching.unique
    (fun pg hpg => ?_) (fun p pg hp hpg => ?_) (fun p hp => h.hasAll hclean hp) hsize
  · exact (h.caching.page _ pg (h.caching.unique.lookup hpg)).valid
  · exact (h.caching.page p pg hpg).current hp

/-- **The second phase of a commit.**  When the journal is deleted, the database is the new
    image.  Until the next sync the deletion may be undone, and then it is the old one. -/
theorem Working.commitPhaseTwo (hmove : move B W) (hmove' : move W W) (h : Working C B W D P)
    (hdone : P.dbModified = true → P.state = .SYNCED) :
    PagerSafe C move (sqlite3PagerCommitPhaseTwo P) (fun x D' B' => B' = W ∧ x.1 = .OK ∧
      (P.state = .SYNCED → D'.exposed = false ∧
        ∀ J ∈ D'.deleted, Recoverable C B { D' with journal := some J }) ∧
      Reading C W D' x.2) D B := by
  obtain ⟨isOpen, ⟨J, sealed, tail, -, htxn⟩, -⟩ := h.txn
  -- no page is dirty, and the file has the size of the new image
  obtain ⟨hclean, hsize⟩ : (∀ pg ∈ P.cache, pg.dirty = false) ∧
      D.db.cur.size = W.n * C.pageSize := by
    cases hmod : P.dbModified with
    | true =>
      obtain ⟨hsettled, hclean⟩ := htxn.synced (hdone hmod)
      exact ⟨hclean, hsettled.size⟩
    | false =>
      obtain ⟨rfl, hnil, -, hclean⟩ := htxn.unmodified hmod
      exact ⟨hclean, htxn.prot.whole hnil _ cur_mem_dbVersions⟩
  unfold sqlite3PagerCommitPhaseTwo
  rw [if_neg (Nat.not_lt.mpr htxn.state)]
  refine .bind ((htxn.endTransaction hmove hmove' hclean hsize).imp ?_)
  rintro P' D' B ⟨rfl, rfl, -, -, hreading⟩
  refine ⟨rfl, rfl, fun hstate => ?_, hreading⟩
  -- the file was synced behind its last write
  obtain ⟨-, hpast, hexposed, hdeleted⟩ := (htxn.synced hstate).1
  have hexp : D.delete.exposed = false := by
    unfold Disk.delete
    rw [hexposed, hpast]
    rfl
  refine ⟨hexp, fun J' hJ' => ?_⟩
  -- the only journal that may be there again is the one of the transaction
  have hmem : J' ∈ D.journal.toList ++ D.deleted := hJ'
  rw [htxn.prot.journal, hdeleted] at hmem
  obtain rfl := List.mem_singleton.mp hmem
  exact htxn.recoverable.congr htxn.prot.journal.symm rfl (hexp.trans hexposed.symm)

/-- A pager that has a lock to write but no journal gives the lock back. -/
theorem Reading.endTransaction (hmove : move B B) (h : Reading C B D P) :
    PagerSafe C move (pagerEndTransaction P) (fun P' D' B' => D' = D ∧ B' = B ∧
      Reading C B D P') D B := by
  unfold pagerEndTransaction
  split
  · exact ⟨rfl, rfl, h⟩
  · rw [h.quiet.jfdOpen, if_neg (by decide)]
    refine .bind ?_
    refine .bind (safe_unlock hmove h.intact.recoverable ?_)
    refine ⟨rfl, rfl, ⟨h.quiet.unique.pcacheTruncate, fun pg hpg => ?_, fun pg hpg => ?_,
      fun p pg hp hpg => ?_, ?_⟩, ⟨by rintro ⟨⟩, by rintro ⟨⟩⟩, h.intact, fun hno => by cases hno⟩
    · exact h.quiet.valid pg (List.mem_of_mem_filter hpg)
    · exact h.quiet.clean pg (List.mem_of_mem_filter hpg)
    · have hlookup := (Pager.lookup_pcacheTruncate (P := P) (p := p)).symm.trans hpg
      split at hlookup
      · exact h.quiet.cached p pg hp hlookup
      · cases hlookup
    · simp [Pager.flags, Pager.pcacheTruncate, h.quiet.jfdOpen, h.quiet.pInJournal]

/-! ### Rolling back -/

/-- What the process itself plays back: all that is in the journal, and what is there for good as
    such. -/
theorem Txn.plays (h : Txn C B W D P J sealed tail) : ∃ segs,
    Plays C J.cur B.n false P.journalHdr 0 segs ∧ segs ≠ [] ∧
    segs.map (·.1) = sealed ++ tail.toList ∧
    ∀ seg ∈ sealed, seg.recs ≠ [] → (seg, false) ∈ segs := by
  have hjournal := h.journal
  unfold JournalAt at hjournal
  cases tail with
  | some seg =>
    refine ⟨_, JournalOpen.plays hjournal, by simp, by simp [Function.comp_def],
      fun seg' hseg _ => ?_⟩
    exact List.mem_append_left _ (List.mem_map_of_mem hseg)
  | none =>
    obtain ⟨init, seg, rfl, hplays⟩ := JournalClosed.plays hjournal
    refine ⟨_, hplays, by simp, by simp [Function.comp_def], fun seg' hseg hne => ?_⟩
    rcases List.mem_append.mp hseg with hseg | hseg
    · exact List.mem_append_left _ (List.mem_map_of_mem hseg)
    · obtain rfl := List.mem_singleton.mp hseg
      rw [decide_eq_false hne]
      exact List.mem_append_right _ (List.mem_singleton_self _)

/-- A record of the segments is a record of one of them, with the `isUnsync` of that one. -/
theorem mem_recordsOf {segs : List (Segment × Bool)} {x : PageRec × Bool} :
    x ∈ recordsOf segs ↔ ∃ seg, (seg, x.2) ∈ segs ∧ x.1 ∈ seg.recs := by
  obtain ⟨r, u⟩ := x
  simp only [recordsOf, List.mem_flatMap, List.mem_map, Prod.mk.injEq, Prod.exists]
  constructor
  · rintro ⟨seg, u', hseg, r', hr, rfl, rfl⟩
    exact ⟨seg, hseg, hr⟩
  · rintro ⟨seg, hseg, hr⟩
    exact ⟨seg, u, hseg, r, hr, rfl, rfl⟩

/-- **The journal** has what it takes to bring the image back. -/
theorem Txn.rolling (h : Txn C B W D P J sealed tail) {segs : List (Segment × Bool)}
    (hsegs : segs.map (·.1) = sealed ++ tail.toList)
    (hsealed : ∀ seg ∈ sealed, seg.recs ≠ [] → (seg, false) ∈ segs) :
    Rolling C B D P J sealed (recordsOf segs) := by
  refine ⟨h.prot, h.caching.unique, fun pg hpg => ?_, fun x hx => ?_, fun p hp => ?_,
    fun p pg hp hpg => ?_⟩
  · exact (h.caching.page _ pg (h.caching.unique.lookup hpg)).valid
  · obtain ⟨seg, hseg, hr⟩ := mem_recordsOf.mp hx
    have hmem := List.mem_map_of_mem (f := (·.1)) hseg
    rw [hsegs] at hmem
    exact (h.segmentOk seg hmem).1 _ hr
  · by_cases hmem : p ∈ pagesOf sealed
    · rcases reserved_or_exclusive h.state with hstate | hexcl
      · -- without the exclusive lock, nothing was written to the file
        exact .inl ((h.reserved hstate).1 p hp)
      · -- the journal has the page, and does not wait for a sync
        obtain ⟨seg, hseg, hp'⟩ := List.mem_flatMap.mp hmem
        obtain ⟨r, hr, rfl⟩ := List.mem_map.mp hp'
        refine .inr ⟨hexcl, ?_, r, mem_recordsOf.mpr ⟨seg, hsealed seg hseg ?_, hr⟩, rfl⟩
        · rw [Option.all_eq_true]
          intro pg hlookup
          rw [Bool.not_eq_true']
          by_contra hsync
          exact ((h.caching.page _ pg hlookup).needSync (by simpa using hsync)).2 hmem
        · exact List.ne_nil_of_mem hr
    · exact .inl (h.hasPage hp hmem)
  · by_cases hmem : p ∈ pagesOf (sealed ++ tail.toList)
    · obtain ⟨seg, hseg, hp'⟩ := List.mem_flatMap.mp hmem
      obtain ⟨r, hr, rfl⟩ := List.mem_map.mp hp'
      rw [← hsegs] at hseg
      obtain ⟨⟨seg, u⟩, hx, rfl⟩ := List.mem_map.mp hseg
      exact .inr ⟨(r, u), mem_recordsOf.mpr ⟨seg, hx, hr⟩, rfl⟩
    · exact .inl ((h.caching.page p pg hpg).original hp hmem)

/-- **A rollback** outside of a transaction only gives the lock back. -/
theorem Outside.rollback (hmove : move B B) (h : Outside C B D P) :
    PagerSafe C move (sqlite3PagerRollback C P) (fun x D' B' => B' = B ∧ x.1 = .OK ∧
      Outside C B D' x.2) D B := by
  unfold sqlite3PagerRollback
  rw [h.quiet.dbModified, if_pos (by rfl)]
  rcases h with h | h
  · unfold pagerEndTransaction
    rw [h.state, if_pos (by decide)]
    exact ⟨rfl, rfl, .inl h⟩
  · refine .bind ((h.endTransaction hmove).imp ?_)
    rintro P' D B ⟨rfl, rfl, hreading⟩
    exact ⟨rfl, rfl, .inr hreading⟩

/-- **A rollback** of a transaction brings the committed image back. -/
theorem Working.rollback (hmove : move B B) (hB : B.Valid C) (h : Working C B W D P)
    (hno : NoMasterJournal D) :
    PagerSafe C move (sqlite3PagerRollback C P) (fun x D' B' => B' = B ∧ x.1 = .OK ∧
      Reading C B D' x.2) D B := by
  obtain ⟨isOpen, ⟨J, sealed, tail, -, htxn⟩, -⟩ := h.txn
  unfold sqlite3PagerRollback
  cases hmod : P.dbModified with
  | false =>
    -- nothing was changed: the journal is deleted
    obtain ⟨rfl, hnil, -, hclean⟩ := htxn.unmodified hmod
    have hsize := htxn.prot.whole hnil _ cur_mem_dbVersions
    rw [if_pos (by rfl)]
    refine .bind ((htxn.endTransaction hmove hmove hclean hsize).imp ?_)
    rintro P' D' B ⟨rfl, -, -, -, hreading⟩
    exact ⟨rfl, rfl, hreading⟩
  | true =>
    rw [htxn.jfdOpen, if_neg (by decide)]
    obtain ⟨segs, hplays, hne, hsegs, hsealed⟩ := htxn.plays
    have hroll := htxn.rolling hsegs hsealed
    have hJ := hno J htxn.prot.journal
    -- `pager_truncate` at the start does nothing without the exclusive lock
    have hwhole : PagerState.EXCLUSIVE.num ≤ P.state.num ∨ D.db.cur.size = B.n * C.pageSize :=
      (reserved_or_exclusive htxn.state).symm.imp_right fun hstate => (htxn.reserved hstate).2.1
    have hplayback := hroll.pagerPlayback hmove hB hJ hplays hwhole (fun hnil => absurd hnil hne)
      htxn.state htxn.jfdOpen
    split
    · -- with the `RESERVED` lock only, the playback is followed by another `pager_end_transaction`
      refine .bind (hplayback.imp ?_)
      rintro ⟨rc, P₁⟩ D₁ B ⟨hrc, rfl, hstate, hsizeValid, hreading⟩
      dsimp -zeta only at hrc hstate hreading ⊢
      refine .bind ((hreading.endTransaction hmove).imp ?_)
      rintro P₂ D₂ B ⟨rfl, rfl, hreading₂⟩
      exact ⟨rfl, hrc, hreading₂.quiet.congr rfl rfl, hreading₂.state, hreading₂.intact,
        fun hno => by cases hno⟩
    · refine .bind (hplayback.imp ?_)
      rintro ⟨rc, P₁⟩ D₁ B ⟨hrc, rfl, hstate, hsizeValid, hreading⟩
      exact ⟨rfl, hrc, hreading.quiet.congr rfl rfl, hreading.state, hreading.intact,
        fun hno => by cases hno⟩

/-- **The lock is given up**, and what there is of a transaction rolled back. -/
theorem safe_unlockAndRollback (hmove : move B B) (hB : B.Valid C)
    (h : Outside C B D P ∨ Working C B W D P) (hno : NoMasterJournal D) :
    PagerSafe C move (pagerUnlockAndRollback C P) (fun P' D' B' => B' = B ∧ Idle C B D' P')
      D B := by
  have hunlock : ∀ {P₁ D₁}, Outside C B D₁ P₁ →
      PagerSafe C move (pagerUnlock P₁) (fun P' D' B' => B' = B ∧ Idle C B D' P') D₁ B := by
    intro P₁ D₁ h₁
    refine (h₁.quiet.pagerUnlock hmove h₁.recoverable).imp ?_
    rintro P₂ D₂ B ⟨rfl, rfl, hidle⟩
    exact ⟨rfl, hidle⟩
  have hrollback : PagerSafe C move (sqlite3PagerRollback C P) (fun x D' B' => B' = B ∧
      Outside C B D' x.2) D B := by
    rcases h with h | h
    · refine (h.rollback hmove).imp ?_
      rintro x D' B ⟨rfl, -, hout⟩
      exact ⟨rfl, hout⟩
    · refine (h.rollback hmove hB hno).imp ?_
      rintro x D' B ⟨rfl, -, hreading⟩
      exact ⟨rfl, .inr hreading⟩
  unfold pagerUnlockAndRollback
  split
  · refine .bind (hrollback.imp ?_)
    rintro ⟨rc, P₁⟩ D₁ B ⟨rfl, hout⟩
    exact hunlock hout
  · next hlt =>
    refine .bind ?_
    refine hunlock ?_
    rcases h with h | h
    · exact h
    · obtain ⟨isOpen, ⟨J, sealed, tail, -, htxn⟩, -⟩ := h.txn
      exact absurd htxn.state hlt

end Ecos.Sqlite.Rollback
