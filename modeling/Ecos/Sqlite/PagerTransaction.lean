import Ecos.Sqlite.PagerJournal

namespace Ecos.Sqlite.Rollback

open Ecos.Lib Program

/-!
# The state of a transaction

The database at the last commit is the image `B`, and `W` is what the transaction has made of it.

* `PageOk`, `Caching` — what is known of the pages in the cache: which of them are in the journal,
  for good or not yet, and which are also in the file; `Caching.update` — one page changes;
* `Txn` — the state of a transaction whose journal has the segments `sealed` for good, and is
  writing `tail`;
* `Txn.writePage`, `Txn.sealTail`, `Txn.newHeader`, `Txn.makeClean` — the steps;
* `Txn.syncJournal`, `Txn.pagerWritePagelist`, `Txn.pagerStress`, `InTxn.acquire` — the functions
  that take them.
-/

variable {C : PagerConfig} {move : Image → Image → Prop} {B W W' : Image} {D : Disk}
  {P P' : Pager} {J : Storage UInt8} {sealed : List Segment} {tail : Option Segment}
  {c c' : Content UInt8} {pages pages' : List Nat} {nsync nsync' : Bool} {p q : Nat} {pg : PgHdr}

/-! ### The lock -/

/-- A transaction has the lock for changes, or the one for writing. -/
theorem reserved_or_exclusive {s : PagerState} (h : PagerState.RESERVED.num ≤ s.num) :
    s = .RESERVED ∨ PagerState.EXCLUSIVE.num ≤ s.num := by
  cases s with
  | UNLOCK | SHARED => exact absurd h (by decide)
  | RESERVED => exact .inl rfl
  | EXCLUSIVE | SYNCED => exact .inr (by decide)

/-- With the reserved lock the pager is not unlocked. -/
theorem ne_unlock {s : PagerState} (h : PagerState.RESERVED.num ≤ s.num) : s ≠ .UNLOCK := by
  rintro rfl
  exact absurd h (by decide)

/-- With the reserved lock it has not only the shared one. -/
theorem ne_shared {s : PagerState} (h : PagerState.RESERVED.num ≤ s.num) : s ≠ .SHARED := by
  rintro rfl
  exact absurd h (by decide)

/-- With the exclusive lock it has not only the reserved one. -/
theorem not_reserved {s : PagerState} (h : PagerState.EXCLUSIVE.num ≤ s.num) : s ≠ .RESERVED := by
  rintro rfl
  exact absurd h (by decide)

/-! ### The cache -/

/-- Page `p` in the cache, when `pages` are in the journal, and those in `sealed` for good. -/
structure PageOk (C : PagerConfig) (B W : Image) (c : Content UInt8) (sealed : List Segment)
    (pages : List Nat) (nsync : Bool) (p : Nat) (pg : PgHdr) : Prop where
  valid : pg.Valid C
  current : W.Used C p → pg.data = W.page p
  written : W.Used C p → pg.dirty = false → HasPage C c p (W.page p)
  original : B.Used C p → p ∉ pages → pg.data = B.page p
  journaled : pg.dirty = true → p ∈ pages ∨ B.n < p
  synced : pg.dirty = true → pg.needSync = false → p ∈ pagesOf sealed ∨ B.n < p ∧ sealed ≠ []
  needSync : pg.needSync = true → nsync = true ∧ p ∉ pagesOf sealed
  unsynced : p ∈ pages → p ∉ pagesOf sealed → pg.needSync = true ∧ pg.dirty = true

/-- All pages, in the cache and not. -/
structure Caching (C : PagerConfig) (B W : Image) (c : Content UInt8) (P : Pager)
    (sealed : List Segment) (pages : List Nat) : Prop where
  unique : P.Unique
  page : ∀ p pg, P.lookup p = some pg → PageOk C B W c sealed pages P.needSync p pg
  absent : ∀ p, P.lookup p = none → (W.Used C p → HasPage C c p (W.page p)) ∧
    (p ∈ pages → p ∈ pagesOf sealed)

/-- **One page changes**, and what holds of the others does not. -/
theorem Caching.update (h : Caching C B W c P sealed pages) (hunique : P'.Unique)
    (hlookup : ∀ q, q ≠ p → P'.lookup q = P.lookup q)
    (hpages : ∀ q, q ≠ p → (q ∈ pages' ↔ q ∈ pages))
    (hsync : P.needSync = true → P'.needSync = true)
    (hW : ∀ q, q ≠ p → W'.Used C q → W.Used C q ∧ W'.page q = W.page q)
    (hc : ∀ q, q ≠ p → W.Used C q → HasPage C c q (W.page q) → HasPage C c' q (W.page q))
    (hsome : ∀ pg, P'.lookup p = some pg → PageOk C B W' c' sealed pages' P'.needSync p pg)
    (hnone : P'.lookup p = none → (W'.Used C p → HasPage C c' p (W'.page p)) ∧
      (p ∈ pages' → p ∈ pagesOf sealed)) : Caching C B W' c' P' sealed pages' where
  unique := hunique
  page q pg hpg := by
    by_cases hqp : q = p
    -- the page that changes, or another one
    · subst hqp
      exact hsome pg hpg
    · rw [hlookup q hqp] at hpg
      obtain ⟨h1, h2, h3, h4, h5, h6, h7, h8⟩ := h.page q pg hpg
      refine ⟨h1, fun hq => ?_, fun hq hclean => ?_, fun hq hmem => h4 hq fun hmem' => ?_,
        fun hdirty => ?_, h6, fun hneed => ?_, fun hmem hno => h8 ((hpages q hqp).mp hmem) hno⟩
      · obtain ⟨hq, heq⟩ := hW q hqp hq
        rw [heq]
        exact h2 hq
      · obtain ⟨hq, heq⟩ := hW q hqp hq
        rw [heq]
        exact hc q hqp hq (h3 hq hclean)
      · exact hmem ((hpages q hqp).mpr hmem')
      · exact (h5 hdirty).imp_left (hpages q hqp).mpr
      · exact ⟨hsync (h7 hneed).1, (h7 hneed).2⟩
  absent q hnq := by
    by_cases hqp : q = p
    · subst hqp
      exact hnone hnq
    · rw [hlookup q hqp] at hnq
      obtain ⟨h1, h2⟩ := h.absent q hnq
      refine ⟨fun hq => ?_, fun hmem => h2 ((hpages q hqp).mp hmem)⟩
      obtain ⟨hq, heq⟩ := hW q hqp hq
      rw [heq]
      exact hc q hqp hq (h1 hq)

/-- Only the cache and `needSync` of the pager matter. -/
theorem Caching.congr (h : Caching C B W c P sealed pages) (hcache : P'.cache = P.cache)
    (hsync : P'.needSync = P.needSync) : Caching C B W c P' sealed pages := by
  have hlookup : ∀ q, P'.lookup q = P.lookup q := fun q => congrArg (List.find? _) hcache
  refine ⟨?_, fun q pg hpg => ?_, fun q hq => ?_⟩
  · unfold Pager.Unique
    rw [hcache]
    exact h.unique
  · rw [hsync]
    exact h.page q pg (hlookup q ▸ hpg)
  · exact h.absent q (hlookup q ▸ hq)

/-- The whole journal is synced. -/
theorem Caching.clearSyncFlags {sealed' : List Segment}
    (h : Caching C B W c P sealed pages) (hcache : P'.cache = P.clearSyncFlags.cache)
    (hpages : ∀ p ∈ pages, p ∈ pagesOf sealed') (hne : sealed' ≠ []) :
    Caching C B W c P' sealed' pages := by
  have hlookup : ∀ p, P'.lookup p = (P.lookup p).map fun pg => { pg with needSync := false } :=
    fun p => (congrArg (List.find? _) hcache).trans Pager.lookup_clearSyncFlags
  refine ⟨?_, fun p pg hpg => ?_, fun p hp => ?_⟩
  · unfold Pager.Unique
    rw [hcache]
    exact h.unique.clearSyncFlags
  · rw [hlookup] at hpg
    obtain ⟨pg', hpg', rfl⟩ := Option.map_eq_some_iff.mp hpg
    have hok := h.page p pg' hpg'
    refine ⟨hok.valid, hok.current, hok.written, hok.original, hok.journaled, fun hdirty _ => ?_,
      fun hneed => ?_, fun hmem hno => absurd (hpages p hmem) hno⟩
    · rcases hok.journaled hdirty with hmem | hlt
      · exact .inl (hpages p hmem)
      · exact .inr ⟨hlt, hne⟩
    · cases hneed
  · rw [hlookup, Option.map_eq_none_iff] at hp
    exact ⟨(h.absent p hp).1, hpages p⟩

/-! ### The transaction -/

/-- The journal, which is open or closed. -/
def JournalAt (C : PagerConfig) (B : Image) (J : Storage UInt8) (sealed : List Segment)
    (tail : Option Segment) (journalHdr journalOff : Nat) : Prop :=
  match tail with
  | some seg => JournalOpen C B J sealed seg journalHdr journalOff
  | none => JournalClosed C B J sealed journalHdr journalOff

/-- The file has the size of the image, and is synced; no deleted journal can be there again. -/
structure Settled (C : PagerConfig) (W : Image) (D : Disk) : Prop where
  size : D.db.cur.size = W.n * C.pageSize
  past : D.db.past = []
  exposed : D.exposed = false
  deleted : D.deleted = []

/-- Settled storage is still settled when only the journal changes. -/
theorem Settled.congr (h : Settled C W D) {D' : Disk} (hsame : D'.SameDb D) : Settled C W D' :=
  ⟨hsame.db ▸ h.size, hsame.db ▸ h.past, hsame.exposed.trans h.exposed, hsame.deleted h.deleted⟩

/-- A transaction: the journal protects the image `B`, and cache and file together hold the image
    `W`. -/
structure Txn (C : PagerConfig) (B W : Image) (D : Disk) (P : Pager) (J : Storage UInt8)
    (sealed : List Segment) (tail : Option Segment) : Prop where
  prot : Protected C B D J sealed
  journal : JournalAt C B J sealed tail P.journalHdr P.journalOff
  nodup : (pagesOf (sealed ++ tail.toList)).Nodup
  inJournal : ∃ l, P.pInJournal = some l ∧ ∀ p, p ∈ l ↔ p ∈ pagesOf (sealed ++ tail.toList)
  started : P.journalStarted = true ↔ sealed ≠ []
  filling : ∀ seg, tail = some seg → P.cksumInit = seg.cksumInit ∧ P.nRec = seg.recs.length ∧
    (seg.recs ≠ [] → P.needSync = true)
  closed : tail = none → P.needSync = false
  state : PagerState.RESERVED.num ≤ P.state.num
  jfdOpen : P.jfdOpen = true
  orig : P.dbOrigSize = B.n
  sizeValid : P.dbSizeValid = true
  size : W.n ≤ P.dbSize
  fileSize : D.db.cur.size = P.dbFileSize * C.pageSize
  fileSize_ne : P.dbFileSize ≠ C.mjPgno
  caching : Caching C B W D.db.cur P sealed (pagesOf (sealed ++ tail.toList))
  reserved : P.state = .RESERVED → (∀ p, B.Used C p → HasPage C D.db.cur p (B.page p)) ∧
    D.db.cur.size = B.n * C.pageSize ∧ (P.dbModified = true → ∃ pg ∈ P.cache, pg.dirty = true)
  unmodified : P.dbModified = false → W = B ∧ sealed = [] ∧ P.needSync = false ∧
    ∀ pg ∈ P.cache, pg.dirty = false
  synced : P.state = .SYNCED → Settled C W D ∧ ∀ pg ∈ P.cache, pg.dirty = false

/-- What the pager's own steps leave alone: what its user can see of the transaction. -/
structure SameTxn (P P' : Pager) : Prop where
  dbSize : P'.dbSize = P.dbSize
  dbModified : P'.dbModified = P.dbModified
  changeCountDone : P'.changeCountDone = P.changeCountDone
  dbOrigSize : P'.dbOrigSize = P.dbOrigSize
  pInJournal : P'.pInJournal = P.pInJournal
  unsynced : P.state ≠ .SYNCED → P'.state ≠ .SYNCED

/-- A transaction, whose journal is open or closed, whatever is in it. -/
def InTxn (C : PagerConfig) (B W : Image) (D : Disk) (P : Pager) (isOpen : Bool) : Prop :=
  ∃ J sealed tail, tail.isSome = isOpen ∧ Txn C B W D P J sealed tail

namespace Txn

variable {seg : Segment}

/-- In a transaction the committed image can be recovered. -/
theorem recoverable (h : Txn C B W D P J sealed tail) : Recoverable C B D := h.prot.recoverable

/-- Every segment of the journal is one of the committed image. -/
theorem segmentOk (h : Txn C B W D P J sealed tail) :
    ∀ seg ∈ sealed ++ tail.toList, B.SegmentOk C seg := by
  have hjournal := h.journal
  unfold JournalAt at hjournal
  cases tail with
  | none =>
    rw [Option.toList_none, List.append_nil]
    exact hjournal.toEnd.ok
  | some seg =>
    obtain ⟨e, hbase⟩ := hjournal.base
    exact segmentOk_snoc hbase.ok hjournal.open_ok

/-- The bits of `pInJournal` are the pages of the journal, so that none is recorded twice. -/
theorem pageInJournal (h : Txn C B W D P J sealed tail) :
    P.pageInJournal p = true ↔ p ∈ pagesOf (sealed ++ tail.toList) := by
  obtain ⟨l, hl, hmem⟩ := h.inJournal
  unfold Pager.pageInJournal
  rw [hl, Option.getD_some, List.contains_iff_mem]
  exact hmem p

/-- The pages in the journal are pages of the image. -/
theorem used_of_mem (h : Txn C B W D P J sealed tail) (hp : p ∈ pagesOf (sealed ++ tail.toList)) :
    B.Used C p := by
  obtain ⟨seg, hseg, hp⟩ := List.mem_flatMap.mp hp
  obtain ⟨r, hr, rfl⟩ := List.mem_map.mp hp
  exact ((h.segmentOk seg hseg).1 r hr).1

/-! ### Writing to the file -/

/-- The exclusive lock is granted, and nothing else changes. -/
theorem exclusive (h : Txn C B W D P J sealed tail) :
    Txn C B W D { P with state := .EXCLUSIVE } J sealed tail :=
  { h with
    caching := h.caching.congr rfl rfl
    state := Nat.le_of_ble_eq_true rfl
    reserved := by rintro ⟨⟩
    synced := by rintro ⟨⟩ }

/-- A page is written to the file that may be written, by what is in the journal. -/
theorem writePage (h : Txn C B W D P J sealed tail)
    (hexcl : PagerState.EXCLUSIVE.num ≤ P.state.num) (hlookup : P.lookup p = some pg)
    (hdirty : pg.dirty = true) (hsync : pg.needSync = false) (dbFileVers : List UInt8) :
    Txn C B W (D.update .db (D.db.cur.write ((p - 1) * C.pageSize) pg.data))
      { P with dbFileVers, dbFileSize := max P.dbFileSize p } J sealed tail := by
  have hok := h.caching.page p pg hlookup
  obtain ⟨hpos, -, hmj, hlen⟩ := hok.valid
  rw [Pager.lookup_pgno hlookup] at hpos hmj
  have hsafe := hok.synced hdirty hsync
  refine { h with
    prot := h.prot.update_db (h.prot.holds.write hpos hlen ?_) ?_
    fileSize := ?_
    fileSize_ne := ?_
    caching := ?_
    reserved := ?_
    unmodified := ?_
    synced := ?_ }
  -- the page is in the journal for good, or lies behind the image
  · intro hused hno
    rcases hsafe with hmem | ⟨hlt, -⟩
    · exact absurd hmem hno
    · exact absurd hused.2.1 (Nat.not_le.mpr hlt)
  · rintro rfl
    rcases hsafe with hmem | ⟨-, hne⟩
    · exact absurd hmem List.not_mem_nil
    · exact absurd rfl hne
  · show (D.db.cur.write _ _).size = max P.dbFileSize p * C.pageSize
    rw [size_write_page hpos hlen, h.fileSize, Nat.mul_max_mul_right]
  · show max P.dbFileSize p ≠ _
    rcases Nat.le_total p P.dbFileSize with hle | hle
    · rw [Nat.max_eq_left hle]
      exact h.fileSize_ne
    · rw [Nat.max_eq_right hle]
      exact hmj
  · refine Caching.update (p := p) (h.caching.congr rfl rfl) h.caching.unique (fun _ _ => rfl)
      (fun _ _ => Iff.rfl) id (fun _ _ hq => ⟨hq, rfl⟩)
      (fun q hqp hq hhas => hhas.write hpos hq.1 hqp hlen)
      (fun pg' hpg' => ?_) fun hnone => ?_
    · obtain rfl : pg = pg' := Option.some.inj (hlookup.symm.trans hpg')
      exact { hok with written := fun _ hclean => by simp [hdirty] at hclean }
    · exact absurd (hlookup.symm.trans hnone) (by simp)
  · intro hres
    exact absurd hres (not_reserved hexcl)
  -- in the other states no page is dirty
  · intro hmod
    have hclean := (h.unmodified hmod).2.2.2 pg (Pager.mem_of_lookup hlookup)
    simp [hdirty] at hclean
  · intro hstate
    have hclean := (h.synced hstate).2 pg (Pager.mem_of_lookup hlookup)
    simp [hdirty] at hclean

/-! ### Syncing the journal -/

/-- The journal's last segment counts, and the pages in it may be written. -/
theorem sealTail {D' : Disk} {J' : Storage UInt8} (h : Txn C B W D P J sealed (some seg))
    (hneed : P.needSync = true) (hdisk : D'.SameDb D)
    (hprot : Protected C B D' J' (sealed ++ [seg]))
    (hjournal : JournalClosed C B J' (sealed ++ [seg]) P.journalHdr P.journalOff) :
    Txn C B W D' { P with needSync := false, journalStarted := true }.clearSyncFlags J'
      (sealed ++ [seg]) none := by
  -- the segments are the same, and the last one is sealed now
  have hpages : sealed ++ [seg] ++ (none : Option Segment).toList
      = sealed ++ (some seg).toList := by simp
  refine { h with
    prot := hprot
    journal := hjournal
    nodup := ?_
    inJournal := ?_
    started := ?_
    filling := ?_
    closed := fun _ => rfl
    fileSize := ?_
    caching := ?_
    reserved := ?_
    unmodified := ?_
    synced := ?_ }
  · rw [hpages]
    exact h.nodup
  · rw [hpages]
    exact h.inJournal
  · simp [Pager.clearSyncFlags]
  · rintro seg' ⟨⟩
  · rw [hdisk.db]
    exact h.fileSize
  · rw [hpages, hdisk.db]
    exact h.caching.clearSyncFlags rfl (fun p hp => hp) (by simp)
  · rw [hdisk.db]
    intro hstate
    obtain ⟨h1, h2, h3⟩ := h.reserved hstate
    refine ⟨h1, h2, fun hmod => ?_⟩
    obtain ⟨pg, hpg, hdirty⟩ := h3 hmod
    exact ⟨_, List.mem_map_of_mem hpg, hdirty⟩
  -- a pager that has modified nothing needs no sync
  · intro hmod
    have hno := (h.unmodified hmod).2.2.1
    simp [hneed] at hno
  · intro hstate
    obtain ⟨h1, h2⟩ := h.synced hstate
    refine ⟨h1.congr hdisk, fun pg hpg => ?_⟩
    obtain ⟨pg', hpg', rfl⟩ := List.mem_map.mp hpg
    exact h2 pg' hpg'

/-- Another header is written, for the records to come. -/
theorem newHeader {D' : Disk} {J' : Storage UInt8} {cksumInit : BitVec 32}
    {journalHdr journalOff : Nat} (h : Txn C B W D P J sealed none)
    (hdisk : D'.SameDb D)
    (hprot : Protected C B D' J' sealed)
    (hjournal : JournalOpen C B J' sealed ⟨cksumInit, []⟩ journalHdr journalOff) :
    Txn C B W D' { P with nRec := 0, cksumInit, journalHdr, journalOff } J' sealed
      (some ⟨cksumInit, []⟩) := by
  -- a segment without records adds no page
  have hpages : pagesOf (sealed ++ (some (⟨cksumInit, []⟩ : Segment)).toList)
      = pagesOf (sealed ++ (none : Option Segment).toList) := by simp [pagesOf]
  refine { h with
    prot := hprot
    journal := hjournal
    nodup := ?_
    inJournal := ?_
    filling := ?_
    closed := ?_
    fileSize := ?_
    caching := ?_
    reserved := ?_
    synced := ?_ }
  · rw [hpages]
    exact h.nodup
  · rw [hpages]
    exact h.inJournal
  · rintro seg' ⟨⟩
    exact ⟨rfl, rfl, fun hne => absurd rfl hne⟩
  · rintro ⟨⟩
  · rw [hdisk.db]
    exact h.fileSize
  · rw [hpages, hdisk.db]
    exact h.caching.congr rfl rfl
  · rw [hdisk.db]
    exact h.reserved
  · intro hstate
    obtain ⟨h1, h2⟩ := h.synced hstate
    exact ⟨h1.congr hdisk, h2⟩

/-- **`syncJournal`** leaves no page that waits for it. -/
theorem syncJournal (hmove : move B B) (hB : B.Valid C) (h : Txn C B W D P J sealed tail) :
    PagerSafe C move (syncJournal C P) (fun P' D' B' => B' = B ∧
      (P.needSync = false ∧ P' = P ∧ D' = D ∨
      P.needSync = true ∧ P' = { P with needSync := false, journalStarted := true }.clearSyncFlags ∧
        D'.db = D.db ∧ ∃ J' seg, tail = some seg ∧ Txn C B W D' P' J' (sealed ++ [seg]) none))
      D B := by
  cases hneed : P.needSync with
  | false =>
    unfold Rollback.syncJournal
    rw [hneed, if_pos (by decide)]
    exact ⟨rfl, .inl ⟨rfl, rfl, rfl⟩⟩
  | true =>
    cases tail with
    | none =>
      have hno := h.closed rfl
      simp [hneed] at hno
    | some seg =>
      refine (JournalOpen.syncJournal hmove hB h.prot h.journal hneed
        (h.filling seg rfl).2.1).imp ?_
      rintro P' D' B ⟨rfl, hdisk, rfl, J', hprot, hjournal⟩
      exact ⟨rfl, .inr ⟨rfl, rfl, hdisk.db, J', seg, rfl, h.sealTail hneed hdisk hprot hjournal⟩⟩

/-! ### Writing pages back -/

/-- A page that may be written to the file, for the journal has been synced for it. -/
def Writable (P : Pager) (pg : PgHdr) : Prop :=
  ∃ pg', P.lookup pg.pgno = some pg' ∧ pg'.data = pg.data ∧ pg'.dirty = true ∧ pg'.needSync = false

/-- `pager_write_pagelist` writes the pages, and the journal stands behind them. -/
theorem writePages (hmove : move B B) {pList : List PgHdr} (h : Txn C B W D P J sealed tail)
    (hexcl : PagerState.EXCLUSIVE.num ≤ P.state.num) (hpList : ∀ pg ∈ pList, Writable P pg) :
    PagerSafe C move (writePages C P pList) (fun P' D' B' => B' = B ∧
      Txn C B W D' P' J sealed tail ∧
      (∃ dbFileVers dbFileSize, P' = { P with dbFileVers, dbFileSize }) ∧
      (∀ pg ∈ pList, pg.pgno ≤ P.dbSize → HasPage C D'.db.cur pg.pgno pg.data) ∧
      ∀ q d, 1 ≤ q → HasPage C D.db.cur q d → (∀ pg ∈ pList, pg.pgno = q → pg.data = d) →
        HasPage C D'.db.cur q d) D B := by
  induction pList generalizing P D with
  | nil =>
    exact ⟨rfl, h, ⟨_, _, rfl⟩, fun _ hpg => absurd hpg List.not_mem_nil, fun _ _ _ hhas _ => hhas⟩
  | cons pg pList ih =>
    obtain ⟨pg', hlookup, hdata, hdirty, hsync⟩ := hpList pg (List.mem_cons_self ..)
    have hvalid := (h.caching.page _ pg' hlookup).valid
    have hpos := hvalid.1
    have hlen := hvalid.2.2.2
    rw [Pager.lookup_pgno hlookup] at hpos
    rw [hdata] at hlen
    have hrest := fun pg hpg => hpList pg (List.mem_cons_of_mem _ hpg)
    unfold Rollback.writePages
    rw [List.foldlM_cons]
    refine .bind ?_
    split
    · next hlt =>
      -- the page was cut off
      refine (ih h hexcl hrest).imp ?_
      rintro P₁ D₁ B ⟨rfl, h₁, hP₁, hnew, hold⟩
      refine ⟨rfl, h₁, hP₁, fun pg₂ hpg₂ hle => ?_, fun q d hq hhas hd => ?_⟩
      · rcases List.mem_cons.mp hpg₂ with rfl | hpg₂
        · exact absurd hle (Nat.not_le.mpr hlt)
        · exact hnew pg₂ hpg₂ hle
      · exact hold q d hq hhas fun pg₂ hpg₂ => hd pg₂ (List.mem_cons_of_mem _ hpg₂)
    · next hle =>
      refine .bind (safe_write hmove h.recoverable ?_)
      have hwrite := h.writePage hexcl hlookup hdirty hsync
        (if pg.pgno = 1 then fileVers pg.data else P.dbFileVers)
      rw [hdata] at hwrite
      refine (ih hwrite hexcl hrest).imp ?_
      rintro P₁ D₁ B ⟨rfl, h₁, ⟨dbFileVers, dbFileSize, rfl⟩, hnew, hold⟩
      -- another entry of the list has the same page only with the same content
      have hsame : ∀ pg₂ ∈ pList, pg₂.pgno = pg.pgno → pg₂.data = pg.data := by
        intro pg₂ hpg₂ heq
        obtain ⟨pg₃, hlookup₃, hdata₃, -⟩ := hrest pg₂ hpg₂
        rw [heq, hlookup] at hlookup₃
        rw [← hdata₃, ← Option.some.inj hlookup₃, hdata]
      refine ⟨rfl, h₁, ⟨_, _, rfl⟩, fun pg₂ hpg₂ hle₂ => ?_, fun q d hq hhas hd => ?_⟩
      · rcases List.mem_cons.mp hpg₂ with rfl | hpg₂
        · exact hold _ _ hpos (hasPage_write hpos hlen) hsame
        · exact hnew pg₂ hpg₂ hle₂
      · refine hold q d hq ?_ fun pg₂ hpg₂ => hd pg₂ (List.mem_cons_of_mem _ hpg₂)
        by_cases hqp : q = pg.pgno
        · subst hqp
          rw [← hd pg (List.mem_cons_self ..) rfl]
          exact hasPage_write hpos hlen
        · exact hhas.write hpos hq hqp hlen

/-- `pager_wait_on_lock` gets the exclusive lock, or gives up with `SQLITE_BUSY`. -/
theorem waitForExclusive (hmove : move B B) (h : Txn C B W D P J sealed tail) :
    PagerSafe C move (waitForExclusive P) (fun x D' B' => D' = D ∧ B' = B ∧
      (x.1 = .OK ∧ PagerState.EXCLUSIVE.num ≤ x.2.state.num ∧
        (∃ state, (state = P.state ∨ state = .EXCLUSIVE) ∧ x.2 = { P with state }) ∧
        Txn C B W D x.2 J sealed tail ∨
      x = (.BUSY, P))) D B := by
  unfold Rollback.waitForExclusive
  split
  · next hexcl => exact ⟨rfl, rfl, .inl ⟨rfl, hexcl, ⟨_, .inl rfl, rfl⟩, h⟩⟩
  · refine .bind (safe_lock hmove h.recoverable fun granted => ?_)
    cases granted with
    | true => exact ⟨rfl, rfl, .inl ⟨rfl, Nat.le_refl _, ⟨_, .inr rfl, rfl⟩, h.exclusive⟩⟩
    | false => exact ⟨rfl, rfl, .inr rfl⟩

/-- **Pages are written back**, if the lock is granted, each to its place. -/
theorem pagerWritePagelist (hmove : move B B) {pList : List PgHdr}
    (h : Txn C B W D P J sealed tail) (hne : pList ≠ []) (hpList : ∀ pg ∈ pList, Writable P pg) :
    PagerSafe C move (pagerWritePagelist C P pList) (fun x D' B' => B' = B ∧
      ((x.1 = .OK ∧ PagerState.EXCLUSIVE.num ≤ x.2.state.num ∧
        (∃ state dbFileVers dbFileSize, (state = P.state ∨ state = .EXCLUSIVE) ∧
          x.2 = { P with state, dbFileVers, dbFileSize }) ∧
        Txn C B W D' x.2 J sealed tail ∧
        ∀ pg ∈ pList, pg.pgno ≤ P.dbSize → HasPage C D'.db.cur pg.pgno pg.data) ∨
      D' = D ∧ x = (.BUSY, P))) D B := by
  unfold Rollback.pagerWritePagelist
  rw [if_neg (by simpa using hne)]
  refine .bind ((h.waitForExclusive hmove).imp ?_)
  rintro ⟨rc, P₁⟩ D B ⟨rfl, rfl, ⟨rfl, hexcl, ⟨state, hstate, rfl⟩, h₁⟩ | heq⟩
  · refine .bind ((h₁.writePages hmove hexcl hpList).imp ?_)
    rintro P₂ D₂ B ⟨rfl, h₂, ⟨dbFileVers, dbFileSize, rfl⟩, hnew, -⟩
    exact ⟨rfl, .inl ⟨rfl, hexcl, ⟨_, _, _, hstate, rfl⟩, h₂, hnew⟩⟩
  · obtain ⟨rfl, rfl⟩ := Prod.mk.inj heq
    exact ⟨rfl, .inr ⟨rfl, rfl⟩⟩

/-- A page that was written to the file is clean, and can be dropped. -/
theorem makeClean (h : Txn C B W D P J sealed tail)
    (hexcl : PagerState.EXCLUSIVE.num ≤ P.state.num) (hlookup : P.lookup p = some pg)
    (hdirty : pg.dirty = true) (hsync : pg.needSync = false)
    (hhas : p ≤ P.dbSize → HasPage C D.db.cur p pg.data) :
    Txn C B W D (P.makeClean p) J sealed tail := by
  have hok := h.caching.page p pg hlookup
  have hself : (P.makeClean p).lookup p = some { pg with dirty := false, needSync := false } :=
    Pager.lookup_mapPage_self (fun _ => rfl) hlookup
  have hall : (∀ pg ∈ P.cache, pg.dirty = false) → ∀ pg ∈ (P.makeClean p).cache,
      pg.dirty = false := by
    intro hall pg hpg
    obtain ⟨pg', hpg', rfl⟩ := List.mem_map.mp hpg
    split
    · rfl
    · exact hall pg' hpg'
  refine { h with
    caching := ?_
    reserved := ?_
    unmodified := ?_
    synced := ?_ }
  · refine Caching.update (p := p) h.caching (h.caching.unique.mapPage fun _ => rfl)
      (fun q hqp => ?_) (fun _ _ => Iff.rfl) id (fun _ _ hq => ⟨hq, rfl⟩) (fun _ _ _ => id)
      (fun pg' hpg' => ?_) fun hnone => ?_
    · exact Pager.lookup_mapPage_of_ne (fun _ => rfl) hqp
    · obtain rfl := Option.some.inj (hself.symm.trans hpg')
      refine ⟨hok.valid, hok.current, fun hused _ => ?_, hok.original, fun hdirty => ?_,
        fun hdirty => ?_, fun hneed => ?_, fun hmem hno => ?_⟩
      -- what the file has of the page is what the transaction has
      · rw [← hok.current hused]
        exact hhas (Nat.le_trans hused.2.1 h.size)
      · cases hdirty
      · cases hdirty
      · cases hneed
      -- a page that needs no sync is in a sealed segment
      · rcases hok.synced hdirty hsync with hmem' | ⟨hlt, -⟩
        · exact absurd hmem' hno
        · exact absurd (h.used_of_mem hmem).2.1 (Nat.not_le.mpr hlt)
    · rw [hself] at hnone
      cases hnone
  -- with the exclusive lock the pager is past the reserved one
  · intro hstate
    exact absurd hstate (not_reserved hexcl)
  · intro hmod
    obtain ⟨h1, h2, h3, h4⟩ := h.unmodified hmod
    exact ⟨h1, h2, h3, hall h4⟩
  · intro hstate
    obtain ⟨h1, h2⟩ := h.synced hstate
    exact ⟨h1, hall h2⟩

/-- **A dirty page** is written back to make room, after a sync of the journal when it waits for
    one. -/
theorem pagerStress (hmove : move B B) (hB : B.Valid C) (h : Txn C B W D P J sealed tail)
    (hlookup : P.lookup p = some pg) (hdirty : pg.dirty = true) :
    PagerSafe C move (pagerStress C P pg) (fun x D' B' => B' = B ∧ (x.1 = .OK ∨ x.1 = .BUSY) ∧
      SameTxn P x.2 ∧ (∀ q, (x.2.lookup q).isSome = (P.lookup q).isSome) ∧
      InTxn C B W D' x.2 tail.isSome) D B := by
  have hpgno := Pager.lookup_pgno hlookup
  subst hpgno
  have hok := h.caching.page _ pg hlookup
  -- with the journal synced, if it has to be
  have hwrite : ∀ {D₁ P₁ J₁ sealed₁ tail₁}, Txn C B W D₁ P₁ J₁ sealed₁ tail₁ → SameTxn P P₁ →
      (∀ q, (P₁.lookup q).isSome = (P.lookup q).isSome) → tail₁.isSome = tail.isSome →
      P₁.lookup pg.pgno = some { pg with needSync := false } →
      PagerSafe C move (do
        let written ← Rollback.pagerWritePagelist C P₁ [pg]
        if written.1 ≠ .OK then return written
        return (.OK, written.2.makeClean pg.pgno)) (fun x D' B' => B' = B ∧
          (x.1 = .OK ∨ x.1 = .BUSY) ∧ SameTxn P x.2 ∧
          (∀ q, (x.2.lookup q).isSome = (P.lookup q).isSome) ∧
          InTxn C B W D' x.2 tail.isSome) D₁ B := by
    intro D₁ P₁ J₁ sealed₁ tail₁ h₁ hsame hsome htail hlookup₁
    refine .bind ((h₁.pagerWritePagelist hmove (by simp) ?_).imp ?_)
    · intro pg' hpg'
      obtain rfl := List.mem_singleton.mp hpg'
      exact ⟨_, hlookup₁, rfl, hdirty, rfl⟩
    · rintro ⟨rc, P₂⟩ D₂ B ⟨rfl, ⟨rfl, hexcl, ⟨_, _, _, hstate, rfl⟩, h₂, hnew⟩ | ⟨rfl, heq⟩⟩
      · refine ⟨rfl, .inl rfl, ⟨hsame.dbSize, hsame.dbModified, hsame.changeCountDone,
          hsame.dbOrigSize, hsame.pInJournal, fun hne => ?_⟩, fun q => ?_,
          J₁, sealed₁, tail₁, htail, h₂.makeClean hexcl hlookup₁ hdirty rfl fun hle => ?_⟩
        · rcases hstate with rfl | rfl
          · exact hsame.unsynced hne
          · rintro ⟨⟩
        · rw [← hsome q]
          exact Pager.isSome_lookup_mapPage (f := fun pg =>
            { pg with dirty := false, needSync := false }) fun _ => rfl
        · exact hnew pg (List.mem_singleton_self _) hle
      · obtain ⟨rfl, rfl⟩ := Prod.mk.inj heq
        exact ⟨rfl, .inr rfl, hsame, hsome, J₁, sealed₁, tail₁, htail, h₁⟩
  unfold Rollback.pagerStress
  cases hsync : pg.needSync with
  | false =>
    rw [if_neg (by decide)]
    refine hwrite h ⟨rfl, rfl, rfl, rfl, rfl, id⟩ (fun _ => rfl) rfl ?_
    rw [hlookup, ← hsync]
  | true =>
    rw [if_pos rfl]
    refine .bind ((h.syncJournal hmove hB).imp ?_)
    rintro P₁ D₁ B ⟨rfl, ⟨hno, -⟩ | ⟨-, hP₁, -, J₁, seg, rfl, h₁⟩⟩
    · simp [(hok.needSync hsync).1] at hno
    have hlookup₁ : ∀ q,
        P₁.lookup q = (P.lookup q).map fun pg => { pg with needSync := false } := by
      intro q
      rw [hP₁]
      exact Pager.lookup_clearSyncFlags
    have hsame : SameTxn P P₁ := by
      rw [hP₁]
      exact ⟨rfl, rfl, rfl, rfl, rfl, id⟩
    refine .bind ((JournalEnd.writeJournalHdr (P := { P₁ with nRec := 0 }) hmove h₁.prot
      h₁.journal.toEnd h₁.orig).imp ?_)
    rintro P₂ D₂ B ⟨rfl, hdisk, J₂, cksumInit, journalHdr, journalOff, rfl, hprot, hjournal⟩
    refine hwrite (h₁.newHeader hdisk hprot hjournal)
      ⟨hsame.dbSize, hsame.dbModified, hsame.changeCountDone, hsame.dbOrigSize,
        hsame.pInJournal, hsame.unsynced⟩ (fun q => ?_) rfl ?_
    · exact (congrArg Option.isSome (hlookup₁ q)).trans Option.isSome_map
    · refine (hlookup₁ pg.pgno).trans ?_
      rw [hlookup]
      rfl

/-- A page is read into the cache, with the content that the file has. -/
theorem cons (h : Txn C B W D P J sealed tail) (hnone : P.lookup p = none) {data : List UInt8}
    (hvalid : (⟨p, data, false, false⟩ : PgHdr).Valid C) (hW : W.Used C p → data = W.page p)
    (hB : B.Used C p → p ∉ pagesOf (sealed ++ tail.toList) → data = B.page p)
    {dbFileVers : List UInt8} {mxPgno : Nat} :
    Txn C B W D { P with dbFileVers, mxPgno, cache := ⟨p, data, false, false⟩ :: P.cache } J sealed
      tail := by
  -- a page that is not cached is in the file as the transaction has it
  obtain ⟨habsent, hmem⟩ := h.caching.absent p hnone
  have hclean : (∀ pg ∈ P.cache, pg.dirty = false) →
      ∀ pg ∈ (⟨p, data, false, false⟩ : PgHdr) :: P.cache, pg.dirty = false := fun hall =>
    List.forall_mem_cons.mpr ⟨rfl, hall⟩
  have hlookup : ∀ q, Pager.lookup { P with
      dbFileVers, mxPgno, cache := ⟨p, data, false, false⟩ :: P.cache } q
        = if q = p then some ⟨p, data, false, false⟩ else P.lookup q := fun q =>
    Pager.lookup_cons ⟨p, data, false, false⟩ rfl
  refine { h with
    caching := ?_
    reserved := ?_
    unmodified := ?_
    synced := ?_ }
  · refine Caching.update (p := p) h.caching (h.caching.unique.cons rfl hnone) (fun q hqp => ?_)
      (fun _ _ => Iff.rfl) id (fun _ _ hq => ⟨hq, rfl⟩) (fun _ _ _ => id) (fun pg hpg => ?_)
      fun hno => ?_
    · rw [hlookup, if_neg hqp]
    · rw [hlookup, if_pos rfl] at hpg
      obtain rfl := Option.some.inj hpg
      refine ⟨hvalid, hW, fun hused _ => habsent hused, hB, ?_, ?_, ?_,
        fun hp hno => absurd (hmem hp) hno⟩
      · rintro ⟨⟩
      · rintro ⟨⟩
      · rintro ⟨⟩
    · rw [hlookup, if_pos rfl] at hno
      cases hno
  · intro hstate
    obtain ⟨h1, h2, h3⟩ := h.reserved hstate
    refine ⟨h1, h2, fun hmod => ?_⟩
    obtain ⟨pg, hpg, hdirty⟩ := h3 hmod
    exact ⟨pg, List.mem_cons_of_mem _ hpg, hdirty⟩
  · intro hmod
    obtain ⟨h1, h2, h3, h4⟩ := h.unmodified hmod
    exact ⟨h1, h2, h3, hclean h4⟩
  · intro hstate
    obtain ⟨h1, h2⟩ := h.synced hstate
    exact ⟨h1, hclean h2⟩

/-- The file has the pages of the image that are not in the journal for good. -/
theorem hasPage (h : Txn C B W D P J sealed tail) (hp : B.Used C p) (hno : p ∉ pagesOf sealed) :
    HasPage C D.db.cur p (B.page p) := h.prot.holds.1 p hp hno

end Txn

/-! ### Getting a page -/

namespace InTxn

variable {isOpen : Bool}

/-- Room is made in the cache, by writing a page back if need be. -/
theorem pcacheFetch (hmove : move B B) (hB : B.Valid C) (h : InTxn C B W D P isOpen) :
    PagerSafe C move (pcacheFetch C P) (fun x D' B' => B' = B ∧ x.1 = .OK ∧ SameTxn P x.2 ∧
      (∀ q, (x.2.lookup q).isSome = (P.lookup q).isSome) ∧ InTxn C B W D' x.2 isOpen) D B := by
  obtain ⟨J, sealed, tail, rfl, htxn⟩ := h
  have hsame : SameTxn P P := ⟨rfl, rfl, rfl, rfl, rfl, id⟩
  have hdone : InTxn C B W D P tail.isSome := ⟨J, sealed, tail, rfl, htxn⟩
  unfold Rollback.pcacheFetch
  refine .bind (safe_recycle hmove htxn.recoverable fun victim => ?_)
  cases victim with
  | none => exact ⟨rfl, rfl, hsame, fun _ => rfl, hdone⟩
  | some victim =>
    dsimp only
    split
    · exact ⟨rfl, rfl, hsame, fun _ => rfl, hdone⟩
    · next pg hlookup =>
      split
      · exact ⟨rfl, rfl, hsame, fun _ => rfl, hdone⟩
      · next hdirty =>
        refine .bind ((htxn.pagerStress hmove hB hlookup (by simpa using hdirty)).imp ?_)
        rintro ⟨rc, P₁⟩ D₁ B ⟨rfl, hrc, hsame₁, hsome, h₁⟩
        refine ⟨rfl, ?_, hsame₁, hsome, h₁⟩
        rcases hrc with rfl | rfl
        · rfl
        · rfl

/-- A page that was cut off is not read again before the next transaction, unless it is in the
    journal: the cache would have zeros for it, and the journal then, too. -/
def Readable (P : Pager) (p : Nat) : Prop :=
  p ≤ P.dbSize ∨ P.dbOrigSize < p ∨ P.pageInJournal p = true

/-- **Reading a page** in a transaction gives the page that it works on, or an error. -/
theorem acquire (hmove : move B B) (hB : B.Valid C) (h : InTxn C B W D P isOpen)
    (hp : Readable P p) :
    PagerSafe C move (sqlite3PagerAcquire C P p) (fun x D' B' => B' = B ∧ SameTxn P x.2 ∧
      InTxn C B W D' x.2 isOpen ∧ AcquireRc C P.dbSize p x.1 ∧
      (x.1 = .OK → (x.2.lookup p).isSome = true) ∧
      (p ≤ P.dbSize → 1 ≤ p → p ≤ 2147483647 → p ≠ C.mjPgno → x.1 = .OK)) D B := by
  unfold sqlite3PagerAcquire
  split
  · next hbad =>
    refine ⟨rfl, ⟨rfl, rfl, rfl, rfl, rfl, id⟩, h, .inr (.inr (.inr ⟨rfl, hbad⟩)), ?_,
      fun _ h1 h2 h3 => ?_⟩
    · rintro ⟨⟩
    · omega
  next hgood =>
  obtain ⟨hmax, hzero, hmj⟩ : ¬2147483647 < p ∧ ¬p = 0 ∧ ¬p = C.mjPgno := by
    simpa [not_or] using hgood
  -- the lock is there already
  refine .bind (Safe.imp (Q := fun x D' B' => D' = D ∧ B' = B ∧ x = (.OK, P)) ?_ ?_)
  · obtain ⟨J, sealed, tail, -, htxn⟩ := h
    unfold pagerSharedLock
    rw [if_pos (ne_unlock htxn.state)]
    exact ⟨rfl, rfl, rfl⟩
  rintro x D B ⟨rfl, rfl, rfl⟩
  dsimp -zeta only
  rw [if_neg (fun hne => hne rfl)]
  split
  · next hsome =>
    exact ⟨rfl, ⟨rfl, rfl, rfl, rfl, rfl, id⟩, h, .inl rfl, fun _ => hsome, fun _ _ _ _ => rfl⟩
  next hnone =>
  refine .bind ((h.pcacheFetch hmove hB).imp ?_)
  rintro ⟨rc, P₁⟩ D₁ B ⟨rfl, rfl, hsame, hsome, J, sealed, tail, rfl, htxn⟩
  dsimp -zeta only at hsame hsome htxn ⊢
  rw [if_neg (fun hne => hne rfl)]
  have hnone₁ : P₁.lookup p = none := by
    rw [← Option.isNone_iff_eq_none, ← Option.not_isSome, hsome p]
    simpa using hnone
  have hform : ∀ data : List UInt8, data.length = C.pageSize →
      (⟨p, data, false, false⟩ : PgHdr).Valid C := fun data hlen =>
    ⟨Nat.pos_of_ne_zero hzero, Nat.not_lt.mp hmax, hmj, hlen⟩
  refine .bind ((safe_pagecount hmove htxn.recoverable (ne_unlock htxn.state)).imp ?_)
  rintro x D₁ B ⟨rfl, rfl, mxPgno, ⟨-, rfl⟩ | ⟨hno, -⟩⟩
  swap
  · simp [htxn.sizeValid] at hno
  dsimp -zeta only
  have hsame' : SameTxn P { P₁ with mxPgno } :=
    ⟨hsame.dbSize, hsame.dbModified, hsame.changeCountDone, hsame.dbOrigSize, hsame.pInJournal,
      hsame.unsynced⟩
  have hfound : ∀ data (P' : Pager), P'.cache = ⟨p, data, false, false⟩ :: P₁.cache →
      (P'.lookup p).isSome = true := by
    intro data P' hcache
    rw [Pager.lookup_cons _ hcache, if_pos rfl]
    rfl
  split
  · -- a page behind the end has zeros
    next hlt =>
    rw [hsame.dbSize] at hlt
    split
    · next hmx =>
      refine ⟨rfl, hsame', ⟨J, sealed, tail, rfl,
        { htxn with caching := htxn.caching.congr rfl rfl }⟩, .inr (.inr (.inl ⟨rfl, hlt⟩)),
        ?_, fun hle => absurd hle (Nat.not_le.mpr hlt)⟩
      rintro ⟨⟩
    · refine ⟨rfl, ?_, ⟨J, sealed, tail, rfl, htxn.cons hnone₁ (hform _ List.length_replicate)
        (fun hused => ?_) fun hused hno => ?_⟩, .inl rfl, fun _ => hfound _ _ rfl,
        fun hle => absurd hle (Nat.not_le.mpr hlt)⟩
      · exact ⟨hsame.dbSize, hsame.dbModified, hsame.changeCountDone, hsame.dbOrigSize,
        hsame.pInJournal, hsame.unsynced⟩
      · have hle := htxn.size
        rw [hsame.dbSize] at hle
        exact absurd hused.2.1 (by omega)
      · -- it is none that was cut off, or that one is in the journal
        exfalso
        rcases hp with hle | horig | hmem
        · omega
        · rw [← hsame.dbOrigSize, htxn.orig] at horig
          exact absurd hused.2.1 (Nat.not_le.mpr horig)
        · unfold Pager.pageInJournal at hmem
          rw [← hsame.pInJournal] at hmem
          exact hno (htxn.pageInJournal.mp hmem)
  · -- what is in the file is the page, when it is not in the cache
    refine .bind (safe_read hmove htxn.recoverable ?_)
    refine ⟨rfl, ?_, ⟨J, sealed, tail, rfl, htxn.cons hnone₁ (hform _ (Content.length_read ..))
      (fun hused => ?_) fun hused hno => ?_⟩, .inl rfl, fun _ => hfound _ _ rfl, fun _ _ _ _ => rfl⟩
    · exact ⟨hsame.dbSize, hsame.dbModified, hsame.changeCountDone, hsame.dbOrigSize,
        hsame.pInJournal, hsame.unsynced⟩
    · exact ((htxn.caching.absent p hnone₁).1 hused).2
    · exact (htxn.hasPage hused fun hmem => hno (mem_pagesOf_left hmem)).2

end InTxn

end Ecos.Sqlite.Rollback
